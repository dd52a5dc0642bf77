import ClassWeaver.Proofs.Fragment.Layout

set_option autoImplicit false

/-!
What calls leave under a key. Main statement: the texts under a key depend on the calls with that key
only, and what one call leaves there is the text before it, the text merged into that one, the new
text, or nothing.
-/

namespace ClassWeaver.Fragment

theorem Key.isIndexed_of_isMember {key : Key} (member : key.isMember = true) :
    key.isIndexed = true := by
  cases key <;> first | rfl | cases member

theorem Key.ne_gap_of_isIndexed {key : Key} (indexed : key.isIndexed = true) : key ≠ .gap := by
  rintro rfl
  cases indexed

/-- What a call makes of the texts under its key. Only the first of them is found. -/
def Upsert.settle (call : Upsert) : List String → List String
  | [] => if call.remove then [] else [call.text]
  | old :: rest =>
    if isProtected ⟨call.key, old⟩ then old :: rest
    else if call.remove then rest
    else mergeText call.key old call.text :: rest

namespace Store

/-- The texts under a key in their order. -/
def textsAt (store : Store) (key : Key) : List String :=
  (store.fragments.filter (·.key == key)).map (·.text)

variable {store : Store} {key : Key}

private theorem cut?_filter (key : Key) (fragments : List Fragment) :
    (cut? key fragments).map (·.2.1) = (fragments.filter (·.key == key)).head? := by
  induction fragments with
  | nil => rfl
  | cons fragment rest ih =>
    rw [cut?]
    by_cases same : fragment.key = key
    · rw [if_pos same, List.filter_cons_of_pos (by simpa using same)]
      rfl
    · rw [if_neg same, List.filter_cons_of_neg (by simpa using same), ← ih, Option.map_map]
      rfl

theorem textsAt_empty (indexed : key.isIndexed = true) : empty.textsAt key = [] := by
  have other : (Key.start == key) = false := by
    rw [beq_eq_false_iff_ne]
    rintro rfl
    cases indexed
  simp [textsAt, empty, other]

theorem text_get? (indexed : key.isIndexed = true) :
    (store.get? key).map (·.text) = (store.textsAt key).head? := by
  rw [get?, find?, if_pos indexed, cut?_filter, textsAt, List.head?_map]

theorem get?_eq_some {text : String} {rest : List String} (indexed : key.isIndexed = true)
    (there : store.textsAt key = text :: rest) : store.get? key = some ⟨key, text⟩ := by
  have first := @text_get? store key indexed
  rw [there, List.head?_cons] at first
  obtain ⟨found, here, rfl⟩ := Option.map_eq_some_iff.mp first
  obtain ⟨⟨before, hit, after⟩, cut, rfl⟩ := Option.map_eq_some_iff.mp here
  rw [here, ← (find?_eq_some cut).2]

theorem get?_eq_none (indexed : key.isIndexed = true) (missing : store.textsAt key = []) :
    store.get? key = none := by
  have first := @text_get? store key indexed
  rw [missing] at first
  exact Option.map_eq_none_iff.mp first

theorem find?_eq_none (indexed : key.isIndexed = true) (missing : store.find? key = none) :
    store.textsAt key = [] := by
  have first := @text_get? store key indexed
  rw [get?, missing] at first
  exact List.head?_eq_none_iff.mp first.symm

theorem textsAt_eq_nil_iff :
    store.textsAt key = [] ↔ ∀ fragment ∈ store.fragments, fragment.key ≠ key := by
  simp [textsAt]

theorem get?_eq_none_iff (indexed : key.isIndexed = true) :
    store.get? key = none ↔ ∀ fragment ∈ store.fragments, fragment.key ≠ key := by
  rw [← textsAt_eq_nil_iff]
  refine ⟨fun missing => ?_, get?_eq_none indexed⟩
  exact find?_eq_none indexed (Option.map_eq_none_iff.mp missing)

theorem exists_insert (store : Store) (fragment : Fragment) (blank : Nat) :
    ∃ front back pieces, store.fragments = front ++ back ∧
      (store.insert fragment blank).fragments = front ++ pieces ++ back ∧
      (pieces = [fragment, blankLines blank] ∨ pieces = [blankLines blank, fragment]) := by
  rw [insert]
  split
  · split
    · next before found after cut =>
      have whole := (find?_eq_some cut).1
      cases before using List.reverseRecOn with
      | nil => exact ⟨[], found :: after, _, whole, rfl, .inr rfl⟩
      | append_singleton front last _ =>
        refine ⟨front, last :: found :: after, _, ?_, ?_, .inr rfl⟩
        · rw [whole, List.append_assoc, List.singleton_append]
        · rw [List.dropLast_concat, List.getLast?_concat, Option.toList_some, List.append_assoc,
            List.append_assoc, List.append_assoc]
          rfl
    · exact ⟨store.fragments, [], _, by simp, by simp, .inl rfl⟩
  · split
    · next before found after cut =>
      have whole : store.fragments = before ++ found :: after := by
        split at cut
        · exact (find?_eq_some cut).1
        · cases cut
      exact ⟨before, found :: after, _, whole, rfl, .inl rfl⟩
    · exact ⟨store.fragments, [], _, by simp, by simp, .inl rfl⟩

private theorem key_blankLines_ne (indexed : key.isIndexed = true) (blank : Nat) :
    ((blankLines blank).key == key) = false := by
  rw [beq_eq_false_iff_ne]
  rintro rfl
  cases indexed

private theorem textsAt_dropLastGap (indexed : key.isIndexed = true)
    (fragments rest : List Fragment) :
    textsAt ⟨dropLastGap fragments ++ rest⟩ key = textsAt ⟨fragments ++ rest⟩ key := by
  have other (fragment : Fragment) (gap : fragment.key = .gap) : (fragment.key == key) = false := by
    rw [beq_eq_false_iff_ne, gap]
    rintro rfl
    cases indexed
  rw [textsAt, textsAt, List.filter_append, List.filter_append, filter_dropLastGap other]

private theorem textsAt_insert_of_ne (indexed : key.isIndexed = true) {fragment : Fragment}
    (other : fragment.key ≠ key) (blank : Nat) :
    (store.insert fragment blank).textsAt key = store.textsAt key := by
  have gap := key_blankLines_ne indexed blank
  obtain ⟨front, back, pieces, before, after, rfl | rfl⟩ := exists_insert store fragment blank <;>
    simp [textsAt, before, after, gap, other]

private theorem textsAt_insert_self (indexed : key.isIndexed = true) {fragment : Fragment}
    (same : fragment.key = key) (fresh : store.textsAt key = []) (blank : Nat) :
    (store.insert fragment blank).textsAt key = [fragment.text] := by
  have gap := key_blankLines_ne indexed blank
  obtain ⟨front, back, pieces, before, after, rfl | rfl⟩ := exists_insert store fragment blank <;>
    (rw [textsAt, before, List.filter_append, List.map_append, List.append_eq_nil_iff] at fresh
     simp [textsAt, after, gap, same, List.map_eq_nil_iff.mp fresh.1, List.map_eq_nil_iff.mp fresh.2])

private theorem forall_ne_of_cut? {fragments before after : List Fragment} {found : Fragment}
    (cut : cut? key fragments = some (before, found, after)) :
    ∀ fragment ∈ before, fragment.key ≠ key := by
  induction fragments generalizing before with
  | nil => cases cut
  | cons first rest ih =>
    rw [cut?] at cut
    split at cut
    · cases cut
      exact fun _ inside => by cases inside
    · next other =>
      obtain ⟨⟨front, hit, back⟩, inner, same⟩ := Option.map_eq_some_iff.mp cut
      obtain ⟨rfl, rfl, rfl⟩ := Prod.mk.inj same |>.imp_right Prod.mk.inj
      intro fragment inside
      rcases List.mem_cons.mp inside with rfl | later
      · exact other
      · exact ih inner fragment later

theorem find?_eq_some_iff {before after : List Fragment} {found : Fragment} :
    store.find? key = some (before, found, after) ↔
      key.isIndexed = true ∧ store.fragments = before ++ found :: after ∧ found.key = key ∧
        ∀ fragment ∈ before, fragment.key ≠ key := by
  constructor
  · intro cut
    obtain ⟨whole, same⟩ := find?_eq_some cut
    rw [find?] at cut
    split at cut
    · next indexed => exact ⟨indexed, whole, same, forall_ne_of_cut? cut⟩
    · cases cut
  · rintro ⟨indexed, whole, same, unseen⟩
    rw [find?, if_pos indexed, whole]
    exact cut?_append_cons unseen same

private theorem exists_found {called : Key} {before after : List Fragment} {found : Fragment}
    (cut : store.find? called = some (before, found, after)) :
    store.fragments = before ++ found :: after ∧ found.key = called ∧
      before.filter (·.key == called) = [] := by
  obtain ⟨-, whole, same, unseen⟩ := find?_eq_some_iff.mp cut
  refine ⟨whole, same, List.filter_eq_nil_iff.mpr fun fragment inside => ?_⟩
  simpa using unseen fragment inside

/-- A call does to the texts under its key what it says, and nothing to those under other keys. -/
theorem textsAt_upsert (indexed : key.isIndexed = true) (store : Store) (call : Upsert) :
    (store.upsert call.key call.text call.blank call.remove).2.textsAt key =
      if call.key = key then call.settle (store.textsAt key) else store.textsAt key := by
  rw [upsert]
  cases cut : store.find? call.key with
  | none =>
    dsimp only
    by_cases same : call.key = key
    · have fresh := find?_eq_none indexed (same ▸ cut)
      rw [if_pos same, fresh, Upsert.settle]
      by_cases remove : call.remove = true
      · rw [if_pos remove, if_pos remove, fresh]
      · rw [if_neg remove, if_neg remove, textsAt_insert_self indexed same fresh]
    · rw [if_neg same]
      split
      · rfl
      · exact textsAt_insert_of_ne indexed same _
  | some parts =>
    obtain ⟨before, found, after⟩ := parts
    obtain ⟨whole, named, alone⟩ := exists_found cut
    dsimp only
    by_cases same : call.key = key
    · subst same
      have there : store.textsAt call.key = found.text :: textsAt ⟨after⟩ call.key := by
        simp [textsAt, whole, alone, named]
      have kept : (Fragment.mk call.key found.text).isProtected = found.isProtected := rfl
      rw [if_pos rfl, there, Upsert.settle, kept]
      split
      · exact there
      · split
        · rw [textsAt_dropLastGap indexed]
          simp [textsAt, alone]
        · simp [textsAt, alone]
    · have other : (found.key == key) = false := by
        rw [beq_eq_false_iff_ne, named]
        exact same
      have there : store.textsAt key = textsAt ⟨before ++ after⟩ key := by
        simp [textsAt, whole, other]
      rw [if_neg same, there]
      split
      · exact there
      · split
        · exact textsAt_dropLastGap indexed before after
        · simp [textsAt, beq_false_of_ne same]

theorem textsAt_upsertAll (indexed : key.isIndexed = true) (store : Store) (calls : List Upsert) :
    (store.upsertAll calls).textsAt key =
      (calls.filter (·.key == key)).foldl (fun texts call => call.settle texts)
        (store.textsAt key) := by
  induction calls generalizing store with
  | nil => rfl
  | cons call rest ih =>
    rw [upsertAll, ih, textsAt_upsert indexed]
    by_cases same : call.key = key
    · rw [if_pos same, List.filter_cons_of_pos (by simpa using same), List.foldl_cons]
    · rw [if_neg same, List.filter_cons_of_neg (by simpa using same)]

theorem get?_upsertAll (indexed : key.isIndexed = true) {calls : List Upsert} {call : Upsert}
    (fresh : store.textsAt key = []) (alone : calls.filter (·.key == key) = [call])
    (stays : call.remove = false) : (store.upsertAll calls).get? key = some ⟨key, call.text⟩ := by
  have there := textsAt_upsertAll indexed store calls
  rw [alone, fresh, List.foldl_cons, List.foldl_nil, Upsert.settle, stays] at there
  exact get?_eq_some indexed there

private theorem settle_ne_nil {call : Upsert} (stays : call.remove = false) (texts : List String) :
    call.settle texts ≠ [] := by
  cases texts with
  | nil => simp [Upsert.settle, stays]
  | cons old rest =>
    rw [Upsert.settle, stays]
    split <;> simp

private theorem foldl_settle_ne_nil {calls : List Upsert}
    (stay : ∀ call ∈ calls, call.remove = false) {texts : List String} (there : texts ≠ []) :
    calls.foldl (fun texts call => call.settle texts) texts ≠ [] := by
  induction calls generalizing texts with
  | nil => exact there
  | cons call rest ih =>
    exact ih (fun other inside => stay other (List.mem_cons_of_mem call inside))
      (settle_ne_nil (stay call List.mem_cons_self) texts)

theorem isSome_get?_upsertAll (indexed : key.isIndexed = true) (store : Store)
    {calls : List Upsert} (brought : ∃ call ∈ calls, call.key = key)
    (stay : ∀ call ∈ calls, call.key = key → call.remove = false) :
    ((store.upsertAll calls).get? key).isSome = true := by
  obtain ⟨call, inside, same⟩ := brought
  have there := textsAt_upsertAll indexed store calls
  have found : call ∈ calls.filter (·.key == key) := List.mem_filter.mpr ⟨inside, by simpa using same⟩
  have kept : ∀ other ∈ calls.filter (·.key == key), other.remove = false := fun other its =>
    stay other (List.mem_filter.mp its).1 (by simpa using (List.mem_filter.mp its).2)
  cases listed : calls.filter (·.key == key) with
  | nil => rw [listed] at found; cases found
  | cons first rest =>
    rw [listed, List.forall_mem_cons] at kept
    have left := foldl_settle_ne_nil kept.2 (settle_ne_nil kept.1 (store.textsAt key))
    rw [listed, List.foldl_cons] at there
    rw [← there] at left
    obtain ⟨text, texts, whole⟩ := List.exists_cons_of_ne_nil left
    rw [get?_eq_some indexed whole]
    rfl

end Store

end ClassWeaver.Fragment
