import ClassWeaver.Proofs.Fragment.Lookup
import Mathlib.Data.List.Chain

set_option autoImplicit false

/-!
Changes and removals in a store. Main statement: where no two gaps stand side by side, calls with
different keys of which none inserts anything leave the same store in every order, and again no two gaps
side by side.
-/

namespace ClassWeaver.Fragment

/-- What a call leaves of the fragments up to the one that it finds behind `before`. -/
def Upsert.front (call : Upsert) (before : List Fragment) (found : Fragment) : List Fragment :=
  if found.isProtected then before ++ [found]
  else if call.remove then Store.dropLastGap before
  else before ++ [⟨call.key, mergeText call.key found.text call.text⟩]

/-- Says that a call inserts nothing: it removes, or it finds a fragment. -/
def Upsert.InsertsNothing (call : Upsert) (store : Store) : Prop :=
  call.remove = true ∨ (store.get? call.key).isSome = true

/-- Says that no two gaps stand side by side. -/
def GapsApart (fragments : List Fragment) : Prop :=
  fragments.IsChain fun first second => first.key = .gap → second.key ≠ .gap

def EndsSolid (fragments : List Fragment) : Prop :=
  ∀ last ∈ fragments.getLast?, last.key ≠ .gap

theorem endsSolid_concat {front : List Fragment} {last : Fragment} (solid : last.key ≠ .gap) :
    EndsSolid (front ++ [last]) := by
  intro other found
  rw [List.getLast?_concat, Option.mem_some] at found
  exact found ▸ solid

theorem GapsApart.append {front back : List Fragment} (before : GapsApart front)
    (after : GapsApart back) (solid : EndsSolid front) : GapsApart (front ++ back) := by
  refine List.isChain_append.mpr ⟨before, after, ?_⟩
  intro last found next _ gap
  exact absurd gap (solid last found)

theorem GapsApart.of_map_key {fragments others : List Fragment} (apart : GapsApart fragments)
    (same : others.map (·.key) = fragments.map (·.key)) : GapsApart others := by
  have keys : (fragments.map (·.key)).IsChain fun first second => first = .gap → second ≠ .gap :=
    (List.isChain_map _).mpr apart
  rw [← same] at keys
  exact (List.isChain_map _).mp keys

namespace Store

variable {store : Store} {call first second : Upsert} {before after front back : List Fragment}
  {found : Fragment}

theorem dropLastGap_of_endsSolid (solid : EndsSolid front) : dropLastGap front = front := by
  rw [dropLastGap, if_neg]
  intro gap
  obtain ⟨last, ends, same⟩ := (Option.any_eq_true _ _).mp gap
  exact solid last ends (eq_of_beq same)

theorem endsSolid_dropLastGap (apart : GapsApart before) : EndsSolid (dropLastGap before) := by
  cases before using List.reverseRecOn with
  | nil => exact fun _ found => nomatch found
  | append_singleton front last _ =>
    by_cases gap : last.key = .gap
    · have dropped : dropLastGap (front ++ [last]) = front := by simp [dropLastGap, gap]
      rw [dropped]
      intro other ends same
      exact (List.isChain_append.mp apart).2.2 other ends last rfl same gap
    · rw [dropLastGap_of_endsSolid (endsSolid_concat gap)]
      exact endsSolid_concat gap

theorem dropLastGap_append (solid : EndsSolid front) :
    dropLastGap (front ++ before) = front ++ dropLastGap before := by
  cases before using List.reverseRecOn with
  | nil => rw [List.append_nil, dropLastGap_of_endsSolid solid]; simp [dropLastGap]
  | append_singleton rest last _ =>
    rw [← List.append_assoc]
    by_cases gap : last.key = .gap
    · simp [dropLastGap, gap]
    · rw [dropLastGap_of_endsSolid (endsSolid_concat gap),
        dropLastGap_of_endsSolid (endsSolid_concat gap), List.append_assoc]

theorem front_append (solid : EndsSolid front) :
    call.front (front ++ before) found = front ++ call.front before found := by
  unfold Upsert.front
  split
  · rw [List.append_assoc]
  · split
    · exact dropLastGap_append solid
    · rw [List.append_assoc]

theorem endsSolid_front (apart : GapsApart before) (solid : call.key ≠ .gap)
    (same : found.key = call.key) : EndsSolid (call.front before found) := by
  unfold Upsert.front
  split
  · exact endsSolid_concat (same ▸ solid)
  · split
    · exact endsSolid_dropLastGap apart
    · exact endsSolid_concat solid

theorem gapsApart_front (apart : GapsApart (before ++ [found])) (same : found.key = call.key) :
    GapsApart (call.front before found) := by
  unfold Upsert.front
  split
  · exact apart
  · split
    · have shorter : dropLastGap before <+: before ++ [found] := by
        unfold dropLastGap
        split
        · exact (List.dropLast_prefix before).trans (List.prefix_append before [found])
        · exact List.prefix_append before [found]
      exact List.IsChain.prefix apart shorter
    · exact apart.of_map_key (by simp [same])

theorem mem_front {fragment : Fragment} (inside : fragment ∈ call.front before found)
    (same : found.key = call.key) : fragment ∈ before ∨ fragment.key = call.key := by
  unfold Upsert.front at inside
  split at inside
  · rcases List.mem_append.mp inside with old | last
    · exact .inl old
    · exact .inr (List.mem_singleton.mp last ▸ same)
  · split at inside
    · unfold dropLastGap at inside
      split at inside
      · exact .inl (List.dropLast_subset before inside)
      · exact .inl inside
    · rcases List.mem_append.mp inside with old | last
      · exact .inl old
      · exact .inr (congrArg Fragment.key (List.mem_singleton.mp last))

theorem upsert_of_found (cut : store.find? call.key = some (before, found, after)) :
    (store.upsert call.key call.text call.blank call.remove).2 =
      ⟨call.front before found ++ after⟩ := by
  obtain ⟨fragments⟩ := store
  have whole : fragments = before ++ found :: after := (find?_eq_some cut).1
  rw [upsert, cut, Upsert.front]
  dsimp only
  split
  · rw [whole, List.append_assoc, List.singleton_append]
  · split
    · rfl
    · rw [List.append_assoc, List.singleton_append]

theorem upsert_of_missing (missing : store.find? call.key = none) (remove : call.remove = true) :
    (store.upsert call.key call.text call.blank call.remove).2 = store := by
  rw [upsert, missing, remove]
  rfl

theorem get?_upsert_of_ne (other : first.key ≠ second.key) :
    ((store.upsert first.key first.text first.blank first.remove).2.get? second.key).map (·.text) =
      (store.get? second.key).map (·.text) := by
  by_cases indexed : second.key.isIndexed = true
  · rw [text_get? indexed, text_get? indexed, textsAt_upsert indexed, if_neg other]
  · rw [get?, get?, find?, find?, if_neg indexed, if_neg indexed]

theorem find?_upsert_eq_none (other : first.key ≠ second.key)
    (missing : store.find? second.key = none) :
    (store.upsert first.key first.text first.blank first.remove).2.find? second.key = none := by
  have texts := @get?_upsert_of_ne store first second other
  have nothing : store.get? second.key = none := by rw [get?, missing, Option.map_none]
  rw [nothing, Option.map_none, Option.map_eq_none_iff, get?, Option.map_eq_none_iff] at texts
  exact texts

theorem insertsNothing_upsert (other : first.key ≠ second.key)
    (settled : second.InsertsNothing store) :
    second.InsertsNothing (store.upsert first.key first.text first.blank first.remove).2 := by
  refine settled.imp_right fun there => ?_
  have texts := congrArg Option.isSome (@get?_upsert_of_ne store first second other)
  rwa [Option.isSome_map, Option.isSome_map, there] at texts

theorem gapsApart_upsert (apart : GapsApart store.fragments) (settled : call.InsertsNothing store) :
    GapsApart (store.upsert call.key call.text call.blank call.remove).2.fragments := by
  cases cut : store.find? call.key with
  | none =>
    rcases settled with remove | there
    · rwa [upsert_of_missing cut remove]
    · rw [get?, cut] at there
      cases there
  | some parts =>
    obtain ⟨before, found, after⟩ := parts
    obtain ⟨indexed, whole, same, -⟩ := find?_eq_some_iff.mp cut
    rw [whole, List.append_cons] at apart
    have solid : call.key ≠ .gap := Key.ne_gap_of_isIndexed indexed
    have front := List.isChain_append.mp apart
    rw [upsert_of_found cut]
    exact (gapsApart_front front.1 same).append front.2.1
      (endsSolid_front (List.isChain_append.mp front.1).1 solid same)

private theorem upsert_comm_of_behind {between : List Fragment} {hit : Fragment}
    (apart : GapsApart store.fragments) (different : first.key ≠ second.key)
    (here : store.find? first.key = some (before, found, between ++ hit :: after))
    (there : store.find? second.key = some (before ++ found :: between, hit, after)) :
    store.upsertAll [first, second] = store.upsertAll [second, first] := by
  obtain ⟨indexed, whole, same, unseen⟩ := find?_eq_some_iff.mp here
  obtain ⟨indexed', -, same', unseen'⟩ := find?_eq_some_iff.mp there
  have solid : found.key ≠ .gap := same ▸ Key.ne_gap_of_isIndexed indexed
  have early : GapsApart before := (List.isChain_append.mp (whole ▸ apart)).1
  have settled : EndsSolid (first.front before found) :=
    endsSolid_front early (Key.ne_gap_of_isIndexed indexed) same
  have later : find? ⟨first.front before found ++ (between ++ hit :: after)⟩ second.key =
      some (first.front before found ++ between, hit, after) := by
    refine find?_eq_some_iff.mpr ⟨indexed', by simp, same', ?_⟩
    intro fragment inside
    rcases List.mem_append.mp inside with inFront | inBetween
    · rcases mem_front inFront same with old | changed
      · exact unseen' fragment (List.mem_append_left _ old)
      · exact changed ▸ different
    · exact unseen' fragment (by simp [inBetween])
  have unmoved : second.front (before ++ found :: between) hit =
      before ++ found :: second.front between hit := by
    rw [List.append_cons, front_append (endsSolid_concat solid), ← List.append_cons]
  have earlier : find? ⟨second.front (before ++ found :: between) hit ++ after⟩ first.key =
      some (before, found, second.front between hit ++ after) :=
    find?_eq_some_iff.mpr ⟨indexed, by simp [unmoved], same, unseen⟩
  calc store.upsertAll [first, second]
    _ = ⟨second.front (first.front before found ++ between) hit ++ after⟩ := by
        rw [upsertAll, upsertAll, upsertAll, upsert_of_found here, upsert_of_found later]
    _ = ⟨first.front before found ++ (second.front between hit ++ after)⟩ := by
        rw [front_append settled, List.append_assoc]
    _ = store.upsertAll [second, first] := by
        rw [upsertAll, upsertAll, upsertAll, upsert_of_found there, upsert_of_found earlier]

theorem upsert_comm (apart : GapsApart store.fragments) (different : first.key ≠ second.key)
    (settled : first.InsertsNothing store) (settled' : second.InsertsNothing store) :
    store.upsertAll [first, second] = store.upsertAll [second, first] := by
  have idle {one other : Upsert} (nothing : one.InsertsNothing store) (apart : other.key ≠ one.key)
      (missing : store.find? one.key = none) :
      store.upsertAll [one, other] = store.upsertAll [other, one] := by
    have remove : one.remove = true := by
      refine nothing.resolve_right fun there => ?_
      rw [get?, missing] at there
      cases there
    rw [upsertAll, upsertAll, upsertAll, upsertAll, upsertAll, upsertAll,
      upsert_of_missing missing remove,
      upsert_of_missing (find?_upsert_eq_none apart missing) remove]
  cases here : store.find? first.key with
  | none => exact idle settled different.symm here
  | some parts =>
    cases there : store.find? second.key with
    | none => exact (idle settled' different there).symm
    | some parts' =>
      obtain ⟨before, found, after⟩ := parts
      obtain ⟨before', hit, after'⟩ := parts'
      obtain ⟨-, whole, same, -⟩ := find?_eq_some_iff.mp here
      obtain ⟨-, whole', same', -⟩ := find?_eq_some_iff.mp there
      have other : found ≠ hit := by
        rintro rfl
        exact different (same.symm.trans same')
      rw [whole] at whole'
      rcases List.append_eq_append_iff.mp whole' with ⟨rest, rfl, tail⟩ | ⟨rest, rfl, tail⟩
      · cases rest with
        | nil => exact absurd (List.cons.inj tail).1 other
        | cons between rest =>
          obtain ⟨rfl, rfl⟩ := List.cons.inj tail
          exact upsert_comm_of_behind apart different here there
      · cases rest with
        | nil => exact absurd (List.cons.inj tail).1 other.symm
        | cons between rest =>
          obtain ⟨rfl, rfl⟩ := List.cons.inj tail
          exact (upsert_comm_of_behind apart different.symm there here).symm

theorem gapsApart_upsertAll {calls : List Upsert} (apart : GapsApart store.fragments)
    (different : (calls.map (·.key)).Nodup) (settled : ∀ call ∈ calls, call.InsertsNothing store) :
    GapsApart (store.upsertAll calls).fragments := by
  induction calls generalizing store with
  | nil => exact apart
  | cons call rest ih =>
    obtain ⟨here, later⟩ := List.forall_mem_cons.mp settled
    obtain ⟨unused, others⟩ := List.nodup_cons.mp different
    refine ih (gapsApart_upsert apart here) others fun other found => ?_
    have unlike : call.key ≠ other.key := fun same =>
      unused (List.mem_map.mpr ⟨other, found, same.symm⟩)
    exact insertsNothing_upsert unlike (later other found)

/-- Changes and removals commute. In a store without two gaps side by side, calls with different keys
that find their fragments or remove leave the same fragments in every order, and again no two gaps side
by side. -/
theorem upsertAll_perm {calls others : List Upsert} (apart : GapsApart store.fragments)
    (reordered : calls.Perm others) (different : (calls.map (·.key)).Nodup)
    (settled : ∀ call ∈ calls, call.InsertsNothing store) :
    store.upsertAll calls = store.upsertAll others ∧
      GapsApart (store.upsertAll calls).fragments := by
  refine ⟨?_, gapsApart_upsertAll apart different settled⟩
  induction reordered generalizing store with
  | nil => rfl
  | cons call _ ih =>
    obtain ⟨here, later⟩ := List.forall_mem_cons.mp settled
    obtain ⟨unused, rest⟩ := List.nodup_cons.mp different
    refine ih (gapsApart_upsert apart here) rest fun other found => ?_
    have unlike : call.key ≠ other.key := fun same =>
      unused (List.mem_map.mpr ⟨other, found, same.symm⟩)
    exact insertsNothing_upsert unlike (later other found)
  | swap second first rest =>
    have unlike : first.key ≠ second.key := fun same =>
      (List.nodup_cons.mp different).1 (List.mem_map.mpr ⟨second, List.mem_cons_self, same.symm⟩)
    have swapped := upsert_comm apart unlike (settled first List.mem_cons_self)
      (settled second (List.mem_cons_of_mem first List.mem_cons_self))
    exact congrArg (upsertAll · rest) swapped
  | trans one other ih ih' =>
    have middle := one.symm
    refine (ih apart different settled).trans (ih' apart ?_ ?_)
    · exact (middle.map (·.key)).nodup_iff.mpr different
    · exact fun call found => settled call (middle.subset found)

/-- Two removals of which one shifts the other, and a change of the member behind them. -/
theorem upsertAll_two_removals :
    let store : Store := ⟨[⟨.classDecl, "class A \x7b"⟩, ⟨.gap, "\n"⟩, ⟨.attributeOf "x", "int x = 1;"⟩,
      ⟨.methodOf "f()", "void f();"⟩, ⟨.gap, "\n\n"⟩, ⟨.methodOf "g()", "void g();"⟩,
      ⟨.classEnd, "\x7d"⟩]⟩
    let calls : List Upsert := [⟨.methodOf "f()", "", 2, true⟩, ⟨.attributeOf "x", "", 2, true⟩,
      ⟨.methodOf "g()", "int g();", 2, false⟩]
    store.upsertAll calls = store.upsertAll calls.reverse ∧
      GapsApart (store.upsertAll calls).fragments := by
  intro store calls
  refine upsertAll_perm ?_ calls.reverse_perm.symm (by decide) ?_
  · simp [store, GapsApart]
  · have there : (store.get? (.methodOf "g()")).isSome = true := by decide
    simp [calls, Upsert.InsertsNothing, there]

end Store

end ClassWeaver.Fragment
