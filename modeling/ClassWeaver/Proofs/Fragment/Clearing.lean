import ClassWeaver.Proofs.Fragment.Arrangement

set_option autoImplicit false

/-!
Members that calls bring into a store and other calls take out again. Main statements: if the first calls
find none of their members there and bring in no marked text, and the other ones remove the same members,
then everything that has neither their keys nor is a gap stays as it is; a file in which everything is at
its place and nothing but its front and its declarations is left has no body.
-/

namespace ClassWeaver.Fragment

theorem isProtected_mergeText {key : Key} {old new : String} (member : key.isMember = true)
    (before : isProtected ⟨key, old⟩ = false) (after : isProtected ⟨key, new⟩ = false) :
    isProtected ⟨key, mergeText key old new⟩ = false := by
  unfold isProtected at before after ⊢
  rw [Text.contains_eq_false_iff] at before after ⊢
  dsimp only at before after ⊢
  intro marked
  rw [mergeText, String.toList_ofList] at marked
  unfold mergeChars at marked
  have inside := marked.trans (Text.trim_isInfix _)
  split at inside
  · exact after inside
  · cases key with
    | attributeOf name =>
      simp only [mergeAttribute] at inside
      split at inside
      · next front found back _ cut cut' =>
        obtain ⟨rest, begins⟩ := Text.isPrefix_of_splitBefore? cut
        have whole := Text.append_of_splitBefore? cut
        have whole' := Text.append_of_splitBefore? cut'
        have shape : found = 'p' :: ("ublic".toList ++ rest) := begins.symm
        rw [shape] at inside
        -- the mark has no character of the word at which the texts are joined
        rcases Text.isInfix_of_append_cons (by decide) inside with inOld | inNew
        · exact before (inOld.trans ⟨[], _, whole'⟩)
        · refine after (inNew.trans ⟨front ++ ['p'], [], ?_⟩)
          rw [← whole, shape]
          simp
      · exact after inside
    | constructorOf | methodOf => exact after inside
    | start | package | importOf | classDecl | classEnd | gap | text => cases member

/-- Under a key there is nothing, or one text without the mark. -/
inductive IsLone (key : Key) : List String → Prop
  | nothing : IsLone key []
  | single {text : String} (bare : isProtected ⟨key, text⟩ = false) : IsLone key [text]

namespace Upsert

variable {call : Upsert} {calls : List Upsert} {key : Key} {texts : List String}

theorem isLone_settle (member : call.key.isMember = true)
    (bare : isProtected ⟨call.key, call.text⟩ = false) (lone : IsLone call.key texts) :
    IsLone call.key (call.settle texts) := by
  cases lone with
  | nothing =>
    rw [settle]
    split
    · exact .nothing
    · exact .single bare
  | single unmarked =>
    rw [settle, unmarked, if_neg Bool.false_ne_true]
    split
    · exact .nothing
    · exact .single (isProtected_mergeText member unmarked bare)

theorem settle_of_isLone (removes : call.remove = true) (lone : IsLone call.key texts) :
    call.settle texts = [] := by
  cases lone with
  | nothing => rw [settle, if_pos removes]
  | single unmarked => rw [settle, unmarked, if_neg Bool.false_ne_true, if_pos removes]

theorem isLone_foldl_settle (member : key.isMember = true) (its : ∀ call ∈ calls, call.key = key)
    (bare : ∀ call ∈ calls, isProtected ⟨call.key, call.text⟩ = false) (lone : IsLone key texts) :
    IsLone key (calls.foldl (fun texts call => call.settle texts) texts) := by
  induction calls generalizing texts with
  | nil => exact lone
  | cons call rest ih =>
    obtain ⟨rfl, others⟩ := List.forall_mem_cons.mp its
    obtain ⟨here, later⟩ := List.forall_mem_cons.mp bare
    exact ih others later (isLone_settle member here lone)

theorem foldl_settle_eq_nil (its : ∀ call ∈ calls, call.key = key)
    (removes : ∀ call ∈ calls, call.remove = true) (lone : IsLone key texts)
    (settled : texts = [] ∨ calls ≠ []) :
    calls.foldl (fun texts call => call.settle texts) texts = [] := by
  induction calls generalizing texts with
  | nil => exact settled.resolve_right (absurd rfl)
  | cons call rest ih =>
    obtain ⟨rfl, others⟩ := List.forall_mem_cons.mp its
    obtain ⟨here, later⟩ := List.forall_mem_cons.mp removes
    rw [List.foldl_cons, settle_of_isLone here lone]
    exact ih others later .nothing (.inl rfl)

end Upsert

namespace Store

variable {store : Store} {call : Upsert} {calls first second : List Upsert} {keep : Key → Bool}

theorem filter_upsert (gap : keep .gap = false) (own : keep call.key = false) (store : Store) :
    (store.upsert call.key call.text call.blank call.remove).2.fragments.filter (keep ·.key) =
      store.fragments.filter (keep ·.key) := by
  rw [upsert]
  cases cut : store.find? call.key with
  | none =>
    dsimp only
    split
    · rfl
    · obtain ⟨front, back, pieces, before, after, rfl | rfl⟩ :=
        exists_insert store ⟨call.key, call.text⟩ call.blank <;>
        simp [before, after, blankLines, gap, own]
  | some parts =>
    obtain ⟨before, found, after⟩ := parts
    obtain ⟨whole, same⟩ := find?_eq_some cut
    dsimp only
    split
    · rfl
    · split
      · simp [whole, same, own, filter_dropLastGap fun _ same => (congrArg keep same).trans gap]
      · simp [whole, same, own]

theorem filter_upsertAll (gap : keep .gap = false) (own : ∀ call ∈ calls, keep call.key = false)
    (store : Store) :
    (store.upsertAll calls).fragments.filter (keep ·.key) = store.fragments.filter (keep ·.key) := by
  induction calls generalizing store with
  | nil => rfl
  | cons call rest ih =>
    obtain ⟨here, later⟩ := List.forall_mem_cons.mp own
    rw [upsertAll, ih later, filter_upsert gap here]

theorem textsAt_upsertAll_append {key : Key} (member : key.isMember = true)
    (fresh : store.textsAt key = [])
    (bare : ∀ call ∈ first, call.key = key → isProtected ⟨call.key, call.text⟩ = false)
    (removes : ∀ call ∈ second, call.key = key → call.remove = true)
    (called : ∃ call ∈ second, call.key = key) :
    (store.upsertAll (first ++ second)).textsAt key = [] := by
  obtain ⟨call, inside, same⟩ := called
  have indexed := Key.isIndexed_of_isMember member
  have mine {calls : List Upsert} : ∀ call ∈ calls.filter (·.key == key), call.key = key :=
    fun call found => eq_of_beq (List.mem_filter.mp found).2
  rw [upsertAll_append, textsAt_upsertAll indexed, textsAt_upsertAll indexed, fresh]
  refine Upsert.foldl_settle_eq_nil mine (fun call found => ?_) ?_ ?_
  · exact removes call (List.mem_filter.mp found).1 (mine call found)
  · refine Upsert.isLone_foldl_settle member mine (fun call found => ?_) .nothing
    exact bare call (List.mem_filter.mp found).1 (mine call found)
  · exact .inr (List.ne_nil_of_mem (List.mem_filter.mpr ⟨inside, by simpa using same⟩))

/-- Calls bring members in and others take the same members out again: where no gaps are looked at, and
nothing else that is called, nothing has changed. -/
theorem filter_upsertAll_append (gap : keep .gap = false)
    (other : ∀ call ∈ first ++ second, call.key.isMember = false → keep call.key = false)
    (fresh : ∀ call ∈ first, call.key.isMember = true → store.get? call.key = none)
    (bare : ∀ call ∈ first, call.key.isMember = true → isProtected ⟨call.key, call.text⟩ = false)
    (removes : ∀ call ∈ second, call.key.isMember = true → call.remove = true)
    (same : ∀ key, key.isMember = true → (key ∈ first.map (·.key) ↔ key ∈ second.map (·.key))) :
    (store.upsertAll (first ++ second)).fragments.filter (keep ·.key) =
      store.fragments.filter (keep ·.key) := by
  let loose (key : Key) : Bool := keep key && ! (key.isMember && (first.map (·.key)).contains key)
  have called {key : Key} (member : key.isMember = true) (found : key ∈ first.map (·.key)) :
      store.textsAt key = [] ∧ (store.upsertAll (first ++ second)).textsAt key = [] := by
    obtain ⟨call, inside, rfl⟩ := List.mem_map.mp found
    have indexed := Key.isIndexed_of_isMember member
    have missing := textsAt_eq_nil_iff.mpr ((get?_eq_none_iff indexed).mp (fresh call inside member))
    refine ⟨missing, textsAt_upsertAll_append member missing ?_ ?_ ?_⟩
    · exact fun other its equal => bare other its (equal ▸ member)
    · exact fun other its equal => removes other its (equal ▸ member)
    · exact List.mem_map.mp ((same _ member).mp found)
  have loosely {store : Store} (empty : ∀ key, key.isMember = true → key ∈ first.map (·.key) →
      store.textsAt key = []) :
      store.fragments.filter (keep ·.key) = store.fragments.filter (loose ·.key) := by
    refine List.filter_congr fun fragment inside => ?_
    by_cases brought : fragment.key.isMember = true ∧ fragment.key ∈ first.map (·.key)
    · exact absurd rfl (textsAt_eq_nil_iff.mp (empty _ brought.1 brought.2) fragment inside)
    · have kept : (fragment.key.isMember && (first.map (·.key)).contains fragment.key) = false :=
        Bool.eq_false_iff.mpr fun both =>
          brought ((Bool.and_eq_true_iff.mp both).imp_right List.contains_iff_mem.mp)
      simp only [loose, kept, Bool.not_false, Bool.and_true]
  rw [loosely fun key member found => (called member found).2,
    loosely fun key member found => (called member found).1]
  refine filter_upsertAll (by simp [loose, gap]) (fun call found => ?_) store
  by_cases member : call.key.isMember = true
  · have listed : call.key ∈ first.map (·.key) := by
      rcases List.mem_append.mp found with one | two
      · exact List.mem_map_of_mem one
      · exact (same _ member).mpr (List.mem_map_of_mem two)
    simp only [loose, member, List.contains_iff_mem.mpr listed, Bool.and_true, Bool.not_true,
      Bool.and_false]
  · simp only [loose, other call found (by simpa using member), Bool.false_and]

end Store

/-! ### Files in which nothing is left -/

namespace Key

def isContent : Key → Bool
  | package | importOf _ | classDecl | classEnd | gap => false
  | _ => true

def isHead : Key → Bool
  | start | classDecl => true
  | _ => false

theorem AreLaidOut.areHollow {keys : List Key} (laidOut : AreLaidOut keys)
    (heads : keys.filter isHead = [start, classDecl])
    (bare : ∀ key ∈ keys, key.isContent = true → key = start) : AreHollow keys := by
  obtain @⟨front, imports, members, back, before, imported, inside, behind, whole⟩ := laidOut
  have loose {key : Key} (free : key.isIndexed = false) : key.isOuter = true := by
    cases key <;> first | rfl | cases free
  have shape : keys = (front ++ package :: (imports ++ [gap])) ++
      classDecl :: (members ++ classEnd :: back) := by simp [whole]
  -- the front of the file comes before the class, so it is not inside of it
  have late : start ∉ members := by
    rw [shape, List.filter_append, List.filter_cons_of_pos rfl] at heads
    cases early : (front ++ package :: (imports ++ [gap])).filter isHead with
    | nil => rw [early] at heads; cases heads
    | cons first rest =>
      cases rest with
      | nil =>
        have nothing : (members ++ classEnd :: back).filter isHead = [] := by
          rw [early] at heads
          exact (List.cons.inj (List.cons.inj heads).2).2
        intro found
        exact List.filter_eq_nil_iff.mp nothing start (List.mem_append_left _ found) rfl
      | cons second rest =>
        rw [early] at heads
        have long := congrArg List.length heads
        simp at long
  have gaps : ∀ key ∈ members, key = gap := by
    intro key found
    have listed : key ∈ keys := by simp [whole, found]
    cases key with
    | start => exact absurd found late
    | gap => rfl
    | text label => cases bare _ listed rfl
    | package | importOf | classDecl | classEnd => cases inside _ found rfl
    | constructorOf | attributeOf | methodOf => cases bare _ listed rfl
  rw [shape]
  refine .framed (List.forall_mem_append.mpr ⟨fun key found => loose (before key found), ?_⟩) gaps
    fun key found => loose (behind key found)
  rw [List.forall_mem_cons, List.forall_mem_append]
  refine ⟨rfl, fun key found => ?_, by simp [isOuter]⟩
  by_cases indexed : key.isIndexed = true
  · obtain ⟨name, rfl⟩ := imported key found indexed
    rfl
  · exact loose (by simpa using indexed)

end Key

namespace Store

variable {store : Store} {calls : List Upsert}

theorem heads_upsertAll
    (heads : (store.fragments.map (·.key)).filter Key.isHead = [.start, .classDecl])
    (sparing : ∀ call ∈ calls, call.SparesFrame) :
    ((store.upsertAll calls).fragments.map (·.key)).filter Key.isHead = [.start, .classDecl] := by
  induction calls generalizing store with
  | nil => exact heads
  | cons call rest ih =>
    obtain ⟨⟨indexed, spared⟩, later⟩ := List.forall_mem_cons.mp sparing
    refine ih ?_ later
    by_cases declared : call.key = .classDecl
    · have there : Key.classDecl ∈ store.fragments.map (·.key) := by
        have listed : Key.classDecl ∈ (store.fragments.map (·.key)).filter Key.isHead := by
          simp [heads]
        exact (List.mem_filter.mp listed).1
      have kept : call.remove = false := spared (declared ▸ rfl)
      rwa [declared, kept, map_key_upsert_of_isFrame rfl, Key.declare, if_pos there]
    · have other : call.key.isHead = false := by
        cases kind : call.key <;> simp_all [Key.isHead, Key.isIndexed]
      rw [List.filter_map] at heads ⊢
      exact (congrArg (List.map (·.key)) (filter_upsert rfl other store)).trans heads

end Store

end ClassWeaver.Fragment
