import ClassWeaver.Proofs.Fragment.Hollow

set_option autoImplicit false

/-!
Stores in which everything is at its place, with anything written by hand between. Main statement: calls
that take away neither the package declaration nor the class declaration nor the end of the class leave
everything at its place.
-/

namespace ClassWeaver.Fragment

namespace Key

def isFrame : Key → Bool
  | package | classDecl | classEnd => true
  | _ => false

/-- The keys of a store in which everything is at its place. There is one package declaration, then one
class declaration with a gap right in front of it, then one end of the class. Imports stand between the
package and the class, members between the class and its end, and what cannot be looked up stands
anywhere. -/
inductive AreLaidOut (keys : List Key) : Prop
  | framed {front imports members back : List Key}
    (before : ∀ key ∈ front, key.isIndexed = false)
    (imported : ∀ key ∈ imports, key.isIndexed = true → ∃ name, key = .importOf name)
    (inside : ∀ key ∈ members, key.isIndexed = true → key.isMember = true)
    (behind : ∀ key ∈ back, key.isIndexed = false)
    (whole : keys = front ++ .package :: (imports ++ .gap :: .classDecl ::
      (members ++ .classEnd :: back)))

theorem notMem_of_indexed {key : Key} {keys : List Key} {allowed : Key → Prop}
    (each : ∀ key ∈ keys, key.isIndexed = true → allowed key) (indexed : key.isIndexed = true)
    (other : ¬ allowed key) : key ∉ keys :=
  fun found => other (each key found indexed)

theorem notMem_of_loose {key : Key} {keys : List Key} (each : ∀ key ∈ keys, key.isIndexed = false)
    (indexed : key.isIndexed = true) : key ∉ keys := by
  intro found
  rw [each key found] at indexed
  cases indexed

theorem AreLaidOut.declare {key : Key} {keys : List Key} (laidOut : AreLaidOut keys)
    (frame : key.isFrame = true) : key.declare keys = keys := by
  obtain ⟨-, -, -, -, rfl⟩ := laidOut
  rw [Key.declare, if_pos]
  cases key <;> simp [isFrame] at frame ⊢

end Key

open Key (AreLaidOut)

namespace Store

variable {store : Store} {key : Key} {front region back : List Key}

def IsLaidOut (store : Store) : Prop :=
  AreLaidOut (store.fragments.map (·.key))

theorem exists_find?_of_map_key (indexed : key.isIndexed = true) (absent : key ∉ front)
    (whole : store.fragments.map (·.key) = front ++ key :: back) :
    ∃ before hit after, store.find? key = some (before, hit, after) ∧
      before.map (·.key) = front ∧ hit.key = key ∧ after.map (·.key) = back := by
  obtain ⟨before, rest, list, rfl, later⟩ := List.map_eq_append_iff.mp whole
  obtain ⟨hit, after, rfl, same, rfl⟩ := List.map_eq_cons_iff.mp later
  refine ⟨before, hit, after, ?_, rfl, same, rfl⟩
  rw [find?, if_pos indexed, list]
  exact cut?_append_cons (fun fragment found other => absent (other ▸ List.mem_map_of_mem found)) same

theorem exists_map_key_dropLastGap {fragments : List Fragment} (solid : key ≠ .gap)
    (whole : fragments.map (·.key) = front ++ key :: region) :
    ∃ kept, (dropLastGap fragments).map (·.key) = front ++ key :: kept ∧ kept ⊆ region := by
  unfold dropLastGap
  split
  · next gap =>
    rw [List.map_dropLast, whole]
    cases region using List.reverseRecOn with
    | nil =>
      obtain ⟨last, found, same⟩ := (Option.any_eq_true _ _).mp gap
      have shown : (fragments.map (·.key)).getLast? = some .gap := by
        rw [List.getLast?_map, found, Option.map_some, eq_of_beq same]
      rw [whole, List.getLast?_concat] at shown
      exact absurd (Option.some.inj shown) solid
    | append_singleton region last _ =>
      rw [← List.cons_append, ← List.append_assoc, List.dropLast_concat]
      exact ⟨region, rfl, List.subset_append_left region [last]⟩
  · exact ⟨region, whole, List.Subset.refl region⟩

/-- A call whose key comes first in some region, behind something that is no gap, takes away from this
region at most. -/
theorem exists_map_key_upsert {edge : Key} (indexed : key.isIndexed = true) (absent : key ∉ front)
    (solid : edge ≠ .gap) (other : key ≠ edge) (inside : key ∈ region)
    (whole : store.fragments.map (·.key) = front ++ edge :: (region ++ back)) (text : String)
    (blank : Nat) (remove : Bool) :
    ∃ kept, (store.upsert key text blank remove).2.fragments.map (·.key) =
      front ++ edge :: (kept ++ back) ∧ kept ⊆ region := by
  obtain ⟨early, late, rfl, first⟩ := List.eq_append_cons_of_mem inside
  have unseen : key ∉ front ++ edge :: early := by simp [absent, other, first]
  have split : store.fragments.map (·.key) = (front ++ edge :: early) ++ key :: (late ++ back) := by
    simp [whole]
  obtain ⟨before, hit, after, cut, leading, same, trailing⟩ :=
    exists_find?_of_map_key indexed unseen split
  rw [upsert, cut]
  dsimp only
  split
  · exact ⟨_, whole, List.Subset.refl _⟩
  · split
    · -- a gap that goes with the fragment is one of the region, since the edge is none
      obtain ⟨kept, shown, below⟩ := exists_map_key_dropLastGap solid leading
      refine ⟨kept ++ late, by simp [shown, trailing], ?_⟩
      exact List.append_subset.mpr ⟨fun _ found => List.mem_append_left _ (below found),
        fun _ found => List.mem_append_right _ (List.mem_cons_of_mem key found)⟩
    · exact ⟨early ++ key :: late, by simp [leading, trailing], List.Subset.refl _⟩

theorem upsert_of_absent (absent : key ∉ store.fragments.map (·.key)) (text : String) (blank : Nat)
    (remove : Bool) : (store.upsert key text blank remove).2 =
      if remove then store else store.insert ⟨key, text⟩ blank := by
  rw [upsert, find?_eq_none_of_notMem absent]
  cases remove <;> rfl

theorem map_key_insert_import (absent : Key.classDecl ∉ front)
    (whole : store.fragments.map (·.key) = front ++ Key.gap :: Key.classDecl :: back)
    (name text : String) (blank : Nat) : (store.insert ⟨.importOf name, text⟩ blank).fragments.map (·.key) =
      front ++ Key.gap :: Key.importOf name :: Key.gap :: Key.classDecl :: back := by
  have unseen : Key.classDecl ∉ front ++ [Key.gap] := by simp [absent]
  have split : store.fragments.map (·.key) = (front ++ [Key.gap]) ++ Key.classDecl :: back := by
    simp [whole]
  obtain ⟨before, hit, after, cut, leading, same, trailing⟩ :=
    exists_find?_of_map_key rfl unseen split
  obtain ⟨rest, gap, rfl, shown, last⟩ := List.map_eq_append_iff.mp leading
  obtain ⟨gap, rfl, single⟩ := List.map_eq_singleton_iff.mp last
  rw [insert]
  dsimp only
  rw [cut]
  simp [blankLines, shown, single, same, trailing]

theorem map_key_insert_member (member : key.isMember = true) (absent : Key.classEnd ∉ front)
    (whole : store.fragments.map (·.key) = front ++ Key.classEnd :: back) (text : String)
    (blank : Nat) : (store.insert ⟨key, text⟩ blank).fragments.map (·.key) =
      front ++ key :: Key.gap :: Key.classEnd :: back := by
  obtain ⟨before, hit, after, cut, leading, same, trailing⟩ :=
    exists_find?_of_map_key rfl absent whole
  rw [insert_of_isMember member cut]
  simp [blankLines, leading, same, trailing]

theorem map_key_upsert_of_isFrame (frame : key.isFrame = true) (store : Store) (text : String)
    (blank : Nat) : (store.upsert key text blank false).2.fragments.map (·.key) =
      key.declare (store.fragments.map (·.key)) := by
  refine map_key_upsert ?_ ?_ ?_ store text blank
  all_goals cases key <;> simp [Key.isFrame, Key.isIndexed, Key.isMember] at frame ⊢

namespace IsLaidOut

theorem upsert_frame (laidOut : store.IsLaidOut) (frame : key.isFrame = true) (text : String)
    (blank : Nat) : (store.upsert key text blank false).2.IsLaidOut := by
  rwa [IsLaidOut, map_key_upsert_of_isFrame frame, AreLaidOut.declare laidOut frame]

theorem upsert_import (laidOut : store.IsLaidOut) (name text : String) (blank : Nat)
    (remove : Bool) : (store.upsert (.importOf name) text blank remove).2.IsLaidOut := by
  have same := laidOut
  obtain @⟨front, imports, members, back, before, imported, inside, behind, whole⟩ := same
  have early : Key.importOf name ∉ front := Key.notMem_of_loose before rfl
  by_cases found : Key.importOf name ∈ imports
  · have solid : Key.package ≠ .gap := nofun
    obtain ⟨kept, shown, below⟩ := exists_map_key_upsert rfl early solid nofun found whole text blank
      remove
    exact ⟨before, fun key there => imported key (below there), inside, behind, shown⟩
  · have absent : Key.importOf name ∉ store.fragments.map (·.key) := by
      have outside : Key.importOf name ∉ members := Key.notMem_of_indexed inside rfl nofun
      have late : Key.importOf name ∉ back := Key.notMem_of_loose behind rfl
      simp [whole, early, found, outside, late]
    rw [upsert_of_absent absent]
    split
    · exact laidOut
    · have unseen : Key.classDecl ∉ front ++ Key.package :: imports := by
        have loose : Key.classDecl ∉ front := Key.notMem_of_loose before rfl
        have outside : Key.classDecl ∉ imports := Key.notMem_of_indexed imported rfl nofun
        simp [loose, outside]
      have split : store.fragments.map (·.key) = (front ++ Key.package :: imports)
          ++ Key.gap :: Key.classDecl :: (members ++ Key.classEnd :: back) := by
        simp [whole]
      have more : ∀ key ∈ imports ++ [Key.gap, Key.importOf name], key.isIndexed = true →
          ∃ name, key = .importOf name :=
        List.forall_mem_append.mpr ⟨imported, by simp [Key.isIndexed]⟩
      refine ⟨before, more, inside, behind, ?_⟩
      simpa using map_key_insert_import unseen split name text blank

theorem upsert_member (laidOut : store.IsLaidOut) (member : key.isMember = true) (text : String)
    (blank : Nat) (remove : Bool) : (store.upsert key text blank remove).2.IsLaidOut := by
  have same := laidOut
  obtain @⟨front, imports, members, back, before, imported, inside, behind, whole⟩ := same
  have split : store.fragments.map (·.key) = (front ++ Key.package :: (imports ++ [Key.gap]))
      ++ Key.classDecl :: (members ++ Key.classEnd :: back) := by
    simp [whole]
  have indexed : key.isIndexed = true := Key.isIndexed_of_isMember member
  have other (outer : Key) (outside : outer.isMember = false) : key ≠ outer := by
    rintro rfl
    exact Bool.false_ne_true (outside.symm.trans member)
  have early : key ∉ front ++ Key.package :: (imports ++ [Key.gap]) := by
    have loose : key ∉ front := Key.notMem_of_loose before indexed
    have outside : key ∉ imports :=
      Key.notMem_of_indexed imported indexed fun ⟨name, same⟩ =>
        other (.importOf name) rfl same
    simp [loose, outside, other .package rfl, other .gap rfl]
  by_cases found : key ∈ members
  · have solid : Key.classDecl ≠ .gap := nofun
    obtain ⟨kept, shown, below⟩ := exists_map_key_upsert indexed early solid (other .classDecl rfl) found
      split text blank remove
    refine ⟨before, imported, fun key there => inside key (below there), behind, ?_⟩
    simpa using shown
  · have absent : key ∉ store.fragments.map (·.key) := by
      have late : key ∉ back := Key.notMem_of_loose behind indexed
      rw [split, List.mem_append, not_or]
      exact ⟨early, by simp [found, late, other .classDecl rfl, other .classEnd rfl]⟩
    rw [upsert_of_absent absent]
    split
    · exact laidOut
    · have unseen : Key.classEnd ∉ front
          ++ Key.package :: (imports ++ Key.gap :: Key.classDecl :: members) := by
        have loose : Key.classEnd ∉ front := Key.notMem_of_loose before rfl
        have outside : Key.classEnd ∉ imports := Key.notMem_of_indexed imported rfl nofun
        have within : Key.classEnd ∉ members := Key.notMem_of_indexed inside rfl nofun
        simp [loose, outside, within]
      have split : store.fragments.map (·.key) = (front
          ++ Key.package :: (imports ++ Key.gap :: Key.classDecl :: members))
            ++ Key.classEnd :: back := by
        simp [whole]
      have more : ∀ other ∈ members ++ [key, Key.gap], other.isIndexed = true →
          other.isMember = true :=
        List.forall_mem_append.mpr ⟨inside, by simp [Key.isIndexed, member]⟩
      refine ⟨before, imported, more, behind, ?_⟩
      simpa using map_key_insert_member member unseen split text blank

/-- A call to an indexed key that takes nothing of the frame away leaves everything at its place. -/
theorem upsert (laidOut : store.IsLaidOut) (indexed : key.isIndexed = true) {remove : Bool}
    (spared : key.isFrame = true → remove = false) (text : String) (blank : Nat) :
    (store.upsert key text blank remove).2.IsLaidOut := by
  cases key with
  | start | gap | text => cases indexed
  | package | classDecl | classEnd =>
    rw [spared rfl]
    exact laidOut.upsert_frame rfl text blank
  | importOf name => exact laidOut.upsert_import name text blank remove
  | constructorOf | attributeOf | methodOf => exact laidOut.upsert_member rfl text blank remove

end IsLaidOut

end Store

/-- Says that a call addresses what can be looked up and takes nothing of the frame away. -/
def Upsert.SparesFrame (call : Upsert) : Prop :=
  call.key.isIndexed = true ∧ (call.key.isFrame = true → call.remove = false)

theorem Upsert.sparesFrame_of_isMember {call : Upsert} (member : call.key.isMember = true) :
    call.SparesFrame := by
  refine ⟨Key.isIndexed_of_isMember member, fun frame => ?_⟩
  cases kind : call.key <;> simp_all [Key.isMember, Key.isFrame]

namespace Store

variable {store : Store} {calls : List Upsert}

theorem IsLaidOut.upsertAll (laidOut : store.IsLaidOut) (sparing : ∀ call ∈ calls, call.SparesFrame) :
    (store.upsertAll calls).IsLaidOut := by
  induction calls generalizing store with
  | nil => exact laidOut
  | cons call rest ih =>
    obtain ⟨⟨indexed, spared⟩, later⟩ := List.forall_mem_cons.mp sparing
    exact ih (laidOut.upsert indexed spared call.text call.blank) later

theorem isLaidOut_frame (package declaration ending : String) (a b c : Nat) :
    (Store.empty.upsertAll [⟨.package, package, a, false⟩, ⟨.classDecl, declaration, b, false⟩,
      ⟨.classEnd, ending, c, false⟩]).IsLaidOut := by
  have keys : [Key.start, .package, .gap, .classDecl, .gap, .classEnd, .gap] = [Key.start]
      ++ Key.package :: ([] ++ Key.gap :: Key.classDecl :: ([Key.gap] ++ Key.classEnd :: [Key.gap])) :=
    rfl
  rw [IsLaidOut, upsertAll, upsertAll, upsertAll, upsertAll, map_key_upsert_of_isFrame rfl,
    map_key_upsert_of_isFrame rfl, map_key_upsert_of_isFrame rfl]
  exact ⟨by simp [Key.isIndexed], by simp, by simp [Key.isIndexed], by simp [Key.isIndexed], keys⟩

end Store

end ClassWeaver.Fragment
