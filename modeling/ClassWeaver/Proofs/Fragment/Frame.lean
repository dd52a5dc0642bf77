import ClassWeaver.Fragment.Store
import Mathlib.Data.List.Induction

set_option autoImplicit false

/-!
What updates of a store leave alone. Main statement: protected fragments, fragments that cannot be
looked up and fragments that no update addresses stay as they are and in their order.
-/

namespace ClassWeaver.Fragment

structure Upsert where
  key : Key
  text : String
  blank : Nat
  remove : Bool
  deriving DecidableEq, Repr

namespace Store

/-- Carries out calls one after the other. -/
def upsertAll (store : Store) : List Upsert → Store
  | [] => store
  | call :: rest => (store.upsert call.key call.text call.blank call.remove).2.upsertAll rest

theorem upsertAll_append (store : Store) (a b : List Upsert) :
    store.upsertAll (a ++ b) = (store.upsertAll a).upsertAll b := by
  induction a generalizing store with
  | nil => rfl
  | cons call rest ih => exact ih _

/-- Says whether calls with keys among `addressed` must leave a fragment alone. Gaps belong to the
fragments beside them. -/
def isSafe (addressed : List Key) (fragment : Fragment) : Bool :=
  fragment.key != .gap
    && (fragment.isProtected || ! fragment.key.isIndexed || ! addressed.contains fragment.key)

variable {addressed : List Key}

private theorem isSafe_gap {fragment : Fragment} (gap : fragment.key = .gap) :
    isSafe addressed fragment = false := by
  simp [isSafe, gap]

private theorem isSafe_found {store : Store} {key : Key} {before after : List Fragment}
    {found : Fragment} (called : key ∈ addressed)
    (cut : store.find? key = some (before, found, after))
    (bare : found.isProtected = false) : isSafe addressed found = false := by
  have same : found.key = key := (find?_eq_some cut).2
  have indexed : key.isIndexed = true := by
    unfold find? at cut
    split at cut
    · assumption
    · simp at cut
  simp [isSafe, same, bare, indexed, called]

theorem filter_dropLastGap {p : Fragment → Bool}
    (gap : ∀ fragment : Fragment, fragment.key = .gap → p fragment = false)
    (fragments : List Fragment) : (dropLastGap fragments).filter p = fragments.filter p := by
  unfold dropLastGap
  cases fragments using List.reverseRecOn with
  | nil => rfl
  | append_singleton front last _ =>
      by_cases same : last.key = .gap
      · simp [same, gap last same]
      · simp [same]

theorem dropLastGap_sublist (fragments : List Fragment) :
    (dropLastGap fragments).Sublist fragments := by
  rw [dropLastGap]
  split
  · exact List.dropLast_sublist fragments
  · exact List.Sublist.refl fragments

private theorem sublist_insert (store : Store) (fragment : Fragment) (blank : Nat) :
    store.fragments.Sublist (store.insert fragment blank).fragments := by
  unfold insert
  split
  · split
    · next before found after cut =>
        obtain ⟨whole, -⟩ := find?_eq_some cut
        rw [whole]
        cases before using List.reverseRecOn with
        | nil => simp
        | append_singleton front last _ =>
            have later : (last :: found :: after).Sublist
                ([blankLines blank, fragment] ++ last :: found :: after) :=
              List.sublist_append_right _ _
            simpa only [List.dropLast_concat, List.getLast?_concat, Option.toList_some,
              List.append_assoc, List.singleton_append] using List.Sublist.append_left later front
    · exact List.sublist_append_left _ _
  · split
    · next before found after cut =>
        have whole : store.fragments = before ++ found :: after := by
          split at cut
          · exact (find?_eq_some cut).1
          · simp at cut
        rw [whole, List.append_assoc]
        exact List.Sublist.append_left (List.sublist_append_right _ _) before
    · exact List.sublist_append_left _ _

theorem sublist_upsert (store : Store) {key : Key} (called : key ∈ addressed) (text : String)
    (blank : Nat) (remove : Bool) :
    (store.fragments.filter (isSafe addressed)).Sublist
      ((store.upsert key text blank remove).2.fragments.filter (isSafe addressed)) := by
  unfold upsert
  split
  · split
    · exact List.Sublist.refl _
    · exact (sublist_insert store ⟨key, text⟩ blank).filter _
  · next before found after cut =>
      obtain ⟨whole, -⟩ := find?_eq_some cut
      split
      · exact List.Sublist.refl _
      · next bare =>
          have loose : isSafe addressed found = false :=
            isSafe_found called cut (by simpa using bare)
          have rest : store.fragments.filter (isSafe addressed)
              = before.filter (isSafe addressed) ++ after.filter (isSafe addressed) := by
            simp [whole, loose]
          rw [rest]
          split
          · simp only [List.filter_append, filter_dropLastGap fun _ => isSafe_gap, List.Sublist.refl]
          · rw [List.filter_append]
            refine List.Sublist.append_left ?_ _
            exact (List.sublist_cons_self _ _).filter _

private theorem sublist_upsertAll_of_subset (store : Store) (calls : List Upsert)
    (called : ∀ call ∈ calls, call.key ∈ addressed) :
    (store.fragments.filter (isSafe addressed)).Sublist
      ((store.upsertAll calls).fragments.filter (isSafe addressed)) := by
  induction calls generalizing store with
  | nil => exact List.Sublist.refl _
  | cons call rest ih =>
      have here := sublist_upsert store (called call List.mem_cons_self) call.text call.blank
        call.remove
      have later := ih (store.upsert call.key call.text call.blank call.remove).2
        fun other found => called other (List.mem_cons_of_mem _ found)
      exact here.trans later

/-- Whatever calls are carried out, the fragments that they must leave alone are in the store
afterwards with their texts and in their order. -/
theorem sublist_upsertAll (store : Store) (calls : List Upsert) :
    (store.fragments.filter (isSafe (calls.map (·.key)))).Sublist
      (store.upsertAll calls).fragments := by
  have kept := sublist_upsertAll_of_subset store calls fun _ found => List.mem_map_of_mem found
  exact kept.trans List.filter_sublist

end Store

end ClassWeaver.Fragment
