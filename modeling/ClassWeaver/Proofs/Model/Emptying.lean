import ClassWeaver.Proofs.Model.Marking
import ClassWeaver.Proofs.Model.Snapshot

set_option autoImplicit false

/-!
Classes that have lost their members. Main statements: comparing changes nothing but flags, and a class
of the previous model that has no members in the current one is flagged with everything that was
generated for it.
-/

namespace ClassWeaver

namespace ModelClass

variable {owner other : ModelClass}

theorem isEmpty_firstNamed (roles : List Role) :
    (firstNamed roles).isEmpty = true ↔ ∀ role ∈ roles, role.name = none := by
  induction roles with
  | nil => simp [firstNamed]
  | cons role rest ih =>
    rw [List.forall_mem_cons, ← ih, firstNamed]
    cases role.name <;> simp

theorem isEmpty_iff : owner.isEmpty = true ↔
    owner.attributes = [] ∧ (∀ role ∈ owner.roles, role.name = none) ∧ owner.methods = [] := by
  rw [isEmpty, Bool.and_eq_true, Bool.and_eq_true, namedRoles, isEmpty_firstNamed,
    List.isEmpty_iff, List.isEmpty_iff, and_assoc]

@[simp] theorem unmarked_unmarked (owner : ModelClass) : owner.unmarked.unmarked = owner.unmarked := by
  simp only [unmarked, List.map_map]
  rfl

@[simp] theorem isEmpty_unmarked (owner : ModelClass) : owner.unmarked.isEmpty = owner.isEmpty := by
  rw [Bool.eq_iff_iff, isEmpty_iff, isEmpty_iff]
  simp [unmarked, Role.unmarked]

theorem isEmpty_congr (alike : owner.unmarked = other.unmarked) : owner.isEmpty = other.isEmpty := by
  rw [← isEmpty_unmarked, alike, isEmpty_unmarked]

theorem name_congr (alike : owner.unmarked = other.unmarked) : owner.name = other.name := by
  have same := congrArg ModelClass.name alike
  exact same

theorem unmarked_modifyRole (owner : ModelClass) (index : Nat) :
    { owner with roles := owner.roles.modify index ({ · with modified := true }) }.unmarked =
      owner.unmarked := by
  have same : (owner.roles.modify index ({ · with modified := true })).map Role.unmarked =
      owner.roles.map Role.unmarked := by
    apply List.ext_getElem?
    intro position
    rw [List.getElem?_map, List.getElem?_map, List.getElem?_modify]
    cases owner.roles[position]? with
    | none => rfl
    | some role => split <;> rfl
  rw [unmarked, same]
  rfl

/-- Says that nothing is generated for a class any more: all its members are flagged, and so is the
class itself if it has any. -/
structure IsSpent (owner : ModelClass) : Prop where
  attributes : ∀ property ∈ owner.attributes, property.modified = true
  roles : ∀ role ∈ owner.roles, role.name.isSome = true → role.modified = true
  methods : ∀ method ∈ owner.methods, method.modified = true
  self : owner.modified = true ∨ owner.isEmpty = true

theorem isSpent_of_isEmpty (empty : owner.isEmpty = true) : owner.IsSpent := by
  obtain ⟨attributes, roles, methods⟩ := isEmpty_iff.mp empty
  refine ⟨by simp [attributes], fun role found named => ?_, by simp [methods], .inr empty⟩
  rw [roles role found] at named
  cases named

end ModelClass

namespace Marking

variable {previous current : Model} {owner now : ModelClass}

theorem unmarked_compareClass (stale : List RoleRef) (current : Model) (old : ModelClass) :
    (compareClass stale current old).flagged.unmarked = old.unmarked := by
  rw [compareClass]
  split
  · simp only [ModelClass.markAll, ModelClass.unmarked, List.map_map]
    rfl
  · next now known =>
    simp only [compareKept, ModelClass.unmarked, List.map_map, ModelClass.mk.injEq, true_and,
      and_true]
    refine ⟨List.map_congr_left fun property _ => ?_, ?_, List.map_congr_left fun method _ => ?_⟩
    · rw [Function.comp_apply]
      cases attributeChanged now property <;> rfl
    · have bare : (old.roles.zipIdx.map fun entry => entry.1.unmarked) =
          old.roles.map Role.unmarked := by
        have whole : (old.roles.zipIdx.map Prod.fst).map Role.unmarked =
            old.roles.map Role.unmarked := by
          rw [List.zipIdx_map_fst]
        rwa [List.map_map] at whole
      rw [← bare]
      refine List.map_congr_left fun entry _ => ?_
      rw [Function.comp_apply]
      cases stale.contains ⟨old.name, entry.2⟩ <;> rfl
    · rw [Function.comp_apply]
      cases methodChanged now method <;> rfl

theorem exists_unmarked_mark (found : owner ∈ (mark previous current).1.classes) :
    ∃ old ∈ previous.classes, owner.unmarked = old.unmarked := by
  refine mark_keeps (fun owner => ∃ old ∈ previous.classes, owner.unmarked = old.unmarked)
    (fun old there => ⟨old, there, unmarked_compareClass _ current old⟩) ?_ owner found
  rintro owner index ⟨old, there, alike⟩
  exact ⟨old, there, (owner.unmarked_modifyRole index).trans alike⟩

theorem modified_or_isEmpty_mark (found : owner ∈ (mark previous current).1.classes)
    (known : current.class? owner.name = some now) (empty : now.isEmpty = true) :
    owner.modified = true ∨ owner.isEmpty = true := by
  refine mark_keeps (fun owner => current.class? owner.name = some now →
    owner.modified = true ∨ owner.isEmpty = true) ?_ ?_ owner found known
  · intro old there known
    have alike := unmarked_compareClass (stalePlaces previous current) current old
    rw [ModelClass.isEmpty_congr alike]
    rw [ModelClass.name_congr alike] at known
    rw [compareClass, known]
    cases bare : old.isEmpty with
    | true => exact .inr rfl
    | false => exact .inl (by simp [compareKept, bare, empty])
  · intro owner index kept known
    exact (kept known).imp_right fun bare =>
      (ModelClass.isEmpty_congr (owner.unmarked_modifyRole index)).trans bare

theorem isSpent_mark (found : owner ∈ (mark previous current).1.classes)
    (known : current.class? owner.name = some now) (empty : now.isEmpty = true) :
    owner.IsSpent := by
  have sound := isCurrent_mark found known
  obtain ⟨attributes, roles, methods⟩ := ModelClass.isEmpty_iff.mp empty
  refine ⟨fun property inside => ?_, fun role inside named => ?_, fun method inside => ?_,
    modified_or_isEmpty_mark found known empty⟩
  · by_contra bare
    have kept := sound.attributes property inside (Bool.eq_false_iff.mpr bare)
    rw [attributeChanged, ModelClass.attribute?, attributes] at kept
    cases kept
  · by_contra bare
    obtain ⟨new, matched, -⟩ :=
      exists_of_roleChanged (sound.roles role inside (Bool.eq_false_iff.mpr bare))
    rw [matching?, if_pos named] at matched
    have called : new.name = role.name := by simpa using List.find?_some matched
    rw [← called, roles new (List.mem_of_find?_eq_some matched)] at named
    cases named
  · by_contra bare
    have kept := sound.methods method inside (Bool.eq_false_iff.mpr bare)
    rw [methodChanged, methods] at kept
    cases kept

end Marking

end ClassWeaver
