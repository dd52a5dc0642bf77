import ClassWeaver.Proofs.Model.Building
import ClassWeaver.Proofs.Model.Emptying

set_option autoImplicit false

/-!
Models that differ in their flags only. Main statements: comparing two models leaves the previous
one as it is but for its flags, flags a class with everything in it if the class is gone, and leaves
nothing to generate of a class that it flags as a whole.
-/

namespace ClassWeaver

namespace ModelClass

variable {a b owner : ModelClass}

theorem firstNamed_map {change : Role → Role} (kept : ∀ role, (change role).name = role.name)
    (roles : List Role) :
    firstNamed (roles.map change) = (firstNamed roles).map (Prod.map id change) := by
  induction roles with
  | nil => rfl
  | cons role rest ih =>
    rw [List.map_cons, firstNamed, firstNamed, kept]
    cases role.name with
    | none => exact ih
    | some name =>
      dsimp only
      rw [ih, List.filter_map]
      rfl

theorem namedRoles_unmarked (owner : ModelClass) :
    owner.unmarked.namedRoles = owner.namedRoles.map (Prod.map id Role.unmarked) :=
  @firstNamed_map Role.unmarked (fun _ => rfl) owner.roles

theorem exists_attribute_of_alike (alike : a.unmarked = b.unmarked) {property : Attribute}
    (found : property ∈ a.attributes) :
    ∃ other ∈ b.attributes, other.unmarked = property.unmarked := by
  have same : a.attributes.map Attribute.unmarked = b.attributes.map Attribute.unmarked :=
    congrArg ModelClass.attributes alike
  exact List.mem_map.mp (same ▸ List.mem_map_of_mem found)

theorem exists_role_of_alike (alike : a.unmarked = b.unmarked) {role : Role}
    (found : role ∈ a.roles) : ∃ other ∈ b.roles, other.unmarked = role.unmarked := by
  have same : a.roles.map Role.unmarked = b.roles.map Role.unmarked :=
    congrArg ModelClass.roles alike
  exact List.mem_map.mp (same ▸ List.mem_map_of_mem found)

@[simp] theorem unmarked_markAll (owner : ModelClass) : owner.markAll.unmarked = owner.unmarked := by
  simp only [markAll, unmarked, List.map_map]
  rfl

theorem isSpent_markAll (owner : ModelClass) : owner.markAll.IsSpent where
  attributes := by
    intro property found
    obtain ⟨old, -, rfl⟩ := List.mem_map.mp found
    rfl
  roles := by
    intro role found _
    obtain ⟨old, -, rfl⟩ := List.mem_map.mp found
    rfl
  methods := by
    intro method found
    obtain ⟨old, -, rfl⟩ := List.mem_map.mp found
    rfl
  self := .inl rfl

theorem IsUnflagged.unmarked_eq (unflagged : owner.IsUnflagged) : owner.unmarked = owner := by
  have attributes : owner.attributes.map Attribute.unmarked = owner.attributes.map id :=
    List.map_congr_left fun property found => by
      cases property
      cases unflagged.attributes _ found
      rfl
  have roles : owner.roles.map Role.unmarked = owner.roles.map id :=
    List.map_congr_left fun role found => by
      cases role
      cases unflagged.roles _ found
      rfl
  have methods : owner.methods.map Method.unmarked = owner.methods.map id :=
    List.map_congr_left fun method found => by
      cases method
      cases unflagged.methods _ found
      rfl
  rw [unmarked, attributes, roles, methods, List.map_id, List.map_id, List.map_id,
    ← unflagged.self]

end ModelClass

namespace Model

variable {a b model : Model}

theorem class?_unmarked (model : Model) (name : String) :
    model.unmarked.class? name = (model.class? name).map ModelClass.unmarked := by
  rw [class?, unmarked, List.find?_map]
  rfl

theorem role?_unmarked (model : Model) (place : RoleRef) :
    model.unmarked.role? place = (model.role? place).map Role.unmarked := by
  rw [role?, role?, class?_unmarked]
  cases model.class? place.className with
  | none => rfl
  | some owner => exact List.getElem?_map

theorem role?_congr (alike : a.unmarked = b.unmarked) (place : RoleRef) :
    (a.role? place).map Role.unmarked = (b.role? place).map Role.unmarked := by
  rw [← role?_unmarked, alike, role?_unmarked]

theorem IsConsistent.unmarked_eq (consistent : model.IsConsistent) : model.unmarked = model := by
  have classes : model.classes.map ModelClass.unmarked = model.classes.map id :=
    List.map_congr_left fun owner found => (consistent.unflagged owner found).unmarked_eq
  rw [unmarked, classes, List.map_id]

end Model

namespace Marking

variable {previous current : Model} {owner : ModelClass}

theorem unmarked_flagPartner (state : Model × List MarkedElement) (place : RoleRef) :
    (flagPartner state place).1.unmarked = state.1.unmarked := by
  rw [flagPartner]
  split
  · rfl
  · split
    · rfl
    · rw [Model.modifyRole, Model.modifyClass, Model.unmarked, Model.unmarked,
        map_modifyFirst fun owner => owner.unmarked_modifyRole place.index]

theorem unmarked_mark (previous current : Model) :
    (mark previous current).1.unmarked = previous.unmarked := by
  have partners (places : List RoleRef) (state : Model × List MarkedElement) :
      (places.foldl flagPartner state).1.unmarked = state.1.unmarked := by
    induction places generalizing state with
    | nil => rfl
    | cons place rest ih => rw [List.foldl_cons, ih, unmarked_flagPartner]
  have each : (previous.classes.map fun old =>
      (compareClass (stalePlaces previous current) current old).flagged.unmarked) =
        previous.classes.map ModelClass.unmarked :=
    List.map_congr_left fun old _ => unmarked_compareClass _ current old
  rw [mark, partners, Model.unmarked, Model.unmarked, ← each, List.map_map, List.map_map]
  rfl

theorem unmarked_flaggedClass (previous current : Model) (owner : ModelClass) :
    (flaggedClass previous current owner).unmarked = owner.unmarked := by
  have roles : (flaggedClass previous current owner).roles.map Role.unmarked =
      owner.roles.map Role.unmarked := by
    refine List.ext_getElem? fun index => ?_
    rw [flaggedClass, List.getElem?_map, List.getElem?_mapIdx, List.getElem?_map, Option.map_map]
    rfl
  rw [ModelClass.unmarked, roles]
  simp only [flaggedClass, ModelClass.unmarked, List.map_map]
  rfl

theorem flaggedClass_of_gone (gone : current.class? owner.name = none) :
    flaggedClass previous current owner = owner.markAll := by
  have lost (index : Nat) : isLost previous current ⟨owner.name, index⟩ = true := by
    rw [isLost, gone]
    rfl
  have roles : (owner.roles.mapIdx fun _ role => { role with modified := true }) =
      owner.roles.map ({ · with modified := true }) := by
    refine List.ext_getElem? fun index => ?_
    rw [List.getElem?_mapIdx, List.getElem?_map]
  simp only [flaggedClass, gone, lost, Option.all_none, Bool.true_or, roles]
  rfl

section Consistent

variable (consistent : previous.IsConsistent)
include consistent

theorem classes_mark (current : Model) :
    (mark previous current).1.classes = previous.classes.map (flaggedClass previous current) := by
  rw [mark_fst consistent.distinct consistent.isLinked consistent.isUnflagged]

theorem isSpent_flaggedClass (found : owner ∈ previous.classes)
    (modified : (flaggedClass previous current owner).modified = true) :
    (flaggedClass previous current owner).IsSpent := by
  cases known : current.class? owner.name with
  | none =>
    rw [flaggedClass_of_gone known]
    exact owner.isSpent_markAll
  | some now =>
    have empty : now.isEmpty = true := by
      simp only [flaggedClass, known, Option.all_some, Bool.and_eq_true] at modified
      exact modified.2
    have marked : flaggedClass previous current owner ∈ (mark previous current).1.classes := by
      rw [classes_mark consistent]
      exact List.mem_map_of_mem found
    exact isSpent_mark marked known empty

end Consistent

end Marking

end ClassWeaver
