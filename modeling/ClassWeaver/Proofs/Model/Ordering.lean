import ClassWeaver.Proofs.Model.Entries
import Mathlib.Data.List.Nodup

set_option autoImplicit false

/-!
Models and definitions that differ in the order of their classes only. Classes are looked up by name,
and the partner of a role by the name and the position of its place, so that no question that is asked
about a model depends on the order.

Main statement: `ModelDefinition.exists_build_reordered`, if a definition with distinct names builds,
so does every reordering of it, and the models are reorderings of each other.
-/

namespace ClassWeaver

namespace Model

/-- Says that two models differ at most in the order of their classes. -/
structure IsReordering (a b : Model) : Prop where
  frame : b = { a with classes := b.classes }
  classes : a.classes.Perm b.classes

variable {a b : Model}

theorem IsReordering.symm (reordered : a.IsReordering b) : b.IsReordering a where
  frame := by rw [reordered.frame]
  classes := reordered.classes.symm

theorem IsReordering.package_eq (reordered : a.IsReordering b) : b.package = a.package := by
  rw [reordered.frame]

theorem IsReordering.sourceFolder_eq (reordered : a.IsReordering b) :
    b.sourceFolder = a.sourceFolder := by
  rw [reordered.frame]

theorem IsReordering.distinct (reordered : a.IsReordering b) (distinct : a.HasDistinctClasses) :
    b.HasDistinctClasses :=
  (reordered.classes.map _).nodup_iff.mp distinct

theorem IsReordering.class?_eq (reordered : a.IsReordering b) (distinct : a.HasDistinctClasses) :
    b.class? = a.class? := by
  funext name
  cases known : a.class? name with
  | some owner =>
    obtain ⟨found, named⟩ := name_of_class? known
    rw [← named]
    exact class?_of_mem (reordered.distinct distinct) (reordered.classes.mem_iff.mp found)
  | none =>
    rw [class?, List.find?_eq_none] at known ⊢
    exact fun owner found => known owner (reordered.classes.mem_iff.mpr found)

theorem IsReordering.role?_eq (reordered : a.IsReordering b) (distinct : a.HasDistinctClasses) :
    b.role? = a.role? := by
  funext place
  rw [role?, role?, reordered.class?_eq distinct]

theorem IsReordering.otherRole?_eq (reordered : a.IsReordering b)
    (distinct : a.HasDistinctClasses) : b.otherRole? = a.otherRole? := by
  funext role
  rw [otherRole?, otherRole?, reordered.role?_eq distinct]

theorem IsReordering.modifyClass (reordered : a.IsReordering b) (distinct : a.HasDistinctClasses)
    (name : String) (change : ModelClass → ModelClass) :
    (a.modifyClass name change).IsReordering (b.modifyClass name change) where
  frame := by rw [Model.modifyClass, Model.modifyClass, reordered.frame]
  classes := by
    rw [distinct.modifyClass_eq, (reordered.distinct distinct).modifyClass_eq]
    exact reordered.classes.map _

theorem HasDistinctClasses.addRole (distinct : a.HasDistinctClasses) (className : String)
    (role : Role) : (a.addRole className role).HasDistinctClasses := by
  rw [HasDistinctClasses, Model.addRole, Model.modifyClass]
  dsimp only
  rw [map_modifyFirst]
  · exact distinct
  · exact fun _ => rfl

def checkJoin (model : Model) (near role : String) (far : End) : Except Error Unit := do
  if let some farRole := far.role then (Name.checkSimple farRole).mapError Error.invalidName
  (Name.checkSimple role).mapError Error.invalidName
  model.knownClass near
  model.knownClass far.className
  model.checkFree near role
  if let some farRole := far.role then
    if near != far.className || role != farRole then model.checkFree far.className farRole

def joined (model : Model) (near role : String) (cardinality : Cardinality) (far : End) : Model :=
  let index :=
    if near == far.className then model.roleCount near + 1 else model.roleCount far.className
  (model.addRole near (model.roleOf ⟨near, some role, cardinality⟩ ⟨far.className, index⟩)).addRole
    far.className (model.roleOf far ⟨near, model.roleCount near⟩)

theorem associate_eq (model : Model) (near role : String) (cardinality : Cardinality) (far : End) :
    model.associate near role cardinality far =
      (model.checkJoin near role far).map fun _ => model.joined near role cardinality far := by
  rw [associate, checkJoin]
  cases far.role with
  | none =>
    simp only [map_bind_eq]
    rfl
  | some name =>
    simp only [map_bind_eq]
    split <;> rfl

theorem IsReordering.exists_associate (reordered : a.IsReordering b)
    (distinct : a.HasDistinctClasses) {near role : String} {cardinality : Cardinality} {far : End}
    {after : Model} (done : a.associate near role cardinality far = .ok after) :
    ∃ there, b.associate near role cardinality far = .ok there ∧
      after.IsReordering there ∧ after.HasDistinctClasses := by
  have known := reordered.class?_eq distinct
  have checks : b.checkJoin near role far = a.checkJoin near role far := by
    unfold checkJoin knownClass checkFree
    rw [known]
  have roleOf : b.roleOf = a.roleOf := by
    funext self partner
    rw [Model.roleOf, Model.roleOf, reordered.frame]
  have roleCount : b.roleCount = a.roleCount := by
    funext name
    rw [Model.roleCount, Model.roleCount, known]
  rw [associate_eq] at done ⊢
  rw [checks]
  cases checked : a.checkJoin near role far with
  | error cause =>
    rw [checked] at done
    cases done
  | ok _ =>
    rw [checked] at done
    refine ⟨_, rfl, ?_⟩
    rw [← Except.ok.inj done, joined, joined, roleOf, roleCount]
    have first := reordered.modifyClass distinct
    exact ⟨(first _ _).modifyClass (distinct.addRole _ _) _ _,
      (distinct.addRole _ _).addRole _ _⟩

end Model

namespace ModelDefinition

/-- Says that two definitions differ at most in the order of their classes. -/
structure IsReordering (a b : ModelDefinition) : Prop where
  frame : b = { a with classes := b.classes }
  classes : a.classes.Perm b.classes

theorem IsReordering.symm {a b : ModelDefinition} (reordered : a.IsReordering b) :
    b.IsReordering a where
  frame := by rw [reordered.frame]
  classes := reordered.classes.symm

theorem checkSuperclasses_eq_ok {model : Model} : checkSuperclasses model = .ok () ↔
    ∀ owner ∈ model.classes, ∀ superclass ∈ owner.superclass,
      (model.class? superclass).isSome = true := by
  rw [checkSuperclasses, forM_eq_ok_iff]
  refine forall₂_congr fun owner _ => ?_
  cases owner.superclass with
  | none => simp
  | some superclass =>
    cases known : (model.class? superclass).isSome <;> simp [known]

theorem IsReordering.exists_foldlM_build {a b : ModelDefinition} (reordered : a.IsReordering b)
    (distinct : (a.classes.map (·.name)).Nodup) {blank filled : Model} (empty : blank.classes = [])
    (done : a.classes.foldlM (fun model entry => entry.build model) blank = .ok filled) :
    ∃ other, b.classes.foldlM (fun model entry => entry.build model) blank = .ok other ∧
      filled.IsReordering other := by
  have fresh (name : String) : blank.class? name = none := by
    rw [Model.class?, empty, List.find?_nil]
  have distinct' : (b.classes.map (·.name)).Nodup :=
    (reordered.classes.map _).nodup_iff.mp distinct
  rw [foldlM_build distinct fun entry _ => fresh entry.name] at done
  rw [foldlM_build distinct' fun entry _ => fresh entry.name]
  cases made : a.classes.mapM (ClassDefinition.make blank.defaultStyle) with
  | error cause =>
    rw [made] at done
    cases done
  | ok owners =>
    obtain ⟨others, made', same⟩ := exists_mapM_of_perm reordered.classes made
    rw [made] at done
    rw [made', ← Except.ok.inj done]
    exact ⟨_, rfl, rfl, same.append_left blank.classes⟩

theorem checkSuperclasses_of_isReordering {a b : Model} (reordered : a.IsReordering b)
    (distinct : a.HasDistinctClasses) (done : checkSuperclasses a = .ok ()) :
    checkSuperclasses b = .ok () := by
  rw [ModelDefinition.checkSuperclasses_eq_ok] at done ⊢
  intro owner found
  rw [reordered.class?_eq distinct]
  exact done owner (reordered.classes.mem_iff.mpr found)

/-- If a definition with distinct names builds, so does every reordering of it, and the models are
reorderings of each other. -/
theorem IsReordering.exists_build {a b : ModelDefinition} (reordered : a.IsReordering b)
    (distinct : (a.classes.map (·.name)).Nodup) {model : Model} (built : a.build = .ok model) :
    ∃ other, b.build = .ok other ∧ model.IsReordering other := by
  obtain ⟨blank, begun, built⟩ := exists_of_bind_eq_ok built
  obtain ⟨filled, classes, built⟩ := exists_of_bind_eq_ok built
  obtain ⟨_, checked, associations⟩ := exists_of_bind_eq_ok built
  have begun' : b.start = .ok blank := by
    rw [← begun, start, start, reordered.frame]
  have empty := classes_of_start begun
  obtain ⟨filled', classes', alike⟩ := reordered.exists_foldlM_build distinct empty classes
  have consistent : filled.IsConsistent := foldlM_keeps Model.IsConsistent
    (fun _ _ _ _ added kept => ClassDefinition.isConsistent_build added kept) classes
    (Model.isConsistent_of_classes_eq_nil empty)
  obtain ⟨other, associations', same, -⟩ := exists_foldlM_of_related
    (fun _ _ first second _ (alike : first.IsReordering second ∧ first.HasDistinctClasses) joined =>
      alike.1.exists_associate alike.2 joined)
    associations ⟨alike, consistent.distinct⟩
  refine ⟨other, ?_, same⟩
  have joined : b.associations = a.associations := by rw [reordered.frame]
  have checked' := checkSuperclasses_of_isReordering alike consistent.distinct checked
  refine (bind_of_eq_ok begun' _).trans ((bind_of_eq_ok classes' _).trans ?_)
  refine (bind_of_eq_ok checked' _).trans ?_
  rw [joined]
  exact associations'

end ModelDefinition

end ClassWeaver
