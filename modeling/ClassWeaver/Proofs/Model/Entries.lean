import ClassWeaver.Proofs.Model.Building
import Mathlib.Data.List.Perm.Basic

set_option autoImplicit false

/-!
The classes of a definition, each on its own. What an entry makes of its class does not depend on the
classes that are there already, so the entries can be made one by one and put together afterwards.

Main statements: `ClassDefinition.build_eq`, an entry adds the class that it makes;
`ModelDefinition.foldlM_build`, all entries add the classes that they make.
-/

namespace ClassWeaver

theorem modifyFirst_append_singleton {α : Type} {p : α → Bool} {change : α → α} {list : List α}
    {last : α} (free : ∀ a ∈ list, p a = false) (hit : p last = true) :
    modifyFirst p change (list ++ [last]) = list ++ [change last] := by
  induction list with
  | nil => rw [List.nil_append, modifyFirst, if_pos hit, List.nil_append]
  | cons first rest ih =>
    obtain ⟨here, later⟩ := List.forall_mem_cons.mp free
    rw [List.cons_append, modifyFirst, here, if_neg Bool.false_ne_true, ih later, List.cons_append]

theorem mapM_eq_ok_iff {ε α β : Type} {step : α → Except ε β} {list : List α} {results : List β} :
    list.mapM step = .ok results ↔ List.Forall₂ (fun a b => step a = .ok b) list results := by
  induction list generalizing results with
  | nil =>
    rw [List.mapM_nil, List.forall₂_nil_left_iff]
    exact ⟨fun done => (Except.ok.inj done).symm, fun empty => by rw [empty]; rfl⟩
  | cons a rest ih =>
    rw [List.mapM_cons]
    constructor
    · intro done
      obtain ⟨b, here, done⟩ := exists_of_bind_eq_ok done
      obtain ⟨later, there, done⟩ := exists_of_bind_eq_ok done
      rw [← Except.ok.inj done]
      exact .cons here (ih.mp there)
    · rintro (_ | ⟨here, later⟩)
      rw [here, ih.mpr later]
      rfl

theorem exists_mapM_of_perm {ε α β : Type} {step : α → Except ε β} {list other : List α}
    {results : List β} (reordered : list.Perm other) (done : list.mapM step = .ok results) :
    ∃ there, other.mapM step = .ok there ∧ results.Perm there := by
  obtain ⟨there, each, same⟩ :=
    List.perm_comp_forall₂ reordered.symm (mapM_eq_ok_iff.mp done)
  exact ⟨there, mapM_eq_ok_iff.mpr each, same.symm⟩

/-! ### Classes on their own -/

/-- Adds an attribute to a class, in its own style or else in a given one. -/
def AttributeDefinition.extend (style : String) (definition : AttributeDefinition)
    (owner : ModelClass) : Except Error ModelClass := do
  (Name.checkSimple definition.name).mapError Error.invalidName
  if Model.hasMember owner definition.name then
    .error (.invalidName (.duplicateAttribute definition.name owner.name))
  else
    let added : Attribute := ⟨definition.name, definition.type, definition.initializer,
      definition.style.getD style, false⟩
    return { owner with attributes := owner.attributes ++ [added] }

def MethodDefinition.extend (definition : MethodDefinition) (owner : ModelClass) :
    Except Error ModelClass :=
  let added : Method := ⟨definition.declaration, definition.body, false⟩
  if owner.methods.any (·.sameSignature added) then
    .error (.invalidName (.duplicateMethod added.signature.text owner.name))
  else .ok { owner with methods := owner.methods ++ [added] }

def ModelClass.create (name : String) : Except Error ModelClass := do
  (Name.checkSimple name).mapError Error.invalidName
  (Name.checkJavaLang name).mapError Error.invalidName
  return .ofName name

/-- The class of an entry, with its attributes in a given style unless they have one. -/
def ClassDefinition.make (style : String) (definition : ClassDefinition) :
    Except Error ModelClass := do
  let owner ← ModelClass.create definition.name
  let owner ← definition.attributes.foldlM (fun owner property => property.extend style owner) owner
  let owner ← definition.methods.foldlM (fun owner method => method.extend owner) owner
  match definition.superclass with
  | none => return owner
  | some superclass =>
    (Name.checkSimple superclass).mapError Error.invalidName
    return { owner with superclass := some superclass }

section Names

variable {style : String} {owner after : ModelClass}

theorem ModelClass.name_of_create {name : String} (done : create name = .ok after) :
    after.name = name := by
  obtain ⟨-, -, done⟩ := exists_of_bind_eq_ok done
  obtain ⟨-, -, done⟩ := exists_of_bind_eq_ok done
  rw [← Except.ok.inj done]
  rfl

theorem AttributeDefinition.name_of_extend {definition : AttributeDefinition}
    (done : definition.extend style owner = .ok after) : after.name = owner.name := by
  obtain ⟨-, -, done⟩ := exists_of_bind_eq_ok done
  split at done
  · cases done
  · rw [← Except.ok.inj done]

theorem MethodDefinition.name_of_extend {definition : MethodDefinition}
    (done : definition.extend owner = .ok after) : after.name = owner.name := by
  rw [extend] at done
  split at done
  · cases done
  · rw [← Except.ok.inj done]

theorem AttributeDefinition.name_of_foldlM {definitions : List AttributeDefinition}
    (done : definitions.foldlM (fun owner property => property.extend style owner) owner = .ok after) :
    after.name = owner.name :=
  foldlM_keeps (fun later => later.name = owner.name)
    (fun _ _ _ _ stepped kept => (name_of_extend stepped).trans kept) done rfl

theorem MethodDefinition.name_of_foldlM {definitions : List MethodDefinition}
    (done : definitions.foldlM (fun owner method => method.extend owner) owner = .ok after) :
    after.name = owner.name :=
  foldlM_keeps (fun later => later.name = owner.name)
    (fun _ _ _ _ stepped kept => (name_of_extend stepped).trans kept) done rfl

theorem ClassDefinition.name_of_make {definition : ClassDefinition}
    (done : definition.make style = .ok after) : after.name = definition.name := by
  obtain ⟨blank, created, done⟩ := exists_of_bind_eq_ok done
  obtain ⟨attributed, properties, done⟩ := exists_of_bind_eq_ok done
  obtain ⟨complete, methods, done⟩ := exists_of_bind_eq_ok done
  have same : complete.name = definition.name :=
    (MethodDefinition.name_of_foldlM methods).trans
      ((AttributeDefinition.name_of_foldlM properties).trans (ModelClass.name_of_create created))
  split at done
  · rwa [← Except.ok.inj done]
  · obtain ⟨-, -, done⟩ := exists_of_bind_eq_ok done
    rwa [← Except.ok.inj done]

end Names

/-! ### Classes in a model -/

namespace Model

def withClasses (model : Model) (added : List ModelClass) : Model :=
  { model with classes := model.classes ++ added }

variable {model : Model} {owner : ModelClass} {name : String}

theorem withClasses_withClasses (model : Model) (first second : List ModelClass) :
    (model.withClasses first).withClasses second = model.withClasses (first ++ second) := by
  rw [withClasses, withClasses, withClasses, List.append_assoc]

theorem class?_withClasses_singleton (model : Model) (owner : ModelClass) (name : String) :
    (model.withClasses [owner]).class? name =
      (model.class? name).or (if owner.name = name then some owner else none) := by
  rw [class?, withClasses, class?, List.find?_append, List.find?_singleton]
  simp only [beq_iff_eq]

theorem ensureClass_eq (fresh : model.class? name = none) :
    model.ensureClass name =
      (ModelClass.create name).map fun owner => model.withClasses [owner] := by
  rw [ensureClass, ModelClass.create, fresh]
  cases Name.checkSimple name with
  | error cause => rfl
  | ok _ => cases Name.checkJavaLang name <;> rfl

theorem modifyClass_withClasses (fresh : model.class? owner.name = none)
    (change : ModelClass → ModelClass) :
    (model.withClasses [owner]).modifyClass owner.name change =
      model.withClasses [change owner] := by
  have free : ∀ other ∈ model.classes, (other.name == owner.name) = false := by
    simpa [class?] using fresh
  rw [modifyClass, withClasses, withClasses, modifyFirst_append_singleton free (by simp)]

theorem setStyle_withClasses (owner : ModelClass) (fresh : model.class? owner.name = none)
    (style : String) :
    (model.withClasses [owner]).setStyle owner.name style =
      model.withClasses [{ owner with attributes := restyleLast style owner.attributes }] :=
  modifyClass_withClasses fresh _

theorem editClass_withClasses (fresh : model.class? owner.name = none)
    (step : ModelClass → Except Error ModelClass) :
    (model.withClasses [owner]).editClass owner.name step =
      (step owner).map fun changed => model.withClasses [changed] := by
  have known : (model.withClasses [owner]).class? owner.name = some owner := by
    rw [class?_withClasses_singleton, fresh, if_pos rfl, Option.none_or]
  rw [editClass, known]
  dsimp only
  cases step owner with
  | error cause => rfl
  | ok changed => exact congrArg Except.ok (modifyClass_withClasses fresh _)

theorem restyleLast_append (style : String) (attributes : List Attribute) (last : Attribute) :
    restyleLast style (attributes ++ [last]) = attributes ++ [{ last with style := style }] := by
  induction attributes with
  | nil => rfl
  | cons first rest ih =>
    cases rest with
    | nil => rfl
    | cons second rest =>
      rw [List.cons_append, List.cons_append, restyleLast, ← List.cons_append, ih]
      rfl

end Model

section Entries

variable {model : Model} {owner : ModelClass} {name : String}

open Model

theorem AttributeDefinition.build_eq (definition : AttributeDefinition)
    (fresh : model.class? name = none) (named : owner.name = name) :
    definition.build name (model.withClasses [owner]) =
      (definition.extend model.defaultStyle owner).map fun changed =>
        model.withClasses [changed] := by
  subst named
  rw [build, addAttribute, editClass_withClasses fresh, extend]
  cases Name.checkSimple definition.name with
  | error cause => rfl
  | ok _ =>
    by_cases taken : hasMember owner definition.name = true
    · simp only [taken]
      rfl
    · simp only [taken]
      cases definition.style with
      | none => rfl
      | some style =>
        let changed : ModelClass :=
          { owner with attributes := owner.attributes ++ [⟨definition.name, definition.type,
              definition.initializer, model.defaultStyle, false⟩] }
        refine congrArg Except.ok ((setStyle_withClasses changed fresh style).trans ?_)
        rw [restyleLast_append]
        rfl

theorem MethodDefinition.build_eq (definition : MethodDefinition)
    (fresh : model.class? name = none) (named : owner.name = name) :
    (model.withClasses [owner]).addMethod name definition.declaration definition.body =
      (definition.extend owner).map fun changed => model.withClasses [changed] := by
  subst named
  rw [addMethod, editClass_withClasses fresh]
  rfl

theorem AttributeDefinition.foldlM_build (definitions : List AttributeDefinition)
    (fresh : model.class? name = none) (named : owner.name = name) :
    definitions.foldlM (fun model property => property.build name model)
        (model.withClasses [owner]) =
      (definitions.foldlM (fun (owner : ModelClass) (property : AttributeDefinition) =>
        property.extend model.defaultStyle owner) owner).map
          fun changed => model.withClasses [changed] :=
  foldlM_map (fun changed => model.withClasses [changed]) (fun owner => owner.name = name)
    (fun property _ _ same => AttributeDefinition.build_eq property fresh same)
    (fun _ _ _ _ done same => (AttributeDefinition.name_of_extend done).trans same) named

theorem MethodDefinition.foldlM_build (definitions : List MethodDefinition)
    (fresh : model.class? name = none) (named : owner.name = name) :
    definitions.foldlM (fun model method =>
        model.addMethod name method.declaration method.body) (model.withClasses [owner]) =
      (definitions.foldlM (fun (owner : ModelClass) (method : MethodDefinition) =>
        method.extend owner) owner).map fun changed => model.withClasses [changed] :=
  foldlM_map (fun changed => model.withClasses [changed]) (fun owner => owner.name = name)
    (fun method _ _ same => MethodDefinition.build_eq method fresh same)
    (fun _ _ _ _ done same => (MethodDefinition.name_of_extend done).trans same) named

theorem ClassDefinition.build_eq (definition : ClassDefinition)
    (fresh : model.class? definition.name = none) :
    definition.build model =
      (definition.make model.defaultStyle).map fun owner => model.withClasses [owner] := by
  refine bind_eq_map_bind (ensureClass_eq fresh) fun blank created => ?_
  have first := ModelClass.name_of_create created
  refine bind_eq_map_bind (AttributeDefinition.foldlM_build definition.attributes fresh first)
    fun attributed properties => ?_
  have second := (AttributeDefinition.name_of_foldlM properties).trans first
  refine bind_eq_map_bind (MethodDefinition.foldlM_build definition.methods fresh second)
    fun complete methods => ?_
  have third := (MethodDefinition.name_of_foldlM methods).trans second
  cases definition.superclass with
  | none => rfl
  | some superclass =>
    dsimp only
    rw [setSuperclass, ← third, editClass_withClasses (third ▸ fresh)]
    rfl

theorem ModelDefinition.foldlM_build {classes : List ClassDefinition} {model : Model}
    (distinct : (classes.map (·.name)).Nodup)
    (fresh : ∀ entry ∈ classes, model.class? entry.name = none) :
    classes.foldlM (fun model entry => entry.build model) model =
      (classes.mapM (ClassDefinition.make model.defaultStyle)).map model.withClasses := by
  induction classes generalizing model with
  | nil =>
    rw [List.foldlM_nil, List.mapM_nil]
    exact congrArg Except.ok (by rw [withClasses, List.append_nil])
  | cons entry rest ih =>
    obtain ⟨new, distinct⟩ := List.nodup_cons.mp distinct
    obtain ⟨here, later⟩ := List.forall_mem_cons.mp fresh
    rw [List.foldlM_cons, List.mapM_cons]
    refine bind_eq_map_bind (entry.build_eq here) fun owner made => ?_
    have fresh' : ∀ other ∈ rest, (model.withClasses [owner]).class? other.name = none := by
      intro other found
      have apart : owner.name ≠ other.name := by
        rw [ClassDefinition.name_of_make made]
        exact fun same => new (List.mem_map.mpr ⟨other, found, same.symm⟩)
      rw [class?_withClasses_singleton, later other found, if_neg apart, Option.or_none]
    have style : (model.withClasses [owner]).defaultStyle = model.defaultStyle := rfl
    rw [ih distinct fresh', style]
    cases rest.mapM (ClassDefinition.make model.defaultStyle) with
    | error cause => rfl
    | ok owners => exact congrArg Except.ok (withClasses_withClasses model [owner] owners)

end Entries

end ClassWeaver
