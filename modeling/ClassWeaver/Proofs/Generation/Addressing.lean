import ClassWeaver.Generation.FileKind
import ClassWeaver.Proofs.Model.Marking

set_option autoImplicit false

/-!
Which members of a file an element of a class addresses. Main statement: after comparing two models,
what an element without a flag addresses is addressed again by the element that is there now, so
that members nobody addresses any more belong to flagged elements and are removed.
-/

namespace ClassWeaver

/-- An element of a class whose code is generated: an attribute, a role with its name, or a method
that was declared by hand. -/
inductive Element where
  | ofAttribute (property : Attribute)
  | ofRole (name : String) (role : Role)
  | ofMethod (method : Method)

/-- What an element is recognised by. -/
inductive Label where
  | attributeNamed (name : String)
  | roleNamed (name : String)
  | methodWith (signature : Signature)
  deriving DecidableEq

namespace Element

def label : Element → Label
  | ofAttribute property => .attributeNamed property.name
  | ofRole name _ => .roleNamed name
  | ofMethod method => .methodWith method.signature

def isFlagged : Element → Bool
  | ofAttribute property => property.modified
  | ofRole _ role => role.modified
  | ofMethod method => method.modified

def updates (kind : FileKind) (model : Model) (owner : ModelClass) : Element → List Update
  | ofAttribute property =>
    match kind with
    | .classFile => ClassFile.attributeUpdates owner property
    | .tableFile => [TableFile.attributeUpdate owner property]
  | ofRole name role =>
    match kind with
    | .classFile => ClassFile.roleUpdates model owner name role
    | .tableFile => TableFile.roleUpdates owner name role
  | ofMethod method =>
    match kind with
    | .classFile => [ClassFile.methodUpdate owner method]
    | .tableFile => []

def keys (kind : FileKind) (model : Model) (owner : ModelClass) (element : Element) :
    List Fragment.Key :=
  (element.updates kind model owner).map (·.key)

end Element

namespace ModelClass

def elements (owner : ModelClass) : List Element :=
  owner.attributes.map .ofAttribute
    ++ owner.namedRoles.map (fun (name, role) => .ofRole name role)
    ++ owner.methods.map .ofMethod

variable {owner : ModelClass}

theorem mem_elements_ofAttribute {property : Attribute} :
    .ofAttribute property ∈ owner.elements ↔ property ∈ owner.attributes := by
  simp [elements]

theorem mem_elements_ofRole {name : String} {role : Role} :
    .ofRole name role ∈ owner.elements ↔ (name, role) ∈ owner.namedRoles := by
  simp [elements]

theorem mem_elements_ofMethod {method : Method} :
    .ofMethod method ∈ owner.elements ↔ method ∈ owner.methods := by
  simp [elements]

theorem mem_namedRoles_of_role? {name : String} {role : Role}
    (found : owner.role? (some name) = some role) : (name, role) ∈ owner.namedRoles := by
  rw [role?] at found
  rw [namedRoles]
  generalize owner.roles = roles at found
  induction roles with
  | nil => cases found
  | cons first rest ih =>
    rw [List.find?_cons] at found
    rw [firstNamed]
    cases named : first.name with
    | none =>
      rw [named] at found
      exact ih found
    | some label =>
      rw [named] at found
      by_cases same : label = name
      · have hit : first = role := by simpa [same] using found
        rw [same, hit]
        exact List.mem_cons_self
      · have unlike : (some label == some name) = false := by simpa using same
        rw [unlike] at found
        exact List.mem_cons_of_mem _ (List.mem_filter.mpr ⟨ih found, by simpa using Ne.symm same⟩)

end ModelClass

namespace FileKind

def frameUpdates (kind : FileKind) (model : Model) (owner : ModelClass) : List Update :=
  match kind with
  | classFile =>
    Update.frame model.package owner.name owner.superclass
      ++ (ClassFile.imports owner).map Update.ofImport
  | tableFile =>
    Update.frame (model.package ++ "." ++ TableFile.folder) (TableFile.tableName owner.name)
        (owner.superclass.map TableFile.tableName)
      ++ (TableFile.imports model owner).map Update.ofImport

/-- The updates of the members that every file has, whatever the elements of its class are. -/
def ownUpdates (kind : FileKind) (owner : ModelClass) : List Update :=
  match kind with
  | classFile =>
    ClassFile.listenerUpdates owner ++ [ClassFile.textUpdate owner, ClassFile.removeYouUpdate owner]
  | tableFile =>
    TableFile.constructorUpdate owner
      :: TableFile.fields.flatMap (TableFile.fieldUpdates owner) ++ TableFile.conversionUpdates owner

variable {kind : FileKind} {model : Model} {owner : ModelClass} {update : Update}

theorem mem_updates : update ∈ kind.updates model owner ↔
    update ∈ kind.frameUpdates model owner ∨
      (∃ element ∈ owner.elements, update ∈ element.updates kind model owner) ∨
        update ∈ kind.ownUpdates owner := by
  have elementwise : (∃ element ∈ owner.elements, update ∈ element.updates kind model owner) ↔
      (∃ property ∈ owner.attributes, update ∈ (Element.ofAttribute property).updates kind model owner)
        ∨ (∃ entry ∈ owner.namedRoles,
            update ∈ (Element.ofRole entry.1 entry.2).updates kind model owner)
          ∨ ∃ method ∈ owner.methods,
            update ∈ (Element.ofMethod method).updates kind model owner := by
    simp [ModelClass.elements, or_and_right, exists_or]
  rw [elementwise]
  cases kind <;>
    simp [updates, ClassFile.updates, TableFile.updates, frameUpdates, ownUpdates, Element.updates,
      or_assoc, or_left_comm, eq_comm]

theorem isMember_of_mem_frameUpdates (found : update ∈ kind.frameUpdates model owner) :
    update.key.isMember = false := by
  have framed {package name : String} {superclass : Option String}
      (inside : update ∈ Update.frame package name superclass) : update.key.isMember = false := by
    simp only [Update.frame, List.mem_cons, List.not_mem_nil, or_false] at inside
    rcases inside with rfl | rfl | rfl <;> rfl
  have imported {names : List String} (inside : update ∈ names.map Update.ofImport) :
      update.key.isMember = false := by
    obtain ⟨name, -, rfl⟩ := List.mem_map.mp inside
    rfl
  cases kind <;> exact (List.mem_append.mp found).elim framed imported

theorem keys_ownUpdates {now : ModelClass} (named : owner.name = now.name) :
    (kind.ownUpdates owner).map (·.key) = (kind.ownUpdates now).map (·.key) := by
  cases kind with
  | classFile => rfl
  | tableFile =>
    simp [ownUpdates, TableFile.constructorUpdate, TableFile.fields, TableFile.fieldUpdates,
      TableFile.conversionUpdates, Update.ofMember, named]

end FileKind

namespace Element

variable {kind : FileKind} {model other : Model} {owner now : ModelClass}

theorem remove_of_mem_updates {element : Element} {update : Update}
    (found : update ∈ element.updates kind model owner) : update.remove = element.isFlagged := by
  cases element with
  | ofAttribute property =>
    cases kind <;>
      simp only [updates, ClassFile.attributeUpdates, List.mem_cons, List.not_mem_nil,
        or_false] at found
    · rcases found with rfl | rfl | rfl <;> rfl
    · rw [found]
      rfl
  | ofRole name role =>
    cases linked : role.other with
    | none => cases kind <;> simp [updates, ClassFile.roleUpdates, TableFile.roleUpdates, linked] at found
    | some place =>
      cases kind <;>
        simp only [updates, ClassFile.roleUpdates, TableFile.roleUpdates, linked,
          ClassFile.linkedRoleUpdates] at found
      · split at found <;> simp only [List.mem_cons, List.not_mem_nil, or_false] at found
        · rcases found with rfl | rfl | rfl | rfl <;> rfl
        · rcases found with rfl | rfl | rfl <;> rfl
      · simp only [List.mem_cons, List.not_mem_nil, or_false] at found
        rcases found with rfl | rfl <;> rfl
  | ofMethod method =>
    cases kind <;> simp only [updates, List.mem_cons, List.not_mem_nil, or_false] at found
    rw [found]
    rfl

theorem keys_ofAttribute {a b : Attribute} (named : a.name = b.name) (typed : a.type = b.type) :
    (ofAttribute a).keys kind model owner = (ofAttribute b).keys kind other now := by
  cases kind <;>
    simp [keys, updates, ClassFile.attributeUpdates, TableFile.attributeUpdate, Update.ofMember,
      named, typed]

theorem keys_ofRole {name : String} {a b : Role} (cardinality : a.cardinality = b.cardinality)
    (partner : Marking.partnerClass a = Marking.partnerClass b) :
    (ofRole name a).keys kind model owner = (ofRole name b).keys kind other now := by
  have many : a.isMany = b.isMany := by rw [Role.isMany, Role.isMany, cardinality]
  rw [Marking.partnerClass, Marking.partnerClass] at partner
  cases linkedA : a.other with
  | none =>
    rw [linkedA] at partner
    have linkedB : b.other = none := Option.map_eq_none_iff.mp partner.symm
    cases kind <;>
      simp [keys, updates, ClassFile.roleUpdates, TableFile.roleUpdates, linkedA, linkedB]
  | some placeA =>
    rw [linkedA] at partner
    obtain ⟨placeB, linkedB, sameClass⟩ := Option.map_eq_some_iff.mp partner.symm
    cases kind with
    | classFile =>
      simp only [keys, updates, ClassFile.roleUpdates, linkedA, linkedB,
        ClassFile.linkedRoleUpdates, many, sameClass]
      split <;> rfl
    | tableFile =>
      simp [keys, updates, TableFile.roleUpdates, linkedA, linkedB, Update.ofMember, sameClass]

theorem keys_ofMethod {a b : Method} (signature : a.signature = b.signature)
    (named : owner.name = now.name) :
    (ofMethod a).keys kind model owner = (ofMethod b).keys kind other now := by
  cases kind <;>
    simp [keys, updates, ClassFile.methodUpdate, ClassFile.methodKey, Update.ofMember, signature,
      named]

end Element

section Marked

variable (kind : FileKind) {previous current : Model} {owner now : ModelClass}

theorem exists_element_of_unflagged (found : owner ∈ (Marking.mark previous current).1.classes)
    (known : current.class? owner.name = some now) {element : Element}
    (inside : element ∈ owner.elements) (bare : element.isFlagged = false) :
    ∃ same ∈ now.elements, same.label = element.label ∧
      same.keys kind current now = element.keys kind (Marking.mark previous current).1 owner := by
  have sound := Marking.isCurrent_mark found known
  cases element with
  | ofAttribute property =>
    have unchanged := sound.attributes property (ModelClass.mem_elements_ofAttribute.mp inside) bare
    obtain ⟨new, there, typed, -⟩ := Marking.exists_of_attributeChanged unchanged
    have named : new.name = property.name := by simpa using List.find?_some there
    exact ⟨.ofAttribute new, ModelClass.mem_elements_ofAttribute.mpr (List.mem_of_find?_eq_some there),
      by rw [Element.label, named]; rfl, Element.keys_ofAttribute named typed⟩
  | ofRole name role =>
    obtain ⟨inRoles, named⟩ :=
      ModelClass.mem_roles_of_mem_namedRoles (ModelClass.mem_elements_ofRole.mp inside)
    have unchanged := sound.roles role inRoles bare
    obtain ⟨new, matched, cardinality, -, partner⟩ := Marking.exists_of_roleChanged unchanged
    rw [Marking.matching?, named, Option.isSome_some, if_pos rfl] at matched
    exact ⟨.ofRole name new,
      ModelClass.mem_elements_ofRole.mpr (ModelClass.mem_namedRoles_of_role? matched), rfl,
      Element.keys_ofRole cardinality partner⟩
  | ofMethod method =>
    have unchanged := sound.methods method (ModelClass.mem_elements_ofMethod.mp inside) bare
    obtain ⟨new, there, signature⟩ := Marking.exists_of_methodChanged unchanged
    exact ⟨.ofMethod new, ModelClass.mem_elements_ofMethod.mpr there,
      by rw [Element.label, signature]; rfl,
      Element.keys_ofMethod signature (Model.name_of_class? known).2⟩

/-- Comparing two models lets no key go stale unnoticed. Every key that an element without a flag
addresses is addressed again by the element of its name or signature in the current class. So a
member that is addressed for the previous class and no longer for the current one belongs to flagged
elements only, and its update removes it. -/
theorem stale_member_is_removed (found : owner ∈ (Marking.mark previous current).1.classes)
    (known : current.class? owner.name = some now) :
    (∀ element ∈ owner.elements, element.isFlagged = false →
      ∃ same ∈ now.elements, same.label = element.label ∧
        same.keys kind current now = element.keys kind (Marking.mark previous current).1 owner ∧
        ∀ key ∈ same.keys kind current now,
          ∃ update ∈ kind.updates current now, update.key = key) ∧
    ∀ update ∈ kind.updates (Marking.mark previous current).1 owner,
      update.key.isMember = true →
      (∀ again ∈ kind.updates current now, again.key ≠ update.key) →
      update.remove = true ∧
      (∃ element ∈ owner.elements,
        update ∈ element.updates kind (Marking.mark previous current).1 owner) ∧
      ∀ element ∈ owner.elements,
        update.key ∈ element.keys kind (Marking.mark previous current).1 owner →
        element.isFlagged = true := by
  have addressed {element : Element} (inside : element ∈ now.elements) :
      ∀ key ∈ element.keys kind current now, ∃ update ∈ kind.updates current now,
        update.key = key := by
    intro key found
    obtain ⟨update, there, rfl⟩ := List.mem_map.mp found
    exact ⟨update, FileKind.mem_updates.mpr (.inr (.inl ⟨element, inside, there⟩)), rfl⟩
  have flagged_of_stale {key : Fragment.Key}
      (stale : ∀ again ∈ kind.updates current now, again.key ≠ key) {element : Element}
      (inside : element ∈ owner.elements)
      (its : key ∈ element.keys kind (Marking.mark previous current).1 owner) :
      element.isFlagged = true := by
    by_contra bare
    obtain ⟨same, there, -, keys⟩ :=
      exists_element_of_unflagged kind found known inside (by simpa using bare)
    obtain ⟨again, present, equal⟩ := addressed there key (keys ▸ its)
    exact stale again present equal
  constructor
  · intro element inside bare
    obtain ⟨same, there, label, keys⟩ := exists_element_of_unflagged kind found known inside bare
    exact ⟨same, there, label, keys, addressed there⟩
  · intro update inside member stale
    rcases FileKind.mem_updates.mp inside with framed | ⟨element, there, its⟩ | own
    · rw [FileKind.isMember_of_mem_frameUpdates framed] at member
      cases member
    · have flagged := flagged_of_stale stale there (List.mem_map_of_mem its)
      refine ⟨?_, ⟨element, there, its⟩, fun other inOwner => flagged_of_stale stale inOwner⟩
      rw [Element.remove_of_mem_updates its, flagged]
    · have kept := List.mem_map_of_mem (f := (·.key)) own
      rw [FileKind.keys_ownUpdates (Model.name_of_class? known).2.symm] at kept
      obtain ⟨again, present, equal⟩ := List.mem_map.mp kept
      exact absurd equal (stale again (FileKind.mem_updates.mpr (.inr (.inr present))))

end Marked

private def classOfNumbers (names : List String) : ModelClass :=
  { ModelClass.ofName "A" with attributes := names.map (⟨·, "int", none, pojoStyle, false⟩) }

private def modelOfNumbers (names : List String) : Model :=
  { Model.ofPackage "p" "src" with classes := [classOfNumbers names] }

/-- When the attribute `x` is dropped beside `y`, the members of `y` are addressed again and the
declaration of `x` is removed. -/
theorem dropped_attribute_is_removed :
    ∃ owner ∈ (Marking.mark (modelOfNumbers ["x", "y"]) (modelOfNumbers ["y"])).1.classes,
      (∃ same ∈ (classOfNumbers ["y"]).elements, same.label = .attributeNamed "y") ∧
      ∃ update ∈ FileKind.classFile.updates
          (Marking.mark (modelOfNumbers ["x", "y"]) (modelOfNumbers ["y"])).1 owner,
        update.key = .attributeOf "x" ∧ update.remove = true := by
  let x : Attribute := ⟨"x", "int", none, pojoStyle, true⟩
  let y : Attribute := ⟨"y", "int", none, pojoStyle, false⟩
  let owner : ModelClass := { ModelClass.ofName "A" with attributes := [x, y] }
  have found : owner ∈
      (Marking.mark (modelOfNumbers ["x", "y"]) (modelOfNumbers ["y"])).1.classes := by
    decide
  have known : (modelOfNumbers ["y"]).class? owner.name = some (classOfNumbers ["y"]) := by
    decide
  have stale : ∀ again ∈ FileKind.classFile.updates (modelOfNumbers ["y"]) (classOfNumbers ["y"]),
      again.key ≠ .attributeOf "x" := by
    decide
  obtain ⟨kept, removed⟩ := stale_member_is_removed .classFile found known
  refine ⟨owner, found, ?_, ?_⟩
  · obtain ⟨same, inside, label, -⟩ :=
      kept (.ofAttribute y) (ModelClass.mem_elements_ofAttribute.mpr (by decide)) rfl
    exact ⟨same, inside, label⟩
  · have present : (ClassFile.attributeUpdates owner x).head (by simp [ClassFile.attributeUpdates]) ∈
        FileKind.classFile.updates
          (Marking.mark (modelOfNumbers ["x", "y"]) (modelOfNumbers ["y"])).1 owner :=
      FileKind.mem_updates.mpr (.inr (.inl ⟨.ofAttribute x,
        ModelClass.mem_elements_ofAttribute.mpr (by decide), List.mem_cons_self⟩))
    exact ⟨_, present, rfl, (removed _ present rfl stale).1⟩

end ClassWeaver
