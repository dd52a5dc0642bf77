import ClassWeaver.Proofs.Generation.Addressing
import ClassWeaver.Proofs.Template.Shapes

set_option autoImplicit false

/-!
What updates hand to their templates. Main statement: whatever the model is, every update of a file
has a text with the standard templates.
-/

namespace ClassWeaver

theorem Template.Standard.find?_name (standard : Standard) :
    Catalog.standard.find? standard.name = some standard.template := by
  cases standard <;> rfl

open Template (Standard Value)
open Template.Value (HasShape)

namespace Update

variable {fits : String → Prop}

theorem text_of_render {update : Update} {text : String}
    (rendered : update.template.template.render update.values = some text) :
    update.text Catalog.standard = .ok text := by
  rw [Update.text, Catalog.render, Template.Standard.find?_name, Option.bind_some, rendered]

def IsShaped (fits : String → Prop) (update : Update) : Prop :=
  update.values.HasShape fits update.template.shape

theorem IsShaped.exists_text {update : Update} (shaped : update.IsShaped fun _ => True) :
    ∃ text, update.text Catalog.standard = .ok text := by
  obtain ⟨text, rendered⟩ := Standard.exists_render shaped
  exact ⟨text, text_of_render rendered⟩

theorem IsShaped.of_values {key : Fragment.Key} {template : Standard} {values : Value}
    {remove : Bool} (shaped : values.HasShape fits template.shape) :
    (ofMember key template values remove).IsShaped fits :=
  shaped

theorem isShaped_frame {package name : String} {superclass : Option String}
    (packaged : fits package) (named : fits name) (above : ∀ parent, superclass = some parent →
      fits parent) : ∀ update ∈ frame package name superclass, update.IsShaped fits := by
  rw [frame, List.forall_mem_cons, List.forall_mem_cons, List.forall_mem_singleton]
  exact ⟨.cons (.text packaged) .nil, .cons (.text named) (.cons (.ofText? above) .nil), .nil⟩

theorem isShaped_ofImport {name : String} (fit : fits name) : (ofImport name).IsShaped fits :=
  .cons (.text fit) .nil

end Update

namespace ClassFile

variable {fits : String → Prop} {model : Model} {owner : ModelClass} {name : String} {role : Role}

theorem isShaped_attributeUpdates {property : Attribute} (className : fits owner.name)
    (named : fits property.name) (titled : fits (Text.capitalize property.name))
    (typed : fits property.type)
    (started : ∀ content, property.initializer = some content → fits content) :
    ∀ update ∈ attributeUpdates owner property, update.IsShaped fits := by
  have shaped : HasShape fits Template.attributeShape (.record [
      ("className", .text owner.name), ("name", .text property.name),
      ("capName", .text (Text.capitalize property.name)), ("type", .text property.type),
      ("init", .ofText? property.initializer), ("bean", .truth (property.style == beanStyle))]) :=
    .cons (.text className) <| .cons (.text named) <| .cons (.text titled) <|
      .cons (.text typed) <| .cons (.ofText? started) <| .cons .truth .nil
  rw [attributeUpdates]
  rw [List.forall_mem_cons, List.forall_mem_cons, List.forall_mem_singleton]
  have getter := Standard.hasShape_getter_of_attribute shaped
  exact ⟨Update.IsShaped.of_values shaped, Update.IsShaped.of_values getter,
    Update.IsShaped.of_values shaped⟩

theorem isShaped_linkedRoleUpdates {place : RoleRef} (className : fits owner.name)
    (named : fits name) (titled : fits (Text.capitalize name)) (partner : fits place.className)
    (counterpart : fits (Text.capitalize (((model.role? place).bind (·.name)).getD "")))
    (collected : fits role.collection) :
    ∀ update ∈ linkedRoleUpdates model owner name role place, update.IsShaped fits := by
  have shaped : HasShape fits Template.roleShape (.record [
      ("className", .text owner.name), ("name", .text name),
      ("capName", .text (Text.capitalize name)), ("type", .text place.className),
      ("otherClass", .text place.className),
      ("otherNamed", .truth ((model.role? place).bind (·.name)).isSome),
      ("otherCapName", capitalized (((model.role? place).bind (·.name)).getD "")),
      ("otherMany", .truth ((model.role? place).any (·.isMany))),
      ("roleType", .text role.collection), ("bean", .truth (role.style == beanStyle))]) :=
    .cons (.text className) <| .cons (.text named) <| .cons (.text titled) <|
      .cons (.text partner) <| .cons (.text partner) <| .cons .truth <| .cons (.text counterpart) <|
      .cons .truth <| .cons (.text collected) <| .cons .truth .nil
  rw [linkedRoleUpdates]
  split
  · rw [List.forall_mem_cons, List.forall_mem_cons, List.forall_mem_cons, List.forall_mem_singleton]
    exact ⟨Update.IsShaped.of_values shaped, Update.IsShaped.of_values shaped,
      Update.IsShaped.of_values shaped, Update.IsShaped.of_values shaped⟩
  · rw [List.forall_mem_cons, List.forall_mem_cons, List.forall_mem_singleton]
    have getter := Standard.hasShape_getter_of_role shaped
    exact ⟨Update.IsShaped.of_values shaped, Update.IsShaped.of_values getter,
    Update.IsShaped.of_values shaped⟩

theorem isShaped_methodUpdate {method : Method} (declared : fits (Text.trimmed method.declaration))
    (filled : fits (Text.trimmed method.body)) : (methodUpdate owner method).IsShaped fits :=
  .cons (.text declared) (.cons (.text filled) .nil)

theorem isShaped_listenerUpdates : ∀ update ∈ listenerUpdates owner, update.IsShaped fits := by
  rw [listenerUpdates]
  rw [List.forall_mem_cons, List.forall_mem_cons, List.forall_mem_singleton]
  exact ⟨.nil, .nil, .nil⟩

theorem isShaped_textUpdate
    (titled : ∀ property ∈ owner.attributes, fits (Text.capitalize property.name)) :
    (textUpdate owner).IsShaped fits := by
  refine .cons (.list fun value found => ?_) .nil
  obtain ⟨property, inside, rfl⟩ := List.mem_map.mp found
  have title := titled property (List.mem_filter.mp inside).1
  exact .text title

theorem isShaped_removeYouUpdate
    (titled : ∀ entry ∈ owner.namedRoles, fits (Text.capitalize entry.1))
    (partner : ∀ entry ∈ owner.namedRoles, ∀ place, entry.2.other = some place →
      fits place.className) : (removeYouUpdate owner).IsShaped fits := by
  refine .cons (.list fun value found => ?_) .nil
  obtain ⟨⟨name, role⟩, inside, kept⟩ := List.mem_filterMap.mp found
  obtain ⟨place, linked, rfl⟩ := Option.map_eq_some_iff.mp kept
  have title := titled (name, role) inside
  have className := partner (name, role) inside place linked
  exact .cons (.text title) <| .cons .truth <| .cons (.text className) .nil

end ClassFile

namespace TableFile

variable {fits : String → Prop} {owner : ModelClass}

theorem isShaped_constructorUpdate (className : fits owner.name) :
    (constructorUpdate owner).IsShaped fits :=
  .cons (.text className) .nil

theorem isShaped_fieldUpdates {field : Field} (tabled : fits (tableName owner.name))
    (named : fits field.name) (titled : fits (Text.capitalize field.name)) (typed : fits field.type)
    (started : fits field.initializer) :
    ∀ update ∈ fieldUpdates owner field, update.IsShaped fits := by
  have shaped : HasShape fits Template.attributeShape (.record [
      ("className", .text (tableName owner.name)), ("name", .text field.name),
      ("capName", .text (Text.capitalize field.name)), ("type", .text field.type),
      ("init", .text field.initializer), ("bean", .truth false)]) :=
    .cons (.text tabled) <| .cons (.text named) <| .cons (.text titled) <|
      .cons (.text typed) <| .cons (.present started) <| .cons .truth .nil
  rw [fieldUpdates]
  rw [List.forall_mem_cons, List.forall_mem_cons, List.forall_mem_singleton]
  have getter := Standard.hasShape_getter_of_attribute shaped
  exact ⟨Update.IsShaped.of_values shaped, Update.IsShaped.of_values getter,
    Update.IsShaped.of_values shaped⟩

theorem isShaped_attributeUpdate {property : Attribute} (className : fits owner.name)
    (titled : fits (Text.capitalize property.name)) :
    (attributeUpdate owner property).IsShaped fits :=
  .cons (.text className) (.cons (.text titled) .nil)

theorem isShaped_roleUpdates {name : String} {role : Role} (className : fits owner.name)
    (titled : fits (Text.capitalize name))
    (partner : ∀ place, role.other = some place → fits place.className) :
    ∀ update ∈ roleUpdates owner name role, update.IsShaped fits := by
  rw [roleUpdates]
  split
  · intro update found
    cases found
  · next place linked =>
    have shaped : HasShape fits Template.tableRoleShape (.record [
        ("className", .text owner.name), ("capName", .text (Text.capitalize name)),
        ("otherClass", .text place.className), ("many", .truth role.isMany)]) :=
      .cons (.text className) <| .cons (.text titled) <| .cons (.text (partner place linked)) <|
        .cons .truth .nil
    rw [List.forall_mem_cons, List.forall_mem_singleton]
    exact ⟨Update.IsShaped.of_values shaped, Update.IsShaped.of_values shaped⟩

theorem isShaped_conversionUpdates (className : fits owner.name) :
    ∀ update ∈ conversionUpdates owner, update.IsShaped fits := by
  rw [conversionUpdates]
  rw [List.forall_mem_cons, List.forall_mem_singleton]
  exact ⟨.cons (.text className) .nil, .nil⟩

end TableFile

variable {kind : FileKind} {model : Model} {owner : ModelClass} {update : Update}

private theorem FileKind.isShaped_frameUpdates (found : update ∈ kind.frameUpdates model owner) :
    update.IsShaped fun _ => True := by
  have imported {names : List String} (inside : update ∈ names.map Update.ofImport) :
      update.IsShaped fun _ => True := by
    obtain ⟨name, -, rfl⟩ := List.mem_map.mp inside
    exact Update.isShaped_ofImport trivial
  have framed {package name : String} {superclass : Option String}
      (inside : update ∈ Update.frame package name superclass) : update.IsShaped fun _ => True :=
    Update.isShaped_frame trivial trivial (fun _ _ => trivial) update inside
  cases kind <;> exact (List.mem_append.mp found).elim framed imported

private theorem Element.isShaped_updates {element : Element}
    (found : update ∈ element.updates kind model owner) : update.IsShaped fun _ => True := by
  cases element with
  | ofAttribute property =>
    cases kind with
    | classFile =>
      exact ClassFile.isShaped_attributeUpdates trivial trivial trivial trivial
        (fun _ _ => trivial) update found
    | tableFile =>
      rw [List.mem_singleton.mp found]
      exact TableFile.isShaped_attributeUpdate trivial trivial
  | ofRole name role =>
    cases kind with
    | classFile =>
      rw [updates, ClassFile.roleUpdates] at found
      cases linked : role.other with
      | none => simp [linked] at found
      | some place =>
        simp only [linked] at found
        exact ClassFile.isShaped_linkedRoleUpdates trivial trivial trivial trivial trivial trivial
          update found
    | tableFile =>
      exact TableFile.isShaped_roleUpdates trivial trivial (fun _ _ => trivial) update found
  | ofMethod method =>
    cases kind with
    | classFile =>
      rw [List.mem_singleton.mp found]
      exact ClassFile.isShaped_methodUpdate trivial trivial
    | tableFile => cases found

private theorem FileKind.isShaped_ownUpdates (found : update ∈ kind.ownUpdates owner) :
    update.IsShaped fun _ => True := by
  cases kind with
  | classFile =>
    simp only [ownUpdates, List.mem_append, List.mem_cons, List.not_mem_nil, or_false] at found
    rcases found with inside | rfl | rfl
    · exact ClassFile.isShaped_listenerUpdates update inside
    · exact ClassFile.isShaped_textUpdate fun _ _ => trivial
    · exact ClassFile.isShaped_removeYouUpdate (fun _ _ => trivial) fun _ _ _ _ => trivial
  | tableFile =>
    simp only [ownUpdates, List.cons_append, List.mem_cons, List.mem_append, List.mem_flatMap]
      at found
    rcases found with rfl | ⟨field, -, inside⟩ | inside
    · exact TableFile.isShaped_constructorUpdate trivial
    · exact TableFile.isShaped_fieldUpdates trivial trivial trivial trivial trivial update inside
    · exact TableFile.isShaped_conversionUpdates trivial update inside

theorem FileKind.exists_text (found : update ∈ kind.updates model owner) :
    ∃ text, update.text Catalog.standard = .ok text := by
  rcases mem_updates.mp found with framed | ⟨element, -, inside⟩ | own
  · exact (isShaped_frameUpdates framed).exists_text
  · exact (Element.isShaped_updates inside).exists_text
  · exact (isShaped_ownUpdates own).exists_text

end ClassWeaver
