import ClassWeaver.Proofs.Template.Following
import ClassWeaver.Template.Catalog

set_option autoImplicit false

/-!
What the standard templates expect of their values. Main statement: every standard template has a
text for every value of its shape.
-/

namespace ClassWeaver.Template

namespace Value.HasShape

variable {fits : String → Prop}

theorem restrict {shapes fewer : List (String × Shape)} {value : Value}
    (shaped : HasShape fits (.record shapes) value)
    (known : ∀ entry ∈ fewer, shapes.lookup entry.1 = some entry.2) :
    HasShape fits (.record fewer) value := by
  have inside (name : String) (shape : Shape) (found : fewer.lookup name = some shape) :
      shapes.lookup name = some shape := by
    obtain ⟨front, back, rfl, -⟩ := List.lookup_eq_some_iff.mp found
    exact known (name, shape) (by simp)
  cases shaped with
  | record content found each =>
    exact record content (fun name shape here => found name shape (inside name shape here))
      fun name shape here => each name shape (inside name shape here)

end Value.HasShape

theorem Shape.part?_nil (shape : Shape) : shape.part? [] = some shape :=
  rfl

theorem Shape.part?_record_cons (name label : String) (shape : Shape)
    (rest : List (String × Shape)) : (Shape.record ((name, shape) :: rest)).part? [label] =
      if label = name then some shape else (Shape.record rest).part? [label] := by
  rw [part?, List.lookup_cons]
  by_cases same : label = name
  · rw [if_pos same, beq_iff_eq.mpr same]
  · rw [if_neg same, beq_false_of_ne same]
    rfl

def attributeShape : Shape :=
  .record [("className", .text), ("name", .text), ("capName", .text), ("type", .text),
    ("init", .optional), ("bean", .truth)]

def roleShape : Shape :=
  .record [("className", .text), ("name", .text), ("capName", .text), ("type", .text),
    ("otherClass", .text), ("otherNamed", .truth), ("otherCapName", .text), ("otherMany", .truth),
    ("roleType", .text), ("bean", .truth)]

def tableRoleShape : Shape :=
  .record [("className", .text), ("capName", .text), ("otherClass", .text), ("many", .truth)]

namespace Standard

def shape : Standard → Shape
  | package => .record [("packageName", .text)]
  | importLine => .record [("qualifiedName", .text)]
  | classDecl => .record [("name", .text), ("superClass", .optional)]
  | classEnd | listenersDecl | firePropertyChange | listenersGetter | tableToText => .record []
  | attributeDecl | attributeSetter | plainSetter => attributeShape
  -- the getters of attributes are those of roles with one partner, too
  | attributeGetter => .record [("name", .text), ("capName", .text), ("type", .text)]
  | roleOneDecl | roleOneSetter | roleManyDecl | roleManyGetter | roleManyWith
  | roleManyWithout => roleShape
  | method => .record [("declaration", .text), ("body", .text)]
  | toText => .record [("names", .list .text)]
  | removeYou =>
    .record [("roles",
      .list (.record [("capName", .text), ("many", .truth), ("otherClass", .text)]))]
  | tableConstructor | tableToSet => .record [("className", .text)]
  | tableExpandAttribute => .record [("className", .text), ("capName", .text)]
  | tableExpandRole | tableHasRole => tableRoleShape

theorem hasShape_getter_of_attribute {fits : String → Prop} {value : Value}
    (shaped : value.HasShape fits attributeShape) : value.HasShape fits attributeGetter.shape :=
  shaped.restrict (by simp [List.lookup_cons])

theorem hasShape_getter_of_role {fits : String → Prop} {value : Value}
    (shaped : value.HasShape fits roleShape) : value.HasShape fits attributeGetter.shape :=
  shaped.restrict (by simp [List.lookup_cons])

private theorem foldlM_some {σ : Type} (text : List Char) (state : σ) :
    text.foldlM (fun state _ => some state) state = some state := by
  induction text with
  | nil => rfl
  | cons c rest ih => exact ih

private theorem followPieces?_unit (standard : Standard) :
    followPieces? (fun (state : Unit) _ => some state) (fun _ => true) standard.shape ()
      standard.template = some () := by
  cases standard
  all_goals
    simp only [template, Members.package, Members.importLine, Members.classDecl, Members.classEnd,
      Members.attributeDecl, Members.attributeGetter, Members.attributeSetter, Members.plainSetter,
      Members.roleOneDecl, Members.roleOneSetter, Members.roleManyDecl, Members.roleManyGetter,
      Members.roleManyWith, Members.roleManyWithout, Members.listenersDecl,
      Members.firePropertyChange, Members.listenersGetter, Members.method, Members.toText,
      Members.removeYou, Tables.constructor, Tables.expandAttribute, Tables.expandRole,
      Tables.hasRole, Tables.toSet, Tables.toText, Tables.newColumn, inOrder, line, when, either,
      forEach, var, item, List.flatten, List.append_eq, List.cons_append, List.nil_append,
      followPieces?, followPiece?, foldlM_some, shape, attributeShape, roleShape, tableRoleShape,
      Shape.part?_record_cons, Shape.part?_nil, String.reduceEq, if_true, if_false, meet?, Option.any_some,
      Option.isSome_some, Option.bind_some, Shape.isPrinted, Bool.true_and]

theorem exists_render {standard : Standard} {value : Value}
    (shaped : value.HasShape (fun _ => True) standard.shape) :
    ∃ text, standard.template.render value = some text := by
  obtain ⟨text, rendered, -⟩ := exists_renderPieces
    (fun state text _ _ => foldlM_some text.toList state) [] [] shaped
    standard.template (followPieces?_unit standard)
  exact ⟨text, rendered⟩

end Standard

end ClassWeaver.Template
