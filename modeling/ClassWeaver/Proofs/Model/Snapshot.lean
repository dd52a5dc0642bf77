import ClassWeaver.Model.Snapshot
import ClassWeaver.Proofs.Yaml.Shapes

set_option autoImplicit false

/-!
Snapshots that are written and read back. Every part of a model is a record of its own, and every
record is taken as the part it was made of.

Main statement: `Snapshot.decode_encode`, a model is read back from its snapshot without its flags.
-/

namespace ClassWeaver

open Yaml (Node Record Tree)
open Yaml.Tree (IsRecord IsRegular areFields_of_forall isRegular_sequence)

/-! ### Models without flags -/

def Attribute.unmarked (owned : Attribute) : Attribute :=
  { owned with modified := false }

def Role.unmarked (role : Role) : Role :=
  { role with modified := false }

def Method.unmarked (method : Method) : Method :=
  { method with modified := false }

def ModelClass.unmarked (owner : ModelClass) : ModelClass :=
  { owner with
    attributes := owner.attributes.map Attribute.unmarked
    roles := owner.roles.map Role.unmarked
    methods := owner.methods.map Method.unmarked
    modified := false }

def Model.unmarked (model : Model) : Model :=
  { model with classes := model.classes.map ModelClass.unmarked }

def Role.HasWordIndex (role : Role) : Prop :=
  ∀ place ∈ role.other, place.index < Nat.pow 2 64

def Model.HasWordIndices (model : Model) : Prop :=
  ∀ owner ∈ model.classes, ∀ role ∈ owner.roles, role.HasWordIndex

/-! ### Records -/

def IsField (field : String × Tree) : Prop :=
  Tree.isFieldName field.1 = true ∧ field.2.IsRegular

theorem IsField.of_regular {name : String} (isName : Tree.isFieldName name = true) {value : Tree}
    (regular : value.IsRegular) : IsField (name, value) :=
  ⟨isName, regular⟩

theorem IsField.text {name : String} (isName : Tree.isFieldName name = true) (content : String) :
    IsField (name, .text content) :=
  ⟨isName, .text content⟩

theorem IsField.records {α : Type} {name : String} (isName : Tree.isFieldName name = true)
    {list : List α} {tree : α → Tree} (records : ∀ a ∈ list, (tree a).IsRecord) :
    IsField (name, .sequence (list.map tree)) :=
  ⟨isName, isRegular_sequence records⟩

theorem isField_optionalField {name : String} (isName : Tree.isFieldName name = true)
    (content : Option String) : ∀ field ∈ optionalField name content, IsField field := by
  cases content with
  | none => exact nofun
  | some text => exact List.forall_mem_singleton.2 (.text isName text)

theorem isRecord_of_isField {fields : List (String × Tree)} (ne_nil : fields ≠ [])
    (each : ∀ field ∈ fields, IsField field) : (Tree.record fields).IsRecord :=
  ⟨fields, rfl, areFields_of_forall ne_nil each⟩

namespace Attribute

theorem isRecord_toTree (owned : Attribute) : owned.toTree.IsRecord := by
  refine isRecord_of_isField (by simp) ?_
  simp only [List.forall_mem_append, List.forall_mem_cons]
  exact ⟨⟨⟨.text (by decide) _, .text (by decide) _, nofun⟩, isField_optionalField (by decide) _⟩,
    .text (by decide) _, nofun⟩

theorem ofNode?_toTree (owned : Attribute) : ofNode? owned.toTree.node = some owned.unmarked := by
  obtain ⟨name, type, initializer, style, modified⟩ := owned
  cases initializer <;>
    simp only [ofNode?, toTree, optionalField, List.append_nil, List.cons_append, List.nil_append,
      Node.record?_record, List.map_cons, List.map_nil, Prod.map_apply, id_eq, Record.required?,
      Record.optional?, Record.withDefault?, List.filter_cons_of_pos, List.filter_cons_of_neg,
      List.filter_nil, String.reduceBEq, BEq.rfl, Bool.false_eq_true, not_false_eq_true,
      Option.pure_def, Option.bind_eq_bind, Option.bind_some, Node.text?_text, Node.optional?_text,
      unmarked]

end Attribute

theorem RoleRef.isRecord_toTree (place : RoleRef) : place.toTree.IsRecord := by
  refine isRecord_of_isField (by simp) ?_
  simp only [List.forall_mem_cons]
  exact ⟨.text (by decide) _, .of_regular (by decide) (.number _), nofun⟩

theorem RoleRef.ofNode?_toTree {place : RoleRef} (short : place.index < Nat.pow 2 64) :
    ofNode? place.toTree.node = some place := by
  simp only [ofNode?, toTree, Node.record?_record, List.map_cons, List.map_nil, Prod.map_apply,
    id_eq, Record.required?, List.filter_cons_of_pos, List.filter_cons_of_neg, List.filter_nil,
    String.reduceBEq, BEq.rfl, Bool.false_eq_true, not_false_eq_true, Option.pure_def,
    Option.bind_eq_bind, Option.bind_some, Node.text?_text, Node.natural?_number short]

theorem RoleRef.ofNode?_toTree_eq_none {place : RoleRef} (long : ¬ place.index < Nat.pow 2 64) :
    ofNode? place.toTree.node = none := by
  simp only [ofNode?, toTree, Node.record?_record, List.map_cons, List.map_nil, Prod.map_apply,
    id_eq, Record.required?, List.filter_cons_of_pos, List.filter_cons_of_neg, List.filter_nil,
    String.reduceBEq, BEq.rfl, Bool.false_eq_true, not_false_eq_true, Option.pure_def,
    Option.bind_eq_bind, Option.bind_some, Option.bind_none, Node.text?_text,
    Node.natural?_number_eq_none long]

theorem Cardinality.ofNode?_text (cardinality : Cardinality) :
    ofNode? (Tree.text cardinality.text).node = some cardinality := by
  rw [ofNode?, Node.choice?_text]
  cases cardinality <;> decide

namespace Role

theorem isRecord_toTree (role : Role) : role.toTree.IsRecord := by
  have partner : ∀ field ∈ role.other.toList.map fun place => ("other", place.toTree),
      IsField field := by
    cases role.other with
    | none => exact nofun
    | some place =>
      exact List.forall_mem_singleton.2 (.of_regular (by decide) place.isRecord_toTree.isRegular)
  refine isRecord_of_isField (by simp) ?_
  simp only [List.forall_mem_append, List.forall_mem_cons]
  exact ⟨⟨isField_optionalField (by decide) _, .text (by decide) _, .text (by decide) _,
    .text (by decide) _, nofun⟩, partner⟩

theorem ofNode?_toTree {role : Role} (short : role.HasWordIndex) :
    ofNode? role.toTree.node = some role.unmarked := by
  obtain ⟨name, cardinality, collection, style, other, modified⟩ := role
  have partner : ∀ place ∈ other, Node.optional? RoleRef.ofNode? place.toTree.node
      = some (some place) := by
    intro place linked
    rw [RoleRef.toTree, Node.optional?_record, ← RoleRef.toTree,
      RoleRef.ofNode?_toTree (short place linked), Option.map_some]
  cases other with
  | none =>
    cases name <;>
      simp only [ofNode?, toTree, optionalField, List.append_nil, List.cons_append, List.nil_append,
        Option.toList_none, Node.record?_record, List.map_cons, List.map_nil, Prod.map_apply, id_eq,
        Record.required?, Record.optional?, Record.withDefault?, List.filter_cons_of_pos,
        List.filter_cons_of_neg, List.filter_nil, String.reduceBEq, BEq.rfl, Bool.false_eq_true,
        not_false_eq_true, Option.pure_def, Option.bind_eq_bind, Option.bind_some, Node.text?_text,
        Node.optional?_text, Cardinality.ofNode?_text, unmarked]
  | some place =>
    have linked := partner place rfl
    cases name <;>
      simp only [ofNode?, toTree, optionalField, List.cons_append, List.nil_append,
        Option.toList_some, Node.record?_record, List.map_cons, List.map_nil, Prod.map_apply, id_eq,
        Record.required?, Record.optional?, Record.withDefault?, List.filter_cons_of_pos,
        List.filter_cons_of_neg, List.filter_nil, String.reduceBEq, BEq.rfl, Bool.false_eq_true,
        not_false_eq_true, Option.pure_def, Option.bind_eq_bind, Option.bind_some, Node.text?_text,
        Node.optional?_text, Cardinality.ofNode?_text, linked, unmarked]

theorem ofNode?_toTree_eq_none {role : Role} (long : ¬ role.HasWordIndex) :
    ofNode? role.toTree.node = none := by
  obtain ⟨name, cardinality, collection, style, other, modified⟩ := role
  obtain ⟨place, rfl, far⟩ : ∃ place, other = some place ∧ ¬ place.index < Nat.pow 2 64 := by
    simpa [HasWordIndex] using long
  have linked : Node.optional? RoleRef.ofNode? place.toTree.node = none := by
    rw [RoleRef.toTree, Node.optional?_record, ← RoleRef.toTree,
      RoleRef.ofNode?_toTree_eq_none far, Option.map_none]
  cases name <;>
    simp only [ofNode?, toTree, optionalField, List.cons_append, List.nil_append,
      Option.toList_some, Node.record?_record, List.map_cons, List.map_nil, Prod.map_apply, id_eq,
      Record.required?, Record.optional?, Record.withDefault?, List.filter_cons_of_pos,
      List.filter_cons_of_neg, List.filter_nil, String.reduceBEq, BEq.rfl, Bool.false_eq_true,
      not_false_eq_true, Option.pure_def, Option.bind_eq_bind, Option.bind_some, Option.bind_none,
      Node.text?_text, Node.optional?_text, Cardinality.ofNode?_text, linked]

end Role

namespace Method

theorem isRecord_toTree (method : Method) : method.toTree.IsRecord := by
  refine isRecord_of_isField (by simp) ?_
  simp only [List.forall_mem_cons]
  exact ⟨.text (by decide) _, .text (by decide) _, nofun⟩

theorem ofNode?_toTree (method : Method) :
    ofNode? method.toTree.node = some method.unmarked := by
  simp only [ofNode?, toTree, Node.record?_record, List.map_cons, List.map_nil, Prod.map_apply,
    id_eq, Record.required?, Record.withDefault?, List.filter_cons_of_pos, List.filter_cons_of_neg,
    List.filter_nil, String.reduceBEq, BEq.rfl, Bool.false_eq_true, not_false_eq_true,
    Option.pure_def, Option.bind_eq_bind, Option.bind_some, Node.text?_text, unmarked]

end Method

namespace ModelClass

theorem isRecord_toTree (owner : ModelClass) : owner.toTree.IsRecord := by
  refine isRecord_of_isField (by simp) ?_
  simp only [List.forall_mem_append, List.forall_mem_cons]
  exact ⟨⟨⟨.text (by decide) _, nofun⟩, isField_optionalField (by decide) _⟩,
    .records (by decide) fun owned _ => owned.isRecord_toTree,
    .records (by decide) fun role _ => role.isRecord_toTree,
    .records (by decide) fun method _ => method.isRecord_toTree, nofun⟩

theorem ofNode?_toTree {owner : ModelClass} (short : ∀ role ∈ owner.roles, role.HasWordIndex) :
    ofNode? owner.toTree.node = some owner.unmarked := by
  have attributes : Node.list? Attribute.ofNode?
      (Tree.sequence (owner.attributes.map Attribute.toTree)).node
        = some (owner.attributes.map Attribute.unmarked) :=
    Node.list?_sequence fun owned _ => owned.ofNode?_toTree
  have roles := Node.list?_sequence fun role mem => Role.ofNode?_toTree (short role mem)
  have methods : Node.list? Method.ofNode?
      (Tree.sequence (owner.methods.map Method.toTree)).node
        = some (owner.methods.map Method.unmarked) :=
    Node.list?_sequence fun method _ => method.ofNode?_toTree
  cases extended : owner.superclass <;>
    simp only [ofNode?, toTree, extended, optionalField, List.append_nil, List.cons_append,
      List.nil_append, Node.record?_record, List.map_cons, List.map_nil, Prod.map_apply, id_eq,
      Record.required?, Record.optional?, Record.list?, Record.withDefault?,
      List.filter_cons_of_pos, List.filter_cons_of_neg, List.filter_nil, String.reduceBEq, BEq.rfl,
      Bool.false_eq_true, not_false_eq_true, Option.pure_def, Option.bind_eq_bind, Option.bind_some,
      Node.text?_text, Node.optional?_text, attributes, roles, methods, unmarked]

theorem ofNode?_toTree_eq_none {owner : ModelClass} {role : Role} (found : role ∈ owner.roles)
    (long : ¬ role.HasWordIndex) : ofNode? owner.toTree.node = none := by
  have attributes : Node.list? Attribute.ofNode?
      (Tree.sequence (owner.attributes.map Attribute.toTree)).node
        = some (owner.attributes.map Attribute.unmarked) :=
    Node.list?_sequence fun owned _ => owned.ofNode?_toTree
  have roles := Node.list?_sequence_eq_none found (Role.ofNode?_toTree_eq_none long)
  cases extended : owner.superclass <;>
    simp only [ofNode?, toTree, extended, optionalField, List.append_nil, List.cons_append,
      List.nil_append, Node.record?_record, List.map_cons, List.map_nil, Prod.map_apply, id_eq,
      Record.required?, Record.optional?, Record.list?, Record.withDefault?,
      List.filter_cons_of_pos, List.filter_cons_of_neg, List.filter_nil, String.reduceBEq, BEq.rfl,
      Bool.false_eq_true, not_false_eq_true, Option.pure_def, Option.bind_eq_bind, Option.bind_some,
      Option.bind_none, Node.text?_text, Node.optional?_text, attributes, roles]

end ModelClass

namespace Snapshot

section Fields

variable {model : Model}

theorem ofNode?_read_eq_bind (model : Model) :
    (Node.read (encode model).toList).bind Model.ofNode? =
      (Node.list? ModelClass.ofNode?
        (Tree.sequence (model.classes.map ModelClass.toTree)).node).map
          fun classes => { model with classes := classes } := by
  have regular : Tree.AreFields [
      ("package_name", .text model.package), ("main_java_dir", .text model.sourceFolder),
      ("default_role_type", .text model.defaultCollection),
      ("default_property_style", .text model.defaultStyle),
      ("classes", .sequence (model.classes.map ModelClass.toTree))] := by
    refine areFields_of_forall (by simp) ?_
    change ∀ field ∈ _, IsField field
    simp only [List.forall_mem_cons]
    exact ⟨.text (by decide) _, .text (by decide) _, .text (by decide) _, .text (by decide) _,
      .records (by decide) fun owner _ => owner.isRecord_toTree, nofun⟩
  rw [encode, Node.read_documentText regular, Option.bind_some]
  cases taken : Node.list? ModelClass.ofNode?
      (Tree.sequence (model.classes.map ModelClass.toTree)).node <;>
    simp only [Model.ofNode?, Node.record?_record, List.map_cons, List.map_nil, Prod.map_apply,
      id_eq, Record.required?, Record.list?, Record.withDefault?, List.filter_cons_of_pos,
      List.filter_cons_of_neg, List.filter_nil, String.reduceBEq, BEq.rfl, Bool.false_eq_true,
      not_false_eq_true, Option.pure_def, Option.bind_eq_bind, Option.bind_some, Option.bind_none,
      Option.map_some, Option.map_none, Node.text?_text, taken]

theorem ofNode?_read (short : model.HasWordIndices) :
    (Node.read (encode model).toList).bind Model.ofNode? = some model.unmarked := by
  have classes := Node.list?_sequence fun owner mem => ModelClass.ofNode?_toTree (short owner mem)
  rw [ofNode?_read_eq_bind, classes]
  rfl

theorem hasWordIndices_of_read {read : Model}
    (readable : (Node.read (encode model).toList).bind Model.ofNode? = some read) :
    model.HasWordIndices := by
  intro owner found role inside
  refine Classical.byContradiction fun long => ?_
  rw [ofNode?_read_eq_bind, Node.list?_sequence_eq_none found
    (ModelClass.ofNode?_toTree_eq_none inside long)] at readable
  cases readable

theorem eq_unmarked_of_decode {read : Model} (readable : decode (encode model) = .ok read) :
    read = model.unmarked := by
  rw [decode] at readable
  split at readable
  · next taken known =>
    rw [ofNode?_read (hasWordIndices_of_read known)] at known
    rw [← Except.ok.inj readable, Option.some.inj known]
  · cases readable

end Fields

/-- Every model is read back from its snapshot, whatever its texts are, but for its flags. -/
theorem decode_encode {model : Model} (short : model.HasWordIndices) :
    decode (encode model) = .ok model.unmarked := by
  rw [decode, ofNode?_read short]

private def oddModel : Model :=
  ⟨"null", " 0x1F", "- a: b # c", "", [
    ⟨"~", some "true\n", [⟨"\t'\"\\", "1.5e3", some "\n\n  a\n b\n\n", "Bean", true⟩],
      [⟨none, .many, "ä\u0085\u2028", "\x7b\x7d", some ⟨"A", Nat.pow 2 64 - 1⟩, true⟩,
        ⟨some "", .one, "&x *y", "? z", none, false⟩],
      [⟨"void f()", "return;\r\n", true⟩], true⟩]⟩

theorem decode_encode_oddModel : oddModel.HasWordIndices ∧
    decode (encode oddModel) = .ok oddModel.unmarked := by
  have short : oddModel.HasWordIndices := by
    simp [Model.HasWordIndices, oddModel, Role.HasWordIndex]
  exact ⟨short, decode_encode short⟩

end Snapshot

end ClassWeaver
