import ClassWeaver.Proofs.Generation.MemberText
import ClassWeaver.Proofs.Generation.Values

set_option autoImplicit false

/-!
The headers of generated methods and constructors. Main statements: the standard templates are
rendered piece by piece, the reading of a member finishes at the end of each template of a method, and
an update with such a template is read back under the key of the signature that its header prints.
-/

namespace ClassWeaver

namespace Template

@[simp] theorem renderPieces_nil (scope : Scope) : renderPieces scope [] = some "" := by
  rw [renderPieces]

@[simp] theorem renderPieces_text (scope : Scope) (content : String) (rest : Template) :
    renderPieces scope (.text content :: rest) =
      (renderPieces scope rest).map (content ++ ·) := by
  rw [renderPieces, renderPiece]
  cases renderPieces scope rest <;> rfl

private theorem value?_inScope (fields : List (String × Value)) (name : String) :
    Path.value? [⟨.record fields, []⟩] (.inScope 0 [name]) = some (fields.lookup name) := by
  have here : Scope.level [⟨.record fields, []⟩] 0 = .record fields := rfl
  rw [Path.value?, here, Value.parts?, Value.part?]
  cases fields.lookup name <;> rfl

@[simp] theorem renderPieces_var (fields : List (String × Value)) (name : String) (rest : Template) :
    renderPieces [⟨.record fields, []⟩] (var name :: rest) =
      (fields.lookup name).bind fun value =>
        (renderPieces [⟨.record fields, []⟩] rest).map (value.shown ++ ·) := by
  rw [renderPieces, var, renderPiece, Expression.value?, value?_inScope]
  cases fields.lookup name with
  | none => rfl
  | some value => cases renderPieces [⟨.record fields, []⟩] rest <;> rfl

@[simp] theorem renderPieces_when (fields : List (String × Value)) (name : String)
    (yes rest : Template) :
    renderPieces [⟨.record fields, []⟩] (Template.when name yes :: rest) =
      (renderPieces [⟨.record fields, []⟩]
        (if (fields.lookup name).any Value.isTruthy then yes else [])).bind fun text =>
          (renderPieces [⟨.record fields, []⟩] rest).map (text ++ ·) := by
  rw [renderPieces, Template.when, either, renderPiece, Expression.value?, value?_inScope]
  by_cases truthy : (fields.lookup name).any Value.isTruthy = true
  · rw [if_pos truthy, Option.bind_eq_bind, Option.bind_eq_bind, Option.bind_some, if_pos truthy]
    cases renderPieces [⟨.record fields, []⟩] yes with
    | none => rfl
    | some text => cases renderPieces [⟨.record fields, []⟩] rest <;> rfl
  · rw [if_neg truthy, Option.bind_eq_bind, Option.bind_eq_bind, Option.bind_some, if_neg truthy,
      renderPieces_nil]
    cases renderPieces [⟨.record fields, []⟩] rest <;> rfl

end Template

namespace Template.Standard

open Fragment.Source (Mode)

def isMethod : Standard → Bool
  | attributeGetter | attributeSetter | plainSetter | roleOneSetter | roleManyGetter | roleManyWith
  | roleManyWithout | firePropertyChange | listenersGetter | removeYou | tableConstructor
  | tableExpandAttribute | tableExpandRole | tableHasRole | tableToSet => true
  | _ => false

theorem follow_method {standard : Standard} (method : standard.isMethod = true) :
    followPieces? Mode.step Mode.isOpen standard.shape (.code .start) standard.template =
      some .finished := by
  cases standard <;> cases method
  all_goals
    simp only [template, Members.attributeGetter, Members.attributeSetter, Members.plainSetter,
      Members.roleOneSetter, Members.roleManyGetter, Members.roleManyWith, Members.roleManyWithout,
      Members.firePropertyChange, Members.listenersGetter, Members.removeYou, Tables.constructor,
      Tables.expandAttribute, Tables.expandRole, Tables.hasRole, Tables.toSet, Tables.newColumn,
      inOrder, line, when, either, forEach, var, List.flatten, List.append_eq, List.cons_append,
      List.nil_append, followPieces?, followPiece?, shape, attributeShape, roleShape, tableRoleShape,
      Shape.part?_record_cons, String.reduceEq, if_true, if_false, Option.any_some,
      Option.isSome_some, Shape.isPrinted, Bool.and_true]
    -- literals are cheap to run through only as lists of characters
    repeat rw [String.toList_ofList]
    decide +kernel

theorem follow_overriding {standard : Standard}
    (overriding : standard = toText ∨ standard = tableToText) :
    followPieces? Mode.step Mode.isOpen standard.shape (.code .start) (standard.template.drop 2) =
      some .finished := by
  rcases overriding with rfl | rfl
  all_goals
    simp only [template, Members.toText, Tables.toText, inOrder, line, forEach, item, List.flatten,
      List.append_eq, List.cons_append, List.nil_append, List.drop_succ_cons, List.drop_zero,
      followPieces?, followPiece?, shape, Shape.part?_record_cons, Shape.part?_nil, if_true,
      Option.any_some, Shape.isPrinted, Bool.and_true]
    repeat rw [String.toList_ofList]
    decide +kernel

end Template.Standard

namespace Generation

open Fragment.Member (IsMemberName typeKeywords)
open Signature (Param paramsText)
open Template (Standard Value inOrder line renderPieces)
open TypeText (IsTypeText)

/-- The parameters of a header with the characters of their types and names. -/
def paramsOf (params : List (String × String)) : List Param :=
  params.map fun param => (param.1.toList, param.2.toList)

def header (result name : String) (params : List (String × String)) : String :=
  String.ofList (indent ++ opening ("public".toList ++ ' ' :: result.toList) name.toList
    (paramsOf params))

def constructorHeader (name : String) (params : List (String × String)) : String :=
  String.ofList (indent ++ opening "public".toList name.toList (paramsOf params))

section Printed

variable {fields : List (String × Value)} {className title type partner : String}
  (owned : fields.lookup "className" = some (.text className))
  (titled : fields.lookup "capName" = some (.text title))
  (typed : fields.lookup "type" = some (.text type))
  (linked : fields.lookup "otherClass" = some (.text partner))

include typed titled in
theorem printed_getter :
    renderPieces [⟨.record fields, []⟩] (Standard.attributeGetter.template.take 7) =
      some (header type ("get" ++ title) []) := by
  simp [Standard.template, Template.Members.attributeGetter, inOrder, line, Value.shown, typed,
    titled]
  apply String.toList_inj.mp
  simp [header, indent, opening, paramsOf, paramsText]

include owned titled typed in
theorem printed_setter :
    renderPieces [⟨.record fields, []⟩] (Standard.attributeSetter.template.take 9) =
      some (header className ("set" ++ title) [(type, "value")]) := by
  simp [Standard.template, Template.Members.attributeSetter, inOrder, line, Value.shown, owned,
    titled, typed]
  apply String.toList_inj.mp
  simp [header, indent, opening, paramsOf, paramsText, Param.text]

theorem take_plainSetter :
    Standard.plainSetter.template.take 9 = Standard.attributeSetter.template.take 9 :=
  rfl

include owned titled linked in
theorem printed_roleOneSetter :
    renderPieces [⟨.record fields, []⟩] (Standard.roleOneSetter.template.take 9) =
      some (header className ("set" ++ title) [(partner, "value")]) := by
  simp [Standard.template, Template.Members.roleOneSetter, inOrder, line, Value.shown, owned,
    titled, linked]
  apply String.toList_inj.mp
  simp [header, indent, opening, paramsOf, paramsText, Param.text]

include titled linked in
theorem printed_roleManyGetter :
    renderPieces [⟨.record fields, []⟩] (Standard.roleManyGetter.template.take 7) =
      some (header ("List<" ++ partner ++ ">") ("get" ++ title) []) := by
  simp [Standard.template, Template.Members.roleManyGetter, inOrder, line, Value.shown, titled,
    linked]
  apply String.toList_inj.mp
  simp [header, indent, opening, paramsOf, paramsText]

include owned titled linked in
theorem printed_roleManyWith :
    renderPieces [⟨.record fields, []⟩] (Standard.roleManyWith.template.take 9) =
      some (header className ("with" ++ title) [(partner ++ "...", "value")]) := by
  simp [Standard.template, Template.Members.roleManyWith, inOrder, line, Value.shown, owned,
    titled, linked]
  apply String.toList_inj.mp
  simp [header, indent, opening, paramsOf, paramsText, Param.text]

include owned titled linked in
theorem printed_roleManyWithout :
    renderPieces [⟨.record fields, []⟩] (Standard.roleManyWithout.template.take 9) =
      some (header className ("without" ++ title) [(partner ++ "...", "value")]) := by
  simp [Standard.template, Template.Members.roleManyWithout, inOrder, line, Value.shown, owned,
    titled, linked]
  apply String.toList_inj.mp
  simp [header, indent, opening, paramsOf, paramsText, Param.text]

theorem printed_firePropertyChange :
    renderPieces [⟨.record fields, []⟩] (Standard.firePropertyChange.template.take 4) =
      some (header "boolean" "firePropertyChange"
        [("String", "propertyName"), ("Object", "oldValue"), ("Object", "newValue")]) := by
  simp [Standard.template, Template.Members.firePropertyChange, inOrder, line]
  rfl

theorem printed_listenersGetter :
    renderPieces [⟨.record fields, []⟩] (Standard.listenersGetter.template.take 3) =
      some (header "PropertyChangeSupport" "listeners" []) := by
  simp [Standard.template, Template.Members.listenersGetter, inOrder, line]
  apply String.toList_inj.mp
  simp [header, indent, opening, paramsOf, paramsText]

theorem printed_removeYou :
    renderPieces [⟨.record fields, []⟩] (Standard.removeYou.template.take 3) =
      some (header "void" "removeYou" []) := by
  simp [Standard.template, Template.Members.removeYou, inOrder, line]
  apply String.toList_inj.mp
  simp [header, indent, opening, paramsOf, paramsText]

theorem printed_overriding {standard : Standard}
    (overriding : standard = .toText ∨ standard = .tableToText) :
    renderPieces [⟨.record fields, []⟩] ((standard.template.drop 2).take 3) =
      some (header "String" "toString" []) := by
  have printed : header "String" "toString" [] = "   public String toString()\n   \x7b" := by
    apply String.toList_inj.mp
    simp [header, indent, opening, paramsOf, paramsText]
  rw [printed]
  rcases overriding with rfl | rfl <;>
    simp [Standard.template, Template.Members.toText, Template.Tables.toText, inOrder, line]

include owned in
theorem printed_tableConstructor :
    renderPieces [⟨.record fields, []⟩] (Standard.tableConstructor.template.take 7) =
      some (constructorHeader (className ++ "Table") [(className ++ "...", "start")]) := by
  simp [Standard.template, Template.Tables.constructor, inOrder, line, Value.shown, owned]
  apply String.toList_inj.mp
  simp [constructorHeader, indent, opening, paramsOf, paramsText, Param.text]

include owned titled in
theorem printed_tableExpandAttribute :
    renderPieces [⟨.record fields, []⟩] (Standard.tableExpandAttribute.template.take 7) =
      some (header (className ++ "Table") ("expand" ++ title) [("String...", "rowName")]) := by
  simp [Standard.template, Template.Tables.expandAttribute, inOrder, line, Value.shown, owned,
    titled]
  apply String.toList_inj.mp
  simp [header, indent, opening, paramsOf, paramsText, Param.text]

include titled linked in
theorem printed_tableExpandRole :
    renderPieces [⟨.record fields, []⟩] (Standard.tableExpandRole.template.take 7) =
      some (header (partner ++ "Table") ("expand" ++ title) [("String...", "rowName")]) := by
  simp [Standard.template, Template.Tables.expandRole, inOrder, line, Value.shown, titled, linked]
  apply String.toList_inj.mp
  simp [header, indent, opening, paramsOf, paramsText, Param.text]

include owned titled linked in
theorem printed_tableHasRole :
    renderPieces [⟨.record fields, []⟩] (Standard.tableHasRole.template.take 9) =
      some (header (className ++ "Table") ("has" ++ title) [(partner ++ "Table", "rowName")]) := by
  simp [Standard.template, Template.Tables.hasRole, inOrder, line, Value.shown, owned, titled,
    linked]
  apply String.toList_inj.mp
  simp [header, indent, opening, paramsOf, paramsText, Param.text]

include owned in
theorem printed_tableToSet :
    renderPieces [⟨.record fields, []⟩] (Standard.tableToSet.template.take 5) =
      some (header ("LinkedHashSet<" ++ className ++ ">") "toSet" []) := by
  simp [Standard.template, Template.Tables.toSet, inOrder, line, Value.shown, owned]
  apply String.toList_inj.mp
  simp [header, indent, opening, paramsOf, paramsText]

end Printed

/-- The words that generated methods have in front of the name of a property. -/
def accessorWords : List String :=
  ["get", "set", "with", "without", "expand", "has"]

theorem isMemberName_accessor (word : String) {name : String} (known : word ∈ accessorWords)
    (plain : Name.isPlain name = true) : IsMemberName (word ++ Text.capitalize name).toList := by
  have each : ∀ word ∈ accessorWords, word.toList ≠ [] ∧
      (∀ c ∈ word.toList, Name.isPart c = true) ∧
        ∀ keyword ∈ typeKeywords, ¬ word.toList <+: keyword.toList := by
    decide
  obtain ⟨filled, parts, free⟩ := each word known
  rw [String.toList_append]
  refine isMemberName_append filled (fun c found => ?_) free
  rcases List.mem_append.mp found with front | back
  · exact parts c front
  · exact isPart_capitalize plain c back

def paramNames : List String :=
  ["value", "start", "rowName", "propertyName", "oldValue", "newValue"]

theorem isSound_param {type name : String} (given : IsTypeText type.toList)
    (known : name ∈ paramNames) : Signature.Param.IsSound (type.toList, name.toList) := by
  have each : ∀ name ∈ paramNames, name.toList ≠ [] ∧
      (∀ c ∈ name.toList, Name.isPart c = true) ∧ name ∉ TypeText.structural := by
    decide
  obtain ⟨filled, parts, free⟩ := each name known
  exact ⟨given, filled, parts, by rwa [String.ofList_toList]⟩

def fixedTypes : List String :=
  ["String", "String...", "Object", "PropertyChangeSupport", "boolean", "void"]

theorem isTypeText_fixed {type : String} (known : type ∈ fixedTypes) : IsTypeText type.toList := by
  have each : ∀ type ∈ fixedTypes, type.toList ≠ [] ∧
      (∀ c ∈ type.toList, TypeText.isNamePart c = true) ∧ type ∉ TypeText.structural := by
    decide
  obtain ⟨filled, parts, free⟩ := each type known
  exact TypeText.isTypeText_of_parts filled parts (by rwa [String.ofList_toList])

theorem isSound_paramsOf_nil : ∀ param ∈ paramsOf [], param.IsSound := by
  simp [paramsOf]

theorem isSound_paramsOf_singleton (name : String) {type : String}
    (given : IsTypeText type.toList) (known : name ∈ paramNames) :
    ∀ param ∈ paramsOf [(type, name)], param.IsSound := by
  rw [paramsOf, List.map_singleton, List.forall_mem_singleton]
  exact isSound_param given known

end Generation

namespace Update

open Generation (IsQuiet header constructorHeader paramsOf)
open Fragment.Member (IsMemberName)
open Template (Standard Value renderPieces)
open TypeText (IsTypeText)

structure IsReadable (update : Update) : Prop where
  member : update.key.isMember = true
  blank : update.blank = 2
  printed : ∃ text, update.text Catalog.standard = .ok text ∧
    Generation.IsMemberText update.key text

theorem isReadable_ofMember {key : Fragment.Key} {standard : Standard} {values : Value}
    {remove : Bool} (member : key.isMember = true)
    (printed : ∃ text, standard.template.render values = some text ∧
      Generation.IsMemberText key text) : (ofMember key standard values remove).IsReadable where
  member := member
  blank := rfl
  printed := by
    obtain ⟨text, rendered, sound⟩ := printed
    exact ⟨text, text_of_render rendered, sound⟩

section Methods

variable {standard : Standard} {values : Value} {remove : Bool} {count : Nat} {result name : String}
  {types : List String} {params : List (String × String)}
  (shaped : values.HasShape IsQuiet standard.shape)
  (named : IsMemberName name.toList) (sound : ∀ param ∈ paramsOf params, param.IsSound)
include shaped named sound

theorem isReadable_method (method : standard.isMethod = true) (given : IsTypeText result.toList)
    (printed : renderPieces [⟨values, []⟩] (standard.template.take count) =
      some (header result name params))
    (same : types = (paramsOf params).map fun param => String.ofList param.1) :
    (ofMember (ClassFile.methodWith name types) standard values remove).IsReadable := by
  have whole := Generation.exists_method shaped (Standard.follow_method method) named sound given
    printed
  rw [String.ofList_toList, ← same] at whole
  exact isReadable_ofMember rfl whole

theorem isReadable_constructor (method : standard.isMethod = true)
    (printed : renderPieces [⟨values, []⟩] (standard.template.take count) =
      some (constructorHeader name params))
    (same : types = (paramsOf params).map fun param => String.ofList param.1) :
    (ofMember (.ofConstructor (.ofTypes name types)) standard values remove).IsReadable := by
  have whole := Generation.exists_constructor shaped (Standard.follow_method method) named sound
    printed
  rw [String.ofList_toList, ← same] at whole
  exact isReadable_ofMember rfl whole

end Methods

theorem isReadable_plainMethod {standard : Standard} {values : Value} {remove : Bool} {count : Nat}
    {result name : String} (shaped : values.HasShape IsQuiet standard.shape)
    (named : IsMemberName name.toList) (method : standard.isMethod = true)
    (given : IsTypeText result.toList)
    (printed : renderPieces [⟨values, []⟩] (standard.template.take count) =
      some (header result name [])) :
    (ofMember (ClassFile.plainMethod name) standard values remove).IsReadable := by
  have key : ClassFile.plainMethod name = ClassFile.methodWith name [] := rfl
  rw [key]
  exact isReadable_method shaped named Generation.isSound_paramsOf_nil method given printed rfl

theorem isReadable_overriding {standard : Standard}
    (overriding : standard = .toText ∨ standard = .tableToText) {fields : List (String × Value)}
    {remove : Bool} (shaped : (Value.record fields).HasShape IsQuiet standard.shape) :
    (ofMember (ClassFile.plainMethod "toString") standard (.record fields) remove).IsReadable := by
  have named : IsMemberName "toString".toList := ⟨by decide, by decide, by decide⟩
  have given : IsTypeText "String".toList := Generation.isTypeText_fixed (by decide)
  have annotated : standard.template =
      [.text "   @Override", .text "\n"] ++ standard.template.drop 2 := by
    rcases overriding with rfl | rfl <;> rfl
  have whole := Generation.exists_overriding shaped
    (Standard.follow_overriding overriding) named Generation.isSound_paramsOf_nil given
    (Generation.printed_overriding overriding) annotated
  rw [String.ofList_toList] at whole
  exact isReadable_ofMember rfl whole

end Update

end ClassWeaver
