import ClassWeaver.Proofs.Generation.Headers
import ClassWeaver.Proofs.Model.Plain

set_option autoImplicit false

/-!
The members of class files. Main statement: with plain names, types and initializers every member that
is generated for a class is read back under its key.
-/

namespace ClassWeaver

namespace Generation

open Template (Standard Value inOrder line)
open TypeText (IsTypeText)

theorem isQuiet_of_isPlain {name : String} (plain : Name.isPlain name = true) : IsQuiet name :=
  isQuiet_of_isPart (isPart_of_isPlain plain)

theorem isQuiet_capitalize {name : String} (plain : Name.isPlain name = true) :
    IsQuiet (Text.capitalize name) :=
  isQuiet_of_isPart (isPart_capitalize plain)

theorem isQuiet_of_isDotted {text : String} (dotted : Text.isDotted text = true) : IsQuiet text :=
  Fragment.Source.isSilent_of_isNeutral (Text.isNeutral_of_isDotted dotted)

theorem isTypeText_of_isPlain {name : String} (plain : Name.isPlain name = true) :
    IsTypeText name.toList :=
  TypeText.isTypeText_of_isType (Name.isType_of_isPlain plain)

theorem isTypeText_variadic {name : String} (plain : Name.isPlain name = true) :
    IsTypeText (name ++ "...").toList := by
  rw [String.toList_append]
  exact TypeText.isTypeText_variadic (Name.isQualified_of_isSimple (Name.of_isPlain plain).1)

theorem isQuiet_of_isTypeText {type : String} (given : IsTypeText type.toList) : IsQuiet type :=
  Fragment.Source.isSilent_of_isNeutral (isNeutral_of_isTypeText given)

theorem isTypeText_collection (collection : String) {name : String}
    (known : collection ∈ ["List", "LinkedHashSet"]) (plain : Name.isPlain name = true) :
    IsTypeText (collection ++ "<" ++ name ++ ">").toList := by
  have qualified : ∀ collection ∈ ["List", "LinkedHashSet"],
      Name.isQualified collection = true := by
    decide
  have whole := TypeText.isTypeText_of_isType (.generic (qualified collection known)
    (.single (.type (Name.isType_of_isPlain plain))))
  simpa using whole

/-- The characters of the initializer that the template of attributes prints, if it prints one. -/
def initializerChars (initializer : Option String) : Option (List Char) :=
  (initializer.filter (! ·.isEmpty)).map String.toList

section Declarations

variable {fields : List (String × Value)} {name type partner : String} {initializer : Option String}
  (named : fields.lookup "name" = some (.text name))

include named in
theorem render_attributeDecl (typed : fields.lookup "type" = some (.text type))
    (started : fields.lookup "init" = some (.ofText? initializer)) :
    Standard.attributeDecl.template.render (.record fields) =
      some (String.ofList (indent ++ (constantChars name.toList ++ ("\n\n".toList ++ indent)
        ++ fieldChars type.toList name.toList (initializerChars initializer)))) := by
  rw [Template.render]
  simp [Standard.template, Template.Members.attributeDecl, inOrder, line, Value.shown, named, typed,
    started]
  have truthy : (Value.ofText? initializer).isTruthy = (initializerChars initializer).isSome := by
    cases initializer with
    | none => rfl
    | some content =>
      by_cases empty : content.isEmpty = true <;>
        simp [Value.ofText?, Value.isTruthy, initializerChars, Option.filter, empty]
  rw [truthy]
  cases initialized : initializerChars initializer with
  | none =>
    simp
    apply String.toList_inj.mp
    unfold constantChars fieldChars
    simp [indent]
  | some chars =>
    have content : (Value.ofText? initializer).shown.toList = chars := by
      obtain ⟨text, known, rfl⟩ := Option.map_eq_some_iff.mp initialized
      rw [(Option.filter_eq_some_iff.mp known).1]
      rfl
    simp [started]
    apply String.toList_inj.mp
    unfold constantChars fieldChars
    simp [indent, content]

include named in
theorem render_roleOneDecl (linked : fields.lookup "otherClass" = some (.text partner)) :
    Standard.roleOneDecl.template.render (.record fields) =
      some (String.ofList (indent ++ (constantChars name.toList ++ ("\n\n".toList ++ indent)
        ++ fieldChars partner.toList name.toList none))) := by
  rw [Template.render]
  simp [Standard.template, Template.Members.roleOneDecl, inOrder, line, Value.shown, named, linked]
  apply String.toList_inj.mp
  unfold constantChars fieldChars
  simp [indent]

include named in
theorem render_roleManyDecl (linked : fields.lookup "otherClass" = some (.text partner)) :
    Standard.roleManyDecl.template.render (.record fields) =
      some (String.ofList (indent ++ (constantChars name.toList ++ ("\n\n".toList ++ indent)
        ++ fieldChars ("List<" ++ partner ++ ">").toList name.toList none))) := by
  rw [Template.render]
  simp [Standard.template, Template.Members.roleManyDecl, inOrder, line, Value.shown, named, linked]
  apply String.toList_inj.mp
  unfold constantChars fieldChars
  simp [indent]

end Declarations

end Generation

namespace Update

open ClassFile (plainMethod methodWith)
open Generation (IsQuiet)
open Template (Standard Value)
open TypeText (IsTypeText)

section Accessors

variable {fields : List (String × Value)} {className name type : String} {remove : Bool}
  (plain : Name.isPlain name = true) (given : IsTypeText type.toList)
include plain given

theorem isReadable_attributeDecl {initializer : Option String}
    (quiet : ∀ content ∈ initializer, IsQuiet content)
    (named : fields.lookup "name" = some (.text name))
    (typed : fields.lookup "type" = some (.text type))
    (started : fields.lookup "init" = some (.ofText? initializer)) :
    (ofMember (.attributeOf name) .attributeDecl (.record fields) remove).IsReadable := by
  have silent : ∀ chars ∈ Generation.initializerChars initializer,
      Fragment.Source.IsSilent chars := by
    intro chars found
    obtain ⟨content, kept, rfl⟩ := Option.map_eq_some_iff.mp found
    exact quiet content (Option.filter_eq_some_iff.mp kept).1
  exact isReadable_ofMember rfl ⟨_, Generation.render_attributeDecl named typed started,
    Generation.isMemberText_property plain given silent⟩

theorem isReadable_getter
    (shaped : (Value.record fields).HasShape IsQuiet Standard.attributeGetter.shape)
    (titled : fields.lookup "capName" = some (.text (Text.capitalize name)))
    (typed : fields.lookup "type" = some (.text type)) :
    (ofMember (plainMethod ("get" ++ Text.capitalize name)) .attributeGetter (.record fields)
      remove).IsReadable :=
  isReadable_plainMethod shaped (Generation.isMemberName_accessor "get" (by decide) plain) rfl given
    (Generation.printed_getter titled typed)

theorem isReadable_setter {standard : Standard}
    (setter : standard = .attributeSetter ∨ standard = .plainSetter)
    (shaped : (Value.record fields).HasShape IsQuiet standard.shape)
    (returned : IsTypeText className.toList)
    (owned : fields.lookup "className" = some (.text className))
    (titled : fields.lookup "capName" = some (.text (Text.capitalize name)))
    (typed : fields.lookup "type" = some (.text type)) :
    (ofMember (methodWith ("set" ++ Text.capitalize name) [type]) standard (.record fields)
      remove).IsReadable := by
  have named := Generation.isMemberName_accessor "set" (by decide) plain
  have sound := Generation.isSound_paramsOf_singleton "value" given (by decide)
  have types : [type] = [String.ofList type.toList] := by rw [String.ofList_toList]
  have printed := Generation.printed_setter owned titled typed
  rcases setter with rfl | rfl
  · exact isReadable_method shaped named sound rfl returned printed types
  · rw [← Generation.take_plainSetter] at printed
    exact isReadable_method shaped named sound rfl returned printed types

end Accessors

end Update

namespace ClassFile

open Generation (IsQuiet isMemberName_accessor isQuiet_of_isPlain isQuiet_capitalize
  isTypeText_fixed isTypeText_of_isPlain)
open Fragment.Member (IsMemberName)
open TypeText (IsTypeText)

variable {model : Model} {owner : ModelClass} {property : Attribute} {name : String} {role : Role}
  {place : RoleRef}

theorem isReadable_attributeUpdates (className : Name.isPlain owner.name = true)
    (plain : property.IsPlain) : ∀ update ∈ attributeUpdates owner property, update.IsReadable := by
  have given := TypeText.isTypeText_of_isType plain.type
  have quiet : ∀ content ∈ property.initializer, IsQuiet content := fun content found =>
    Generation.isQuiet_of_isDotted (plain.initializer content found)
  have shaped := isShaped_attributeUpdates (isQuiet_of_isPlain className)
    (isQuiet_of_isPlain plain.name) (isQuiet_capitalize plain.name)
    (Generation.isQuiet_of_isTypeText given) quiet
  rw [attributeUpdates] at shaped ⊢
  rw [List.forall_mem_cons, List.forall_mem_cons, List.forall_mem_singleton] at shaped ⊢
  obtain ⟨-, getter, setter⟩ := shaped
  refine ⟨Update.isReadable_attributeDecl plain.name given quiet ?_ ?_ ?_,
    Update.isReadable_getter plain.name given getter ?_ ?_,
    Update.isReadable_setter plain.name given (.inl rfl) setter
      (isTypeText_of_isPlain className) ?_ ?_ ?_⟩
  all_goals simp [List.lookup_cons]

theorem isReadable_linkedRoleUpdates (className : Name.isPlain owner.name = true)
    (plain : Name.isPlain name = true) (partner : Name.isPlain place.className = true)
    (counterpart : IsQuiet (Text.capitalize (((model.role? place).bind (·.name)).getD "")))
    (collected : Text.isDotted role.collection = true) :
    ∀ update ∈ linkedRoleUpdates model owner name role place, update.IsReadable := by
  have given := isTypeText_of_isPlain partner
  have returned := isTypeText_of_isPlain className
  have listed := Generation.isTypeText_collection "List" (by decide) partner
  have variadic := Generation.isTypeText_variadic partner
  have shaped := isShaped_linkedRoleUpdates (isQuiet_of_isPlain className)
    (isQuiet_of_isPlain plain) (isQuiet_capitalize plain) (isQuiet_of_isPlain partner) counterpart
    (Generation.isQuiet_of_isDotted collected)
  rw [linkedRoleUpdates] at shaped ⊢
  split at shaped
  · next many =>
    rw [if_pos many]
    rw [List.forall_mem_cons, List.forall_mem_cons, List.forall_mem_cons, List.forall_mem_singleton]
      at shaped ⊢
    obtain ⟨-, getter, adder, remover⟩ := shaped
    have params := Generation.isSound_paramsOf_singleton "value" variadic (by decide)
    have types : [place.className ++ "..."] =
        (Generation.paramsOf [(place.className ++ "...", "value")]).map
          fun param => String.ofList param.1 := by
      simp [Generation.paramsOf]
    refine ⟨Update.isReadable_ofMember rfl ⟨_, Generation.render_roleManyDecl ?_ ?_,
        Generation.isMemberText_property plain listed fun _ found => by cases found⟩,
      Update.isReadable_plainMethod getter (isMemberName_accessor "get" (by decide) plain) rfl listed
        (Generation.printed_roleManyGetter ?_ ?_),
      Update.isReadable_method adder (isMemberName_accessor "with" (by decide) plain) params rfl
        returned
        (Generation.printed_roleManyWith ?_ ?_ ?_) types,
      Update.isReadable_method remover (isMemberName_accessor "without" (by decide) plain) params
        rfl returned
        (Generation.printed_roleManyWithout ?_ ?_ ?_) types⟩
    all_goals simp [List.lookup_cons]
  · next one =>
    rw [if_neg one]
    rw [List.forall_mem_cons, List.forall_mem_cons, List.forall_mem_singleton] at shaped ⊢
    obtain ⟨-, getter, setter⟩ := shaped
    have params := Generation.isSound_paramsOf_singleton "value" given (by decide)
    have types : [place.className] =
        (Generation.paramsOf [(place.className, "value")]).map fun param =>
          String.ofList param.1 := by
      simp [Generation.paramsOf]
    refine ⟨Update.isReadable_ofMember rfl ⟨_, Generation.render_roleOneDecl ?_ ?_,
        Generation.isMemberText_property plain given fun _ found => by cases found⟩,
      Update.isReadable_getter plain given getter ?_ ?_,
      Update.isReadable_method setter (isMemberName_accessor "set" (by decide) plain) params rfl
        returned
        (Generation.printed_roleOneSetter ?_ ?_ ?_) types⟩
    all_goals simp [List.lookup_cons]

theorem isReadable_listenerUpdates : ∀ update ∈ listenerUpdates owner, update.IsReadable := by
  have shaped : ∀ update ∈ listenerUpdates owner, update.IsShaped IsQuiet :=
    isShaped_listenerUpdates
  have fire : IsMemberName "firePropertyChange".toList :=
    ⟨by decide, by decide, by decide⟩
  have getter : IsMemberName "listeners".toList := ⟨by decide, by decide, by decide⟩
  have text : IsTypeText "String".toList := isTypeText_fixed (by decide)
  have object : IsTypeText "Object".toList := isTypeText_fixed (by decide)
  rw [listenerUpdates] at shaped ⊢
  rw [List.forall_mem_cons, List.forall_mem_cons, List.forall_mem_singleton] at shaped ⊢
  refine ⟨Update.isReadable_ofMember rfl ⟨_, ?_, Generation.isMemberText_listeners⟩,
    Update.isReadable_method shaped.2.1 fire ?_ rfl (isTypeText_fixed (by decide))
      Generation.printed_firePropertyChange ?_,
    Update.isReadable_plainMethod shaped.2.2 getter rfl (isTypeText_fixed (by decide))
      Generation.printed_listenersGetter⟩
  · rfl
  · rw [Generation.paramsOf]
    rw [List.map_cons, List.map_cons, List.map_singleton, List.forall_mem_cons,
      List.forall_mem_cons, List.forall_mem_singleton]
    exact ⟨Generation.isSound_param text (by decide), Generation.isSound_param object (by decide),
      Generation.isSound_param object (by decide)⟩
  · rfl

theorem isReadable_textUpdate
    (plain : ∀ property ∈ owner.attributes, Name.isPlain property.name = true) :
    (textUpdate owner).IsReadable :=
  Update.isReadable_overriding (.inl rfl)
    (isShaped_textUpdate fun property found => isQuiet_capitalize (plain property found))

theorem isReadable_removeYouUpdate
    (plain : ∀ entry ∈ owner.namedRoles, Name.isPlain entry.1 = true)
    (partner : ∀ entry ∈ owner.namedRoles, ∀ place, entry.2.other = some place →
      Name.isPlain place.className = true) : (removeYouUpdate owner).IsReadable := by
  have named : IsMemberName "removeYou".toList := ⟨by decide, by decide, by decide⟩
  have shaped := isShaped_removeYouUpdate
    (fun entry found => isQuiet_capitalize (plain entry found))
    fun entry found place linked => isQuiet_of_isPlain (partner entry found place linked)
  exact Update.isReadable_plainMethod shaped named rfl (isTypeText_fixed (by decide))
    Generation.printed_removeYou

end ClassFile

end ClassWeaver
