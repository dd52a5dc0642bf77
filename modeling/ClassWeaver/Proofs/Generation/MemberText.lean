import ClassWeaver.Proofs.Fragment.Updating
import ClassWeaver.Proofs.Generation.Printing
import ClassWeaver.Template.Writing
import ClassWeaver.Text.UpperCase

set_option autoImplicit false

/-!
Texts of generated members, with the indentation in front of them. Main statements: whatever template
prints a method, a constructor or the declaration of a property, the text is read back under the key
that generation uses for it.
-/

namespace ClassWeaver

namespace Name

theorem isPart_of_isAlphanum {c : Char} (alphanum : (c.isAlphanum || c == '_') = true)
    (ascii : Text.isAscii c = true) : isPart c = true := by
  rw [isPart, Text.isAlphabetic_of_isAscii ascii, Text.isNumeric_of_isAscii ascii]
  rw [Char.isAlphanum] at alphanum
  simp only [Bool.or_eq_true] at alphanum ⊢
  tauto

theorem isAlphanum_toUpper {c : Char} (alphanum : (c.isAlphanum || c == '_') = true)
    (ascii : Text.isAscii c = true) :
    (c.toUpper.isAlphanum || c.toUpper == '_') = true ∧ Text.isAscii c.toUpper = true := by
  have each : ∀ code ∈ List.range 128,
      ((Char.ofNat code).isAlphanum || Char.ofNat code == '_') = true →
        ((Char.ofNat code).toUpper.isAlphanum || (Char.ofNat code).toUpper == '_') = true ∧
          Text.isAscii (Char.ofNat code).toUpper = true := by
    decide +kernel
  have bound : c.toNat < 128 := by simpa [Text.isAscii] using ascii
  have here := each c.toNat (List.mem_range.mpr bound)
  rw [Char.ofNat_toNat] at here
  exact here alphanum

theorem isAlphanum_capitalize {name : String} (plain : isPlain name = true) :
    (Text.capitalize name).toList ≠ [] ∧ ∀ c ∈ (Text.capitalize name).toList,
      (c.isAlphanum || c == '_') = true ∧ Text.isAscii c = true := by
  obtain ⟨simple, ascii⟩ := of_isPlain plain
  have alphanum (c : Char) (found : c ∈ name.toList) := isAlphanum_of_isPlain plain found
  rw [Text.capitalize, String.toList_ofList]
  cases shown : name.toList with
  | nil => exact absurd shown (of_isSimple simple).1
  | cons first rest =>
      rw [shown] at ascii alphanum
      have here := (ascii first List.mem_cons_self).1
      rw [Text.capitalizeChars, Text.upperCase_of_isAscii here]
      refine ⟨by simp, fun c found => ?_⟩
      rcases List.mem_cons.mp found with rfl | later
      · exact isAlphanum_toUpper (alphanum first List.mem_cons_self) here
      · have inside := List.mem_cons_of_mem first later
        exact ⟨alphanum c inside, (ascii c inside).1⟩

end Name

namespace Generation

open Fragment (Key IsGap IsBareDeclaration)
open Fragment.Member (IsFront IsMemberName typeKeywords)
open Fragment.Source (IsMember IsSilent Mode Reads isNeutral isSilent_of_isNeutral)
open Signature (Param paramsText)
open Template (Piece Scope Shape Value followPieces? renderPieces renderPiece)
open TypeText (IsTypeText isNamePart)

/-- The text of a member is its indentation and a text that is read back under its key. -/
structure IsMemberText (key : Key) (text : String) : Prop where
  reads : ∃ leading chars, text = String.ofList (indent ++ chars) ∧ Reads key leading chars
  bare : ∀ property, key = .attributeOf property → IsBareDeclaration property text.toList

theorem isQuiet_of_isPart {name : String} (parts : ∀ c ∈ name.toList, Name.isPart c = true) :
    IsQuiet name :=
  isSilent_of_isNeutral fun c found => Name.isNeutral_of_isPart (parts c found)

theorem isPart_of_isPlain {name : String} (plain : Name.isPlain name = true) :
    ∀ c ∈ name.toList, Name.isPart c = true :=
  (Name.of_isSimple (Name.of_isPlain plain).1).2.1

theorem isPart_capitalize {name : String} (plain : Name.isPlain name = true) :
    ∀ c ∈ (Text.capitalize name).toList, Name.isPart c = true :=
  fun c found =>
    have here := (Name.isAlphanum_capitalize plain).2 c found
    Name.isPart_of_isAlphanum here.1 here.2

theorem isNeutral_of_isTypeText {type : List Char} (given : IsTypeText type) :
    ∀ c ∈ type, isNeutral c = true := by
  have special : ∀ c ∈ ['<', '>', ',', '[', ']', '?', ' '], isNeutral c = true := by decide
  intro c found
  rcases given.chars c found with part | other
  · rw [isNamePart, Bool.or_eq_true] at part
    rcases part with part | dot
    · exact Name.isNeutral_of_isPart part
    · rw [eq_of_beq dot]
      decide
  · exact special c other

theorem isMemberName_append {word name : List Char} (filled : word ≠ [])
    (parts : ∀ c ∈ word ++ name, Name.isPart c = true)
    (free : ∀ keyword ∈ typeKeywords, ¬ word <+: keyword.toList) : IsMemberName (word ++ name) where
  filled := by simp [filled]
  parts := parts
  free := by
    intro found
    have apart := free _ found
    rw [String.toList_ofList] at apart
    exact apart (List.prefix_append word name)

theorem isMemberName_of_isPlain {name : String} (plain : Name.isPlain name = true) :
    IsMemberName name.toList where
  filled := (Name.of_isSimple (Name.of_isPlain plain).1).1
  parts := isPart_of_isPlain plain
  free := by
    have reserved : ∀ keyword ∈ typeKeywords, keyword ∈ Name.reserved := by decide
    intro found
    rw [String.ofList_toList] at found
    exact (Name.of_isSimple (Name.of_isPlain plain).1).2.2 (reserved _ found)

private theorem words_public {result : List Char} (given : IsTypeText result) :
    (Text.words ("public".toList ++ ' ' :: result)).all (fun word =>
      Fragment.Member.modifiers.contains (String.ofList word)
        || Fragment.Member.isTypeParameters word) = false := by
  obtain ⟨word, found, other⟩ := given.exists_word
  have free := given.notMem_structural found
  rw [TypeText.structural, List.mem_append, not_or] at free
  rw [List.all_eq_false]
  refine ⟨word, ?_, ?_⟩
  · rw [Text.words_append_cons (by decide), List.mem_append]
    exact .inr found
  · simpa [other] using free.1

section Methods

variable {template : Template} {shape : Shape} {value : Value} {count : Nat} {name : List Char}
  {params : List Param} (shaped : value.HasShape IsQuiet shape)
  (followed : followPieces? Mode.step Mode.isOpen shape (.code .start) template = some .finished)
  (named : IsMemberName name) (sound : ∀ param ∈ params, param.IsSound)
include shaped followed named sound

theorem exists_method {result : List Char} (given : IsTypeText result)
    (printed : renderPieces [⟨value, []⟩] (template.take count) =
      some (String.ofList (indent ++ opening ("public".toList ++ ' ' :: result) name params))) :
    ∃ text, template.render value = some text ∧
      IsMemberText (.ofMethod (.ofTypes (String.ofList name)
        (params.map fun param => String.ofList param.1))) text := by
  obtain ⟨rest, rendered, read⟩ := exists_render shaped followed printed
  have isFront := Fragment.Member.isFront_type isFront_public given
  have member := isMember_opening (List.prefix_append _ _) isFront named sound read
  rw [words_public given, if_neg Bool.false_ne_true] at member
  exact ⟨_, rendered, ⟨⟨_, _, rfl, .member member⟩, fun _ same => nomatch same⟩⟩

theorem exists_constructor
    (printed : renderPieces [⟨value, []⟩] (template.take count) =
      some (String.ofList (indent ++ opening "public".toList name params))) :
    ∃ text, template.render value = some text ∧
      IsMemberText (.ofConstructor (.ofTypes (String.ofList name)
        (params.map fun param => String.ofList param.1))) text := by
  obtain ⟨rest, rendered, read⟩ := exists_render shaped followed printed
  have member := isMember_opening (List.prefix_refl _) isFront_public named sound read
  rw [if_pos (by decide)] at member
  exact ⟨_, rendered, ⟨⟨_, _, rfl, .member member⟩, fun _ same => nomatch same⟩⟩

theorem exists_overriding {result : List Char} {whole : Template} (given : IsTypeText result)
    (printed : renderPieces [⟨value, []⟩] (template.take count) =
      some (String.ofList (indent ++ opening ("public".toList ++ ' ' :: result) name params)))
    (annotated : whole = [.text "   @Override", .text "\n"] ++ template) :
    ∃ text, whole.render value = some text ∧
      IsMemberText (.ofMethod (.ofTypes (String.ofList name)
        (params.map fun param => String.ofList param.1))) text := by
  obtain ⟨rest, rendered, read⟩ := exists_render shaped followed printed
  have isFront := Fragment.Member.isFront_type isFront_public given
  have member := isMember_opening (List.prefix_append _ _) isFront named sound read
  rw [words_public given, if_neg Bool.false_ne_true] at member
  have overriding := isMember_override rfl (fun found => (Mode.bare_of_run read _ found).2 rfl) member
  refine ⟨String.ofList (indent ++ _), ?_, ⟨⟨_, _, rfl, .member overriding⟩, fun _ same => nomatch same⟩⟩
  have front : renderPieces [⟨value, []⟩] [.text "   @Override", .text "\n"] =
      some "   @Override\n" := rfl
  rw [Template.render] at rendered ⊢
  rw [annotated, Template.renderPieces_append, front, rendered, Option.bind_some, Option.map_some]
  apply congrArg some
  apply String.toList_inj.mp
  have shifted : "   @Override\n".toList ++ indent = indent ++ "@Override\n   ".toList := by decide
  rw [String.toList_append, @String.toList_ofList (indent ++ _), @String.toList_ofList (indent ++ _),
    ← List.append_assoc, shifted, List.append_assoc]

end Methods

theorem isFieldName_of_isPlain {name : String} (plain : Name.isPlain name = true) :
    Fragment.Member.isFieldName name.toList = true := by
  rw [Fragment.Member.isFieldName, List.all_eq_true]
  intro c found
  rw [Name.isAlphanum_of_isPlain plain found, Bool.true_or]

theorem isMemberText_property {name type : String} {initializer : Option (List Char)}
    (plain : Name.isPlain name = true) (given : IsTypeText type.toList)
    (quiet : ∀ value ∈ initializer, IsSilent value) :
    IsMemberText (.attributeOf name) (String.ofList (indent ++ (constantChars name.toList
      ++ ("\n\n".toList ++ indent) ++ fieldChars type.toList name.toList initializer))) where
  reads := by
    have named := isMemberName_of_isPlain plain
    have field := isFieldName_of_isPlain plain
    have first := isMember_constant named.filled named.parts field
    have second :=
      isMember_fieldChars given (isNeutral_of_isTypeText given) named field quiet
    have label : String.ofList ("PROPERTY_".toList ++ name.toList) = "PROPERTY_" ++ name := by
      rw [String.ofList_append, String.ofList_toList, String.ofList_toList]
    rw [label] at first
    rw [String.ofList_toList] at second
    exact ⟨_, _, rfl, .property (.member first) ⟨by decide, by decide⟩ second⟩
  bare := by
    intro property same
    refine .inl ?_
    have blank : ∀ c ∈ indent, Text.isBlank c = true := by decide
    rw [@String.toList_ofList (indent ++ _), Text.trimStart_append blank]
    exact ⟨_, rfl⟩

theorem isMemberText_listeners :
    IsMemberText (.attributeOf "listeners") "   protected PropertyChangeSupport listeners;" where
  reads := by
    have isFront : IsFront "protected PropertyChangeSupport".toList :=
      ⟨by decide, by decide, by decide⟩
    have named : IsMemberName "listeners".toList := ⟨by decide, by decide, by decide⟩
    have member := isMember_field [] [] isFront rfl named (by decide) (by simp)
      (.inl rfl) (by decide +kernel)
    refine ⟨_, _, ?_, .member member⟩
    decide
  bare := by
    rintro property same
    obtain rfl := Key.attributeOf.inj same
    refine .inr ⟨by decide, fun name other => ?_⟩
    have first := congrArg (fun text : String => text.toList.head?) other
    rw [String.toList_append, List.head?_append_of_ne_nil _ (by decide)] at first
    exact absurd first (by decide)

end Generation

end ClassWeaver
