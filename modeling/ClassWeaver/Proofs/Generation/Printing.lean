import ClassWeaver.Proofs.Fragment.Naming
import ClassWeaver.Proofs.Fragment.Reading
import ClassWeaver.Proofs.Template.Following

set_option autoImplicit false

/-!
Members as templates print them. Main statements: a template that begins with the header of a method
and on which the reading of a member finishes prints that method and nothing else, and the constant
and the field of a property are read as one member each.
-/

namespace ClassWeaver.Generation

open Fragment (Key)
open Fragment.Member (IsFront IsMemberName modifiers isTypeParameters)
open Fragment.Lexeme (ofSource)
open Fragment.Source (IsMember IsSilent Mode Progress isNeutral splitMember splitMember_of_run
  isSilent_of_isNeutral)
open Signature (Param paramsText)
open Template (Shape Value followPieces? renderPieces)
open TypeText (IsTypeText)

/-- Texts that mean nothing for the structure of the member in which they are printed. -/
def IsQuiet (text : String) : Prop :=
  IsSilent text.toList

def indent : List Char :=
  [' ', ' ', ' ']

theorem run_indent (text : List Char) :
    (Mode.code .start).run (indent ++ text) = (Mode.code .start).run text :=
  rfl

theorem exists_render {template : Template} {shape : Shape} {value : Value} {count : Nat}
    {header : List Char} (shaped : value.HasShape IsQuiet shape)
    (followed : followPieces? Mode.step Mode.isOpen shape (.code .start) template = some .finished)
    (printed : renderPieces [⟨value, []⟩] (template.take count) =
      some (String.ofList (indent ++ header))) :
    ∃ rest, template.render value = some (String.ofList (indent ++ (header ++ rest))) ∧
      (Mode.code .start).run (header ++ rest) = some .finished := by
  have silent (mode : Mode) (text : String) (isOpen : mode.isOpen = true) (fits : IsQuiet text) :
      text.toList.foldlM Mode.step mode = some mode := by
    rw [← Mode.run_eq_foldlM]
    exact fits mode isOpen
  obtain ⟨text, rendered, read⟩ :=
    Template.exists_renderPieces silent [] [] shaped template followed
  have parts := Template.renderPieces_append [⟨value, []⟩] (template.take count)
    (template.drop count)
  rw [List.take_append_drop, printed, rendered, Option.bind_some] at parts
  obtain ⟨more, -, whole⟩ := Option.map_eq_some_iff.mp parts.symm
  have shown : text = String.ofList (indent ++ (header ++ more.toList)) := by
    apply String.toList_inj.mp
    rw [← whole, String.toList_append, String.toList_ofList, String.toList_ofList,
      List.append_assoc]
  refine ⟨more.toList, rendered.trans (congrArg some shown), ?_⟩
  rw [← Mode.run_eq_foldlM, shown, String.toList_ofList, run_indent] at read
  exact read

def opening (front name : List Char) (params : List Param) : List Char :=
  front ++ ' ' :: (name ++ '(' :: (paramsText params ++ ')' :: ("\n   ".toList ++ ['\x7b'])))

theorem isMember_opening {front name : List Char} {params : List Param} {rest : List Char}
    (begins : "public".toList <+: front) (isFront : IsFront front) (named : IsMemberName name)
    (sound : ∀ param ∈ params, param.IsSound)
    (read : (Mode.code .start).run (opening front name params ++ rest) = some .finished) :
    IsMember
      (if (Text.words front).all fun word =>
          modifiers.contains (String.ofList word) || isTypeParameters word then
        Key.ofConstructor (.ofTypes (String.ofList name) (params.map fun param => String.ofList param.1))
      else .ofMethod (.ofTypes (String.ofList name) (params.map fun param => String.ofList param.1)))
      (opening front name params ++ rest) where
  filled := by
    obtain ⟨tail, rfl⟩ := begins
    rfl
  notEnd := by
    obtain ⟨tail, rfl⟩ := begins
    exact fun same => absurd (Option.some.inj same) (by decide)
  whole := splitMember_of_run _ read
  ends := Mode.getLast?_of_run read (by simp)
  slashless := fun found => (Mode.bare_of_run read _ found).1 rfl
  named := by
    have whole : opening front name params ++ rest =
        front ++ ' ' :: (name ++ '(' :: (paramsText params ++ ')' :: ("\n   ".toList ++ '\x7b' :: rest))) := by
      simp only [opening, List.append_assoc, List.cons_append, List.nil_append]
    have slashless : '/' ∉ opening front name params ++ rest :=
      fun found => (Mode.bare_of_run read _ found).1 rfl
    have bare : '@' ∉ opening front name params ++ rest :=
      fun found => (Mode.bare_of_run read _ found).2 rfl
    rw [whole] at slashless bare ⊢
    exact Fragment.Member.key_invocable isFront named sound (by decide) slashless bare

private theorem isHeaderPart_override :
    ∀ c ∈ " \n   ".toList, Fragment.Member.isHeaderPart c = true := by
  decide

theorem header_override {text : List Char} (slashless : '/' ∉ text) (bare : '@' ∉ text)
    (begins : text.head? = some 'p') :
    Fragment.Member.header ("@Override\n   ".toList ++ text) = Fragment.Member.header text := by
  have parted : Fragment.Member.blankComments ("@Override\n   ".toList ++ text) =
      "@Override\n   ".toList ++ text := by
    apply Fragment.Member.blankComments_of_notMem
    rw [List.mem_append, not_or]
    exact ⟨by decide, slashless⟩
  have replaced : Annotations.replaceAll true [' '] ("@Override\n   ".toList ++ text) =
      " \n   ".toList ++ text := by
    have first : ("Override\n   ".toList ++ text).takeWhile Annotations.isNamePart =
        "Override".toList := rfl
    have second : ("Override\n   ".toList ++ text).dropWhile Annotations.isNamePart =
        "\n   ".toList ++ text := rfl
    obtain ⟨tail, rfl⟩ : ∃ tail, text = 'p' :: tail := by
      cases text with
      | nil => simp at begins
      | cons c tail => exact ⟨tail, by rw [Option.some.inj begins]⟩
    have front : "@Override\n   ".toList ++ 'p' :: tail =
        '@' :: ("Override\n   ".toList ++ 'p' :: tail) := rfl
    have absent : '@' ∉ "\n   ".toList ++ 'p' :: tail := by
      rw [List.mem_append, not_or]
      exact ⟨by decide, bare⟩
    have arguments : Annotations.afterArguments true ("\n   ".toList ++ 'p' :: tail) =
        "\n   ".toList ++ 'p' :: tail := by
      have trimmed : Text.trimStart ("\n   ".toList ++ 'p' :: tail) = 'p' :: tail := rfl
      rw [Annotations.afterArguments, if_pos rfl, trimmed]
      split
      · next same => exact absurd (List.cons.inj same).1 (by decide)
      · rfl
    rw [front, Annotations.replaceAll, first, second, arguments, if_pos (by decide),
      Annotations.replaceAll_of_notMem absent]
    rfl
  have cut := Fragment.Member.splitHeader_append isHeaderPart_override 0 text
  unfold Fragment.Member.header
  rw [parted, replaced, Fragment.Member.blankComments_of_notMem slashless,
    Annotations.replaceAll_of_notMem bare, cut]
  have blank : ∀ c ∈ " \n   ".toList, Text.isBlank c = true := by decide
  exact Prod.ext (Text.trim_blanks_append blank _) rfl

/-- Characters that do not change how far the reading of a member has come. -/
def isPassed (c : Char) : Bool :=
  Fragment.Lexeme.isBare c && ! Progress.start.endsBefore (.code c)
    && ! Progress.start.endsAfter (.code c) && Progress.start.after (.code c) == .start

theorem splitMember_of_isPassed {front : List Char} (passed : ∀ c ∈ front, isPassed c = true)
    (rest : List Char) :
    splitMember .start (ofSource (front ++ rest)) =
      (front.map .code ++ (splitMember .start (ofSource rest)).1,
        (splitMember .start (ofSource rest)).2) := by
  induction front with
  | nil => rfl
  | cons c front ih =>
      have here := passed c List.mem_cons_self
      simp only [isPassed, Bool.and_eq_true, Bool.not_eq_true', beq_iff_eq] at here
      obtain ⟨⟨⟨bare, before⟩, after⟩, same⟩ := here
      have later := ih fun d found => passed d (List.mem_cons_of_mem c found)
      rw [List.cons_append, Fragment.Lexeme.ofSource_cons_of_isBare bare, splitMember,
        if_neg (by simp [before]), if_neg (by simp [after]), same, later]
      rfl

theorem isMember_override {key : Key} {text : List Char} (begins : text.head? = some 'p')
    (bare : '@' ∉ text) (member : IsMember key text) :
    IsMember key ("@Override\n   ".toList ++ text) where
  filled := rfl
  notEnd := by
    have first : ("@Override\n   ".toList ++ text).head? = some '@' := rfl
    rw [first]
    decide
  whole := fun rest => by
    have passed : ∀ c ∈ "@Override\n   ".toList, isPassed c = true := by decide
    have bare : ∀ c ∈ "@Override\n   ".toList, Fragment.Lexeme.isBare c = true := by decide
    rw [List.append_assoc, splitMember_of_isPassed passed, member.whole rest,
      Fragment.Lexeme.ofSource_append_of_isBare bare]
  ends := by
    have last : ("@Override\n   ".toList ++ text).getLast? = text.getLast? := by
      rw [List.getLast?_append]
      rcases member.ends with same | same <;> rw [same] <;> rfl
    rw [last]
    exact member.ends
  slashless := by
    rw [List.mem_append, not_or]
    exact ⟨by decide, member.slashless⟩
  named := by
    have same := header_override member.slashless bare begins
    rw [← member.named]
    unfold Fragment.Member.key
    rw [same]

theorem run_opened {text : List Char} {progress : Progress} (filled : text ≠ [])
    (neutral : ∀ c ∈ text, isNeutral c = true) :
    (Mode.opened '"' progress).run text = some (.quoted '"' progress) := by
  have inside := isSilent_of_isNeutral neutral (.quoted '"' progress) rfl
  cases text with
  | nil => exact absurd rfl filled
  | cons c text =>
      have other : c ≠ '"' := by
        rintro rfl
        exact absurd (neutral _ List.mem_cons_self) (by decide)
      have same : (Mode.opened '"' progress).step c = (Mode.quoted '"' progress).step c := by
        simp [Mode.step, Mode.stepOn, other]
      rw [Mode.run, same]
      exact inside

theorem isMember_field {front name : List Char} (blanks : List Char) {stop : Char} (rest : List Char)
    (isFront : IsFront front)
    (begins : front.head? = some 'p') (named : IsMemberName name)
    (plain : Fragment.Member.isFieldName name = true) (blank : ∀ c ∈ blanks, c = ' ')
    (ends : stop = ';' ∨ stop = '=')
    (read : (Mode.code .start).run (front ++ ' ' :: (name ++ (blanks ++ stop :: rest))) =
      some .finished) :
    IsMember (.attributeOf (String.ofList name))
      (front ++ ' ' :: (name ++ (blanks ++ stop :: rest))) where
  filled := by
    rw [List.head?_append, begins]
    rfl
  notEnd := by
    rw [List.head?_append, begins]
    exact fun same => absurd (Option.some.inj same) (by decide)
  whole := splitMember_of_run _ read
  ends := Mode.getLast?_of_run read (by simp)
  slashless := fun found => (Mode.bare_of_run read _ found).1 rfl
  named :=
    Fragment.Member.key_field isFront named plain blank ends
      (fun found => (Mode.bare_of_run read _ found).1 rfl)
      (fun found => (Mode.bare_of_run read _ found).2 rfl)

def constantChars (name : List Char) : List Char :=
  "public static final String".toList ++ ' ' :: ("PROPERTY_".toList ++ name
    ++ ([' '] ++ '=' :: (" \"".toList ++ name ++ "\";".toList)))

def fieldChars (type name : List Char) (initializer : Option (List Char)) : List Char :=
  "private".toList ++ ' ' :: type ++ ' ' :: (name
    ++ (match initializer with
      | none => [';']
      | some value => [' '] ++ '=' :: (' ' :: value ++ [';'])))

private theorem isMemberName_constant {name : List Char} (parts : ∀ c ∈ name, Name.isPart c = true) :
    IsMemberName ("PROPERTY_".toList ++ name) where
  filled := by simp
  parts := by
    have fixed : ∀ c ∈ "PROPERTY_".toList, Name.isPart c = true := by decide
    intro c found
    exact (List.mem_append.mp found).elim (fixed c) (parts c)
  free := by
    intro found
    have begins : ∀ word ∈ Fragment.Member.typeKeywords, word.toList.head? ≠ some 'P' := by decide
    apply begins _ found
    rw [String.toList_ofList]
    rfl

theorem isFront_constant : IsFront "public static final String".toList where
  quiet := by decide
  trimmed := by decide
  free := by decide

theorem isFront_private : IsFront "private".toList where
  quiet := by decide
  trimmed := by decide
  free := by decide

theorem isFront_public : IsFront "public".toList where
  quiet := by decide
  trimmed := by decide
  free := by decide

theorem isMember_constant {name : List Char} (filled : name ≠ [])
    (parts : ∀ c ∈ name, Name.isPart c = true) (plain : Fragment.Member.isFieldName name = true) :
    IsMember (.attributeOf (String.ofList ("PROPERTY_".toList ++ name))) (constantChars name) := by
  have neutral (c : Char) (found : c ∈ name) : isNeutral c = true :=
    Name.isNeutral_of_isPart (parts c found)
  have header : ∀ c ∈ "public static final String PROPERTY_".toList ++ name, isNeutral c = true := by
    have fixed : ∀ c ∈ "public static final String PROPERTY_".toList, isNeutral c = true := by decide
    intro c found
    exact (List.mem_append.mp found).elim (fixed c) (neutral c)
  have read : (Mode.code .start).run (constantChars name) = some .finished := by
    have whole : constantChars name = ("public static final String PROPERTY_".toList ++ name)
        ++ (" = \"".toList ++ (name ++ "\";".toList)) := by
      unfold constantChars
      simp only [String.reduceToList, List.cons_append, List.nil_append]
    have first : (Mode.code .start).run " = \"".toList = some (.opened '"' ⟨0, 0, true⟩) := by decide
    have last : (Mode.quoted '"' ⟨0, 0, true⟩).run "\";".toList = some .finished := by decide
    rw [whole, Mode.run_append, isSilent_of_isNeutral header _ rfl, Option.bind_some,
      Mode.run_append, first, Option.bind_some, Mode.run_append, run_opened filled neutral,
      Option.bind_some, last]
  refine isMember_field [' '] _ isFront_constant rfl (isMemberName_constant parts) ?_ (by simp) (.inr rfl) read
  rw [Fragment.Member.isFieldName, List.all_append, Bool.and_eq_true]
  exact ⟨by decide, plain⟩

theorem isMember_fieldChars {type name : List Char} {initializer : Option (List Char)}
    (given : IsTypeText type) (neutral : ∀ c ∈ type, isNeutral c = true) (named : IsMemberName name)
    (plain : Fragment.Member.isFieldName name = true)
    (quiet : ∀ value ∈ initializer, IsSilent value) :
    IsMember (.attributeOf (String.ofList name)) (fieldChars type name initializer) := by
  have isFront : IsFront ("private".toList ++ ' ' :: type) :=
    Fragment.Member.isFront_type isFront_private given
  have header : ∀ c ∈ "private ".toList ++ type ++ ' ' :: name, isNeutral c = true := by
    have fixed : ∀ c ∈ "private ".toList, isNeutral c = true := by decide
    intro c found
    rw [List.mem_append, List.mem_append, List.mem_cons] at found
    rcases found with (front | inside) | rfl | back
    · exact fixed c front
    · exact neutral c inside
    · decide
    · exact Name.isNeutral_of_isPart (named.parts c back)
  cases initializer with
  | none =>
      have whole : fieldChars type name none =
          "private ".toList ++ type ++ ' ' :: name ++ [';'] := by
        unfold fieldChars
        simp only [String.reduceToList, List.cons_append, List.nil_append, List.append_assoc]
      have last : (Mode.code .start).run [';'] = some .finished := by decide
      have read : (Mode.code .start).run (fieldChars type name none) = some .finished := by
        rw [whole, Mode.run_append, isSilent_of_isNeutral header _ rfl, Option.bind_some, last]
      exact isMember_field [] [] isFront rfl named plain (by simp) (.inl rfl) read
  | some value =>
      have whole : fieldChars type name (some value) =
          "private ".toList ++ type ++ ' ' :: name ++ (" = ".toList ++ (value ++ [';'])) := by
        unfold fieldChars
        simp only [String.reduceToList, List.cons_append, List.nil_append, List.append_assoc]
      have first : (Mode.code .start).run " = ".toList = some (.code ⟨0, 0, true⟩) := by decide
      have last : (Mode.code ⟨0, 0, true⟩).run [';'] = some .finished := by decide
      have read : (Mode.code .start).run (fieldChars type name (some value)) = some .finished := by
        rw [whole, Mode.run_append, isSilent_of_isNeutral header _ rfl, Option.bind_some,
          Mode.run_append, first, Option.bind_some, Mode.run_append,
          quiet value rfl _ rfl, Option.bind_some, last]
      exact isMember_field [' '] (' ' :: value ++ [';']) isFront rfl named plain
        (by simp) (.inr rfl) read

end ClassWeaver.Generation
