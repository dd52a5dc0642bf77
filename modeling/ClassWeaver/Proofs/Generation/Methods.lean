import ClassWeaver.Proofs.Generation.Headers
import ClassWeaver.Proofs.Signature.Declaration

set_option autoImplicit false

/-!
Methods that are declared by hand, in the model and in the file. Main statement: a method that is
printed is found in the file under the signature that it has in the model, as a constructor if and
only if nothing but modifiers and annotations without arguments stands in front of its name.
-/

namespace ClassWeaver

namespace Annotations

inductive AreMarkers : List Char → Prop
  | nil : AreMarkers []
  | cons {name blanks rest : List Char} (filled : name ≠ [])
    (parts : ∀ c ∈ name, isNamePart c = true) (apart : blanks ≠ [])
    (blank : ∀ c ∈ blanks, Text.isAsciiBlank c = true) (later : AreMarkers rest) :
    AreMarkers ('@' :: (name ++ (blanks ++ rest)))

theorem isNamePart_of_isAsciiBlank {c : Char} (blank : Text.isAsciiBlank c = true) :
    isNamePart c = false := by
  simp only [Text.isAsciiBlank, Bool.or_eq_true, beq_iff_eq] at blank
  rcases blank with (((rfl | rfl) | rfl) | rfl) | rfl <;> decide

namespace AreMarkers

variable {markers rest : List Char} (given : AreMarkers markers)
include given

theorem exists_replaceAll (unopened : (Text.trimStart rest).head? ≠ some '(') :
    ∃ blanks, (∀ c ∈ blanks, Text.isBlank c = true) ∧
      replaceAll true [' '] (markers ++ rest) = blanks ++ replaceAll true [' '] rest := by
  induction given with
  | nil => exact ⟨[], nofun, rfl⟩
  | @cons name blanks more filled parts apart blank later ih =>
    obtain ⟨spaces, spaced, replaced⟩ := ih
    have white : ∀ c ∈ blanks, Text.isBlank c = true := fun c found =>
      Text.isBlank_of_isAsciiBlank (blank c found)
    have free : '@' ∉ blanks := fun found => absurd (blank '@' found) (by decide)
    have next : (Text.trimStart (more ++ rest)).head? ≠ some '(' := by
      cases later with
      | nil => exact unopened
      | cons => simp [Text.trimStart, Text.isBlank, Text.isAscii]
    have kept : afterArguments true (blanks ++ (more ++ rest)) = blanks ++ (more ++ rest) := by
      rw [afterArguments, if_pos rfl, Text.trimStart_append white]
      split
      · next opened => simp [opened] at next
      · rfl
    obtain ⟨b, behind, rfl⟩ := List.exists_cons_of_ne_nil apart
    have ends : isNamePart b = false := isNamePart_of_isAsciiBlank (blank b List.mem_cons_self)
    have whole : '@' :: (name ++ (b :: behind ++ more)) ++ rest =
        '@' :: (name ++ (b :: behind ++ (more ++ rest))) := by simp
    refine ⟨' ' :: (b :: behind ++ spaces), ?_, ?_⟩
    · refine List.forall_mem_cons.mpr ⟨by decide, fun c found => ?_⟩
      exact (List.mem_append.mp found).elim (white c) (spaced c)
    · rw [whole, replaceAll, List.takeWhile_append_of_pos parts, List.dropWhile_append_of_pos parts]
      rw [List.cons_append, List.takeWhile_cons_of_neg (by simp [ends]),
        List.dropWhile_cons_of_neg (by simp [ends]), List.append_nil, ← List.cons_append, kept,
        replaceAll_append free, replaced]
      simp [filled]

theorem notMem {c : Char} (known : c ∈ ['/', '(', ')', '\x7b', '=', ';']) : c ∉ markers := by
  have each : ∀ c ∈ ['/', '(', ')', '\x7b', '=', ';'],
      c ≠ '@' ∧ isNamePart c = false ∧ Text.isAsciiBlank c = false := by
    decide
  obtain ⟨noMark, noName, noBlank⟩ := each c known
  induction given with
  | nil => exact List.not_mem_nil
  | cons filled parts apart blank later ih =>
    simp only [List.mem_cons, List.mem_append, not_or]
    refine ⟨noMark, fun found => ?_, fun found => ?_, ih⟩
    · exact Bool.false_ne_true (noName.symm.trans (parts c found))
    · exact Bool.false_ne_true (noBlank.symm.trans (blank c found))

theorem getLast?_all_isBlank : markers.getLast?.all Text.isBlank = true := by
  induction given with
  | nil => rfl
  | @cons name blanks rest filled parts apart blank later ih =>
    have whole : '@' :: (name ++ (blanks ++ rest)) = '@' :: name ++ blanks ++ rest := by simp
    rw [whole, List.getLast?_append]
    cases last : rest.getLast? with
    | some c =>
      rw [last] at ih
      exact ih
    | none =>
      rw [Option.none_or, List.getLast?_append]
      cases white : blanks.getLast? with
      | none => exact absurd (List.getLast?_eq_none_iff.mp white) apart
      | some c => exact Text.isBlank_of_isAsciiBlank (blank c (List.mem_of_getLast? white))

end AreMarkers

end Annotations

private theorem render_method {fields : List (String × Template.Value)} {declaration body : String}
    (declared : fields.lookup "declaration" = some (.text declaration))
    (filled : fields.lookup "body" = some (.text body)) :
    Template.Standard.method.template.render (.record fields) =
      some (String.ofList ("   ".toList ++ (declaration.toList ++ ("\n   ".toList ++
        '\x7b' :: ("\n      ".toList ++ body.toList ++ "\n   \x7d".toList))))) := by
  rw [Template.render]
  simp [Template.Standard.template, Template.Members.method, Template.inOrder, Template.line,
    Template.Value.shown, declared, filled]
  apply String.toList_inj.mp
  simp

/-- A declaration of a method or constructor: annotations, what stands in front of its name, the
name and white space, the parameters, and what stands behind them. -/
structure MethodHeader where
  markers : List Char
  front : List Char
  name : List Char
  gap : List Char
  params : List Char
  rest : List Char

namespace MethodHeader

open Fragment (Key)
open Fragment.Member (modifiers isTypeParameters typeKeywords)
open Signature (isBalanced untilClosed?)

def back (header : MethodHeader) : List Char :=
  header.gap ++ '(' :: (header.params ++ ')' :: header.rest)

def bare (header : MethodHeader) : List Char :=
  header.front ++ (header.name ++ header.back)

def chars (header : MethodHeader) : List Char :=
  header.markers ++ header.bare

def signature (header : MethodHeader) : Signature :=
  ⟨String.ofList header.name, (Signature.splitParams header.params).map Signature.paramTypeChars⟩

/-- Says whether nothing but modifiers and type parameters stands in front of the name. -/
def isTypeless (header : MethodHeader) : Bool :=
  (Text.words header.front).all fun word =>
    modifiers.contains (String.ofList word) || isTypeParameters word

def key (header : MethodHeader) : Key :=
  if header.isTypeless then .ofConstructor header.signature else .ofMethod header.signature

/-- Says that a declaration can be read in a file: besides the annotations in front there are
neither annotations nor comments in it, nothing ends it, and it declares no type. -/
structure IsSound (header : MethodHeader) : Prop where
  markers : Annotations.AreMarkers header.markers
  front : ∀ c ∈ ['@', '/', '\x7b', '=', ';', '(', ')'], c ∉ header.front
  params : ∀ c ∈ ['@', '/', '\x7b', '=', ';'], c ∉ header.params
  rest : ∀ c ∈ ['@', '/', '\x7b', '=', ';'], c ∉ header.rest
  filled : header.name ≠ []
  parts : ∀ c ∈ header.name, Name.isPart c = true
  apart : header.front.getLast?.all (! Name.isPart ·) = true
  gap : ∀ c ∈ header.gap, Text.isBlank c = true
  closed : isBalanced '(' ')' header.params = true
  even : header.rest.count '(' = header.rest.count ')'
  free : ∀ word ∈ Text.words (header.front ++ header.name), String.ofList word ∉ typeKeywords

variable {header : MethodHeader} (sound : header.IsSound)
include sound

theorem IsSound.ofDeclarationChars?_eq {before : List Char} (outside : '(' ∉ before)
    (spaced : before.getLast?.all Text.isBlank = true) (after : List Char) :
    Signature.ofDeclarationChars? (before ++ (header.bare ++ after)) = some header.signature := by
  have unopened : '(' ∉ before ++ header.front := by
    simpa using ⟨outside, sound.front '(' (by simp)⟩
  have apart : (before ++ header.front).getLast?.all (! Name.isPart ·) = true := by
    rw [List.getLast?_append]
    cases last : header.front.getLast? with
    | some c => simpa [last] using sound.apart
    | none =>
      rw [Option.none_or]
      cases first : before.getLast? with
      | none => rfl
      | some c =>
        have blank : Text.isBlank c = true := by simpa [first] using spaced
        simp [Name.isPart_of_isBlank blank]
  have closed := Signature.untilClosed?_of_isBalanced sound.closed (header.rest ++ after)
  have whole : before ++ (header.bare ++ after) = before ++ header.front ++ header.name ++ header.gap
      ++ '(' :: (header.params ++ ')' :: (header.rest ++ after)) := by
    simp [bare, back]
  rw [whole]
  exact Signature.ofDeclarationChars?_append unopened apart sound.filled sound.parts sound.gap closed

private theorem IsSound.notMem_name {blanks : List Char} (blank : ∀ c ∈ blanks, Text.isBlank c = true)
    {c : Char} (known : c ∈ ['@', '/', '\x7b', '=', ';', '(', ')']) :
    c ∉ header.name ∧ c ∉ blanks := by
  have each : ∀ c ∈ ['@', '/', '\x7b', '=', ';', '(', ')'],
      Name.isPart c = false ∧ Text.isBlank c = false := by
    decide
  obtain ⟨noPart, noBlank⟩ := each c known
  exact ⟨fun found => Bool.false_ne_true (noPart.symm.trans (sound.parts c found)),
    fun found => Bool.false_ne_true (noBlank.symm.trans (blank c found))⟩

private theorem IsSound.notMem_bare {c : Char} (known : c ∈ ['@', '/', '\x7b', '=', ';']) :
    c ∉ header.bare := by
  have each : ∀ c ∈ ['@', '/', '\x7b', '=', ';'],
      c ≠ '(' ∧ c ≠ ')' ∧ c ∈ ['@', '/', '\x7b', '=', ';', '(', ')'] := by
    decide
  obtain ⟨opening, closing, more⟩ := each c known
  obtain ⟨noName, noGap⟩ := sound.notMem_name sound.gap more
  simp only [bare, back, List.mem_append, List.mem_cons, not_or]
  exact ⟨sound.front c more, noName, noGap, opening, sound.params c known, closing,
    sound.rest c known⟩

private theorem IsSound.count_bare : header.bare.count '(' = header.bare.count ')' := by
  have none (c : Char) (known : c ∈ ['@', '/', '\x7b', '=', ';', '(', ')']) :
      header.front.count c = 0 ∧ header.name.count c = 0 ∧ header.gap.count c = 0 := by
    obtain ⟨noName, noGap⟩ := sound.notMem_name sound.gap known
    exact ⟨List.count_eq_zero.mpr (sound.front c known), List.count_eq_zero.mpr noName,
      List.count_eq_zero.mpr noGap⟩
  have closed := sound.closed
  simp only [isBalanced, Bool.and_eq_true, beq_iff_eq] at closed
  have opening := none '(' (by simp)
  have closing := none ')' (by simp)
  simp only [bare, back, List.count_append, List.count_cons, opening, closing, closed.2, sound.even]
  simp
  omega

private theorem IsSound.head?_trimStart (rest : List Char) :
    (Text.trimStart (header.bare ++ rest)).head? ≠ some '(' := by
  obtain ⟨first, name, shown⟩ := List.exists_cons_of_ne_nil sound.filled
  have part : Name.isPart first = true := sound.parts first (shown ▸ List.mem_cons_self)
  have whole : header.bare ++ rest = header.front ++ first :: (name ++ (header.back ++ rest)) := by
    simp [bare, shown]
  rw [whole, Text.trimStart_append_cons (Name.isBlank_of_isPart part)]
  intro opened
  have found : '(' ∈ Text.trimStart header.front ++ [first] := by
    cases front : Text.trimStart header.front with
    | nil =>
      rw [front] at opened
      simpa [eq_comm] using opened
    | cons c more =>
      rw [front] at opened
      simp at opened
      simp [opened]
  rcases List.mem_append.mp found with front | same
  · exact sound.front '(' (by simp) ((List.dropWhile_sublist _).subset front)
  · obtain rfl := List.mem_singleton.mp same
    exact absurd part (by decide)

theorem IsSound.header_eq {blanks : List Char} (blank : ∀ c ∈ blanks, Text.isBlank c = true)
    (rest : List Char) :
    Fragment.Member.header (header.chars ++ (blanks ++ '\x7b' :: rest)) =
      (Text.trim header.bare, true) := by
  have noBlank {c : Char} (known : c ∈ ['@', '/', '\x7b', '=', ';', '(', ')']) : c ∉ blanks :=
    (sound.notMem_name blank known).2
  have slashless : '/' ∉ header.chars ++ (blanks ++ ['\x7b']) := by
    simp [chars, sound.markers.notMem, sound.notMem_bare, noBlank]
  have unmarked : '@' ∉ header.bare ++ (blanks ++ ['\x7b']) := by
    simp [sound.notMem_bare, noBlank]
  obtain ⟨spaces, spaced, replaced⟩ := sound.markers.exists_replaceAll
    (sound.head?_trimStart (blanks ++ '\x7b' :: Fragment.Member.blankComments rest))
  have kept := @Annotations.replaceAll_append true [' '] _ unmarked
    (Fragment.Member.blankComments rest)
  have noSpace {c : Char} (known : c ∈ ['@', '/', '\x7b', '=', ';', '(', ')']) : c ∉ spaces :=
    (sound.notMem_name spaced known).2
  have endless : ∀ c ∈ ['\x7b', '=', ';'], c ∉ spaces ++ (header.bare ++ blanks) := by
    intro c known
    have more : c ∈ ['@', '/', '\x7b', '=', ';'] := List.mem_cons_of_mem _ (List.mem_cons_of_mem _ known)
    have all : c ∈ ['@', '/', '\x7b', '=', ';', '(', ')'] := List.mem_append_left ['(', ')'] more
    simp [noSpace all, noBlank all, sound.notMem_bare more]
  have even : (spaces ++ (header.bare ++ blanks)).count '(' =
      (spaces ++ (header.bare ++ blanks)).count ')' := by
    have none (c : Char) (known : c ∈ ['@', '/', '\x7b', '=', ';', '(', ')']) :
        spaces.count c = 0 ∧ blanks.count c = 0 :=
      ⟨List.count_eq_zero.mpr (noSpace known), List.count_eq_zero.mpr (noBlank known)⟩
    simp [none '(' (by simp), none ')' (by simp), sound.count_bare]
  have text : Annotations.replaceAll true [' ']
      (Fragment.Member.blankComments (header.chars ++ (blanks ++ '\x7b' :: rest))) =
        spaces ++ (header.bare ++ blanks) ++ '\x7b' ::
          Annotations.replaceAll true [' '] (Fragment.Member.blankComments rest) := by
    have first := Fragment.Member.blankComments_append slashless rest
    simp only [chars, List.append_assoc, List.cons_append, List.nil_append] at first replaced kept ⊢
    rw [first, replaced, kept]
  have trimmed : Text.trim (spaces ++ (header.bare ++ blanks)) = Text.trim header.bare := by
    rw [Text.trim_blanks_append spaced, Text.trim_append_blanks _ blank]
  rw [Fragment.Member.header, text, Fragment.Member.splitHeader_append_count endless, even]
  simp [Fragment.Member.splitHeader, trimmed]

private theorem IsSound.trim_bare : Text.trim header.bare =
    Text.trimStart header.front ++ header.name ++ header.gap
      ++ '(' :: (header.params ++ ')' :: Text.trimEnd header.rest) := by
  have ends : Text.isTrim (header.name ++ header.gap ++ '(' :: (header.params ++ [')'])) = true := by
    obtain ⟨first, name, shown⟩ := List.exists_cons_of_ne_nil sound.filled
    have filled := Name.isBlank_of_isPart (sound.parts first (shown ▸ List.mem_cons_self))
    have whole : header.name ++ header.gap ++ '(' :: (header.params ++ [')']) =
        first :: (name ++ header.gap ++ '(' :: header.params) ++ [')'] := by
      simp [shown]
    rw [whole, Text.isTrim, List.getLast?_concat, List.cons_append, List.head?_cons]
    simp only [Option.any_some, filled]
    decide
  have trimmed := Text.trim_append_append ends header.front header.rest
  simpa [bare, back] using trimmed

private theorem IsSound.trimStart_front : '(' ∉ Text.trimStart header.front ∧
    (Text.trimStart header.front).getLast?.all (! Name.isPart ·) = true := by
  refine ⟨fun found => sound.front '(' (by simp) ((List.dropWhile_sublist _).subset found), ?_⟩
  cases last : (Text.trimStart header.front).getLast? with
  | none => rfl
  | some c =>
    have apart := sound.apart
    rw [← List.takeWhile_append_dropWhile (p := Text.isBlank) (l := header.front),
      List.getLast?_append, ← Text.trimStart, last] at apart
    exact apart

private theorem IsSound.words_before :
    Text.words (Text.trimStart header.front ++ header.name ++ header.gap) =
      Text.words (header.front ++ header.name) := by
  obtain ⟨first, name, shown⟩ := List.exists_cons_of_ne_nil sound.filled
  have filled := Name.isBlank_of_isPart (sound.parts first (shown ▸ List.mem_cons_self))
  rw [Text.words_append_blanks sound.gap, shown, ← Text.trimStart_append_cons filled,
    Text.words_trimStart]

theorem IsSound.key_eq {blanks : List Char} (blank : ∀ c ∈ blanks, Text.isBlank c = true)
    (rest : List Char) :
    Fragment.Member.key (header.chars ++ (blanks ++ '\x7b' :: rest)) = header.key := by
  obtain ⟨unopened, apart⟩ := sound.trimStart_front
  have read : Signature.ofDeclarationChars? (Text.trim header.bare) = some header.signature := by
    rw [sound.trim_bare]
    exact Signature.ofDeclarationChars?_append unopened apart sound.filled sound.parts sound.gap
      (Signature.untilClosed?_of_isBalanced sound.closed _)
  have before : (Text.trim header.bare).takeWhile (· != '(') =
      Text.trimStart header.front ++ header.name ++ header.gap := by
    have closed : ∀ c ∈ Text.trimStart header.front ++ header.name ++ header.gap,
        (c != '(') = true := by
      obtain ⟨noName, noGap⟩ := sound.notMem_name sound.gap (c := '(') (by simp)
      rintro c found
      rw [bne_iff_ne]
      rintro rfl
      simp [unopened, noName, noGap] at found
    rw [sound.trim_bare, List.takeWhile_append_of_pos closed, List.takeWhile_cons_of_neg (by simp),
      List.append_nil]
  have noType : (Text.words ((Text.trim header.bare).takeWhile (· != '('))).any
      (fun word => typeKeywords.contains (String.ofList word)) = false := by
    rw [before, sound.words_before, List.any_eq_false]
    intro word inside known
    exact sound.free word inside (List.contains_iff_mem.mp known)
  have invocable : (Text.trim header.bare).contains '(' = true := by
    simp [sound.trim_bare]
  have front : Fragment.Member.dropEnd header.name
      (Text.trimEnd (Text.trimStart header.front ++ header.name ++ header.gap)) =
        Text.trimStart header.front := by
    have last : (Text.trimStart header.front ++ header.name).getLast?.all (! Text.isBlank ·) = true := by
      have last := Signature.isBlank_of_isPart_getLast sound.parts
      rw [List.getLast?_append]
      cases shown : header.name.getLast? with
      | none => exact absurd (List.getLast?_eq_none_iff.mp shown) sound.filled
      | some c => simpa [shown] using last
    rw [Text.trimEnd_append sound.gap, Text.trimEnd_of_filled last, Fragment.Member.dropEnd_append]
  rw [Fragment.Member.key, sound.header_eq blank]
  dsimp only
  rw [noType, if_neg Bool.false_ne_true, if_pos invocable, Fragment.Member.invocableKey, read]
  dsimp only [signature]
  rw [String.toList_ofList, before, front, Text.words_trimStart]
  rfl

theorem IsSound.signature_eq {method : Method}
    (written : Text.trim method.declaration.toList = header.chars) :
    method.signature = header.signature := by
  obtain ⟨before, after, blank, blank', whole⟩ := Text.exists_trim method.declaration.toList
  have outside : '(' ∉ before ++ header.markers := by
    simp [(sound.notMem_name blank (c := '(') (by simp)).2, sound.markers.notMem (c := '(') (by simp)]
  have spaced : (before ++ header.markers).getLast?.all Text.isBlank = true := by
    have marks := sound.markers.getLast?_all_isBlank
    rw [List.getLast?_append]
    cases last : header.markers.getLast? with
    | some c => simpa [last] using marks
    | none =>
      rw [Option.none_or]
      cases white : before.getLast? with
      | none => rfl
      | some c => exact blank c (List.mem_of_getLast? white)
  have read := sound.ofDeclarationChars?_eq outside spaced after
  have same : before ++ header.markers ++ (header.bare ++ after) = method.declaration.toList := by
    rw [whole, written, chars]
    simp
  rw [Method.signature, Signature.ofDeclaration?, ← same, read]
  rfl

/-- A hand-declared method is printed under the key under which it is found, if it is a constructor
in the model just as in the file: if it has the name of its class exactly when nothing but modifiers
stands in front of the name. -/
theorem IsSound.key_methodUpdate {method : Method}
    (written : Text.trim method.declaration.toList = header.chars) (owner : ModelClass) :
    ∃ text, (ClassFile.methodUpdate owner method).text Catalog.standard = .ok text ∧
      Fragment.Member.key text.toList = header.key ∧
      (header.key = (ClassFile.methodUpdate owner method).key ↔
        (header.isTypeless = true ↔ String.ofList header.name = owner.name)) := by
  have declared : (Text.trimmed method.declaration).toList = header.chars := by
    rw [Text.trimmed, String.toList_ofList, written]
  refine ⟨_, Update.text_of_render (render_method rfl rfl), ?_, ?_⟩
  · rw [String.toList_ofList, Fragment.Member.key_append (by decide), declared,
      sound.key_eq (by decide)]
  · have signature := sound.signature_eq written
    have named : (method.signature.name == owner.name) = true ↔
        String.ofList header.name = owner.name := by
      rw [signature, beq_iff_eq]
      rfl
    rw [← named]
    change header.key = ClassFile.methodKey owner method ↔ _
    rw [MethodHeader.key, ClassFile.methodKey, signature]
    cases header.isTypeless <;> cases header.signature.name == owner.name <;>
      simp [Key.ofMethod, Key.ofConstructor]

omit sound

private def marked : MethodHeader :=
  ⟨"@Override ".toList, "public <T> List<T> ".toList, "put".toList, " ".toList,
    "Map<K, V> m, int... (n)".toList, " throws E".toList⟩

private def markedMethod : Method :=
  ⟨"@Override public <T> List<T> put (Map<K, V> m, int... (n)) throws E", "", false⟩

private theorem isSound_marked : marked.IsSound where
  markers := @Annotations.AreMarkers.cons "Override".toList " ".toList [] (by decide) (by decide)
    (by decide) (by decide) .nil
  front := by decide
  params := by decide
  rest := by decide
  filled := by decide
  parts := by decide
  apart := by decide
  gap := by decide
  closed := by decide
  even := by decide
  free := by decide

theorem key_of_annotated_method :
    (ClassFile.methodUpdate (.ofName "A") markedMethod).key = marked.key ∧
    (ClassFile.methodUpdate (.ofName "A") ⟨"@Named(\"x\") public void f(int a)", "", false⟩).key =
      .ofMethod ⟨"Named", ["\"x\""]⟩ ∧
    Fragment.Member.key "@Named(\"x\") public void f(int a)\n\x7b\n\x7d".toList =
      .ofMethod ⟨"f", ["int"]⟩ := by
  refine ⟨?_, by decide +kernel, by decide +kernel⟩
  have written : Text.trim markedMethod.declaration.toList = marked.chars := by decide
  obtain ⟨text, -, -, same⟩ := isSound_marked.key_methodUpdate written (.ofName "A")
  exact (same.mpr (by decide)).symm

end MethodHeader

end ClassWeaver
