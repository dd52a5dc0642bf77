import ClassWeaver.Fragment.Member
import ClassWeaver.Proofs.Name
import ClassWeaver.Proofs.Text.Trimming

set_option autoImplicit false

/-!
Texts of types: names of types with arguments in angle brackets and brackets of arrays. Main
statement: where such a text stands in a declaration, none of its words is mistaken for a modifier or
a keyword, and its commas separate no parameters.
-/

namespace ClassWeaver

namespace TypeText

def primitives : List String :=
  ["boolean", "byte", "short", "int", "long", "char", "float", "double"]

mutual

/-- Primitive types and classes, perhaps with arguments, and arrays of them. -/
inductive IsType : List Char → Prop where
  | primitive {name : String} (known : name ∈ primitives) : IsType name.toList
  | named {name : String} (qualified : Name.isQualified name = true) : IsType name.toList
  | generic {name : String} {arguments : List Char} (qualified : Name.isQualified name = true)
      (filled : AreArguments arguments) : IsType (name.toList ++ '<' :: (arguments ++ ['>']))
  | array {type : List Char} (item : IsType type) : IsType (type ++ ['[', ']'])

inductive IsArgument : List Char → Prop where
  | type {type : List Char} (given : IsType type) : IsArgument type
  | any : IsArgument ['?']
  | upper {type : List Char} (bound : IsType type) : IsArgument ("? extends".toList ++ ' ' :: type)
  | lower {type : List Char} (bound : IsType type) : IsArgument ("? super".toList ++ ' ' :: type)

inductive AreArguments : List Char → Prop where
  | single {first : List Char} (argument : IsArgument first) : AreArguments first
  | more {first rest : List Char} (spaces : Nat) (argument : IsArgument first)
      (others : AreArguments rest) :
      AreArguments (first ++ ',' :: (List.replicate spaces ' ' ++ rest))

end

def isNamePart (c : Char) : Bool :=
  Name.isPart c || c == '.'

/-- Words that are more than names in the header of a member. -/
def structural : List String :=
  Fragment.Member.modifiers ++ Fragment.Member.typeKeywords

def pushAll (text : List Char) (parts : List (List Char)) : List (List Char) :=
  text.foldr Text.pushFront parts

/-- A text inside brackets, or at the top level of a declaration if `depth` is zero, that holds names
which are not structural, and in which every comma stands inside brackets. -/
structure IsQuiet (depth : Int) (text : List Char) : Prop where
  chars : ∀ c ∈ text, isNamePart c = true ∨ c ∈ ['<', '>', ',', '[', ']', '?', ' ']
  names : ∀ name ∈ Text.splitWhere (! isNamePart ·) text, String.ofList name ∉ structural
  commas : ∀ inner rest, depth ≤ inner →
    Signature.splitCommas inner (text ++ rest) = pushAll text (Signature.splitCommas inner rest)

structure IsTypeText (type : List Char) : Prop extends IsQuiet 0 type where
  begins : type.head?.any isNamePart = true
  ends : type.getLast?.all (! Text.isBlank ·) = true

theorem pushAll_append (a b : List Char) (parts : List (List Char)) :
    pushAll (a ++ b) parts = pushAll a (pushAll b parts) :=
  List.foldr_append

theorem pushAll_cons (text part : List Char) (parts : List (List Char)) :
    pushAll text (part :: parts) = (text ++ part) :: parts := by
  induction text with
  | nil => rfl
  | cons c text ih => exact congrArg (Text.pushFront c) ih

section Commas

open Signature (splitCommas nesting)

theorem splitCommas_cons (c : Char) (depth : Int) (inside : c ≠ ',' ∨ depth ≠ 0) (rest : List Char) :
    splitCommas depth (c :: rest) = Text.pushFront c (splitCommas (depth + nesting c) rest) := by
  have apart : ¬ ((c == ',' && depth == 0) = true) := by
    simp only [Bool.and_eq_true, beq_iff_eq, not_and_or]
    exact inside
  rw [splitCommas, if_neg apart]

def isLevel (c : Char) : Bool :=
  c != ',' && nesting c == 0

theorem splitCommas_append {text : List Char} (level : ∀ c ∈ text, isLevel c = true) (depth : Int)
    (rest : List Char) :
    splitCommas depth (text ++ rest) = pushAll text (splitCommas depth rest) := by
  induction text with
  | nil => rfl
  | cons c text ih =>
      have here := level c List.mem_cons_self
      simp only [isLevel, Bool.and_eq_true, bne_iff_ne, ne_eq, beq_iff_eq] at here
      rw [List.cons_append, splitCommas_cons c depth (.inl here.1), here.2, Int.add_zero,
        ih fun d found => level d (List.mem_cons_of_mem c found)]
      rfl

theorem isLevel_of_isNamePart {c : Char} (part : isNamePart c = true) : isLevel c = true := by
  have each : ∀ c ∈ [',', '<', '(', '[', '>', ')', ']'], isNamePart c = false := by decide
  have other (d : Char) (found : d ∈ [',', '<', '(', '[', '>', ')', ']']) : c ≠ d := by
    rintro rfl
    rw [each c found] at part
    exact Bool.false_ne_true part
  have comma := other ',' (by simp)
  have angle := other '<' (by simp)
  have paren := other '(' (by simp)
  have square := other '[' (by simp)
  have angle' := other '>' (by simp)
  have paren' := other ')' (by simp)
  have square' := other ']' (by simp)
  simp [isLevel, nesting, comma, angle, paren, square, angle', paren', square']

end Commas

namespace IsQuiet

open Signature (splitCommas nesting)

variable {depth : Int} {a b text : List Char}

theorem mono (quiet : IsQuiet depth text) {inner : Int} (deeper : depth ≤ inner) :
    IsQuiet inner text :=
  { quiet with commas := fun level rest below => quiet.commas level rest (Int.le_trans deeper below) }

theorem of_isLevel
    (chars : ∀ c ∈ text, isNamePart c = true ∨ c ∈ ['<', '>', ',', '[', ']', '?', ' '])
    (level : ∀ c ∈ text, isLevel c = true)
    (names : ∀ name ∈ Text.splitWhere (! isNamePart ·) text, String.ofList name ∉ structural) :
    IsQuiet depth text where
  chars := chars
  names := names
  commas := fun inner rest _ => splitCommas_append level inner rest

theorem of_name (parts : ∀ c ∈ text, isNamePart c = true)
    (free : String.ofList text ∉ structural) : IsQuiet depth text := by
  refine of_isLevel (fun c found => .inl (parts c found))
    (fun c found => isLevel_of_isNamePart (parts c found)) ?_
  rw [Text.splitWhere_of_forall (by simpa using parts)]
  simpa using free

theorem names_append_cons {c : Char} (apart : isNamePart c = false)
    (first : ∀ name ∈ Text.splitWhere (! isNamePart ·) a, String.ofList name ∉ structural)
    (second : ∀ name ∈ Text.splitWhere (! isNamePart ·) b, String.ofList name ∉ structural) :
    ∀ name ∈ Text.splitWhere (! isNamePart ·) (a ++ c :: b), String.ofList name ∉ structural := by
  intro name found
  rw [Text.splitWhere_append_cons (by simp [apart])] at found
  rcases List.mem_append.mp found with found | found
  · exact first name found
  · exact second name found

private theorem chars_append {c : Char} (known : c ∈ ['<', '>', ',', '[', ']', '?', ' '])
    (first : ∀ d ∈ a, isNamePart d = true ∨ d ∈ ['<', '>', ',', '[', ']', '?', ' '])
    (second : ∀ d ∈ b, isNamePart d = true ∨ d ∈ ['<', '>', ',', '[', ']', '?', ' ']) :
    ∀ d ∈ a ++ c :: b, isNamePart d = true ∨ d ∈ ['<', '>', ',', '[', ']', '?', ' '] := by
  intro d found
  rcases List.mem_append.mp found with found | found
  · exact first d found
  · rcases List.mem_cons.mp found with rfl | found
    · exact .inr known
    · exact second d found

theorem empty : IsQuiet depth [] where
  chars := by simp
  names := by decide
  commas := fun _ _ _ => rfl

theorem append_level {c : Char} (known : c ∈ ['?', ' ']) (first : IsQuiet depth a)
    (second : IsQuiet depth b) : IsQuiet depth (a ++ c :: b) where
  chars := chars_append (by revert known; simp; tauto) first.chars second.chars
  names := by
    have each : ∀ c ∈ ['?', ' '], isNamePart c = false := by decide
    exact names_append_cons (each c known) first.names second.names
  commas := by
    intro inner rest deeper
    have level : ∀ d ∈ [c], isLevel d = true := by
      have each : ∀ c ∈ ['?', ' '], isLevel c = true := by decide
      simpa using each c known
    have middle := splitCommas_append level inner (b ++ rest)
    rw [List.append_assoc, first.commas inner _ deeper, List.cons_append, pushAll_append]
    exact congrArg (pushAll a) (middle.trans (congrArg (pushAll [c]) (second.commas inner rest deeper)))

theorem spaces (quiet : IsQuiet depth text) (count : Nat) :
    IsQuiet depth (List.replicate count ' ' ++ text) := by
  induction count with
  | zero => exact quiet
  | succ count ih => exact append_level (a := []) (by simp) empty ih

theorem append_comma (inside : 0 < depth) (first : IsQuiet depth a) (second : IsQuiet depth b) :
    IsQuiet depth (a ++ ',' :: b) where
  chars := chars_append (by simp) first.chars second.chars
  names := names_append_cons (by decide) first.names second.names
  commas := by
    intro inner rest deeper
    have middle := splitCommas_cons ',' inner (.inr (by omega)) (b ++ rest)
    have flat : inner + nesting ',' = inner := by simp [nesting]
    rw [flat, second.commas inner rest deeper] at middle
    rw [List.append_assoc, first.commas inner _ deeper, List.cons_append, middle, pushAll_append]
    rfl

theorem append_brackets {opening closing : Char} (known : opening = '<' ∧ closing = '>' ∨
    opening = '[' ∧ closing = ']') (first : IsQuiet depth a) (second : IsQuiet (depth + 1) b) :
    IsQuiet depth (a ++ opening :: (b ++ [closing])) where
  chars := by
    refine chars_append ?_ first.chars (chars_append ?_ second.chars (by simp))
    · rcases known with ⟨rfl, -⟩ | ⟨rfl, -⟩ <;> simp
    · rcases known with ⟨-, rfl⟩ | ⟨-, rfl⟩ <;> simp
  names := by
    refine names_append_cons ?_ first.names (names_append_cons ?_ second.names (by decide))
    · rcases known with ⟨rfl, -⟩ | ⟨rfl, -⟩ <;> decide
    · rcases known with ⟨-, rfl⟩ | ⟨-, rfl⟩ <;> decide
  commas := by
    intro inner rest deeper
    have opens : opening ≠ ',' ∧ nesting opening = 1 := by
      rcases known with ⟨rfl, -⟩ | ⟨rfl, -⟩ <;> simp [nesting]
    have closes : closing ≠ ',' ∧ nesting closing = -1 := by
      rcases known with ⟨-, rfl⟩ | ⟨-, rfl⟩ <;> simp [nesting]
    have last := splitCommas_cons closing (inner + 1) (.inl closes.1) rest
    have front := splitCommas_cons opening inner (.inl opens.1) (b ++ closing :: rest)
    have back : inner + 1 + nesting closing = inner := by omega
    rw [back] at last
    rw [opens.2, second.commas (inner + 1) _ (by omega), last] at front
    have whole : a ++ opening :: (b ++ [closing]) ++ rest =
        a ++ opening :: (b ++ closing :: rest) := by simp
    rw [whole, first.commas inner _ deeper, front, pushAll_append]
    simp [pushAll]

end IsQuiet

private theorem isQuiet_extends {depth : Int} : IsQuiet depth "? extends".toList :=
  .of_isLevel (by decide) (by decide) (by decide)

private theorem isQuiet_super {depth : Int} : IsQuiet depth "? super".toList :=
  .of_isLevel (by decide) (by decide) (by decide)

private theorem isQuiet_qualified {name : String} {depth : Int}
    (qualified : Name.isQualified name = true) : IsQuiet depth name.toList := by
  have reserved : ∀ word ∈ structural, word ∈ Name.reserved := by decide
  refine .of_name (fun c found => ?_) ?_
  · rcases (Name.of_isQualified qualified).2 c found with part | rfl
    · simp [isNamePart, part]
    · decide
  · rw [String.ofList_toList]
    exact fun found => Name.notMem_reserved_of_isQualified qualified (reserved name found)

private theorem isQuiet_primitive {name : String} {depth : Int} (known : name ∈ primitives) :
    IsQuiet depth name.toList := by
  have each : ∀ name ∈ primitives, (∀ c ∈ name.toList, isNamePart c = true) ∧ name ∉ structural := by
    decide
  refine .of_name (each name known).1 ?_
  rw [String.ofList_toList]
  exact (each name known).2

mutual

theorem isQuiet_of_isType {type : List Char} : IsType type → IsQuiet 0 type
  | .primitive known => isQuiet_primitive known
  | .named qualified => isQuiet_qualified qualified
  | .generic qualified filled =>
    .append_brackets (.inl ⟨rfl, rfl⟩) (isQuiet_qualified qualified) (isQuiet_of_areArguments filled)
  | .array item => .append_brackets (b := []) (.inr ⟨rfl, rfl⟩) (isQuiet_of_isType item) .empty

private theorem isQuiet_of_isArgument {text : List Char} : IsArgument text → IsQuiet 1 text
  | .type given => (isQuiet_of_isType given).mono (by decide)
  | .any => .append_level (a := []) (b := []) (by simp) .empty .empty
  | .upper bound =>
    .append_level (by simp) isQuiet_extends ((isQuiet_of_isType bound).mono (by decide))
  | .lower bound =>
    .append_level (by simp) isQuiet_super ((isQuiet_of_isType bound).mono (by decide))

private theorem isQuiet_of_areArguments {text : List Char} : AreArguments text → IsQuiet 1 text
  | .single argument => isQuiet_of_isArgument argument
  | .more spaces argument others =>
    .append_comma (by decide) (isQuiet_of_isArgument argument)
      ((isQuiet_of_areArguments others).spaces spaces)

end

private theorem begins_of_filled {name : List Char} (filled : name ≠ [])
    (parts : ∀ c ∈ name, isNamePart c = true) (rest : List Char) :
    (name ++ rest).head?.any isNamePart = true := by
  cases name with
  | nil => exact absurd rfl filled
  | cons c name => simpa using parts c List.mem_cons_self

theorem isNamePart_of_isQualified {name : String} (qualified : Name.isQualified name = true) :
    ∀ c ∈ name.toList, isNamePart c = true := by
  intro c found
  rcases (Name.of_isQualified qualified).2 c found with part | rfl
  · simp [isNamePart, part]
  · decide

private theorem isNamePart_of_primitive {name : String} (known : name ∈ primitives) :
    name.toList ≠ [] ∧ ∀ c ∈ name.toList, isNamePart c = true := by
  have each : ∀ name ∈ primitives, name.toList ≠ [] ∧ ∀ c ∈ name.toList, isNamePart c = true := by
    decide
  exact each name known

theorem isBlank_of_isNamePart {c : Char} (part : isNamePart c = true) : Text.isBlank c = false := by
  rw [isNamePart, Bool.or_eq_true, beq_iff_eq] at part
  rcases part with part | rfl
  · exact Name.isBlank_of_isPart part
  · decide

private theorem begins_of_isType {type : List Char} (given : IsType type) :
    ∀ rest, (type ++ rest).head?.any isNamePart = true := by
  intro rest
  match given with
  | .primitive known =>
      obtain ⟨filled, parts⟩ := isNamePart_of_primitive known
      exact begins_of_filled filled parts rest
  | .named qualified =>
      exact begins_of_filled (Name.of_isQualified qualified).1
        (isNamePart_of_isQualified qualified) rest
  | .generic qualified filled =>
      rw [List.append_assoc]
      exact begins_of_filled (Name.of_isQualified qualified).1
        (isNamePart_of_isQualified qualified) _
  | .array item =>
      rw [List.append_assoc]
      exact begins_of_isType item _

namespace IsTypeText

variable {type : List Char}

theorem ne_nil (given : IsTypeText type) : type ≠ [] := by
  rintro rfl
  have begins := given.begins
  simp at begins

theorem isTrim (given : IsTypeText type) : Text.isTrim type = true := by
  have begins := given.begins
  have ends := given.ends
  cases shown : type.getLast? with
  | none => exact absurd (List.getLast?_eq_none_iff.mp shown) given.ne_nil
  | some d =>
      rw [shown] at ends
      cases first : type.head? with
      | none => simp [first] at begins
      | some c =>
          rw [first] at begins
          have part : isNamePart c = true := by simpa using begins
          simpa [Text.isTrim, first, shown, isBlank_of_isNamePart part] using ends

theorem notMem (given : IsTypeText type) {c : Char} (other : isNamePart c = false)
    (special : c ∉ ['<', '>', ',', '[', ']', '?', ' ']) : c ∉ type := by
  intro found
  rcases given.chars c found with part | known
  · rw [part] at other
    exact Bool.noConfusion other
  · exact special known

end IsTypeText

private theorem ends_of_parts {name : List Char} (parts : ∀ c ∈ name, isNamePart c = true) :
    name.getLast?.all (! Text.isBlank ·) = true := by
  cases shown : name.getLast? with
  | none => rfl
  | some c =>
      have last := isBlank_of_isNamePart (parts c (List.mem_of_getLast? shown))
      simpa using last

theorem isTypeText_of_isType {type : List Char} (given : IsType type) : IsTypeText type where
  toIsQuiet := isQuiet_of_isType given
  begins := by simpa using begins_of_isType given []
  ends := by
    cases given with
    | primitive known => exact ends_of_parts (isNamePart_of_primitive known).2
    | named qualified => exact ends_of_parts (isNamePart_of_isQualified qualified)
    | generic qualified filled =>
        rw [List.getLast?_append_cons, List.getLast?_cons]
        simp [Text.isBlank, Text.isAscii]
    | array item => simp [Text.isBlank, Text.isAscii]

theorem isTypeText_of_parts {name : List Char} (filled : name ≠ [])
    (parts : ∀ c ∈ name, isNamePart c = true) (free : String.ofList name ∉ structural) :
    IsTypeText name where
  toIsQuiet := .of_name parts free
  begins := by simpa using begins_of_filled filled parts []
  ends := ends_of_parts parts

theorem isTypeText_variadic {name : String} (qualified : Name.isQualified name = true) :
    IsTypeText (name.toList ++ "...".toList) := by
  have parts : ∀ c ∈ name.toList ++ "...".toList, isNamePart c = true := by
    intro c found
    rcases List.mem_append.mp found with found | found
    · exact isNamePart_of_isQualified qualified c found
    · have each : ∀ c ∈ "...".toList, isNamePart c = true := by decide
      exact each c found
  have free : String.ofList (name.toList ++ "...".toList) ∉ structural := by
    have each : ∀ word ∈ structural, '.' ∉ word.toList := by decide
    intro found
    refine each _ found ?_
    rw [String.toList_ofList]
    exact List.mem_append_right _ (by decide)
  exact isTypeText_of_parts (by simp) parts free

end TypeText

end ClassWeaver
