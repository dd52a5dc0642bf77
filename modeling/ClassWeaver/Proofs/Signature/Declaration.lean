import ClassWeaver.Proofs.Signature
import Mathlib.Data.List.Infix

set_option autoImplicit false

/-!
Declarations of methods as they are written: a name with parameters in parentheses, and anything in
front of it and behind it. Main statement: `ofDeclaration?_text`, the signature of such a
declaration has the name and the types of the parameters, and nothing else of the declaration
matters.
-/

namespace ClassWeaver.Signature

/-- Says that brackets of a kind are balanced: no part in front of a text closes more of them than
it opens, and the whole text closes as many. -/
def isBalanced (opening closing : Char) (text : List Char) : Bool :=
  text.inits.all (fun front => front.count closing ≤ front.count opening)
    && text.count closing == text.count opening

theorem untilClosed?_append_of_count {params : List Char} {inner : Nat}
    (fronts : ∀ front, front <+: params → front.count ')' ≤ front.count '(' + inner)
    (total : params.count ')' = params.count '(' + inner) (rest : List Char) :
    untilClosed? inner (params ++ ')' :: rest) = some params := by
  induction params generalizing inner with
  | nil =>
    obtain rfl : inner = 0 := by simpa using total.symm
    simp [untilClosed?]
  | cons c params ih =>
    have within (front : List Char) (before : front <+: params) :=
      fronts (c :: front) (List.cons_prefix_cons.mpr ⟨rfl, before⟩)
    by_cases opening : c = '('
    · subst opening
      have later : untilClosed? (inner + 1) (params ++ ')' :: rest) = some params := by
        refine ih (fun front before => ?_) ?_
        · have here := within front before
          simp at here
          omega
        · simp at total
          omega
      simp [untilClosed?, later]
    by_cases closing : c = ')'
    · subst closing
      have first := within [] List.nil_prefix
      obtain ⟨less, rfl⟩ : ∃ less, inner = less + 1 := ⟨inner - 1, by simp at first; omega⟩
      have later : untilClosed? less (params ++ ')' :: rest) = some params := by
        refine ih (fun front before => ?_) ?_
        · have here := within front before
          simp at here
          omega
        · simp at total
          omega
      simp [untilClosed?, later]
    · have later : untilClosed? inner (params ++ ')' :: rest) = some params := by
        refine ih (fun front before => ?_) ?_
        · simpa [opening, closing] using within front before
        · simpa [opening, closing] using total
      simp [untilClosed?, opening, closing, later]

theorem untilClosed?_of_isBalanced {params : List Char} (balanced : isBalanced '(' ')' params = true)
    (rest : List Char) : untilClosed? 0 (params ++ ')' :: rest) = some params := by
  simp only [isBalanced, Bool.and_eq_true, List.all_eq_true, List.mem_inits, decide_eq_true_eq,
    beq_iff_eq] at balanced
  exact untilClosed?_append_of_count balanced.1 balanced.2 rest

/-- Says that every comma of a text stands inside angle or square brackets. -/
def holdsCommas (text : List Char) : Bool :=
  text.inits.all fun front =>
    ! (front ++ [',']).isPrefixOf text || front.count '>' < front.count '<'
      || front.count ']' < front.count '['

/-- A text that stands for a type in front of the name of a parameter. -/
structure IsWrittenType (type : List Char) : Prop where
  visible : type.any (! Text.isBlank ·) = true
  noFinal : (Text.words type).head? ≠ some "final".toList
  plain : ∀ c ∈ ['(', ')', '@'], c ∉ type
  angles : isBalanced '<' '>' type = true
  squares : isBalanced '[' ']' type = true
  commas : holdsCommas type = true

structure IsWrittenName (name : List Char) : Prop where
  filled : name ≠ []
  parts : ∀ c ∈ name, Name.isPart c = true

theorem openIn_eq {text : List Char} (opens : '(' ∉ text) (closes : ')' ∉ text) :
    openIn text = (text.count '<' : Int) - text.count '>'
      + (text.count '[' - text.count ']') := by
  induction text with
  | nil => rfl
  | cons c text ih =>
    rw [List.mem_cons, not_or] at opens closes
    rw [openIn, ih opens.2 closes.2]
    simp only [List.count_cons, nesting, Bool.or_eq_true, beq_iff_eq]
    by_cases opening : c = '<' ∨ c = '['
    · rcases opening with rfl | rfl <;> simp <;> omega
    · by_cases closing : c = '>' ∨ c = ']'
      · rcases closing with rfl | rfl <;> simp <;> omega
      · rw [not_or] at opening closing
        simp [opening, closing, Ne.symm opens.1, Ne.symm closes.1]

theorem IsWrittenType.depthAfter?_eq {type : List Char} (written : IsWrittenType type) :
    depthAfter? 0 type = some 0 := by
  have angles := written.angles
  have squares := written.squares
  have commas := written.commas
  simp only [isBalanced, holdsCommas, Bool.and_eq_true, Bool.or_eq_true, List.all_eq_true,
    List.mem_inits, decide_eq_true_eq, beq_iff_eq, Bool.not_eq_true', Bool.eq_false_iff, ne_eq,
    List.isPrefixOf_iff_prefix] at angles squares commas
  have total := openIn_eq (written.plain '(' (by simp)) (written.plain ')' (by simp))
  rw [depthAfter?_eq_openIn]
  · rw [total, angles.2, squares.2]
    simp
  · intro front rest whole
    have before : front <+: type := ⟨',' :: rest, whole.symm⟩
    have comma : front ++ [','] <+: type := ⟨rest, by rw [whole]; simp⟩
    have noOpening : '(' ∉ front := fun found => written.plain '(' (by simp) (before.subset found)
    have noClosing : ')' ∉ front := fun found => written.plain ')' (by simp) (before.subset found)
    have here := openIn_eq noOpening noClosing
    have angle := angles.1 front before
    have square := squares.1 front before
    rw [here]
    rcases commas front before with (absent | inside) | inside
    · exact absurd comma absent
    · omega
    · omega

/-- A declaration as it is written: the types and the names of its parameters stand behind its name
in parentheses. -/
structure Declaration where
  head : String
  name : String
  params : List (String × String)
  tail : String

namespace Declaration

def types (declaration : Declaration) : List String :=
  declaration.params.map (·.1)

def text (declaration : Declaration) : String :=
  declaration.head ++ declaration.name ++ "("
    ++ ", ".intercalate (declaration.params.map fun (type, name) => type ++ " " ++ name) ++ ")"
    ++ declaration.tail

/-- Says that the name of a declaration begins behind white space or at the front, and that its name
and its parameters can be told from each other. -/
structure IsSound (declaration : Declaration) : Prop where
  unopened : '(' ∉ declaration.head.toList
  apart : declaration.head.toList.getLast?.all Text.isBlank = true
  name : IsWrittenName declaration.name.toList
  params : ∀ param ∈ declaration.params,
    IsWrittenType param.1.toList ∧ IsWrittenName param.2.toList

variable {declaration other : Declaration}

private def chars (declaration : Declaration) : List Param :=
  declaration.params.map fun (type, name) => (type.toList, name.toList)

private theorem IsSound.isReadable (sound : declaration.IsSound) :
    ∀ param ∈ declaration.chars, param.IsReadable := by
  refine List.forall_mem_map.mpr fun param found => ?_
  obtain ⟨type, name⟩ := sound.params param found
  exact {
    visible := type.visible
    noFinal := type.noFinal
    closed := type.depthAfter?_eq
    plain := type.plain
    filled := name.filled
    parts := name.parts }

private theorem toList_intercalate (params : List (String × String)) :
    (", ".intercalate (params.map fun (type, name) => type ++ " " ++ name)).toList =
      paramsText (params.map fun (type, name) => (type.toList, name.toList)) := by
  induction params with
  | nil => rfl
  | cons first rest ih =>
    cases rest with
    | nil => simp [paramsText, Param.text]
    | cons second rest =>
      rw [List.map_cons, List.map_cons] at ih
      rw [List.map_cons, List.map_cons, String.intercalate_cons_cons, String.toList_append, ih]
      simp [paramsText, Param.text]

private theorem toList_text (declaration : Declaration) :
    declaration.text.toList = declaration.head.toList ++ declaration.name.toList
      ++ '(' :: (paramsText declaration.chars ++ ')' :: declaration.tail.toList) := by
  have params := toList_intercalate declaration.params
  rw [← chars] at params
  simp only [text, String.toList_append, params]
  simp

private theorem IsSound.ofDeclaration?_eq (sound : declaration.IsSound) :
    ofDeclaration? declaration.text = some (ofTypes declaration.name declaration.types) := by
  rw [ofDeclaration?, toList_text, ofDeclarationChars?_written sound.unopened sound.apart
    sound.name.filled sound.name.parts sound.isReadable]
  simp [types, chars, Function.comp_def]

/-- Reading a declaration finds the name and the types from which it was written; what stands in
front of the name and behind the parameters, their names and the white space in their types do not
matter. -/
theorem ofDeclaration?_text (sound : declaration.IsSound) :
    ofDeclaration? declaration.text = some (ofTypes declaration.name declaration.types) ∧
      ∀ other : Declaration, other.IsSound → other.name = declaration.name →
        other.types.map normalizeType = declaration.types.map normalizeType →
          ofDeclaration? other.text = ofDeclaration? declaration.text := by
  refine ⟨sound.ofDeclaration?_eq, fun other sound' name types => ?_⟩
  rw [sound.ofDeclaration?_eq, sound'.ofDeclaration?_eq, ofTypes, ofTypes, name, types]

private def nested : Declaration :=
  ⟨"public static <T> ", "put$", [("Map<String, List<T [ ]>>", "m1"), ("final_ Object...", "rest")],
    " throws E \x7b (@"⟩

private def renamed : Declaration :=
  ⟨"", "put$", [("Map<String,List<T[]>>", "_"), ("\tfinal_Object...", "x")], ""⟩

private theorem isSound_nested : nested.IsSound where
  unopened := by decide
  apart := by decide
  name := ⟨by decide, by decide⟩
  params := by
    refine List.forall_mem_cons.mpr ⟨⟨⟨?_, ?_, ?_, ?_, ?_, ?_⟩, ⟨?_, ?_⟩⟩,
      List.forall_mem_singleton.mpr ⟨⟨?_, ?_, ?_, ?_, ?_, ?_⟩, ⟨?_, ?_⟩⟩⟩ <;> decide

private theorem isSound_renamed : renamed.IsSound where
  unopened := by decide
  apart := by decide
  name := ⟨by decide, by decide⟩
  params := by
    refine List.forall_mem_cons.mpr ⟨⟨⟨?_, ?_, ?_, ?_, ?_, ?_⟩, ⟨?_, ?_⟩⟩,
      List.forall_mem_singleton.mpr ⟨⟨?_, ?_, ?_, ?_, ?_, ?_⟩, ⟨?_, ?_⟩⟩⟩ <;> decide

/-- The commas between arguments separate no parameters, and the second parameter has no modifier.
-/
theorem put_is_read_from_both :
    ofDeclaration? nested.text = some ⟨"put$", ["Map<String,List<T[]>>", "final_Object..."]⟩ ∧
      ofDeclaration? renamed.text = ofDeclaration? nested.text := by
  obtain ⟨read, same⟩ := ofDeclaration?_text isSound_nested
  refine ⟨read.trans (by decide), same renamed isSound_renamed rfl (by decide)⟩

end Declaration

end ClassWeaver.Signature
