import ClassWeaver.Name
import ClassWeaver.Proofs.Fragment.Merging
import ClassWeaver.Proofs.Fragment.Scan
import ClassWeaver.Proofs.Text.Words

set_option autoImplicit false

/-!
The characters of names. Main statements: no character of a name is white space or means anything for
the structure of a source text, and names of ASCII stand as one word wherever generated code has them.
-/

namespace ClassWeaver.Name

open Fragment.Source (isNeutral)

theorem isPart_of_isBlank {c : Char} (blank : Text.isBlank c = true) : isPart c = false := by
  by_cases ascii : Text.isAscii c = true
  · have each : ∀ code ∈ [9, 10, 11, 12, 13, 32], isPart (Char.ofNat code) = false := by
      decide
    have here := each c.toNat (Text.toNat_of_isBlank_of_isAscii blank ascii)
    rwa [Char.ofNat_toNat] at here
  · have held : Text.blankRanges.holds c = true := by simpa [Text.isBlank, ascii] using blank
    have notAlphabetic : Text.alphabeticRanges.holds c = false :=
      Text.Ranges.holds_of_apart (by decide +kernel) held
    have notNumeric : Text.numericRanges.holds c = false :=
      Text.Ranges.holds_of_apart (by decide) held
    have notMarks : c ≠ '_' ∧ c ≠ '$' := by
      constructor <;> rintro rfl <;> exact ascii (by decide)
    simp [isPart, Text.isAlphabetic, Text.isNumeric, ascii, notAlphabetic, notNumeric, notMarks]

theorem isBlank_of_isPart {c : Char} (part : isPart c = true) : Text.isBlank c = false := by
  rw [← Bool.not_eq_true]
  intro blank
  rw [isPart_of_isBlank blank] at part
  exact Bool.false_ne_true part

theorem isNeutral_of_isPart {c : Char} (part : isPart c = true) : isNeutral c = true := by
  have each : ∀ c ∈ ['/', '@', '"', '\'', '\\', '\n', '\x7b', '\x7d', '(', ')', ';', '='],
      isPart c = false := by decide
  rw [isNeutral, Bool.not_eq_true', ← Bool.not_eq_true, List.contains_iff_mem]
  intro found
  rw [each c found] at part
  exact Bool.false_ne_true part

theorem of_isSimple {name : String} (simple : isSimple name = true) :
    name.toList ≠ [] ∧ (∀ c ∈ name.toList, isPart c = true) ∧ name ∉ reserved := by
  unfold isSimple at simple
  split at simple
  · simp at simple
  · next c rest shown =>
      simp only [Bool.and_eq_true, Bool.not_eq_true', List.all_eq_true] at simple
      obtain ⟨⟨start, parts⟩, free⟩ := simple
      refine ⟨by simp [shown], ?_, by simpa using free⟩
      intro d found
      rw [shown] at found
      rcases List.mem_cons.mp found with rfl | found
      · exact isPart_of_isStart start
      · exact parts d found

/-- A simple name of ASCII without dollar signs. -/
def isPlain (name : String) : Bool :=
  isSimple name && name.toList.all fun c => Text.isAscii c && c != '$'

theorem of_isPlain {name : String} (plain : isPlain name = true) :
    isSimple name = true ∧ ∀ c ∈ name.toList, Text.isAscii c = true ∧ c ≠ '$' := by
  simpa [isPlain] using plain

theorem isAlphanum_of_isPlain {name : String} (plain : isPlain name = true) {c : Char}
    (found : c ∈ name.toList) : (c.isAlphanum || c == '_') = true := by
  obtain ⟨simple, ascii⟩ := of_isPlain plain
  have part := (of_isSimple simple).2.1 c found
  obtain ⟨here, noDollar⟩ := ascii c found
  rw [isPart, Text.isAlphabetic_of_isAscii here, Text.isNumeric_of_isAscii here] at part
  simpa [Char.isAlphanum, noDollar] using part

theorem isWord_of_isPlain {name : String} (plain : isPlain name = true) {c : Char}
    (found : c ∈ name.toList) : Text.isWord c = true := by
  rw [Text.isWord_of_isAscii ((of_isPlain plain).2 c found).1]
  exact isAlphanum_of_isPlain plain found

theorem isDeclarable_of_isPlain {name : String} (plain : isPlain name = true)
    (noClause : Text.contains name.toList "implements".toList = false) :
    Fragment.IsDeclarable name.toList where
  filled := (of_isSimple (of_isPlain plain).1).1
  word := fun _ found => isWord_of_isPlain plain found
  visible := fun c found => isBlank_of_isPart ((of_isSimple (of_isPlain plain).1).2.1 c found)
  noClause := noClause

theorem of_isQualified {name : String} (qualified : isQualified name = true) :
    name.toList ≠ [] ∧ ∀ c ∈ name.toList, isPart c = true ∨ c = '.' := by
  rw [isQualified, List.all_eq_true] at qualified
  constructor
  · intro none
    rw [none] at qualified
    have empty := qualified [] (by simp [Text.splitWhere])
    simp [isSimple] at empty
  · intro c found
    by_cases dot : c = '.'
    · exact .inr dot
    · obtain ⟨part, inside, here⟩ :=
        Text.exists_part_of_mem (p := (· == '.')) found (by simpa using dot)
      have parts := (of_isSimple (qualified part inside)).2.1
      rw [String.toList_ofList] at parts
      exact .inl (parts c here)

theorem brace_notMem_of_isSimple {name : String} (simple : isSimple name = true) :
    '\x7b' ∉ name.toList :=
  fun found => absurd ((of_isSimple simple).2.1 _ found) (by decide)

theorem brace_notMem_of_isQualified {name : String} (qualified : isQualified name = true) :
    '\x7b' ∉ name.toList := by
  intro found
  rcases (of_isQualified qualified).2 _ found with part | dot
  · exact absurd part (by decide)
  · exact absurd dot (by decide)

theorem isQualified_of_notMem {name : String} (noDot : '.' ∉ name.toList) :
    isQualified name = isSimple name := by
  have whole : Text.splitWhere (· == '.') name.toList = [name.toList] := by
    apply Text.splitWhere_of_forall
    intro c found
    rw [beq_eq_false_iff_ne]
    rintro rfl
    exact noDot found
  simp [isQualified, whole]

theorem isQualified_of_isSimple {name : String} (simple : isSimple name = true) :
    isQualified name = true := by
  have noDot : '.' ∉ name.toList := fun found =>
    absurd ((of_isSimple simple).2.1 _ found) (by decide)
  rwa [isQualified_of_notMem noDot]

theorem notMem_reserved_of_isQualified {name : String} (qualified : isQualified name = true) :
    name ∉ reserved := by
  have noDots : ∀ word ∈ reserved, '.' ∉ word.toList := by decide
  intro found
  rw [isQualified_of_notMem (noDots name found)] at qualified
  exact (of_isSimple qualified).2.2 found

end ClassWeaver.Name
