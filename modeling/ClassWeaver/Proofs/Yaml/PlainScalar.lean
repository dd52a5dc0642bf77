import ClassWeaver.Yaml.ScalarReading
import ClassWeaver.Yaml.ScalarWriting

set_option autoImplicit false

/-!
Plain scalars. What a plain scalar may hold is read up to the colon of a key or to the end of a line
that is followed by less indented text.

Main statements: `readPlain_key` and `readPlain_line`; `of_fitsPlain`, a text that is written
without quotes may stand in a plain scalar; `fitsPlain_of_isWordPart`, words and numbers are such
texts.
-/

namespace ClassWeaver.Yaml

open ScalarWriting

/-- What a plain scalar may hold behind its first character: spaces are its only gaps and do not
end it, and neither a colon nor a number sign is cut off by one. -/
structure IsPlainText (text : List Char) : Prop where
  isSpace_of_isGap : ∀ c ∈ text, isGap c = true → c = ' '
  last_ne : text.getLast? ≠ some ' '
  colons : hasColonAtGap text = false
  comments : hasPair isGap (· == '#') text = false

namespace IsPlainText

theorem tail {c : Char} {text : List Char} (plain : IsPlainText (c :: text)) :
    IsPlainText text where
  isSpace_of_isGap d mem := plain.isSpace_of_isGap d (List.mem_cons_of_mem c mem)
  last_ne := by
    cases text with
    | nil => simp
    | cons d rest => simpa using plain.last_ne
  colons := by simpa [hasColonAtGap] using (Bool.or_eq_false_iff.1 plain.colons).2
  comments := by
    cases text with
    | nil => rfl
    | cons d rest => exact (Bool.or_eq_false_iff.1 plain.comments).2

theorem noBreak {text : List Char} (plain : IsPlainText text) : ∀ c ∈ text, isBreak c = false := by
  intro c mem
  refine Bool.eq_false_iff.2 fun ends => ?_
  have space := plain.isSpace_of_isGap c mem (by simp [isGap, ends])
  rw [space] at ends
  exact absurd ends (by decide)

theorem not_colon_atGap {c : Char} {text : List Char} (plain : IsPlainText (c :: text))
    (rest : List Char) : (c == ':' && atGap (text ++ rest)) = false := by
  have colon := (Bool.or_eq_false_iff.1 plain.colons).1
  cases text with
  | nil =>
    have noColon : c ≠ ':' := by simpa [atGap] using colon
    simp [noColon]
  | cons d text => exact colon

end IsPlainText

def PlainScalar.prepend (front : List Char) (scalar : PlainScalar) : PlainScalar :=
  { scalar with text := front ++ scalar.text }

theorem PlainScalar.prepend_eq (front : List Char) :
    prepend front = fun scalar => { scalar with text := front ++ scalar.text } :=
  rfl

theorem PlainScalar.prepend_comp (front text : List Char) :
    prepend front ∘ prepend text = prepend (front ++ text) := by
  funext scalar
  simp [prepend]

theorem readPlain_cons {indent column : Nat} {gap : List Char} {c : Char} {rest : List Char}
    (solid : isGap c = false) (colon : (c == ':' && atGap rest) = false)
    (inGap : gap ≠ [] → indent ≤ column ∧ 0 < column ∧ c ≠ '#') :
    readPlain false indent column (.blanks gap) (c :: rest)
      = (readPlain false indent (column + 1) .none rest).map (.prepend (gap ++ [c])) := by
  obtain ⟨notBlank, notBreak⟩ := Bool.or_eq_false_iff.1 solid
  rw [readPlain.eq_def]
  cases gap with
  | nil => simp [notBlank, notBreak, colon, Gap.text, PlainScalar.prepend_eq]
  | cons d gap =>
    obtain ⟨le, pos, noComment⟩ := inGap (List.cons_ne_nil d gap)
    have notLess : ¬ column < indent := by omega
    have notZero : column ≠ 0 := by omega
    simp [notBlank, notBreak, colon, noComment, notLess, notZero, Gap.text,
      PlainScalar.prepend_eq]

theorem readPlain_space (indent column : Nat) (gap rest : List Char) :
    readPlain false indent column (.blanks gap) (' ' :: rest)
      = readPlain false indent (column + 1) (.blanks (gap ++ [' '])) rest := by
  rw [readPlain.eq_def]
  simp [isBreak, isSpaceOrTab, Gap.addBlank]

theorem readPlain_append (indent : Nat) (rest : List Char) :
    ∀ (text : List Char) (column : Nat) (gap : List Char), IsPlainText text → text ≠ [] →
      indent ≤ column + 1 → (gap ≠ [] → indent ≤ column ∧ 0 < column ∧ text.head? ≠ some '#') →
      readPlain false indent column (.blanks gap) (text ++ rest)
        = (readPlain false indent (column + text.length) .none rest).map (.prepend (gap ++ text))
  | [], _, _, _, ne_nil, _, _ => absurd rfl ne_nil
  | c :: text, column, gap, plain, _, le, inGap => by
    by_cases space : c = ' '
    · subst space
      have nonempty : text ≠ [] := by
        rintro rfl
        exact plain.last_ne rfl
      have noComment : text.head? ≠ some '#' := by
        intro head
        obtain ⟨tail, rfl⟩ := List.head?_eq_some_iff.1 head
        simpa [hasPair, isGap, isSpaceOrTab] using plain.comments
      have ih := readPlain_append indent rest text (column + 1) (gap ++ [' ']) plain.tail nonempty
        (by omega) fun _ => ⟨by omega, by omega, noComment⟩
      rw [List.cons_append, readPlain_space, ih]
      simp [Nat.add_assoc, Nat.add_comm 1]
    · have solid : isGap c = false :=
        Bool.eq_false_iff.2 fun gap => space (plain.isSpace_of_isGap c List.mem_cons_self gap)
      have colon := plain.not_colon_atGap rest
      rw [List.cons_append, readPlain_cons solid colon (by simpa using inGap)]
      cases text with
      | nil => simp
      | cons d text =>
        have ih := readPlain_append indent rest (d :: text) (column + 1) [] plain.tail (by simp)
          (by omega) (by simp)
        rw [Gap.none, ih]
        simp [PlainScalar.prepend_comp, Nat.add_assoc, Nat.add_comm 1, Gap.none]

theorem readPlain_key {indent column : Nat} {name rest : List Char} (plain : IsPlainText name)
    (ne_nil : name ≠ []) (le : indent ≤ column + 1) (ends : atGap rest = true) :
    readPlain false indent column .none (name ++ ':' :: rest)
      = some ⟨name, ':' :: rest, false⟩ := by
  have colon : readPlain false indent (column + name.length) .none (':' :: rest)
      = some ⟨[], ':' :: rest, false⟩ := by
    rw [readPlain.eq_def]
    simp [isBreak, isSpaceOrTab, Gap.none, Gap.isBroken, ends]
  rw [Gap.none, readPlain_append indent _ name column [] plain ne_nil le (by simp), colon]
  simp [PlainScalar.prepend]

/-- A text goes on with something other than a gap, a comment or a byte order mark, or ends. -/
def Resumes (text : List Char) : Prop :=
  ∀ c ∈ text.head?, isGap c = false ∧ c ≠ '#' ∧ c ≠ '\uFEFF'

theorem readPlain_outside (indent : Nat) (text : List Char) (resumes : Resumes text) :
    ∀ (column count : Nat) (breaks : List Char), column + count < indent →
      readPlain false indent column (.breaks breaks) (List.replicate count ' ' ++ text)
        = some ⟨[], text, true⟩
  | column, 0, breaks, lt => by
    cases text with
    | nil => rfl
    | cons c rest =>
      obtain ⟨solid, -, -⟩ := resumes c rfl
      obtain ⟨notBlank, notBreak⟩ := Bool.or_eq_false_iff.1 solid
      have outside : column < indent := lt
      rw [List.replicate_zero, List.nil_append, readPlain.eq_def]
      simp [notBlank, notBreak, outside, Gap.isBroken]
  | column, count + 1, breaks, lt => by
    have ih := readPlain_outside indent text resumes (column + 1) count breaks (by omega)
    rw [List.replicate_succ, List.cons_append, readPlain.eq_def]
    simp [isBreak, isSpaceOrTab, Gap.addBlank, ih]

theorem readPlain_line {indent column count : Nat} {text rest : List Char}
    (plain : IsPlainText text) (ne_nil : text ≠ []) (le : indent ≤ column + 1)
    (lt : count < indent) (resumes : Resumes rest) :
    readPlain false indent column .none (text ++ '\n' :: (List.replicate count ' ' ++ rest))
      = some ⟨text, rest, true⟩ := by
  have lineEnd : readPlain false indent (column + text.length) .none
      ('\n' :: (List.replicate count ' ' ++ rest)) = some ⟨[], rest, true⟩ := by
    have outside := readPlain_outside indent rest resumes 0 count ['\n'] (by omega)
    rw [readPlain.eq_def]
    simp [isBreak, Gap.none, Gap.addBreak, outside]
  rw [Gap.none, readPlain_append indent _ text column [] plain ne_nil le (by simp), lineEnd]
  simp [PlainScalar.prepend]

theorem eq_space_of_isGap {c : Char} (written : isPlainlyWritten c = true)
    (noBreak : isBreak c = false) (gap : isGap c = true) : c = ' ' := by
  have noTab : c ≠ '\t' := by
    rintro rfl
    exact absurd written (by decide)
  simpa [isGap, isSpaceOrTab, noBreak, noTab] using gap

namespace ScalarWriting

theorem isPlainlyWritten_of_needsEscapes {text : List Char} (free : needsEscapes text = false) :
    ∀ c ∈ text, isPlainlyWritten c = true := by
  simpa [needsEscapes] using free

theorem of_fitsPlain {text : List Char} (fits : fitsPlain text = true) :
    IsPlainText text ∧ needsEscapes text = false ∧ text.head? ≠ some ' ' ∧
      startsAsOther text = false := by
  simp only [fitsPlain, Bool.not_eq_true', Bool.or_eq_false_iff] at fits
  obtain ⟨⟨⟨⟨⟨⟨noEscapes, noBreaks⟩, head⟩, last⟩, noOther⟩, colons⟩, comments⟩ := fits
  have written := isPlainlyWritten_of_needsEscapes noEscapes
  have breaks : ∀ c ∈ text, isBreak c = false := by simpa using noBreaks
  refine ⟨⟨?_, ?_, colons, comments⟩, noEscapes, ?_, noOther⟩
  · exact fun c mem gap => eq_space_of_isGap (written c mem) (breaks c mem) gap
  · intro ends
    simp [ends, isSpace] at last
  · intro begins
    simp [begins, isSpace] at head

theorem hasPair_eq_false {p q : Char → Bool} {text : List Char} (none : ∀ c ∈ text, q c = false) :
    hasPair p q text = false := by
  fun_induction hasPair with
  | case1 c d rest ih =>
    rw [none d (by simp), ih fun e mem => none e (List.mem_cons_of_mem c mem)]
    simp
  | case2 => rfl

theorem hasColonAtGap_eq_false {text : List Char} (none : ∀ c ∈ text, c ≠ ':') :
    hasColonAtGap text = false := by
  induction text with
  | nil => rfl
  | cons c rest ih =>
    rw [hasColonAtGap, ih fun d mem => none d (List.mem_cons_of_mem c mem)]
    simp [none c List.mem_cons_self]

def isWordPart (c : Char) : Bool :=
  c.isAlphanum || c == '_'

theorem of_isWordPart {c : Char} (word : isWordPart c = true) :
    isPlainlyWritten c = true ∧ isBreak c = false ∧ isSpace c = false ∧ isIndicator c = false ∧
      c ∉ ['-', '?', '.', ':', '#'] := by
  have each : ∀ code : Fin 128, isWordPart (Char.ofNat code.val) = true →
      isPlainlyWritten (Char.ofNat code.val) = true ∧ isBreak (Char.ofNat code.val) = false ∧
        isSpace (Char.ofNat code.val) = false ∧ isIndicator (Char.ofNat code.val) = false ∧
        Char.ofNat code.val ∉ ['-', '?', '.', ':', '#'] := by decide
  have ascii : c.toNat < 128 := by
    delta isWordPart Char.isAlphanum Char.isAlpha Char.isUpper Char.isLower at word
    simp only [Char.isDigit_iff_toNat, UInt32.le_iff_toNat_le, Bool.or_eq_true, Bool.and_eq_true,
      decide_eq_true_eq, beq_iff_eq] at word
    rcases word with ((⟨-, high⟩ | ⟨-, high⟩) | ⟨-, high⟩) | rfl
    · exact Nat.lt_of_le_of_lt high (by decide)
    · exact Nat.lt_of_le_of_lt high (by decide)
    · exact Nat.lt_of_le_of_lt high (by decide)
    · decide
  have here := each ⟨c.toNat, ascii⟩
  rw [Char.ofNat_toNat] at here
  exact here word

theorem fitsPlain_of_isWordPart {text : List Char} (words : ∀ c ∈ text, isWordPart c = true) :
    fitsPlain text = true := by
  have facts c mem := of_isWordPart (words c mem)
  have noColons : hasColonAtGap text = false :=
    hasColonAtGap_eq_false fun c mem colon => by simpa [colon] using (facts c mem).2.2.2.2
  have noComments : hasPair isGap (· == '#') text = false := by
    refine hasPair_eq_false fun c mem => beq_eq_false_iff_ne.2 fun comment => ?_
    simpa [comment] using (facts c mem).2.2.2.2
  have noOther : startsAsOther text = false := by
    cases text with
    | nil => rfl
    | cons c rest =>
      obtain ⟨-, -, -, noIndicator, noMark⟩ := facts c List.mem_cons_self
      simp only [List.mem_cons, not_or] at noMark
      simp [startsAsOther, noIndicator, noMark]
  have noEscapes : needsEscapes text = false := by
    simpa [needsEscapes] using fun c mem => (facts c mem).1
  have noBreaks : text.any isBreak = false := by
    simpa using fun c mem => (facts c mem).2.1
  have noSpace : ∀ end? : Option Char, (∀ c ∈ end?, c ∈ text) → end?.any isSpace = false := by
    rintro (_ | c) inside
    · rfl
    · exact (facts c (inside c rfl)).2.2.1
  simp [fitsPlain, noColons, noComments, noOther, noEscapes, noBreaks,
    noSpace text.head? fun c mem => List.mem_of_mem_head? mem,
    noSpace text.getLast? fun c mem => List.mem_of_mem_getLast? mem]

end ScalarWriting

end ClassWeaver.Yaml
