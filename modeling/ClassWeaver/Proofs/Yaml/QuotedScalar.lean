import ClassWeaver.Proofs.Yaml.Numeral
import ClassWeaver.Proofs.Yaml.PlainScalar

set_option autoImplicit false

/-!
Scalars in quotes. In single quotes only quotes are doubled and further lines indented; in double
quotes everything that could be lost is escaped, line breaks among it.

Main statements: `exists_singleQuoted` and `exists_doubleQuoted`, a text is read back from its
quoted form.
-/

namespace ClassWeaver.Yaml

open ScalarWriting

theorem hasPair_tail {p q : Char → Bool} {c : Char} {text : List Char}
    (none : hasPair p q (c :: text) = false) : hasPair p q text = false := by
  cases text with
  | nil => rfl
  | cons d rest => exact (Bool.or_eq_false_iff.1 none).2

theorem hasPair_head {p q : Char → Bool} {c : Char} {text : List Char}
    (none : hasPair p q (c :: text) = false) (first : p c = true) :
    ∀ d ∈ text.head?, q d = false := by
  cases text with
  | nil => simp
  | cons d rest => simpa [first] using (Bool.or_eq_false_iff.1 none).1

/-! ### Single quotes -/

theorem readSingleQuoted_cons {column : Nat} {gap : Gap} {c : Char} {rest : List Char}
    (solid : isGap c = false) (noQuote : c ≠ '\'') (inside : gap.isBroken = true → 0 < column) :
    readSingleQuoted column gap (c :: rest)
      = (readSingleQuoted (column + 1) .none rest).map (Prod.map (gap.text ++ c :: ·) id) := by
  obtain ⟨notBlank, notBreak⟩ := Bool.or_eq_false_iff.1 solid
  have noMark : startsWithMark column gap (c :: rest) = false := by
    cases broken : gap.isBroken with
    | false => simp [startsWithMark, broken]
    | true => simp [startsWithMark, Nat.ne_of_gt (inside broken)]
  rw [readSingleQuoted.eq_def]
  simp [notBlank, notBreak, noMark, noQuote]

theorem readSingleQuoted_quote (column : Nat) (gap : Gap) (rest : List Char) :
    readSingleQuoted column gap ('\'' :: '\'' :: rest)
      = (readSingleQuoted (column + 2) .none rest).map (Prod.map (gap.text ++ '\'' :: ·) id) := by
  have noMark : startsWithMark column gap ('\'' :: '\'' :: rest) = false := by
    simp [startsWithMark, isDocumentMark]
  rw [readSingleQuoted.eq_def]
  simp [isBreak, isSpaceOrTab, noMark]

theorem readSingleQuoted_close (column : Nat) (gap : Gap) {rest : List Char}
    (closes : rest.head? ≠ some '\'') :
    readSingleQuoted column gap ('\'' :: rest) = some (gap.text, rest) := by
  have noMark : startsWithMark column gap ('\'' :: rest) = false := by
    simp [startsWithMark, isDocumentMark]
  rw [readSingleQuoted.eq_def]
  simp only [isBreak, isSpaceOrTab, noMark]
  cases rest with
  | nil => rfl
  | cons c rest =>
    have : c ≠ '\'' := by simpa using closes
    simp [this]

/-- The white space that has been read loses nothing in front of a text: no blanks stand in front of
a line break, and none behind one but the indentation. -/
def Gap.Precedes (text : List Char) : Gap → Prop
  | .blanks spaces => spaces ≠ [] → ∀ c ∈ text.head?, isBreak c = false
  | .breaks ends => '\n' ∉ ends ∧ text.head? ≠ some ' '
  | .hidden _ => False

theorem Gap.precedes_none (text : List Char) : Gap.none.Precedes text :=
  fun ne_nil => absurd rfl ne_nil

theorem Gap.fold_of_notMem {breaks : List Char} (notMem : '\n' ∉ breaks) :
    fold breaks = breaks := by
  cases breaks with
  | nil => rfl
  | cons c rest =>
    have ne : c ≠ '\n' := fun eq => notMem (by simp [eq])
    simp [fold, ne]

theorem Gap.addBreak_of_precedes {c : Char} {text : List Char} {gap : Gap}
    (precedes : gap.Precedes (c :: text)) (ends : isBreak c = true) (noFeed : c ≠ '\n')
    (next : text.head? ≠ some ' ') :
    (gap.addBreak c).Precedes text ∧ (gap.addBreak c).text = gap.text ++ [c] ∧
      (gap.addBreak c).isBroken = true := by
  cases gap with
  | blanks spaces =>
    have none : spaces = [] := by
      cases spaces with
      | nil => rfl
      | cons d rest =>
        have noBreak := precedes (List.cons_ne_nil d rest) c rfl
        exact absurd ends (by simp [noBreak])
    have alone : '\n' ∉ [c] := by simpa using Ne.symm noFeed
    exact ⟨⟨alone, next⟩, by simp [addBreak, Gap.text, fold_of_notMem alone, none], rfl⟩
  | breaks breaks =>
    have notMem : '\n' ∉ breaks ++ [c] := by simpa [Ne.symm noFeed] using precedes.1
    exact ⟨⟨notMem, next⟩, by simp [addBreak, Gap.text, fold_of_notMem notMem,
      fold_of_notMem precedes.1], rfl⟩
  | hidden => exact precedes.elim

theorem Gap.addBlank_of_precedes {text : List Char} {gap : Gap}
    (precedes : gap.Precedes (' ' :: text)) (next : ∀ c ∈ text.head?, isBreak c = false) :
    (gap.addBlank ' ').Precedes text ∧ (gap.addBlank ' ').text = gap.text ++ [' '] ∧
      gap.isBroken = false ∧ (gap.addBlank ' ').isBroken = false := by
  cases gap with
  | blanks spaces => exact ⟨fun _ => next, rfl, rfl, rfl⟩
  | breaks breaks => exact absurd rfl precedes.2
  | hidden => exact precedes.elim

theorem readSingleQuoted_indent (indent column : Nat) (gap : Gap) (rest : List Char) :
    readSingleQuoted column gap ((if gap.isBroken then List.replicate indent ' ' else []) ++ rest)
      = readSingleQuoted (if gap.isBroken then column + indent else column) gap rest := by
  cases broken : gap.isBroken with
  | false => rfl
  | true =>
    have same : gap.addBlank ' ' = gap := by
      cases gap with
      | blanks => cases broken
      | breaks | hidden => rfl
    simp only [if_true]
    induction indent generalizing column with
    | zero => rfl
    | succ indent ih =>
      rw [List.replicate_succ, List.cons_append, readSingleQuoted.eq_def]
      simp [isBreak, isSpaceOrTab, same, ih, Nat.add_assoc, Nat.add_comm 1]

def doubled (text : List Char) : List Char :=
  text.flatMap fun c => if c == '\'' then ['\'', '\''] else [c]

theorem doubled_quote (text : List Char) : doubled ('\'' :: text) = '\'' :: '\'' :: doubled text :=
  rfl

theorem doubled_cons {c : Char} (noQuote : c ≠ '\'') (text : List Char) :
    doubled (c :: text) = c :: doubled text := by
  simp [doubled, noQuote]

theorem indentAfterBreaks_break {c : Char} (ends : isBreak c = true) (indent : Nat) (broken : Bool)
    (text : List Char) :
    indentAfterBreaks indent broken (c :: text) = c :: indentAfterBreaks indent true text := by
  simp [indentAfterBreaks, ends]

theorem indentAfterBreaks_cons {c : Char} (noBreak : isBreak c = false) (indent : Nat)
    (broken : Bool) (text : List Char) :
    indentAfterBreaks indent broken (c :: text) = (if broken then List.replicate indent ' ' else [])
      ++ c :: indentAfterBreaks indent false text := by
  simp [indentAfterBreaks, noBreak]

theorem getLast?_indentAfterBreaks (indent : Nat) (broken : Bool) {text : List Char}
    (ne_nil : text ≠ []) : (indentAfterBreaks indent broken text).getLast? = text.getLast? := by
  induction text generalizing broken with
  | nil => exact absurd rfl ne_nil
  | cons c text ih =>
    cases text with
    | nil =>
      unfold indentAfterBreaks
      split <;> simp [indentAfterBreaks]
    | cons d text =>
      have ih broken := ih broken (List.cons_ne_nil d text)
      unfold indentAfterBreaks
      split <;> simp [ih, List.getLast?_append, List.getLast?_cons]

theorem readSingleQuoted_doubled {indent : Nat} (pos : 0 < indent) {rest : List Char}
    (closes : rest.head? ≠ some '\'') (text : List Char) (column : Nat) (gap : Gap)
    (written : ∀ c ∈ text, isPlainlyWritten c = true ∧ c ≠ '\n')
    (noEnds : hasPair isSpace isBreak text = false)
    (noStarts : hasPair isBreak isSpace text = false) (precedes : gap.Precedes text) :
    readSingleQuoted column gap
        (indentAfterBreaks indent gap.isBroken (doubled text ++ ['\'']) ++ rest)
      = some (gap.text ++ text, rest) := by
  induction text generalizing column gap with
  | nil =>
    rw [doubled, List.flatMap_nil, List.nil_append, indentAfterBreaks_cons (by decide),
      List.append_assoc, readSingleQuoted_indent]
    simpa [indentAfterBreaks] using readSingleQuoted_close _ gap closes
  | cons c text ih =>
    obtain ⟨⟨isWritten, noFeed⟩, restWritten⟩ := List.forall_mem_cons.1 written
    have ends := hasPair_tail noEnds
    have starts := hasPair_tail noStarts
    by_cases ending : isBreak c = true
    · have noQuote : c ≠ '\'' := by rintro rfl; exact absurd ending (by decide)
      have next : text.head? ≠ some ' ' := fun space => by
        simpa [isSpace] using hasPair_head noStarts ending ' ' space
      obtain ⟨precedes, shown, broken⟩ := Gap.addBreak_of_precedes precedes ending noFeed next
      have read := ih 0 (gap.addBreak c) restWritten ends starts precedes
      rw [doubled_cons noQuote, List.cons_append, indentAfterBreaks_break ending, List.cons_append,
        readSingleQuoted.eq_def]
      simpa [ending, shown, broken] using read
    rw [Bool.not_eq_true] at ending
    by_cases space : c = ' '
    · subst space
      have next := hasPair_head noEnds rfl
      obtain ⟨precedes, shown, unbroken, stillUnbroken⟩ := Gap.addBlank_of_precedes precedes next
      have read := ih (column + 1) (gap.addBlank ' ') restWritten ends starts precedes
      rw [doubled_cons (by decide), List.cons_append, indentAfterBreaks_cons ending, unbroken,
        readSingleQuoted.eq_def]
      simpa [isBreak, isSpaceOrTab, shown, stillUnbroken] using read
    have solid : isGap c = false :=
      Bool.eq_false_iff.2 fun isGap => space (eq_space_of_isGap isWritten ending isGap)
    have inside : gap.isBroken = true → 0 < if gap.isBroken then column + indent else column := by
      intro broken
      simp only [broken, if_true]
      omega
    have read column : readSingleQuoted column .none
        (indentAfterBreaks indent false (doubled text ++ ['\'']) ++ rest) = some (text, rest) :=
      ih column .none restWritten ends starts (Gap.precedes_none text)
    by_cases quote : c = '\''
    · subst quote
      rw [doubled_quote, List.cons_append, indentAfterBreaks_cons ending, List.append_assoc,
        readSingleQuoted_indent, List.cons_append, List.cons_append, indentAfterBreaks_cons ending]
      simp only [Bool.false_eq_true, if_false, List.nil_append, List.cons_append]
      rw [readSingleQuoted_quote, read]
      rfl
    · rw [doubled_cons quote, List.cons_append, indentAfterBreaks_cons ending, List.append_assoc,
        readSingleQuoted_indent, List.cons_append, readSingleQuoted_cons solid quote inside, read]
      rfl

theorem exists_singleQuoted {indent : Nat} (pos : 0 < indent) {text : List Char}
    (fits : fitsSingleQuotes text = true) (noFeeds : '\n' ∉ text) :
    ∃ body, singleQuoted indent text = '\'' :: (body ++ ['\'']) ∧
      ∀ (column : Nat) (rest : List Char), rest.head? ≠ some '\'' →
        readSingleQuoted column .none (body ++ '\'' :: rest) = some (text, rest) := by
  simp only [fitsSingleQuotes, Bool.not_eq_true', Bool.or_eq_false_iff] at fits
  obtain ⟨⟨noEscapes, noEnds⟩, noStarts⟩ := fits
  have written := isPlainlyWritten_of_needsEscapes noEscapes
  have last : (indentAfterBreaks indent false (doubled text ++ ['\''])).getLast? = some '\'' := by
    rw [getLast?_indentAfterBreaks _ _ (by simp), List.getLast?_concat]
  obtain ⟨body, closed⟩ := List.getLast?_eq_some_iff.1 last
  refine ⟨body, congrArg ('\'' :: ·) closed, fun column rest closes => ?_⟩
  have read := readSingleQuoted_doubled pos closes text column .none
    (fun c mem => ⟨written c mem, fun feed => noFeeds (feed ▸ mem)⟩) noEnds noStarts
    (Gap.precedes_none text)
  simp only [Gap.none, Gap.isBroken, closed] at read
  simpa [Gap.none, Gap.text] using read

/-! ### Double quotes -/

theorem escape_cases (c : Char) :
    (∃ mark, escape c = [mark] ∧ isBreak mark = false ∧ escapeLength? mark = none ∧
      escaped? mark = some c) ∨
    ∃ mark length, escape c = mark :: hexDigits length c.toNat ∧ isBreak mark = false ∧
      escapeLength? mark = some length ∧ 0 < length ∧ c.toNat < Nat.pow 16 length := by
  have small : c.toNat < Nat.pow 16 8 := by
    have := c.valid
    simp only [UInt32.isValidChar, Nat.isValidChar] at this
    have whole : Nat.pow 16 8 = 4294967296 := rfl
    change c.val.toNat < Nat.pow 16 8
    omega
  have two : Nat.pow 16 2 = 256 := rfl
  have four : Nat.pow 16 4 = 65536 := rfl
  unfold escape
  split
  all_goals try exact .inl ⟨_, rfl, by decide, by decide, by decide⟩
  split
  · exact .inr ⟨'x', 2, rfl, by decide, by decide, by decide, by omega⟩
  split
  · exact .inr ⟨'u', 4, rfl, by decide, by decide, by decide, by omega⟩
  · exact .inr ⟨'U', 8, rfl, by decide, by decide, by decide, small⟩

theorem codePoint?_hexDigits {length : Nat} (c : Char) (pos : 0 < length)
    (lt : c.toNat < Nat.pow 16 length) (rest : List Char) :
    codePoint? length (hexDigits length c.toNat ++ rest) = some c := by
  have digits : (hexDigits length c.toNat ++ rest).take length = hexDigits length c.toNat := by
    rw [List.take_left' (length_hexDigits lt pos)]
  have valid : c.toNat.isValidChar := c.valid
  simp [codePoint?, digits, length_hexDigits lt pos, number?_hexDigits, valid]

theorem readDoubleQuoted_cons {column : Nat} {blanks : List Char} {c : Char} {rest : List Char}
    (solid : isGap c = false) (noQuote : c ≠ '"') (noSlash : c ≠ '\\') :
    readDoubleQuoted column (.blanks blanks) (c :: rest)
      = (readDoubleQuoted (column + 1) .none rest).map (Prod.map (blanks ++ c :: ·) id) := by
  obtain ⟨notBlank, notBreak⟩ := Bool.or_eq_false_iff.1 solid
  rw [readDoubleQuoted.eq_def]
  simp [notBlank, notBreak, noQuote, noSlash, startsWithMark, Gap.isBroken, Gap.text]

theorem readDoubleQuoted_escape (column : Nat) (blanks : List Char) (c : Char) (rest : List Char) :
    ∃ column', readDoubleQuoted column (.blanks blanks) ('\\' :: escape c ++ rest)
      = (readDoubleQuoted column' .none rest).map (Prod.map (blanks ++ c :: ·) id) := by
  have slash : isBreak '\\' = false := by decide
  obtain ⟨mark, spelled, noBreak, noLength, escaped⟩ |
    ⟨mark, length, spelled, noBreak, hasLength, pos, lt⟩ := escape_cases c
  · refine ⟨column + 2, ?_⟩
    rw [spelled, readDoubleQuoted.eq_def]
    simp [slash, isSpaceOrTab, startsWithMark, Gap.isBroken, Gap.text, noBreak,
      noLength, escaped]
  · refine ⟨column + 2 + length, ?_⟩
    rw [spelled, readDoubleQuoted.eq_def]
    simp [slash, isSpaceOrTab, startsWithMark, Gap.isBroken, Gap.text, noBreak,
      hasLength, codePoint?_hexDigits c pos lt, length_hexDigits lt pos]

def spelled (c : Char) : List Char :=
  if ! isPlainlyWritten c || isBreak c || c == '"' || c == '\\' then '\\' :: escape c else [c]

theorem readDoubleQuoted_spelled (text rest : List Char) (column : Nat) (blanks : List Char) :
    readDoubleQuoted column (.blanks blanks) (text.flatMap spelled ++ '"' :: rest)
      = some (blanks ++ text, rest) := by
  induction text generalizing column blanks with
  | nil =>
    rw [List.flatMap_nil, List.nil_append, readDoubleQuoted.eq_def]
    simp [isBreak, isSpaceOrTab, startsWithMark, Gap.isBroken, Gap.text]
  | cons c text ih =>
    rw [List.flatMap_cons, List.append_assoc]
    have read column := ih column []
    by_cases space : c = ' '
    · subst space
      have asItIs : spelled ' ' = [' '] := by decide
      rw [asItIs, List.singleton_append, readDoubleQuoted.eq_def]
      simp [isBreak, isSpaceOrTab, Gap.addBlank, ih]
    by_cases escapes : (! isPlainlyWritten c || isBreak c || c == '"' || c == '\\') = true
    · obtain ⟨column', escaped⟩ :=
        readDoubleQuoted_escape column blanks c (text.flatMap spelled ++ '"' :: rest)
      rw [show spelled c = '\\' :: escape c from if_pos escapes, escaped, Gap.none, read]
      rfl
    · have asItIs : spelled c = [c] := if_neg escapes
      simp only [Bool.or_eq_true, Bool.not_eq_true', beq_iff_eq, not_or, Bool.not_eq_false,
        Bool.not_eq_true] at escapes
      obtain ⟨⟨⟨written, noBreak⟩, noQuote⟩, noSlash⟩ := escapes
      have solid : isGap c = false :=
        Bool.eq_false_iff.2 fun isGap => space (eq_space_of_isGap written noBreak isGap)
      rw [asItIs, List.singleton_append, readDoubleQuoted_cons solid noQuote noSlash, Gap.none,
        read]
      rfl

/-- Every text in double quotes is read back. -/
theorem exists_doubleQuoted (text : List Char) :
    ∃ body, doubleQuoted text = '"' :: (body ++ ['"']) ∧ ∀ (column : Nat) (rest : List Char),
      readDoubleQuoted column .none (body ++ '"' :: rest) = some (text, rest) :=
  ⟨text.flatMap spelled, rfl, fun column rest => readDoubleQuoted_spelled text rest column []⟩

end ClassWeaver.Yaml
