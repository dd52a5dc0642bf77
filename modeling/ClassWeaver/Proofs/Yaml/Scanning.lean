import ClassWeaver.Proofs.Yaml.LiteralScalar
import ClassWeaver.Yaml.Progress

set_option autoImplicit false

/-!
The steps in which the tokens of a document are found. Outside brackets a step finds the end of a
line, a key with its colon, the hyphen of an item or an empty list, and structures end where a text
resumes that is indented less.

Main statements: `scan_unroll`, `scan_key`, `scan_hyphen` and `scan_emptyList`.
-/

namespace ClassWeaver.Yaml

open ScalarWriting

/-! ### Places -/

def Position.after (position : Position) (text : List Char) : Position :=
  text.foldl Position.pass position

namespace Position

@[simp] theorem after_nil (position : Position) : position.after [] = position :=
  rfl

@[simp] theorem after_cons (position : Position) (c : Char) (text : List Char) :
    position.after (c :: text) = (position.pass c).after text :=
  rfl

@[simp] theorem after_append (position : Position) (front text : List Char) :
    position.after (front ++ text) = (position.after front).after text :=
  List.foldl_append

theorem after_of_noBreak {text : List Char} (noBreak : ∀ c ∈ text, isBreak c = false)
    (position : Position) : position.after text
      = ⟨position.index + text.length, position.line, position.column + text.length⟩ := by
  induction text generalizing position with
  | nil => rfl
  | cons c text ih =>
    obtain ⟨first, noBreak⟩ := List.forall_mem_cons.1 noBreak
    simp [ih noBreak, pass, first, Nat.add_assoc, Nat.add_comm 1]

theorem column_after_spaces (position : Position) (count : Nat) :
    (position.after (List.replicate count ' ')).column = position.column + count := by
  rw [after_of_noBreak (BlockScalar.isBreak_of_mem_replicate count), List.length_replicate]

theorem column_after_endLine (position : Position) (text : List Char) :
    (position.after (Tree.endLine text)).column = 0 := by
  have ends := BlockScalar.getLast?_endLine text
  rcases List.eq_nil_or_concat (Tree.endLine text) with none | ⟨front, last, some⟩
  · unfold Tree.endLine at none
    split at none <;> simp_all
  · rw [some, List.concat_eq_append] at ends ⊢
    have isBreak : isBreak last = true := by simpa using ends
    simp [pass, isBreak]

end Position

namespace Progress

/-! ### Steps -/

theorem scan_skip (progress : Progress) (front rest : List Char) :
    scan front.length progress (front ++ rest)
      = scan 0 { progress with position := progress.position.after front } rest := by
  induction front generalizing progress with
  | nil => rfl
  | cons c front ih => exact ih _

theorem scan_of_step {progress found : Progress} {c : Char} (front : List Char) {rest : List Char}
    (step : progress.step c (front ++ rest) = some (found, rest)) :
    scan 0 progress (c :: (front ++ rest))
      = scan 0 { found with position := progress.position.after (c :: front) } rest := by
  rw [scan, step]
  simp only [Option.bind_some, List.length_append, Nat.add_sub_cancel]
  exact scan_skip _ front rest

/-! ### Outside brackets -/

def block (position : Position) (tokens : List Token) (indents : List Nat) (keyAllowed : Bool) :
    Progress :=
  ⟨position, tokens.toArray, [none], indents, keyAllowed⟩

variable {position : Position} {tokens : List Token} {indents : List Nat} {keyAllowed : Bool}

theorem scan_space (rest : List Char) :
    scan 0 (block position tokens indents keyAllowed) (' ' :: rest)
      = scan 0 (block (position.pass ' ') tokens indents keyAllowed) rest := by
  have step : (block position tokens indents keyAllowed).step ' ' rest
      = some (block position tokens indents keyAllowed, rest) := rfl
  exact scan_of_step [] step

theorem scan_spaces (position : Position) (count : Nat) (rest : List Char) :
    scan 0 (block position tokens indents keyAllowed) (List.replicate count ' ' ++ rest)
      = scan 0 (block (position.after (List.replicate count ' ')) tokens indents keyAllowed)
          rest := by
  induction count generalizing position with
  | zero => rfl
  | succ count ih => exact (scan_space _).trans (ih _)

theorem scan_lineBreak (rest : List Char) :
    scan 0 (block position tokens indents keyAllowed) ('\n' :: rest)
      = scan 0 (block (position.pass '\n') tokens indents true) rest := by
  have step : (block position tokens indents keyAllowed).step '\n' rest
      = some (block position tokens indents true, rest) := by
    simp [step, block, isBreak, allowKey, inFlow]
  exact scan_of_step [] step

@[simp] theorem position_block :
    (block position tokens indents keyAllowed).position = position :=
  rfl

/-! ### Ends of block structures -/

theorem closeFrom_closeFrom {column further : Nat} (le : column ≤ further) (indents : List Nat)
    (tokens : Array Token) :
    closeFrom column (closeFrom further indents tokens).1 (closeFrom further indents tokens).2
      = closeFrom column indents tokens := by
  induction indents generalizing tokens with
  | nil => rfl
  | cons indent outer ih =>
    by_cases inside : further ≤ indent
    · simp [closeFrom, inside, ih, Nat.le_trans le inside]
    · simp [closeFrom, inside]

theorem unroll_unroll {column further : Nat} (le : column ≤ further) (progress : Progress) :
    (progress.unroll further).unroll column = progress.unroll column := by
  by_cases inFlow : progress.inFlow = true
  · simp [unroll, inFlow]
  · have same : ({ progress with
        indents := (closeFrom further progress.indents progress.tokens).1
        tokens := (closeFrom further progress.indents progress.tokens).2 } : Progress).inFlow
        = progress.inFlow := rfl
    simp [unroll, inFlow, same, closeFrom_closeFrom le]

theorem unroll_of_le {progress : Progress} {column : Nat}
    (le : ∀ indent ∈ progress.indents.head?, indent ≤ column) :
    progress.unroll (column + 1) = progress := by
  obtain ⟨position, tokens, places, indents, keyAllowed⟩ := progress
  cases indents with
  | nil => simp [unroll, closeFrom]
  | cons indent outer =>
    have notInside : ¬ column + 1 ≤ indent := by
      have := le indent rfl
      omega
    simp [unroll, closeFrom, notInside]

theorem unroll_of_lt {column indent : Nat} (lt : column < indent) :
    (block position tokens (indent :: indents) keyAllowed).unroll (column + 1)
      = (block position (tokens ++ [Token.blockEnd]) indents keyAllowed).unroll (column + 1) := by
  have inside : column + 1 ≤ indent := lt
  simp [unroll, block, inFlow, closeFrom, inside]

theorem exists_unroll (column : Nat) :
    ∃ tokens' indents', (block position tokens indents keyAllowed).unroll column
      = block position tokens' indents' keyAllowed := by
  refine ⟨(closeFrom column indents tokens.toArray).2.toList,
    (closeFrom column indents tokens.toArray).1, ?_⟩
  simp [unroll, block, inFlow]

theorem dropStale_block : (block position tokens indents keyAllowed).dropStale
    = some (block position tokens indents keyAllowed) := by
  simp [dropStale, block]

theorem step_block {c : Char} {rest : List Char} (resumes : Resumes (c :: rest)) :
    (block position tokens indents keyAllowed).step c rest
      = ((block position tokens indents keyAllowed).unroll (position.column + 1)).token c rest := by
  obtain ⟨solid, noComment, noMark⟩ := resumes c rfl
  obtain ⟨notBlank, notBreak⟩ := Bool.or_eq_false_iff.1 solid
  obtain ⟨notSpace, notTab⟩ := Bool.or_eq_false_iff.1 notBlank
  simp [step, notSpace, notTab, notBreak, noComment, noMark, dropStale_block]

theorem scan_unroll {rest : List Char} (resumes : Resumes rest) :
    scan 0 (block position tokens indents keyAllowed) rest
      = scan 0 ((block position tokens indents keyAllowed).unroll (position.column + 1)) rest := by
  obtain ⟨tokens', indents', unrolled⟩ := @exists_unroll position tokens indents keyAllowed
    (position.column + 1)
  have again (column : Nat) (le : column ≤ position.column + 1) :
      (block position tokens' indents' keyAllowed).unroll column
        = (block position tokens indents keyAllowed).unroll column := by
    rw [← unrolled, unroll_unroll le]
  rw [unrolled]
  cases rest with
  | nil => simp [scan, finish, dropStale_block, leaveBlocks, again 0 (Nat.zero_le _)]
  | cons c rest => simp [scan, step_block resumes, again _ (Nat.le_refl _)]

/-! ### Plain scalars -/

structure BeginsPlain (c : Char) (rest : List Char) : Prop where
  solid : isGap c = false
  noIndicator : isIndicator c = false
  marks : c = '-' ∨ c = '?' ∨ c = ':' → atGap rest = false

theorem token_plain {progress : Progress} {c : Char} {rest : List Char}
    (outside : progress.inFlow = false) (begins : BeginsPlain c rest)
    (noMark : progress.position.column = 0 → isDocumentMark (c :: rest) = false) :
    progress.token c rest = progress.plain (c :: rest) := by
  have others : c ≠ Char.ofNat 96 ∧ c ≠ '#' ∧ c ≠ ',' ∧ c ≠ '[' ∧ c ≠ ']' ∧ c ≠ '\x7b' ∧
      c ≠ '\x7d' ∧ c ≠ '&' ∧ c ≠ '*' ∧ c ≠ '!' ∧ c ≠ '|' ∧ c ≠ '>' ∧ c ≠ '\'' ∧ c ≠ '"' ∧
      c ≠ '%' ∧ c ≠ '@' := by
    simpa [isIndicator] using begins.noIndicator
  have noGap : ∀ mark ∈ ['-', '?', ':'], (c == mark && atGap rest) = false := by
    intro mark mem
    by_cases eq : c = mark
    · simpa [eq] using begins.marks (by simpa [eq] using mem)
    · simp [eq]
  have starts : startsPlain false c rest = true := by
    by_cases mark : c = '-' ∨ c = '?' ∨ c = ':'
    · have goesOn := begins.marks mark
      have noBlank : rest.head?.any isSpaceOrTab = false := by
        cases rest with
        | nil => rfl
        | cons d rest => exact (Bool.or_eq_false_iff.1 goesOn).1
      rcases mark with rfl | rfl | rfl <;> simp [startsPlain, goesOn, noBlank]
    · simp only [not_or] at mark
      simp [startsPlain, indicators, begins.solid, others, mark]
  have start : (progress.position.column == 0 && isDocumentMark (c :: rest)) = false := by
    by_cases column : progress.position.column = 0
    · simp [noMark column]
    · simp [column]
  simp only [List.forall_mem_cons] at noGap
  simp [token, outside, starts, others, noGap, start]

theorem beginsPlain_of_fitsPlain {c : Char} {text : List Char}
    (fits : fitsPlain (c :: text) = true) (rest : List Char) : BeginsPlain c (text ++ rest) := by
  obtain ⟨plain, -, head, noOther⟩ := of_fitsPlain fits
  simp only [startsAsOther, Bool.or_eq_false_iff] at noOther
  obtain ⟨⟨noIndicator, marks⟩, -⟩ := noOther
  refine ⟨?_, noIndicator, ?_⟩
  · refine Bool.eq_false_iff.2 fun gap => head ?_
    rw [plain.isSpace_of_isGap c List.mem_cons_self gap]
    rfl
  · have goesOn : atGap text = false → atGap (text ++ rest) = false := by
      cases text with
      | nil => exact fun none => absurd none (by decide)
      | cons d text => exact id
    rintro (rfl | rfl | rfl)
    · exact goesOn (by simpa using marks)
    · exact goesOn (by simpa using marks)
    · simpa using plain.not_colon_atGap rest

theorem resumes_of_fitsPlain {text : List Char} (fits : fitsPlain text = true) (ne_nil : text ≠ [])
    (rest : List Char) : Resumes (text ++ rest) := by
  obtain ⟨c, text, rfl⟩ := List.exists_cons_of_ne_nil ne_nil
  have begins := beginsPlain_of_fitsPlain fits rest
  have written := isPlainlyWritten_of_needsEscapes (of_fitsPlain fits).2.1 c List.mem_cons_self
  intro d first
  obtain rfl : c = d := by simpa using first
  refine ⟨begins.solid, ?_, ?_⟩
  · rintro rfl
    exact absurd begins.noIndicator (by decide)
  · rintro rfl
    exact absurd written (by decide)

theorem isDocumentMark_key {c : Char} {text : List Char} (fits : fitsPlain (c :: text) = true)
    (rest : List Char) : isDocumentMark (c :: (text ++ ':' :: rest)) = false := by
  obtain ⟨-, -, -, noOther⟩ := of_fitsPlain fits
  have noMark := (Bool.or_eq_false_iff.1 noOther).2
  have inside {d : Char} {tail : List Char} (ne : ':' ≠ d)
      (shown : text ++ ':' :: rest = d :: d :: tail) : text.take 2 = [d, d] := by
    rcases text with _ | ⟨e, _ | ⟨f, text⟩⟩
    · exact absurd (List.cons.inj shown).1 ne
    · exact absurd (List.cons.inj (List.cons.inj shown).2).1 ne
    · simp_all
  unfold isDocumentMark
  split
  next tail shown =>
    obtain ⟨rfl, dashes⟩ := List.cons.inj shown
    simp [inside (by decide) dashes] at noMark
  next tail shown =>
    obtain ⟨rfl, dots⟩ := List.cons.inj shown
    simp [inside (by decide) dots] at noMark
  next => rfl

/-! ### Keys -/

/-- A text that can stand as a key: it is short enough to be known as one at its colon. -/
structure IsKey (name : List Char) : Prop where
  ne_nil : name ≠ []
  fits : fitsPlain name = true
  short : name.length ≤ 1024

theorem insertIdxIfInBounds_append (front rest : List Token) (token : Token) :
    (front ++ rest).toArray.insertIdxIfInBounds front.length token
      = (front ++ token :: rest).toArray := by
  have inserted : (front ++ rest).insertIdx front.length token = front ++ token :: rest := by
    induction front with
    | nil => rfl
    | cons _ front ih => exact congrArg (_ :: ·) ih
  simp [Array.insertIdxIfInBounds, inserted]

def keyPlace (position : Position) (tokens : List Token) (indents : List Nat) : KeyPlace :=
  ⟨position, tokens.length, (block position tokens indents true).inner == position.column + 1⟩

def named (position : Position) (tokens : List Token) (indents : List Nat) (place : KeyPlace) :
    Progress :=
  ⟨position, tokens.toArray, [some place], indents, false⟩

theorem plain_of_noted {progress noted : Progress} {text : List Char} {scalar : PlainScalar}
    (isNoted : progress.notePlace = some noted)
    (read : readPlain noted.inFlow noted.inner noted.position.column .none text = some scalar) :
    progress.plain text
      = some ((noted.push (.scalar true (String.ofList scalar.text))).allowKey scalar.broken,
          scalar.rest) := by
  simp [plain, isNoted, read]

theorem step_name {c : Char} {text rest : List Char} (fits : fitsPlain (c :: text) = true)
    (le : ∀ indent ∈ indents.head?, indent ≤ position.column) (gap : atGap rest = true) :
    (block position tokens indents true).step c (text ++ ':' :: rest)
      = some (named position (tokens ++ [Token.scalar true (String.ofList (c :: text))]) indents
          (keyPlace position tokens indents), ':' :: rest) := by
  have resumes : Resumes (c :: (text ++ ':' :: rest)) :=
    resumes_of_fitsPlain fits (List.cons_ne_nil c text) (':' :: rest)
  have inner : (block position tokens indents true).inner ≤ position.column + 1 := by
    cases indents with
    | nil => exact Nat.zero_le _
    | cons indent outer => exact Nat.succ_le_succ (le indent rfl)
  have read : readPlain false (block position tokens indents true).inner position.column .none
      (c :: (text ++ ':' :: rest)) = some ⟨c :: text, ':' :: rest, false⟩ :=
    readPlain_key (of_fitsPlain fits).1 (List.cons_ne_nil c text) inner gap
  have outside : (block position tokens indents true).inFlow = false := rfl
  have noted : (block position tokens indents true).notePlace = some ⟨position, tokens.toArray,
      [some (keyPlace position tokens indents)], indents, true⟩ := by
    simp [notePlace, dropPlace, block, keyPlace, inFlow]
  rw [step_block resumes, unroll_of_le le,
    token_plain outside (beginsPlain_of_fitsPlain fits _) fun _ => isDocumentMark_key fits rest,
    plain_of_noted noted read]
  simp [named, push, allowKey]

/-- The token in front of the fields at a column: they begin a structure unless one is open that is
indented as far. -/
def opening (column : Nat) (indents : List Nat) : List Token :=
  if indents.head?.all (· < column) then [.blockMappingStart] else []

def keyIndents (column : Nat) (indents : List Nat) : List Nat :=
  if indents.head?.all (· < column) then column :: indents else indents

theorem colon_named (position' : Position)
    (le : ∀ indent ∈ indents.head?, indent ≤ position.column) (name : String) (rest : List Char) :
    (named position' (tokens ++ [Token.scalar true name]) indents
        (keyPlace position tokens indents)).colon rest
      = some (block position'
          (tokens ++ opening position.column indents ++ [Token.key, .scalar true name, .value])
          (keyIndents position.column indents) false, rest) := by
  have announced := insertIdxIfInBounds_append tokens [Token.scalar true name] .key
  have begun := insertIdxIfInBounds_append tokens [Token.key, .scalar true name] .blockMappingStart
  cases indents with
  | nil =>
    simp [colon, named, keyPlace, announced, roll, inFlow, inner, begun, push, allowKey, block,
      opening, keyIndents]
  | cons indent outer =>
    by_cases lt : indent < position.column
    · have deeper : ¬ position.column < indent + 1 := by omega
      simp [colon, named, keyPlace, announced, roll, inFlow, inner, begun, push, allowKey, block,
        opening, keyIndents, lt, deeper]
    · have same : position.column < indent + 1 := by omega
      simp [colon, named, keyPlace, announced, roll, inFlow, inner, push, allowKey, block,
        opening, keyIndents, lt, same]

theorem step_colon {position' : Position} {place : KeyPlace}
    (fresh : place.isStale position' = false) (notStart : position'.column ≠ 0)
    (le : ∀ indent ∈ indents.head?, indent ≤ position'.column)
    {rest : List Char} (gap : atGap rest = true) :
    (named position' tokens indents place).step ':' rest
      = (named position' tokens indents place).colon rest := by
  have kept : (named position' tokens indents place).dropStale
      = some (named position' tokens indents place) := by
    simp [dropStale, named, fresh]
  have isColon : (named position' tokens indents place).token ':' rest
      = (named position' tokens indents place).colon rest := by
    simp [token, named, inFlow, gap, notStart]
  have stays : (named position' tokens indents place).unroll (position'.column + 1)
      = named position' tokens indents place := unroll_of_le le
  have reached : (named position' tokens indents place).step ':' rest
      = ((named position' tokens indents place).unroll (position'.column + 1)).token ':' rest := by
    simp only [step, kept]
    simp [isBreak, named]
  rw [reached, stays, isColon]

theorem scan_key {name : List Char} (isKey : IsKey name)
    (le : ∀ indent ∈ indents.head?, indent ≤ position.column) {rest : List Char}
    (gap : atGap rest = true) :
    scan 0 (block position tokens indents true) (name ++ ':' :: rest)
      = scan 0 (block (position.after (name ++ [':']))
          (tokens ++ opening position.column indents
            ++ [Token.key, .scalar true (String.ofList name), .value])
          (keyIndents position.column indents) false) rest := by
  obtain ⟨c, text, rfl⟩ := List.exists_cons_of_ne_nil isKey.ne_nil
  have short : text.length + 1 ≤ 1024 := isKey.short
  have after := Position.after_of_noBreak (of_fitsPlain isKey.fits).1.noBreak position
  have fresh : (keyPlace position tokens indents).isStale (position.after (c :: text)) = false := by
    simp [KeyPlace.isStale, keyPlace, after]
    omega
  have notStart : (position.after (c :: text)).column ≠ 0 := by
    simp [after]
  have le' : ∀ indent ∈ indents.head?, indent ≤ (position.after (c :: text)).column := by
    intro indent mem
    have := le indent mem
    simp [after]
    omega
  have colon := (step_colon fresh notStart le' gap).trans
    (colon_named (position.after (c :: text)) le (String.ofList (c :: text)) rest)
  calc scan 0 (block position tokens indents true) (c :: text ++ ':' :: rest)
      = scan 0 (named (position.after (c :: text))
          (tokens ++ [Token.scalar true (String.ofList (c :: text))]) indents
          (keyPlace position tokens indents)) (':' :: rest) :=
        scan_of_step text (step_name isKey.fits le gap)
    _ = _ := scan_of_step [] colon
    _ = _ := by rw [Position.after_append]; rfl

/-! ### Items -/

theorem scan_hyphen (position : Position) (tokens : List Token) (indents : List Nat)
    (rest : List Char) :
    scan 0 (block position tokens (position.column :: indents) true) ('-' :: ' ' :: rest)
      = scan 0 (block (position.after ['-', ' ']) (tokens ++ [Token.blockEntry])
          (position.column :: indents) true) rest := by
  have resumes : Resumes ('-' :: ' ' :: rest) := by
    rintro c ⟨⟩
    decide
  have found : (block position tokens (position.column :: indents) true).step '-' (' ' :: rest)
      = some (block position (tokens ++ [Token.blockEntry]) (position.column :: indents) true,
          ' ' :: rest) := by
    rw [step_block resumes, unroll_of_le (by simp [block])]
    simp [token, isDocumentMark, block, inFlow, atGap, isGap, isSpaceOrTab, blockEntry, enterBlock,
      roll, inner, dropPlace, push, allowKey]
  exact (scan_of_step [] found).trans (scan_space rest)

theorem scan_emptyList (le : ∀ indent ∈ indents.head?, indent ≤ position.column)
    (rest : List Char) :
    scan 0 (block position tokens indents false) ('[' :: ']' :: '\n' :: rest)
      = scan 0 (block (position.after ['[', ']', '\n'])
          (tokens ++ [Token.flowSequenceStart, .flowSequenceEnd]) indents true) rest := by
  have resumes : Resumes ('[' :: ']' :: '\n' :: rest) := by
    rintro c ⟨⟩
    decide
  have opened : (block position tokens indents false).step '[' (']' :: '\n' :: rest)
      = some (⟨position, (tokens ++ [Token.flowSequenceStart]).toArray, [none, none], indents,
          true⟩, ']' :: '\n' :: rest) := by
    rw [step_block resumes, unroll_of_le le]
    simp [token, isDocumentMark, block, openFlow, notePlace, push, allowKey]
  have closed (position : Position) :
      (⟨position, (tokens ++ [Token.flowSequenceStart]).toArray, [none, none], indents, true⟩ :
          Progress).step ']' ('\n' :: rest)
        = some (block position (tokens ++ [Token.flowSequenceStart, .flowSequenceEnd]) indents false,
          '\n' :: rest) := by
    simp [step, isBreak, dropStale, unroll, inFlow, token, isDocumentMark, closeFlow, dropPlace,
      push, allowKey, block]
  exact (scan_of_step [] opened).trans ((scan_of_step [] (closed _)).trans (scan_lineBreak rest))

end Progress

end ClassWeaver.Yaml
