import ClassWeaver.Proofs.Yaml.Scanning

set_option autoImplicit false

/-!
Scalars in a document. A text is written after the colon of a field in the style that suits it, and
is found there as one token.

Main statements: `scan_text` and `scan_number`.
-/

namespace ClassWeaver.Yaml

open ScalarWriting

namespace ScalarWriting

theorem of_styleOf_plain {text : List Char} (plain : styleOf text = .plain) :
    fitsPlain text = true ∧ Resolution.isAmbiguous text = false := by
  unfold styleOf at plain
  split at plain
  next => split at plain <;> cases plain
  next =>
    split at plain
    next both => simpa [and_comm] using both
    next => split at plain <;> cases plain

theorem of_styleOf_singleQuoted {text : List Char} (single : styleOf text = .singleQuoted) :
    fitsSingleQuotes text = true ∧ '\n' ∉ text := by
  unfold styleOf at single
  split at single
  next => split at single <;> cases single
  next noFeed =>
    split at single
    next => cases single
    next =>
      split at single
      next fits => exact ⟨fits, by simpa using noFeed⟩
      next => cases single

theorem of_styleOf_literal {text : List Char} (literal : styleOf text = .literal) :
    text ≠ [] ∧ needsEscapes text = false := by
  unfold styleOf at literal
  split at literal
  next feed =>
    split at literal
    next fits =>
      simp only [fitsLiteral, Bool.not_eq_true', Bool.or_eq_false_iff] at fits
      refine ⟨?_, fits.1.1⟩
      rintro rfl
      simp at feed
    next => cases literal
  next =>
    split at literal
    next => cases literal
    next => split at literal <;> cases literal

theorem ne_nil_of_not_isAmbiguous {text : List Char} (clear : Resolution.isAmbiguous text = false) :
    text ≠ [] := by
  rintro rfl
  exact absurd clear (by decide)

end ScalarWriting

namespace Progress

variable {position : Position} {tokens : List Token} {indents : List Nat}

variable {indent count : Nat} {text rest : List Char}

theorem endLine_space {last : Char} (ends : text.getLast? = some last)
    (noBreak : isBreak last = false) : Tree.endLine (' ' :: text) = ' ' :: (text ++ ['\n']) := by
  refine BlockScalar.endLine_of_not_isBreak ?_
  simp [List.getLast?_cons, ends, noBreak]

theorem scan_plain (lt : indent < position.column) (fits : fitsPlain text = true)
    (ne_nil : text ≠ []) (le : count ≤ indent) (resumes : Resumes rest) :
    scan 0 (block position tokens (indent :: indents) false)
        (Tree.endLine (' ' :: text) ++ (List.replicate count ' ' ++ rest))
      = scan 0 (block (position.after (Tree.endLine (' ' :: text) ++ List.replicate count ' '))
          (tokens ++ [Token.scalar true (String.ofList text)]) (indent :: indents) true) rest := by
  have ends := List.getLast?_eq_some_getLast ne_nil
  have closed : Tree.endLine (' ' :: text) = ' ' :: (text ++ ['\n']) :=
    endLine_space ends ((of_fitsPlain fits).1.noBreak _ (List.getLast_mem ne_nil))
  have column : (position.pass ' ').column = position.column + 1 := rfl
  have read : readPlain false (indent + 1) (position.pass ' ').column .none
      (text ++ '\n' :: (List.replicate count ' ' ++ rest)) = some ⟨text, rest, true⟩ :=
    readPlain_line (of_fitsPlain fits).1 ne_nil (by omega) (by omega) resumes
  obtain ⟨c, text, rfl⟩ := List.exists_cons_of_ne_nil ne_nil
  have begins := beginsPlain_of_fitsPlain fits ('\n' :: (List.replicate count ' ' ++ rest))
  have first : Resumes (c :: (text ++ '\n' :: (List.replicate count ' ' ++ rest))) :=
    resumes_of_fitsPlain fits ne_nil _
  have outside : (block (position.pass ' ') tokens (indent :: indents) false).inFlow = false := rfl
  have isNoted : (block (position.pass ' ') tokens (indent :: indents) false).notePlace
      = some (block (position.pass ' ') tokens (indent :: indents) false) := rfl
  have found : (block (position.pass ' ') tokens (indent :: indents) false).step c
      (text ++ '\n' :: List.replicate count ' ' ++ rest)
      = some (block (position.pass ' ') (tokens ++ [Token.scalar true (String.ofList (c :: text))])
          (indent :: indents) true, rest) := by
    rw [List.append_assoc, List.cons_append, step_block first,
      unroll_of_le (by simp [block]; omega),
      token_plain outside begins fun start => by simp [column] at start]
    exact (plain_of_noted isNoted read).trans (by simp [push, allowKey, block])
  rw [closed]
  calc _ = scan 0 (block (position.pass ' ') tokens (indent :: indents) false)
        (c :: (text ++ '\n' :: List.replicate count ' ' ++ rest)) := by
        simpa using scan_space _
    _ = _ := scan_of_step _ found
    _ = _ := by simp [block]

theorem scan_quoted {quote : Char} {body : List Char}
    {read : Nat → Gap → List Char → Option (List Char × List Char)}
    (isQuoted : ∀ (progress : Progress) (rest : List Char),
      progress.token quote rest = progress.quoted read rest)
    (lt : indent < position.column) (first : Resumes [quote])
    (reads : ∀ (column : Nat) (rest : List Char), rest.head? ≠ some '\'' →
      read column .none (body ++ quote :: rest) = some (text, rest)) :
    scan 0 (block position tokens (indent :: indents) false)
        (Tree.endLine (' ' :: quote :: (body ++ [quote])) ++ (List.replicate count ' ' ++ rest))
      = scan 0 (block (position.after
            (Tree.endLine (' ' :: quote :: (body ++ [quote])) ++ List.replicate count ' '))
          (tokens ++ [Token.scalar false (String.ofList text)]) (indent :: indents) true) rest := by
  have noBreak : isBreak quote = false := (Bool.or_eq_false_iff.1 (first quote rfl).1).2
  have closed : Tree.endLine (' ' :: quote :: (body ++ [quote]))
      = ' ' :: (quote :: (body ++ [quote]) ++ ['\n']) :=
    endLine_space (by simp [List.getLast?_cons]) noBreak
  have column : (position.pass ' ').column = position.column + 1 := by
    simp [Position.pass, isBreak]
  have found (rest : List Char) (closes : rest.head? ≠ some '\'') :
      (block (position.pass ' ') tokens (indent :: indents) false).step quote
          (body ++ [quote] ++ rest)
        = some (block (position.pass ' ') (tokens ++ [Token.scalar false (String.ofList text)])
          (indent :: indents) false, rest) := by
    have read := reads ((position.pass ' ').column + 1) rest closes
    have resumes : Resumes (quote :: (body ++ [quote] ++ rest)) := first
    rw [step_block resumes, unroll_of_le (by simp [block, column]; omega), isQuoted]
    simp [quoted, leaf, notePlace, block, read, push, allowKey]
  rw [closed]
  calc _ = scan 0 (block (position.pass ' ') tokens (indent :: indents) false)
        (quote :: (body ++ [quote] ++ ('\n' :: (List.replicate count ' ' ++ rest)))) := by
        simpa using scan_space _
    _ = scan 0 (block ((position.pass ' ').after (quote :: (body ++ [quote])))
          (tokens ++ [Token.scalar false (String.ofList text)]) (indent :: indents) false)
          ('\n' :: (List.replicate count ' ' ++ rest)) := scan_of_step _ (found _ (by simp))
    _ = _ := scan_lineBreak _
    _ = _ := scan_spaces _ count rest
    _ = _ := by simp

theorem token_single (progress : Progress) (rest : List Char) :
    progress.token '\'' rest = progress.quoted readSingleQuoted rest := by
  simp [token, isDocumentMark]

theorem token_double (progress : Progress) (rest : List Char) :
    progress.token '"' rest = progress.quoted readDoubleQuoted rest := by
  simp [token, isDocumentMark]

theorem scan_literal (lt : indent < position.column) (le : count ≤ indent)
    (resumes : Resumes rest) (ne_nil : text ≠ []) (noEscapes : needsEscapes text = false) :
    scan 0 (block position tokens (indent :: indents) false)
        (Tree.endLine (' ' :: literal (indent + 2) text) ++ (List.replicate count ' ' ++ rest))
      = scan 0 (block (position.after
            (Tree.endLine (' ' :: literal (indent + 2) text) ++ List.replicate count ' '))
          (tokens ++ [Token.scalar false (String.ofList text)]) (indent :: indents) true) rest := by
  obtain ⟨body, closed, reads⟩ := BlockScalar.exists_literal (indent + 1) ne_nil noEscapes
  have read := reads (Nat.lt_succ_of_le le) resumes
  have column : (position.pass ' ').column = position.column + 1 := rfl
  have first : Resumes ('|' :: (body ++ (List.replicate count ' ' ++ rest))) := by
    rintro c ⟨⟩
    decide
  have found : (block (position.pass ' ') tokens (indent :: indents) false).step '|'
      (body ++ (List.replicate count ' ' ++ rest))
      = some (block (position.pass ' ') (tokens ++ [Token.scalar false (String.ofList text)])
          (indent :: indents) true, List.replicate count ' ' ++ rest) := by
    rw [step_block first, unroll_of_le (by simp [block, column]; omega)]
    simp [token, isDocumentMark, inFlow, blockScalar, dropPlace, block, inner, read, push, allowKey]
  rw [closed]
  calc _ = scan 0 (block (position.pass ' ') tokens (indent :: indents) false)
        ('|' :: (body ++ (List.replicate count ' ' ++ rest))) := by
        simpa using scan_space _
    _ = scan 0 (block ((position.pass ' ').after ('|' :: body))
          (tokens ++ [Token.scalar false (String.ofList text)]) (indent :: indents) true)
          (List.replicate count ' ' ++ rest) := scan_of_step _ found
    _ = _ := scan_spaces _ count rest
    _ = _ := by simp

theorem scan_text (lt : indent < position.column) (le : count ≤ indent) (resumes : Resumes rest)
    (text : List Char) :
    scan 0 (block position tokens (indent :: indents) false)
        (Tree.endLine (' ' :: write (indent + 2) text) ++ (List.replicate count ' ' ++ rest))
      = scan 0 (block (position.after
            (Tree.endLine (' ' :: write (indent + 2) text) ++ List.replicate count ' '))
          (tokens ++ [Token.scalar (styleOf text == .plain) (String.ofList text)])
          (indent :: indents) true) rest := by
  unfold write
  cases style : styleOf text with
  | plain =>
    obtain ⟨fits, clear⟩ := of_styleOf_plain style
    exact scan_plain lt fits (ne_nil_of_not_isAmbiguous clear) le resumes
  | singleQuoted =>
    obtain ⟨fits, noFeed⟩ := of_styleOf_singleQuoted style
    obtain ⟨body, shown, reads⟩ := exists_singleQuoted (Nat.succ_pos (indent + 1)) fits noFeed
    dsimp only
    rw [shown]
    exact scan_quoted token_single lt (by rintro c ⟨⟩; decide) reads
  | doubleQuoted =>
    obtain ⟨body, shown, reads⟩ := exists_doubleQuoted text
    dsimp only
    rw [shown]
    exact scan_quoted token_double lt (by rintro c ⟨⟩; decide)
      fun column rest _ => reads column rest
  | literal =>
    obtain ⟨ne_nil, noEscapes⟩ := of_styleOf_literal style
    exact scan_literal lt le resumes ne_nil noEscapes

theorem scan_number (lt : indent < position.column) (le : count ≤ indent) (resumes : Resumes rest)
    (value : Nat) :
    scan 0 (block position tokens (indent :: indents) false)
        (Tree.endLine (' ' :: Nat.toDigits 10 value) ++ (List.replicate count ' ' ++ rest))
      = scan 0 (block (position.after
            (Tree.endLine (' ' :: Nat.toDigits 10 value) ++ List.replicate count ' '))
          (tokens ++ [Token.scalar true (String.ofList (Nat.toDigits 10 value))])
          (indent :: indents) true) rest := by
  have words : ∀ c ∈ Nat.toDigits 10 value, isWordPart c = true := fun c mem => by
    simp [isWordPart, Char.isAlphanum, Nat.isDigit_of_mem_toDigits (by decide) (by decide) mem]
  exact scan_plain lt (fitsPlain_of_isWordPart words) Nat.toDigits_ne_nil le resumes

end Progress

end ClassWeaver.Yaml
