import ClassWeaver.Proofs.Fragment.Scan
import ClassWeaver.Proofs.Text.Occurrence

set_option autoImplicit false

/-!
Lexemes in front of a place in a text. Main statement: in front of a character of code that begins
neither a comment nor a literal the lexemes are the same whatever stands behind it.
-/

namespace ClassWeaver.Fragment.Lexeme

variable {inside rest : List Char} {d : Char}

theorem splitClosed_of_left {mark text : List Char} (left : (splitClosed mark text).2 ≠ [])
    (more : List Char) :
    splitClosed mark ((splitClosed mark text).1 ++ more) = ((splitClosed mark text).1, more) := by
  unfold splitClosed at left ⊢
  unfold Text.splitAfter? at left ⊢
  cases search : Text.splitBefore? mark text with
  | none => simp [search] at left
  | some parts =>
    obtain ⟨before, found⟩ := parts
    obtain ⟨tail, rfl, -, first⟩ := Text.exists_of_splitBefore? search
    simp only [Option.map_some, Option.getD_some, List.take_left, List.append_assoc]
    rw [first.splitBefore? more]
    simp

theorem splitQuoted_of_cut {quote : Char} {text : List Char}
    (cut : splitQuoted quote text = (inside, d :: rest)) (more : List Char) :
    splitQuoted quote (inside ++ d :: more) = (inside, d :: more) := by
  have backslash {c : Char} {rest : List Char} (last : c = '\\' → rest = [] → False)
      (next : ∀ d more, c = '\\' → rest = d :: more → False) : c ≠ '\\' := by
    rintro rfl
    cases rest with
    | nil => exact last rfl rfl
    | cons d rest => exact next d rest rfl rfl
  fun_induction splitQuoted quote text generalizing inside with
  | case1 => cases (Prod.mk.inj cut).2
  | case2 => cases (Prod.mk.inj cut).2
  | case3 c rest front back same ih =>
    obtain ⟨rfl, rfl⟩ := Prod.mk.inj cut
    simp [splitQuoted, ih same]
  | case4 c rest last next inLine =>
    obtain ⟨rfl, whole⟩ := Prod.mk.inj cut
    obtain ⟨rfl, -⟩ := List.cons.inj whole
    simp_all [splitQuoted]
  | case5 c rest last next inLine closing =>
    obtain ⟨rfl, -⟩ := Prod.mk.inj cut
    rw [List.singleton_append, Source.Mode.splitQuoted_cons (by simpa using inLine)
      (backslash last next), if_pos closing]
  | case6 c rest last next inLine closing front back same ih =>
    obtain ⟨rfl, rfl⟩ := Prod.mk.inj cut
    rw [List.cons_append, Source.Mode.splitQuoted_cons (by simpa using inLine) (backslash last next),
      if_neg closing, ih same]
    rfl

private theorem split_slash_of_cut {text : List Char} {lexeme : Lexeme}
    (cut : split '/' text = (lexeme, d :: rest)) (more : List Char) :
    ∃ inside, lexeme.text = '/' :: inside ∧ split '/' (inside ++ d :: more) = (lexeme, d :: more) := by
  have line (text : List Char) : split '/' ('/' :: text) =
      (comment ('/' :: '/' :: text.takeWhile (· != '\n')), text.dropWhile (· != '\n')) := rfl
  have block (text : List Char) : split '/' ('*' :: text) =
      (comment ('/' :: '*' :: (splitClosed ['*', '/'] text).1), (splitClosed ['*', '/'] text).2) := rfl
  have alone {e : Char} (noLine : e ≠ '/') (noBlock : e ≠ '*') (text : List Char) :
      split '/' (e :: text) = (code '/', e :: text) := by
    unfold split
    split <;> simp_all
  cases text with
  | nil => cases cut
  | cons e text =>
    by_cases isLine : e = '/'
    · subst isLine
      rw [line] at cut
      obtain ⟨rfl, behind⟩ := Prod.mk.inj cut
      have stops := List.head?_dropWhile_not (· != '\n') text
      rw [behind, List.head?_cons] at stops
      obtain rfl : d = '\n' := by simpa using stops
      have inLine : ∀ c ∈ text.takeWhile (· != '\n'), (c != '\n') = true := fun c found =>
        @List.mem_takeWhile_imp _ (· != '\n') text c found
      refine ⟨'/' :: text.takeWhile (· != '\n'), rfl, ?_⟩
      rw [List.cons_append, line, List.takeWhile_append_of_pos inLine,
        List.dropWhile_append_of_pos inLine]
      simp
    · by_cases isBlock : e = '*'
      · subst isBlock
        rw [block] at cut
        obtain ⟨rfl, behind⟩ := Prod.mk.inj cut
        refine ⟨'*' :: (splitClosed ['*', '/'] text).1, rfl, ?_⟩
        rw [List.cons_append, block, splitClosed_of_left (by simp [behind])]
      · rw [alone isLine isBlock] at cut
        obtain ⟨rfl, whole⟩ := Prod.mk.inj cut
        obtain ⟨rfl, -⟩ := List.cons.inj whole
        exact ⟨[], rfl, alone isLine isBlock more⟩

private theorem split_quote_of_cut {q : Char} (quote : q = '"' ∨ q = '\'') {text : List Char}
    {lexeme : Lexeme} (cut : split q text = (lexeme, d :: rest)) (more : List Char) :
    ∃ inside, lexeme.text = q :: inside ∧ split q (inside ++ d :: more) = (lexeme, d :: more) := by
  by_cases triple : ['"', '"', '"'] <+: q :: text
  · have opens (text : List Char) : split '"' ('"' :: '"' :: text) =
        (literal ('"' :: '"' :: '"' :: (splitClosed ['"', '"', '"'] text).1),
          (splitClosed ['"', '"', '"'] text).2) := rfl
    obtain ⟨block, whole⟩ := triple
    obtain ⟨rfl, same⟩ := List.cons.inj whole
    obtain rfl : text = '"' :: '"' :: block := same.symm
    rw [opens] at cut
    obtain ⟨rfl, behind⟩ := Prod.mk.inj cut
    refine ⟨'"' :: '"' :: (splitClosed ['"', '"', '"'] block).1, rfl, ?_⟩
    rw [List.cons_append, List.cons_append, opens, splitClosed_of_left (by simp [behind])]
  · rw [split_of_quote quote triple] at cut
    obtain ⟨rfl, behind⟩ := Prod.mk.inj cut
    have whole := append_splitQuoted q text
    rw [behind] at whole
    have closed := splitQuoted_of_cut (Prod.ext rfl behind) more
    refine ⟨(splitQuoted q text).1, rfl, ?_⟩
    -- the third quote would be the one that closes the literal, or come before it
    have still : ¬ ['"', '"', '"'] <+: q :: ((splitQuoted q text).1 ++ d :: more) := by
      intro found
      cases inside : (splitQuoted q text).1 with
      | nil =>
        rw [inside] at found whole
        obtain ⟨rfl, next⟩ := List.cons_prefix_cons.mp found
        obtain ⟨rfl, -⟩ := List.cons_prefix_cons.mp next
        rw [← whole] at inside
        simp [splitQuoted] at inside
      | cons e front =>
        rw [inside] at found whole
        rw [← whole] at triple
        refine triple ?_
        cases front <;> simpa using found
    rw [split_of_quote quote still, closed]

theorem split_of_cut {c : Char} {text : List Char} {lexeme : Lexeme}
    (cut : split c text = (lexeme, d :: rest)) (more : List Char) :
    ∃ inside, lexeme.text = c :: inside ∧ split c (inside ++ d :: more) = (lexeme, d :: more) := by
  by_cases slash : c = '/'
  · subst slash
    exact split_slash_of_cut cut more
  · by_cases quote : c = '"' ∨ c = '\''
    · exact split_quote_of_cut quote cut more
    · rw [not_or] at quote
      have bare : isBare c = true := by simp [isBare, slash, quote]
      rw [split_of_isBare bare] at cut
      obtain ⟨rfl, -⟩ := Prod.mk.inj cut
      exact ⟨[], rfl, split_of_isBare bare _⟩

theorem ofSource_of_cut {source : List Char} {front behind : List Lexeme} {c : Char}
    (bare : isBare c = true) (cut : ofSource source = front ++ code c :: behind) (more : List Char) :
    ofSource (textOf front ++ c :: more) = front ++ code c :: ofSource more := by
  induction front generalizing source with
  | nil => exact ofSource_cons_of_isBare bare more
  | cons lexeme front ih =>
    cases source with
    | nil => simp [ofSource] at cut
    | cons e text =>
      rw [ofSource, List.cons_append] at cut
      obtain ⟨first, later⟩ := List.cons.inj cut
      have left := textOf_ofSource (split e text).2
      rw [later, textOf_append, textOf_cons] at left
      -- the character behind the lexeme stays the same
      obtain ⟨d, tail, other, whole, same⟩ : ∃ d tail other,
          (split e text).2 = d :: tail ∧ textOf front ++ c :: more = d :: other := by
        rw [← left]
        cases textOf front with
        | nil => exact ⟨c, _, _, rfl, rfl⟩
        | cons d front => exact ⟨d, _, _, rfl, rfl⟩
      obtain ⟨inside, shown, again⟩ := split_of_cut (Prod.ext first whole) other
      rw [textOf_cons, List.append_assoc, shown, List.cons_append, same, ofSource, again, ← same,
        ih later]
      rfl

theorem ofSource_append_of_last {text : List Char} {front : List Lexeme} {c : Char}
    (bare : isBare c = true) (last : ofSource text = front ++ [code c]) (more : List Char) :
    ofSource (text ++ more) = ofSource text ++ ofSource more := by
  have whole := textOf_ofSource text
  rw [last, textOf_append] at whole
  rw [last, List.append_assoc, ← whole, List.append_assoc]
  exact ofSource_of_cut bare last more

end ClassWeaver.Fragment.Lexeme
