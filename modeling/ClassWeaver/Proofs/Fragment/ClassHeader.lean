import ClassWeaver.Proofs.Fragment.Lexing
import ClassWeaver.Proofs.Fragment.Reading

set_option autoImplicit false

/-!
Reading a class header whatever comes after it. Main statement: a header with its first brace at its
end, which is no package declaration and no import, is read as the class declaration, and what comes
after it as the body.
-/

namespace ClassWeaver.Fragment

namespace Source

open Lexeme (code ofSource isBare)

theorem splitTopLevel?_of_cut {target : Char} {parens : Int} {lexemes before after : List Lexeme}
    (cut : splitTopLevel? target parens lexemes = some (before, after)) (more : List Lexeme) :
    splitTopLevel? target parens (before ++ more) = some (before, more) := by
  induction lexemes generalizing parens before with
  | nil => cases cut
  | cons lexeme rest ih =>
    rw [splitTopLevel?] at cut
    split at cut
    · next here =>
      obtain ⟨rfl, -⟩ := Prod.mk.inj (Option.some.inj cut)
      rw [List.singleton_append, splitTopLevel?, if_pos here]
    · next elsewhere =>
      obtain ⟨⟨front, back⟩, inner, same⟩ := Option.map_eq_some_iff.mp cut
      obtain ⟨rfl, rfl⟩ := Prod.mk.inj same
      change splitTopLevel? target parens (lexeme :: (front ++ more)) = _
      rw [splitTopLevel?, if_neg elsewhere, ih inner]
      rfl

theorem splitTopLevel?_append {target : Char} {parens : Int} {lexemes before after : List Lexeme}
    (cut : splitTopLevel? target parens lexemes = some (before, after)) (more : List Lexeme) :
    splitTopLevel? target parens (lexemes ++ more) = some (before, after ++ more) := by
  rw [← append_of_splitTopLevel? cut, List.append_assoc]
  exact splitTopLevel?_of_cut cut (after ++ more)

theorem exists_of_splitTopLevel? {target : Char} {parens : Int} {lexemes before after : List Lexeme}
    (cut : splitTopLevel? target parens lexemes = some (before, after)) :
    ∃ front, before = front ++ [code target] := by
  induction lexemes generalizing parens before with
  | nil => cases cut
  | cons lexeme rest ih =>
    rw [splitTopLevel?] at cut
    split at cut
    · next here =>
      obtain ⟨rfl, rfl⟩ := Prod.mk.inj (Option.some.inj cut)
      rw [Bool.and_eq_true, beq_iff_eq] at here
      exact ⟨[], by rw [here.1]; rfl⟩
    · obtain ⟨⟨front, back⟩, inner, same⟩ := Option.map_eq_some_iff.mp cut
      obtain ⟨rfl, rfl⟩ := Prod.mk.inj same
      obtain ⟨inside, rfl⟩ := ih inner
      exact ⟨lexeme :: inside, rfl⟩

theorem splitTopLevel?_of_isBlank {parens : Int} {gap : List Lexeme}
    (blank : ∀ lexeme ∈ gap, lexeme.isBlank = true) (lexemes : List Lexeme) :
    splitTopLevel? '\x7b' parens (gap ++ lexemes) =
      (splitTopLevel? '\x7b' parens lexemes).map (Prod.map (gap ++ ·) id) := by
  induction gap with
  | nil =>
    rw [List.nil_append]
    cases splitTopLevel? '\x7b' parens lexemes <;> rfl
  | cons lexeme gap ih =>
    have here := blank lexeme List.mem_cons_self
    have same : parensAfter parens lexeme = parens := by
      cases lexeme with
      | code c =>
        have other : c ≠ '(' ∧ c ≠ ')' := by
          constructor <;> (rintro rfl; exact absurd here (by decide))
        simp [parensAfter, other]
      | comment text => rfl
      | literal text => rfl
    have other : (lexeme == code '\x7b') = false := by
      rw [beq_eq_false_iff_ne]
      rintro rfl
      exact absurd here (by decide)
    rw [List.cons_append, splitTopLevel?, other, same,
      ih fun later inside => blank later (List.mem_cons_of_mem lexeme inside)]
    cases splitTopLevel? '\x7b' parens lexemes <;> rfl

theorem dropStart?_append {mark : Char} {word text : List Char} (found : mark ∈ text)
    (other : mark ∉ word) (more : List Char) :
    Text.dropStart? word (text ++ more) = (Text.dropStart? word text).map (· ++ more) ∧
      Text.dropStart? word text ≠ some [] := by
  induction word generalizing text with
  | nil =>
    refine ⟨rfl, fun none => ?_⟩
    rw [Text.dropStart?, Option.some.injEq] at none
    rw [none] at found
    cases found
  | cons c word ih =>
    obtain ⟨unlike, later⟩ := not_or.mp (mt List.mem_cons.mpr other)
    cases text with
    | nil => cases found
    | cons d text =>
      rw [List.cons_append, Text.dropStart?, Text.dropStart?]
      by_cases same : c = d
      · rw [if_pos same, if_pos same]
        exact ih ((List.mem_cons.mp found).resolve_left (same ▸ unlike)) later
      · rw [if_neg same, if_neg same]
        exact ⟨rfl, by simp⟩

theorem startsWithWord_append {lexemes : List Lexeme} {mark : Char} (inside : code mark ∈ lexemes)
    {word : String} (other : mark ∉ word.toList) (more : List Lexeme) :
    startsWithWord word (lexemes ++ more) = startsWithWord word lexemes := by
  rw [startsWithWord, startsWithWord]
  by_cases long : word.length + 1 ≤ lexemes.length
  · rw [List.take_append_of_le_length long]
  · have found : mark ∈ Lexeme.textOf lexemes :=
      List.mem_flatMap.mpr ⟨code mark, inside, List.mem_singleton_self mark⟩
    rw [List.take_append, List.take_of_length_le (by omega), Lexeme.textOf_append]
    obtain ⟨same, some⟩ := dropStart?_append found other
      (Lexeme.textOf (more.take (word.length + 1 - lexemes.length)))
    rw [same]
    cases cut : Text.dropStart? word.toList (Lexeme.textOf lexemes) with
    | none => rfl
    | some rest =>
      cases rest with
      | nil => exact absurd cut some
      | cons d rest => rfl

theorem isStatement_append {lexemes : List Lexeme} (inside : code '\x7b' ∈ lexemes)
    (more : List Lexeme) : isStatement (lexemes ++ more) = isStatement lexemes := by
  rw [isStatement, isStatement, startsWithWord_append inside (by decide),
    startsWithWord_append inside (by decide)]

section Going

variable {lexemes : List Lexeme} {c : Char} (inside : code c ∈ lexemes)
  (filled : Text.isAsciiBlank c = false)
include inside filled

theorem mem_afterBlanks : code c ∈ afterBlanks lexemes := by
  rw [← blanks_append_afterBlanks lexemes, List.mem_append] at inside
  rcases inside with front | rest
  · have blank := List.mem_takeWhile_imp front
    rw [Lexeme.isBlank_code, filled] at blank
    cases blank
  · exact rest

theorem blanks_append (more : List Lexeme) :
    blanks (lexemes ++ more) = blanks lexemes ∧
      afterBlanks (lexemes ++ more) = afterBlanks lexemes ++ more := by
  have some : (lexemes.dropWhile Lexeme.isBlank).isEmpty = false := by
    have found : code c ∈ lexemes.dropWhile Lexeme.isBlank := mem_afterBlanks inside filled
    rw [List.isEmpty_eq_false_iff]
    exact List.ne_nil_of_mem found
  have short : (lexemes.takeWhile Lexeme.isBlank).length ≠ lexemes.length := by
    intro all
    have whole := congrArg List.length (blanks_append_afterBlanks lexemes)
    rw [List.length_append, blanks, all] at whole
    have none : (afterBlanks lexemes) = [] := List.length_eq_zero_iff.mp (by omega)
    rw [afterBlanks] at none
    rw [none] at some
    cases some
  rw [blanks, blanks, afterBlanks, afterBlanks, List.takeWhile_append, List.dropWhile_append, some,
    if_neg short]
  exact ⟨rfl, rfl⟩

theorem mem_splitComments : code c ∈ (splitComments lexemes).2 := by
  fun_induction splitComments lexemes with
  | case1 text rest more none =>
    exact (List.mem_cons.mp inside).resolve_left (by simp)
  | case2 text rest more some ih =>
    exact ih (mem_afterBlanks ((List.mem_cons.mp inside).resolve_left (by simp)) filled)
  | case3 lexemes other => exact inside

theorem splitComments_append (more : List Lexeme) :
    splitComments (lexemes ++ more) =
      ((splitComments lexemes).1, (splitComments lexemes).2 ++ more) := by
  fun_induction splitComments lexemes with
  | case1 text rest found none ih =>
    have later : code c ∈ rest := (List.mem_cons.mp inside).resolve_left (by simp)
    have next := blanks_append later filled more
    rw [List.cons_append, splitComments, next.1, next.2, ih (mem_afterBlanks later filled)]
    simp [found, none]
  | case2 text rest found some ih =>
    have later : code c ∈ rest := (List.mem_cons.mp inside).resolve_left (by simp)
    have next := blanks_append later filled more
    rw [List.cons_append, splitComments, next.1, next.2, ih (mem_afterBlanks later filled)]
    simp [found, some]
  | case3 lexemes other =>
    cases lexemes with
    | nil => cases inside
    | cons lexeme rest =>
      rw [List.cons_append, splitComments]
      exact fun text rest' same => other text rest (by rw [(List.cons.inj same).1])

end Going

/-- A class header: it has its first brace outside of comments, literals and parentheses at its end,
and behind white space and comments it begins with no package declaration and no import. -/
structure IsClassHeader (text : List Char) : Prop where
  opens : splitTopLevel? '\x7b' 0 (ofSource text) = some (ofSource text, [])
  declares : isStatement (afterBlanks (splitComments (afterBlanks (ofSource text))).2) = false

section Declaration

variable {declaration : List Lexeme} (filled : declaration.head?.any (! ·.isBlank) = true)
  (opens : splitTopLevel? '\x7b' 0 declaration = some (declaration, []))
  (declares : isStatement (afterBlanks (splitComments declaration).2) = false)
include filled opens declares

theorem header_declaration (more : List Lexeme) :
    header (declaration ++ more) =
      ⟨.classDecl, Lexeme.stringOf declaration⟩ :: (body [] more).reverse := by
  obtain ⟨front, ends⟩ := exists_of_splitTopLevel? opens
  have inside : code '\x7b' ∈ declaration := ends ▸ List.mem_append_right front List.mem_cons_self
  have outside := mem_splitComments inside (by decide)
  have comments := splitComments_append inside (by decide) more
  have next := blanks_append outside (by decide) more
  have still : isStatement (afterBlanks (splitComments (declaration ++ more)).2) = false := by
    rw [comments, next.2, isStatement_append (mem_afterBlanks outside (by decide)), declares]
  have cut := splitTopLevel?_append opens more
  cases declaration with
  | nil => cases filled
  | cons lexeme rest =>
    have first : lexeme.isBlank = false := by simpa using filled
    rw [List.cons_append] at still cut ⊢
    rw [header, first, if_neg Bool.false_ne_true]
    dsimp only
    rw [still, if_neg Bool.false_ne_true, cut]
    rfl

theorem header_gap_declaration {gap : List Lexeme} (blank : ∀ lexeme ∈ gap, lexeme.isBlank = true)
    (more : List Lexeme) :
    header (gap ++ (declaration ++ more)) = fragments .gap gap
      ++ ⟨.classDecl, Lexeme.stringOf declaration⟩ :: (body [] more).reverse := by
  have read := header_declaration filled opens declares more
  cases gap with
  | nil => exact read
  | cons lexeme gap =>
    have rest := fun later inside => blank later (List.mem_cons_of_mem lexeme inside)
    have front : blanks (gap ++ (declaration ++ more)) = gap ∧
        afterBlanks (gap ++ (declaration ++ more)) = declaration ++ more := by
      rw [blanks, afterBlanks, List.takeWhile_append_of_pos rest, List.dropWhile_append_of_pos rest]
      cases declaration with
      | nil => cases filled
      | cons first later =>
        have visible : first.isBlank = false := by simpa using filled
        simp [visible]
    rw [List.cons_append, header, if_pos (blank lexeme List.mem_cons_self), front.1, front.2, read]
    rfl

end Declaration

namespace IsClassHeader

variable {text : List Char} (header : IsClassHeader text)
include header

theorem mem_ofSource : code '\x7b' ∈ ofSource text := by
  obtain ⟨front, ends⟩ := exists_of_splitTopLevel? header.opens
  rw [ends]
  exact List.mem_append_right front List.mem_cons_self

/-- A source text that begins with a class header is read as the white space in front of it, the class
declaration and a body. -/
theorem parse (rest : List Char) :
    (Store.parse (String.ofList (text ++ rest))).fragments =
      ⟨.start, ""⟩ :: fragments .gap (blanks (ofSource text))
        ++ ⟨.classDecl, Lexeme.stringOf (afterBlanks (ofSource text))⟩
          :: (body [] (ofSource rest)).reverse := by
  obtain ⟨front, ends⟩ := exists_of_splitTopLevel? header.opens
  have inside := header.mem_ofSource
  have whole := Lexeme.ofSource_append_of_last (by decide) ends rest
  have next := blanks_append inside (by decide) (ofSource rest)
  have there := mem_afterBlanks inside (by decide)
  have comments := splitComments_append there (by decide) (ofSource rest)
  have outside := mem_splitComments there (by decide)
  have behind := blanks_append outside (by decide) (ofSource rest)
  have still : isStatement (afterBlanks (splitComments (afterBlanks
      (ofSource text ++ ofSource rest))).2) = false := by
    rw [next.2, comments, behind.2, isStatement_append (mem_afterBlanks outside (by decide)),
      header.declares]
  have opened : opening (ofSource text ++ ofSource rest) = ([], ofSource text ++ ofSource rest) := by
    rw [opening]
    dsimp only
    rw [still, Bool.false_and, if_neg Bool.false_ne_true]
  have blank : ∀ lexeme ∈ blanks (ofSource text), lexeme.isBlank = true :=
    fun lexeme found => List.mem_takeWhile_imp found
  have filled : (afterBlanks (ofSource text)).head?.any (! ·.isBlank) = true := by
    have visible := List.head?_dropWhile_not Lexeme.isBlank (ofSource text)
    rw [afterBlanks]
    cases first : ((ofSource text).dropWhile Lexeme.isBlank).head? with
    | none =>
      rw [afterBlanks, List.head?_eq_none_iff.mp first] at there
      cases there
    | some lexeme => 
      simp [first] at visible
      simp [visible]
  have opens : splitTopLevel? '\x7b' 0 (afterBlanks (ofSource text)) =
      some (afterBlanks (ofSource text), []) := by
    have cut := header.opens
    rw [← blanks_append_afterBlanks (ofSource text), splitTopLevel?_of_isBlank blank] at cut
    obtain ⟨⟨before, after⟩, inner, same⟩ := Option.map_eq_some_iff.mp cut
    obtain ⟨front', rfl⟩ := Prod.mk.inj same
    rw [inner, List.append_cancel_left front']
  rw [Store.parse, String.toList_ofList, whole, parseLexemes, opened]
  dsimp only
  have read := header_gap_declaration filled opens header.declares blank (ofSource rest)
  rw [← List.append_assoc, blanks_append_afterBlanks] at read
  rw [read]
  rfl

end IsClassHeader

end Source

end ClassWeaver.Fragment
