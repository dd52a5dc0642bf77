import ClassWeaver.Proofs.Yaml.QuotedScalar
import ClassWeaver.Yaml.BlockScalar
import ClassWeaver.Yaml.Tree

set_option autoImplicit false

/-!
Scalars that are written line by line. The header gives the indentation of the lines if the text
begins with a gap, and it says which line breaks at the end belong to the text.

Main statement: `exists_literal`, a text is read back from its lines, and the lines after them are
left.
-/

namespace ClassWeaver.Yaml

open ScalarWriting

namespace BlockScalar

structure Line.IsWhole (line : Line) : Prop where
  noBreak : ∀ c ∈ line.text, isBreak c = false
  ends : ∃ c, line.lineBreak = [c] ∧ isBreak c = true

theorem linesOf_append_line {line : Line} (whole : line.IsWhole) (rest : List Char) :
    linesOf (line.text ++ line.lineBreak ++ rest) = line :: linesOf rest := by
  obtain ⟨text, lineBreak⟩ := line
  obtain ⟨noBreak, c, rfl, isBreak⟩ := whole
  dsimp only at noBreak ⊢
  induction text with
  | nil => simp [linesOf, isBreak]
  | cons d text ih =>
    obtain ⟨first, noBreak⟩ := List.forall_mem_cons.1 noBreak
    simp only [List.cons_append, linesOf, first, Bool.false_eq_true, if_false]
    rw [ih noBreak]

theorem linesOf_textOf_append {lines : List Line} (whole : ∀ line ∈ lines, line.IsWhole)
    (rest : List Char) : linesOf (textOf lines ++ rest) = lines ++ linesOf rest := by
  induction lines with
  | nil => rfl
  | cons line lines ih =>
    obtain ⟨first, others⟩ := List.forall_mem_cons.1 whole
    have split : textOf (line :: lines) ++ rest
        = line.text ++ line.lineBreak ++ (textOf lines ++ rest) := by
      simp [textOf]
    rw [split, linesOf_append_line first, ih others, List.cons_append]

theorem isWhole_of_mem_linesOf {text : List Char} (ends : text.getLast?.all isBreak = true) :
    ∀ line ∈ linesOf text, line.IsWhole := by
  fun_induction linesOf with
  | case1 => simp
  | case2 c rest isBreak ih =>
    have restEnds : rest.getLast?.all Yaml.isBreak = true := by
      cases rest with
      | nil => rfl
      | cons d rest => simpa using ends
    exact List.forall_mem_cons.2 ⟨⟨by simp, c, rfl, isBreak⟩, ih restEnds⟩
  | case3 c rest noBreak none ih =>
    have nothing : rest = [] := by
      rw [← textOf_linesOf rest, none]
      rfl
    subst nothing
    exact absurd ends (by simpa using noBreak)
  | case4 c rest noBreak line lines some ih =>
    have restEnds : rest.getLast?.all Yaml.isBreak = true := by
      cases rest with
      | nil => rfl
      | cons d rest => simpa using ends
    rw [some] at ih
    obtain ⟨first, others⟩ := List.forall_mem_cons.1 (ih restEnds)
    have whole : Line.IsWhole ⟨c :: line.text, line.lineBreak⟩ :=
      ⟨List.forall_mem_cons.2 ⟨by simpa using noBreak, first.noBreak⟩, first.ends⟩
    exact List.forall_mem_cons.2 ⟨whole, others⟩

theorem textOf_append (first second : List Line) :
    textOf (first ++ second) = textOf first ++ textOf second :=
  List.flatMap_append

theorem getLast?_textOf {lines : List Line} (whole : ∀ line ∈ lines, line.IsWhole) :
    (textOf lines).getLast?.all isBreak = true := by
  rcases List.eq_nil_or_concat lines with rfl | ⟨init, last, rfl⟩
  · rfl
  · obtain ⟨c, ends, isBreak⟩ := (whole last (by simp)).ends
    simp [textOf, ends, isBreak]

/-! ### The lines of a scalar in the document -/

/-- The line as it stands in the document: indented if there is text on it. -/
def Line.indented (indent : Nat) (line : Line) : Line :=
  if line.text = [] then line else { line with text := List.replicate indent ' ' ++ line.text }

theorem Line.IsWhole.indented {line : Line} (whole : line.IsWhole) (indent : Nat) :
    (line.indented indent).IsWhole := by
  unfold Line.indented
  split
  next => exact whole
  next => 
    refine ⟨fun c mem => ?_, whole.ends⟩
    rcases List.mem_append.1 mem with space | inText
    · rw [List.eq_of_mem_replicate space]
      decide
    · exact whole.noBreak c inText

theorem indentAfterBreaks_append {text : List Char} (noBreak : ∀ c ∈ text, isBreak c = false)
    {c : Char} (ends : isBreak c = true) (indent : Nat) (rest : List Char) :
    indentAfterBreaks indent false (text ++ c :: rest)
      = text ++ c :: indentAfterBreaks indent true rest := by
  induction text with
  | nil => exact indentAfterBreaks_break ends indent false rest
  | cons d text ih =>
    obtain ⟨first, noBreak⟩ := List.forall_mem_cons.1 noBreak
    rw [List.cons_append, indentAfterBreaks_cons first, ih noBreak]
    rfl

@[simp] theorem Line.lineBreak_indented (line : Line) (indent : Nat) :
    (line.indented indent).lineBreak = line.lineBreak := by
  unfold Line.indented
  split <;> rfl

theorem indentAfterBreaks_textOf (indent : Nat) {lines : List Line}
    (whole : ∀ line ∈ lines, line.IsWhole) :
    indentAfterBreaks indent true (textOf lines) = textOf (lines.map (Line.indented indent)) := by
  induction lines with
  | nil => rfl
  | cons line lines ih =>
    obtain ⟨first, others⟩ := List.forall_mem_cons.1 whole
    have step : indentAfterBreaks indent true (line.text ++ line.lineBreak ++ textOf lines)
        = (line.indented indent).text ++ line.lineBreak
          ++ indentAfterBreaks indent true (textOf lines) := by
      obtain ⟨text, lineBreak⟩ := line
      obtain ⟨noBreak, c, rfl, ends⟩ := first
      cases text with
      | nil => simp [Line.indented, indentAfterBreaks_break ends]
      | cons d text =>
        obtain ⟨head, noBreak⟩ := List.forall_mem_cons.1 noBreak
        simp [Line.indented, indentAfterBreaks_cons head, indentAfterBreaks_append noBreak ends]
    rw [ih others] at step
    simpa [textOf] using step

def bodyOf (rest : List Line) : List Line → Body
  | [] => ⟨[], [], rest⟩
  | line :: lines =>
    let body := bodyOf rest lines
    if line.text = [] then { body with emptyLines := line.lineBreak ++ body.emptyLines }
    else ⟨[], ⟨line.text, line.lineBreak, body.emptyLines⟩ :: body.filled, body.rest⟩

theorem kind_indented {line : Line} (whole : line.IsWhole) (indent : Nat) :
    (line.indented indent).kind indent = if line.text = [] then .empty else .filled line.text := by
  obtain ⟨text, lineBreak⟩ := line
  obtain ⟨-, c, rfl, -⟩ := whole
  cases text with
  | nil => simp [Line.indented, Line.kind, spaces]
  | cons d text =>
    have width : min indent (spaces (List.replicate indent ' ' ++ d :: text)) = indent := by
      simp [spaces]
    simp [Line.indented, Line.kind, width]

theorem collect_indented (indent : Nat) {lines outside : List Line}
    (whole : ∀ line ∈ lines, line.IsWhole)
    (ends : collect indent outside = some ⟨[], [], outside⟩) :
    collect indent (lines.map (Line.indented indent) ++ outside) = some (bodyOf outside lines) := by
  induction lines with
  | nil => exact ends
  | cons line lines ih =>
    obtain ⟨first, others⟩ := List.forall_mem_cons.1 whole
    rw [List.map_cons, List.cons_append, collect, kind_indented first, ih others, bodyOf]
    by_cases empty : line.text = [] <;> simp [empty]

theorem linesOf_append_of_cons {front text : List Char} (noBreak : ∀ c ∈ front, isBreak c = false)
    {line : Line} {lines : List Line} (some : linesOf text = line :: lines) :
    linesOf (front ++ text) = { line with text := front ++ line.text } :: lines := by
  induction front with
  | nil => exact some
  | cons c front ih =>
    obtain ⟨first, noBreak⟩ := List.forall_mem_cons.1 noBreak
    simp only [List.cons_append, linesOf, first, Bool.false_eq_true, if_false]
    rw [ih noBreak]

theorem linesOf_cons {c : Char} (noBreak : isBreak c = false) (rest : List Char) :
    ∃ text lineBreak lines, linesOf (c :: rest) = ⟨c :: text, lineBreak⟩ :: lines := by
  simp only [linesOf, noBreak, Bool.false_eq_true, if_false]
  split
  next => exact ⟨[], [], [], rfl⟩
  next line lines _ => exact ⟨line.text, line.lineBreak, lines, rfl⟩

theorem isBreak_of_mem_replicate (count : Nat) :
    ∀ c ∈ List.replicate count ' ', isBreak c = false := by
  intro c mem
  rw [List.eq_of_mem_replicate mem]
  decide

theorem collect_outside {indent count : Nat} (lt : count < indent) {text : List Char}
    (resumes : Resumes text) :
    collect indent (linesOf (List.replicate count ' ' ++ text))
      = some ⟨[], [], linesOf (List.replicate count ' ' ++ text)⟩ := by
  have width : min indent count = count := by omega
  have ne : count ≠ indent := by omega
  cases text with
  | nil =>
    cases count with
    | zero => rfl
    | succ count =>
      have last : linesOf [' '] = [⟨[' '], []⟩] := rfl
      have only := linesOf_append_of_cons (isBreak_of_mem_replicate count) last
      rw [List.append_nil, List.replicate_succ', only, ← List.replicate_succ']
      simp [collect, Line.kind, spaces, width]
  | cons c rest =>
    obtain ⟨solid, -, -⟩ := resumes c rfl
    obtain ⟨notBlank, notBreak⟩ := Bool.or_eq_false_iff.1 solid
    obtain ⟨notSpace, notTab⟩ := Bool.or_eq_false_iff.1 notBlank
    obtain ⟨tail, lineBreak, lines, some⟩ := linesOf_cons notBreak rest
    rw [linesOf_append_of_cons (isBreak_of_mem_replicate count) some]
    simp_all [collect, Line.kind, spaces]

/-! ### The text of a scalar -/

theorem Body.text_emptyLines {chomping : Chomping} {body : Body}
    (keeps : chomping = .keep ∨ body.filled ≠ []) (breaks : List Char) :
    Body.text false chomping { body with emptyLines := breaks ++ body.emptyLines }
      = breaks ++ body.text false chomping := by
  obtain ⟨emptyLines, filled, rest⟩ := body
  cases filled with
  | nil =>
    have keep : chomping = .keep := by simpa using keeps
    simp [Body.text, keep]
  | cons line lines => simp [Body.text]

theorem Body.text_filled {chomping : Chomping} {body : Body}
    (keeps : chomping = .keep ∨ body.filled ≠ []) (text lineBreak : List Char) :
    Body.text false chomping ⟨[], ⟨text, lineBreak, body.emptyLines⟩ :: body.filled, body.rest⟩
      = text ++ lineBreak ++ body.text false chomping := by
  obtain ⟨emptyLines, filled, rest⟩ := body
  cases filled with
  | nil =>
    have keep : chomping = .keep := by simpa using keeps
    simp [Body.text, joinAfter, keep]
  | cons line lines => simp [Body.text, joinAfter, between]

/-- What a scalar keeps of its last line with text, if no empty lines follow. -/
def Chomping.ofLast (chomping : Chomping) (last : Line) : List Char :=
  last.text ++ if chomping = .strip then [] else last.lineBreak

theorem filled_bodyOf_ne_nil (outside : List Line) {lines : List Line}
    (filled : ∃ line ∈ lines, line.text ≠ []) : (bodyOf outside lines).filled ≠ [] := by
  induction lines with
  | nil => simp at filled
  | cons line lines ih =>
    unfold bodyOf
    by_cases empty : line.text = []
    · simpa [empty] using ih (by simpa [empty] using filled)
    · simp [empty]

theorem text_bodyOf (chomping : Chomping) (outside : List Line) (lines : List Line) {last : Line}
    (filled : last.text ≠ []) :
    (bodyOf outside (lines ++ [last])).text false chomping
      = textOf lines ++ chomping.ofLast last := by
  induction lines with
  | nil => cases chomping <;> simp [bodyOf, filled, Body.text, joinAfter, textOf, Chomping.ofLast]
  | cons line lines ih =>
    have keeps : chomping = .keep ∨ (bodyOf outside (lines ++ [last])).filled ≠ [] :=
      .inr (filled_bodyOf_ne_nil outside ⟨last, by simp, filled⟩)
    rw [List.cons_append, bodyOf]
    by_cases empty : line.text = []
    · simp [empty, Body.text_emptyLines keeps, ih, textOf]
    · simp [empty, Body.text_filled keeps, ih, textOf]

theorem text_bodyOf_keep (outside lines : List Line) :
    (bodyOf outside lines).text false .keep = textOf lines := by
  induction lines with
  | nil => rfl
  | cons line lines ih =>
    rw [bodyOf]
    by_cases empty : line.text = []
    · simp [empty, Body.text_emptyLines (.inl rfl), ih, textOf]
    · simp [empty, Body.text_filled (.inl rfl), ih, textOf]

theorem endLine_of_isBreak {text : List Char} (ends : text.getLast?.any isBreak = true) :
    Tree.endLine text = text :=
  if_pos ends

theorem endLine_of_not_isBreak {text : List Char} (noEnd : text.getLast?.any isBreak = false) :
    Tree.endLine text = text ++ ['\n'] :=
  if_neg (by simp [noEnd])

theorem getLast?_endLine (text : List Char) : (Tree.endLine text).getLast?.all isBreak = true := by
  cases ends : text.getLast?.any isBreak with
  | true =>
    rw [endLine_of_isBreak ends]
    cases last : text.getLast? <;> simp_all
  | false => simp [endLine_of_not_isBreak ends, isBreak]

theorem exists_last {lines : List Line} (whole : ∀ line ∈ lines, line.IsWhole) {front : List Char}
    {c d : Char} (shown : textOf lines = front ++ [c, d]) (noBreak : isBreak c = false) :
    ∃ init last, lines = init ++ [last] ∧ last.text ≠ [] := by
  rcases List.eq_nil_or_concat lines with rfl | ⟨init, last, rfl⟩
  · simp [textOf] at shown
  · refine ⟨init, last, List.concat_eq_append, fun empty => ?_⟩
    obtain ⟨e, ends, -⟩ := (whole last (by simp)).ends
    have same : textOf init ++ [e] = front ++ [c] ++ [d] := by
      simpa [textOf, empty, ends] using shown
    have initWhole : ∀ line ∈ init, line.IsWhole := fun line mem => whole line (by simp [mem])
    have initEnds := getLast?_textOf initWhole
    rw [List.append_inj_left' same rfl] at initEnds
    simp [noBreak] at initEnds

theorem exists_chomping {text : List Char} (ne_nil : text ≠ []) :
    ∃ chomping, (ScalarWriting.chomping text, chomping)
        ∈ [(['-'], Chomping.strip), ([], .clip), (['+'], .keep)] ∧
      ∀ outside, (bodyOf outside (linesOf (Tree.endLine text))).text false chomping = text := by
  have whole := isWhole_of_mem_linesOf (getLast?_endLine text)
  have shown := textOf_linesOf (Tree.endLine text)
  rcases List.eq_nil_or_concat text with rfl | ⟨front, last, rfl⟩
  · exact absurd rfl ne_nil
  rw [List.concat_eq_append] at *
  cases ends : isBreak last with
  | false =>
    have closed : Tree.endLine (front ++ [last]) = front ++ [last] ++ ['\n'] :=
      endLine_of_not_isBreak (by simpa using ends)
    refine ⟨.strip, by simp [chomping, ends], fun outside => ?_⟩
    rw [closed] at whole shown ⊢
    obtain ⟨init, line, split, filled⟩ :=
      exists_last whole (by rw [shown, List.append_assoc]; rfl) ends
    obtain ⟨e, lineBreak, -⟩ := (whole line (by rw [split]; simp)).ends
    rw [split, text_bodyOf .strip outside init filled]
    rw [split, textOf_append] at shown
    have same : textOf init ++ line.text ++ [e] = front ++ [last] ++ ['\n'] := by
      simpa [textOf, lineBreak] using shown
    simpa [Chomping.ofLast] using List.append_inj_left' same rfl
  | true =>
    have closed : Tree.endLine (front ++ [last]) = front ++ [last] :=
      endLine_of_isBreak (by simpa using ends)
    rw [closed] at whole shown ⊢
    cases more : front.getLast?.all isBreak with
    | true =>
      refine ⟨.keep, by simp [chomping, ends, more], fun outside => ?_⟩
      rw [text_bodyOf_keep, shown]
    | false =>
      refine ⟨.clip, by simp [chomping, ends, more], fun outside => ?_⟩
      obtain ⟨d, lastFront, noBreak⟩ : ∃ d, front.getLast? = some d ∧ isBreak d = false := by
        cases lastFront : front.getLast? with
        | none => simp [lastFront] at more
        | some d => exact ⟨d, rfl, by simpa [lastFront] using more⟩
      obtain ⟨init', rfl⟩ := List.getLast?_eq_some_iff.1 lastFront
      obtain ⟨init, line, split, filled⟩ :=
        exists_last whole (by rw [shown, List.append_assoc]; rfl) noBreak
      rw [split, text_bodyOf .clip outside init filled, ← shown, split, textOf_append]
      simp [Chomping.ofLast, textOf]

/-! ### The scalar -/

theorem readHeader_append {width : List Char} {indentation : Option Nat}
    (hasWidth : (width, indentation) ∈ [([], none), (['2'], some 2)]) {indicator : List Char}
    {chomping : Chomping}
    (hasChomping : (indicator, chomping) ∈ [(['-'], .strip), ([], .clip), (['+'], .keep)])
    (rest : List Char) :
    readHeader (width ++ indicator ++ '\n' :: rest) = some (⟨chomping, indentation⟩, rest) := by
  simp only [List.mem_cons, List.not_mem_nil, or_false, Prod.mk.injEq] at hasWidth hasChomping
  rcases hasWidth with ⟨rfl, rfl⟩ | ⟨rfl, rfl⟩ <;>
    rcases hasChomping with ⟨rfl, rfl⟩ | ⟨rfl, rfl⟩ | ⟨rfl, rfl⟩ <;> rfl

theorem detectIndent_indented {least indent : Nat} (le : least ≤ indent) {text : List Char}
    {c : Char} (begins : text.head? = some c) (solid : isGap c = false) (outside : List Line) :
    detectIndent least ((linesOf text).map (Line.indented indent) ++ outside) = some indent := by
  obtain ⟨rest, rfl⟩ := List.head?_eq_some_iff.1 begins
  obtain ⟨notBlank, notBreak⟩ := Bool.or_eq_false_iff.1 solid
  obtain ⟨notSpace, notTab⟩ := Bool.or_eq_false_iff.1 notBlank
  obtain ⟨tail, lineBreak, lines, some⟩ := linesOf_cons notBreak rest
  have front : (List.replicate indent ' ' ++ c :: tail).takeWhile (· == ' ')
      = List.replicate indent ' ' := by
    simp [notSpace]
  have back : (List.replicate indent ' ' ++ c :: tail).dropWhile (· == ' ') = c :: tail := by
    simp [notSpace]
  simp [some, Line.indented, detectIndent, spaces, front, back, notTab, Nat.max_eq_right le]

theorem indentAfterBreaks_concat (indent : Nat) (broken : Bool) (text : List Char) :
    indentAfterBreaks indent broken (text ++ ['\n'])
      = indentAfterBreaks indent broken text ++ ['\n'] := by
  induction text generalizing broken with
  | nil => rfl
  | cons c text ih =>
    rw [List.cons_append]
    unfold indentAfterBreaks
    split <;> simp [ih]

theorem endLine_literal (indent : Nat) {text : List Char} (ne_nil : text ≠ []) :
    Tree.endLine (' ' :: literal indent text) = ' ' :: '|' ::
      ((if text.head?.any fun c => isSpace c || isBreak c then ['2'] else [])
        ++ ScalarWriting.chomping text
        ++ '\n' :: indentAfterBreaks indent true (Tree.endLine text)) := by
  have indented : (indentAfterBreaks indent true text).getLast? = text.getLast? :=
    getLast?_indentAfterBreaks indent true ne_nil
  obtain ⟨c, last⟩ : ∃ c, text.getLast? = some c := by
    rcases List.eq_nil_or_concat text with rfl | ⟨front, last, rfl⟩
    · exact absurd rfl ne_nil
    · exact ⟨last, by simp⟩
  have whole : (' ' :: literal indent text).getLast? = text.getLast? := by
    simp [literal, List.getLast?_append, List.getLast?_cons, indented, last]
  cases ends : text.getLast?.any isBreak with
  | true =>
    rw [endLine_of_isBreak (by rwa [whole]), endLine_of_isBreak ends]
    simp [literal]
  | false =>
    rw [endLine_of_not_isBreak (by rwa [whole]), endLine_of_not_isBreak ends,
      indentAfterBreaks_concat]
    simp [literal]

theorem rest_bodyOf (outside lines : List Line) : (bodyOf outside lines).rest = outside := by
  induction lines with
  | nil => rfl
  | cons line lines ih =>
    unfold bodyOf
    split <;> exact ih

theorem read_of_parts {outer indent : Nat} {text rest : List Char} {header : Header} {body : Body}
    (begins : readHeader text = some (header, rest))
    (indented : (match header.indentation with
      | some width => some (outer - 1 + width)
      | none => detectIndent (max outer 1) (linesOf rest)) = some indent)
    (collected : collect indent (linesOf rest) = some body) :
    read false outer text = some (body.text false header.chomping, textOf body.rest) := by
  simp only [read, begins, bind, Option.bind]
  cases indentation : header.indentation with
  | none =>
    rw [indentation] at indented
    simp [indented, collected]
  | some width =>
    rw [indentation] at indented
    simp [Option.some.inj indented, collected]

/-- A text that is written line by line is read back, together with the end of its last line. -/
theorem exists_literal (outer : Nat) {text : List Char} (ne_nil : text ≠ [])
    (noEscapes : needsEscapes text = false) :
    ∃ body, Tree.endLine (' ' :: literal (outer + 1) text) = ' ' :: '|' :: body ∧
      ∀ {count : Nat} {rest : List Char}, count < outer → Resumes rest →
        read false outer (body ++ (List.replicate count ' ' ++ rest))
          = some (text, List.replicate count ' ' ++ rest) := by
  obtain ⟨chomping, indicator, kept⟩ := exists_chomping ne_nil
  have whole := isWhole_of_mem_linesOf (getLast?_endLine text)
  have wholeIndented : ∀ line ∈ (linesOf (Tree.endLine text)).map (Line.indented (outer + 1)),
      line.IsWhole := by
    simpa using fun line mem => (whole line mem).indented (outer + 1)
  have written := indentAfterBreaks_textOf (outer + 1) whole
  rw [textOf_linesOf] at written
  refine ⟨_, endLine_literal (outer + 1) ne_nil, fun {count rest} lt resumes => ?_⟩
  have outside := collect_outside (show count < outer + 1 by omega) resumes
  have collected := collect_indented (outer + 1) whole outside
  rw [← linesOf_textOf_append wholeIndented] at collected
  have result := kept (linesOf (List.replicate count ' ' ++ rest))
  rw [written]
  cases begins : text.head?.any fun c => isSpace c || isBreak c with
  | true =>
    have hasWidth : (['2'], some 2) ∈ [([], none), (['2'], some 2)] := by simp
    have header := readHeader_append hasWidth indicator
    have indent : some (outer - 1 + 2) = some (outer + 1) := by congr 1; omega
    have read := read_of_parts (header _) indent collected
    rw [result, rest_bodyOf, textOf_linesOf] at read
    simpa using read
  | false =>
    have noWidth : ([], none) ∈ [([], none), (['2'], some 2)] := by simp
    have header := readHeader_append noWidth indicator
    have detected : detectIndent (max outer 1) (linesOf (textOf
        ((linesOf (Tree.endLine text)).map (Line.indented (outer + 1)))
          ++ (List.replicate count ' ' ++ rest))) = some (outer + 1) := by
      obtain ⟨c, tail, rfl⟩ := List.exists_cons_of_ne_nil ne_nil
      obtain ⟨notSpace, notBreak⟩ : isSpace c = false ∧ isBreak c = false := by simpa using begins
      have solid : isGap c = false := Bool.eq_false_iff.2 fun gap => by
        have space := eq_space_of_isGap
          (isPlainlyWritten_of_needsEscapes noEscapes c List.mem_cons_self) notBreak gap
        simp [space, isSpace] at notSpace
      have head : (Tree.endLine (c :: tail)).head? = some c := by
        unfold Tree.endLine
        split <;> rfl
      rw [linesOf_textOf_append wholeIndented]
      exact detectIndent_indented (by omega) head solid _
    have read := read_of_parts (header _) detected collected
    rw [result, rest_bodyOf, textOf_linesOf] at read
    simpa using read

end BlockScalar

end ClassWeaver.Yaml
