import ClassWeaver.Proofs.Fragment.Assembly
import ClassWeaver.Proofs.Fragment.Continuation
import ClassWeaver.Proofs.Fragment.Lexing

set_option autoImplicit false

/-!
Reading a file again after a new member was put into it. Main statement: the new member is found as a
fragment of its own right in front of the end of the class, and apart from gaps nothing else has
changed, if white space or the class declaration stands in front of the end and no declaration there is
taken for the constant of the new one.
-/

namespace ClassWeaver.Fragment

open Entry (isMistaken isMistaken_constant pushMember_gap)
open Lexeme (code ofSource textOf isBare)
open Segment (gapOf body_gapOf filter_gapOf)

namespace Source

variable {done : List Fragment} {key leading : Key} {text : List Char}

theorem pushMember_of_apart
    (apart : ∀ last ∈ (done.filter (·.key != .gap)).head?, isMistaken last.key key = false)
    (text : String) : pushMember done ⟨key, text⟩ = ⟨key, text⟩ :: done := by
  cases done with
  | nil => cases key <;> rfl
  | cons first rest =>
    by_cases gap : first.key = .gap
    · obtain ⟨_, shown⟩ := first
      obtain rfl := gap
      cases rest with
      | nil => cases key <;> rfl
      | cons second rest =>
        have other : isMistaken second.key key = false := by
          by_cases more : second.key = .gap
          · rw [more]
            rfl
          · exact apart second (by simp [more])
        rw [pushMember_gap, other, if_neg Bool.false_ne_true]
    · exact pushMember_of_key_ne_gap gap rest _

theorem body_of_apart (reads : Reads key leading text)
    (apart : ∀ last ∈ (done.filter (·.key != .gap)).head?, isMistaken last.key leading = false)
    (rest : List Char) :
    body done (ofSource (text ++ rest)) = body (⟨key, String.ofList text⟩ :: done) (ofSource rest) := by
  induction reads generalizing rest with
  | member whole => rw [body_member done whole, pushMember_of_apart apart]
  | @property name leading constant gap field first between second ih =>
    have filled := (Reads.member second).startsFilled rest
    rw [List.append_assoc, List.append_assoc, ih apart, body_gap _ between.filled between.blank filled,
      body_member _ second, pushMember_gap, if_pos (isMistaken_constant name), String.ofList_append,
      String.ofList_append]

theorem body_blanks (done : List Fragment) {gap : List Lexeme}
    (blank : ∀ lexeme ∈ gap, lexeme.isBlank = true) : body done gap = fragments .gap gap ++ done := by
  cases gap with
  | nil => rw [body]; rfl
  | cons lexeme gap =>
    have rest := fun later inside => blank later (List.mem_cons_of_mem lexeme inside)
    rw [body, if_pos (blank lexeme List.mem_cons_self), blanks, afterBlanks,
      List.takeWhile_eq_self_iff.mpr rest, List.dropWhile_eq_nil_iff.mpr rest, body]
    rfl

private theorem reverse_fragments (key : Key) (lexemes : List Lexeme) :
    (fragments key lexemes).reverse = fragments key lexemes := by
  rw [fragments]
  split <;> rfl

/-- The end of a class as it is read: the fragments in front of the last ones, these in reverse, and the
lexemes of the white space in front of the closing brace and of what stands behind it. -/
structure Ends (lexemes : List Lexeme) (front last : List Fragment) (read gap behind : List Lexeme) :
    Prop where
  whole : lexemes = read ++ (gap ++ code '\x7d' :: behind)
  blank : ∀ lexeme ∈ gap, lexeme.isBlank = true
  bare : ∃ first c, isBare c = true ∧ read = first ++ [code c]
  reads : ∀ more, (parseLexemes (read ++ more)).fragments = front ++ (body last more).reverse

section Parsing

variable {source : String} {front behind inner : List Fragment} {declaration : String}
  {opened rest : List Lexeme}
  (opens : Opens (fun lexemes => (parseLexemes lexemes).fragments) (ofSource source.toList) front
    declaration opened rest)
include opens

theorem Opens.fragments_parse : (Store.parse source).fragments =
    front ++ [⟨.classDecl, declaration⟩] ++ (body [] rest).reverse := by
  rw [Store.parse, opens.whole, List.append_assoc]
  exact opens.reads rest

theorem Opens.mem_body (ended : ∃ fragment ∈ (Store.parse source).fragments, fragment.key = .classEnd) :
    ∃ fragment ∈ body [] rest, fragment.key = .classEnd := by
  rw [opens.fragments_parse, List.append_assoc] at ended
  obtain ⟨fragment, found, same⟩ := exists_of_outer rfl opens.outer ended
  rcases List.mem_cons.mp found with rfl | inside
  · cases same
  · exact ⟨fragment, List.mem_reverse.mp inside, same⟩

theorem Opens.find?_classEnd (shown : body [] rest = behind ++ ⟨.classEnd, "\x7d"⟩ :: inner)
    (unended : ∀ fragment ∈ inner, fragment.key ≠ .classEnd) :
    (Store.parse source).find? .classEnd =
      some (front ++ [⟨.classDecl, declaration⟩] ++ inner.reverse, ⟨.classEnd, "\x7d"⟩,
        behind.reverse) := by
  have declared : ∀ fragment ∈ front ++ [⟨.classDecl, declaration⟩], fragment.key ≠ .classEnd := by
    refine List.forall_mem_append.mpr ⟨fun fragment found same => ?_, by simp⟩
    have outer := opens.outer fragment found
    rw [same] at outer
    cases outer
  refine Store.find?_eq_some_iff.mpr ⟨rfl, ?_, rfl, List.forall_mem_append.mpr
    ⟨declared, fun fragment found => unended fragment (List.mem_reverse.mp found)⟩⟩
  rw [opens.fragments_parse, shown]
  simp

end Parsing

theorem exists_ends {source : String} {before after : List Fragment} {ended : Fragment}
    (cut : (Store.parse source).find? .classEnd = some (before, ended, after))
    (closed : ∀ last ∈ before.getLast?, last.key = .gap ∨ last.key = .classDecl) :
    ∃ front last read gap behind, Ends (ofSource source.toList) front last read gap behind ∧
      before = front ++ last.reverse ++ fragments .gap gap ∧ ended = ⟨.classEnd, "\x7d"⟩ ∧
      after = fragments .gap (blanks behind) ++ fragments .unclassified (afterBlanks behind) := by
  obtain ⟨-, whole, same, -⟩ := Store.find?_eq_some_iff.mp cut
  have present : ∃ fragment ∈ (Store.parse source).fragments, fragment.key = .classEnd :=
    ⟨ended, by simp [whole], same⟩
  obtain ⟨front, declaration, opened, rest, opens⟩ := exists_opens present
  rcases exists_closes (by simp) (opens.mem_body present) with ⟨inner, gap, last, behind, closes⟩ |
    ⟨late, member, inner, shown, noGap, noDeclaration, unended⟩
  · have shown : body [] rest = fragments .unclassified (afterBlanks behind)
        ++ fragments .gap (blanks behind)
        ++ ⟨.classEnd, "\x7d"⟩ :: (fragments .gap gap ++ last) := by
      rw [closes.whole, closes.reads, body_stop last closes.blank]
    have unended : ∀ fragment ∈ fragments .gap gap ++ last, fragment.key ≠ .classEnd := by
      refine List.forall_mem_append.mpr ⟨fun fragment found => ?_, closes.unended⟩
      rw [key_of_mem_fragments found]
      decide
    have same := cut.symm.trans (opens.find?_classEnd shown unended)
    rw [List.reverse_append, List.reverse_append, reverse_fragments, reverse_fragments,
      reverse_fragments, ← List.append_assoc] at same
    simp only [Option.some.injEq, Prod.mk.injEq] at same
    refine ⟨front ++ [⟨.classDecl, declaration⟩], last, opened ++ inner, gap, behind,
      ⟨?_, closes.blank, ?_, fun more => ?_⟩, same⟩
    · rw [opens.whole, closes.whole, List.append_assoc]
    · obtain ⟨first, opening⟩ := opens.ends
      rcases closes.ends with rfl | ⟨front, c, closing, rfl⟩
      · exact ⟨first, '\x7b', by decide, by rw [opening, List.append_nil]⟩
      · exact ⟨opened ++ front, c, by rcases closing with rfl | rfl <;> decide, by
          rw [List.append_assoc]⟩
    · rw [List.append_assoc, opens.reads, closes.reads, List.append_assoc]
      rfl
  · have same := cut.symm.trans (opens.find?_classEnd shown unended)
    rw [List.reverse_cons, ← List.append_assoc] at same
    have found : member ∈ before.getLast? := by
      rw [(Prod.mk.inj (Option.some.inj same)).1, List.getLast?_concat, Option.mem_some]
    rcases closed member found with gap | declares
    · exact absurd gap noGap
    · exact absurd declares noDeclaration

theorem isAsciiBlank_of_mem_textOf {gap : List Lexeme} (blank : ∀ lexeme ∈ gap, lexeme.isBlank = true)
    {c : Char} (found : c ∈ textOf gap) : Text.isAsciiBlank c = true := by
  obtain ⟨lexeme, inside, here⟩ := List.mem_flatMap.mp found
  have same := blank lexeme inside
  cases lexeme with
  | code d =>
    rw [List.mem_singleton.mp here]
    exact same
  | comment => cases same
  | literal => cases same

theorem Ends.parse_insertion {source : List Char} {front last : List Fragment}
    {read gap behind : List Lexeme} (ends : Ends (ofSource source) front last read gap behind)
    {indent : List Char} (blank : ∀ c ∈ indent, Text.isAsciiBlank c = true)
    (reads : Reads key leading text)
    (apart : ∀ other ∈ (last.filter (·.key != .gap)).head?, isMistaken other.key leading = false)
    {newlines : List Char} (empty : ∀ c ∈ newlines, Text.isAsciiBlank c = true) :
    (parseLexemes (ofSource (textOf (read ++ gap)
        ++ (indent ++ (text ++ (newlines ++ '\x7d' :: textOf behind)))))).fragments =
      front ++ last.reverse ++ gapOf (textOf gap ++ indent)
        ++ ⟨key, String.ofList text⟩ :: (gapOf newlines ++ ⟨.classEnd, "\x7d"⟩
          :: (fragments .gap (blanks behind) ++ fragments .unclassified (afterBlanks behind))) := by
  obtain ⟨first, c, bare, rfl⟩ := ends.bare
  have whole := ends.whole
  rw [List.append_assoc] at whole
  have scanned (more : List Char) : ofSource (textOf (first ++ [code c]) ++ more) =
      first ++ [code c] ++ ofSource more := by
    rw [Lexeme.textOf_append, List.append_assoc, List.append_assoc]
    exact Lexeme.ofSource_of_cut bare whole more
  have rest : ofSource (textOf behind) = behind := by
    refine @Lexeme.ofSource_textOf source (first ++ [code c] ++ (gap ++ [code '\x7d'])) behind ?_
    rw [ends.whole]
    simp
  have white : ∀ d ∈ textOf gap ++ indent, Text.isAsciiBlank d = true :=
    List.forall_mem_append.mpr ⟨fun _ => isAsciiBlank_of_mem_textOf ends.blank, blank⟩
  have still : ∀ other ∈ ((gapOf (textOf gap ++ indent) ++ last).filter (·.key != .gap)).head?,
      isMistaken other.key leading = false := by
    rw [List.filter_append, filter_gapOf]
    exact apart
  rw [Lexeme.textOf_append, List.append_assoc, scanned, ends.reads, ← List.append_assoc (textOf gap),
    body_gapOf _ white (reads.startsFilled _), body_of_apart reads still, body_gapOf _ empty (by rfl),
    Lexeme.ofSource_cons_of_isBare (by decide), rest, body_brace]
  simp [reverse_fragments, Segment.reverse_gapOf]

end Source

/-- A new member stays apart. Behind white space or the class declaration a new member is found again as
a fragment of its own in front of the end of the class, and apart from gaps the other fragments are the
same as before, if none in front of it is taken for its constant. -/
theorem Store.parse_upsert_new {source : String} {before after : List Fragment} {ended : Fragment}
    (cut : (parse source).find? .classEnd = some (before, ended, after))
    (closed : ∀ last ∈ before.getLast?, last.key = .gap ∨ last.key = .classDecl) {call : Upsert}
    (member : call.key.isMember = true) (stays : call.remove = false)
    (absent : (parse source).get? call.key = none) (readable : call.IsReadable)
    (apart : ∀ last ∈ (before.filter (·.key != .gap)).getLast?,
      isMistaken last.key (Source.leadingKey call.text.toList) = false) :
    (parse ((parse source).upsert call.key call.text call.blank call.remove).2.render).fragments.filter
        (·.key != .gap) =
      before.filter (·.key != .gap)
        ++ ⟨call.key, Text.trimmed call.text⟩ :: ended :: after.filter (·.key != .gap) := by
  obtain ⟨indent, chars, leading, shown, blank, reads⟩ := readable
  obtain ⟨front, last, read, gap, behind, ends, rfl, rfl, rfl⟩ := Source.exists_ends cut closed
  have named : Source.leadingKey call.text.toList = leading := by
    rw [shown, ← List.append_nil chars]
    exact reads.leadingKey blank []
  have trimmed : Text.trimmed call.text = String.ofList chars := by
    rw [Text.trimmed, shown, Text.trim_blanks_append fun c found =>
      Text.isBlank_of_isAsciiBlank (blank c found), Text.trim_of_isTrim reads.isTrim]
  have gaps (lexemes : List Lexeme) :
      (Source.fragments .gap lexemes).filter (·.key != .gap) = [] :=
    List.filter_eq_nil_iff.mpr fun fragment found => by simp [Source.key_of_mem_fragments found]
  have alone : ∀ other ∈ (last.filter (·.key != .gap)).head?,
      isMistaken other.key leading = false := by
    intro other found
    rw [← named]
    refine apart other ?_
    rw [List.filter_append, gaps, List.append_nil, List.filter_append, List.filter_reverse,
      List.getLast?_append, List.getLast?_reverse, Option.mem_def.mp found]
    rfl
  have early : charsOf (front ++ last.reverse ++ Source.fragments .gap gap) = textOf (read ++ gap) := by
    rw [← Source.charsOf_parseLexemes, ends.reads, Source.body_blanks _ ends.blank, List.reverse_append,
      Source.reverse_fragments, List.append_assoc]
  have late : charsOf (Source.fragments .gap (Source.blanks behind)
      ++ Source.fragments .unclassified (Source.afterBlanks behind)) = textOf behind := by
    rw [charsOf_append, Source.charsOf_fragments, Source.charsOf_fragments, ← Lexeme.textOf_append,
      Source.blanks_append_afterBlanks]
  have missing : (parse source).find? call.key = none := Option.map_eq_none_iff.mp absent
  rw [upsert, missing]
  dsimp only
  rw [stays, if_neg Bool.false_ne_true, insert_of_isMember member cut, parse, toList_render]
  have empty : ∀ c ∈ List.replicate call.blank '\n', Text.isAsciiBlank c = true := by
    intro c found
    rw [List.eq_of_mem_replicate found]
    rfl
  have text : charsOf (front ++ last.reverse ++ Source.fragments .gap gap
      ++ [⟨call.key, call.text⟩, blankLines call.blank] ++ ⟨.classEnd, "\x7d"⟩
        :: (Source.fragments .gap (Source.blanks behind)
          ++ Source.fragments .unclassified (Source.afterBlanks behind))) =
      textOf (read ++ gap)
        ++ (indent ++ (chars ++ (List.replicate call.blank '\n' ++ '\x7d' :: textOf behind))) := by
    rw [charsOf_append, charsOf_append, early, charsOf_cons ⟨.classEnd, "\x7d"⟩, late]
    simp [blankLines, shown]
  rw [text, ends.parse_insertion blank reads alone empty, trimmed]
  simp [gaps, filter_gapOf, bne_iff_ne.mpr (Key.ne_gap_of_isIndexed (Key.isIndexed_of_isMember member))]

/-- A comment right in front of the end of a class is taken for the beginning of the new member. -/
example : Store.parse ((Store.parse "class A \x7b\n// last\n\x7d").upsert (.methodOf "f()")
    "  void f();" 2 false).2.render = ⟨[⟨.start, ""⟩, ⟨.classDecl, "class A \x7b"⟩, ⟨.gap, "\n"⟩,
      ⟨.methodOf "f()", "// last\n  void f();"⟩, ⟨.gap, "\n\n"⟩, ⟨.classEnd, "\x7d"⟩]⟩ := by
  decide +kernel

end ClassWeaver.Fragment
