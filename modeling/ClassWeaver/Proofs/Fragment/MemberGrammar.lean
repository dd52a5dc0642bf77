import ClassWeaver.Proofs.Fragment.Scan

set_option autoImplicit false

/-!
A grammar of members: what their texts are made of, apart from how they are read. Main statement: a
text of the grammar is read as one member, whatever comes after it.
-/

namespace ClassWeaver.Fragment

namespace Grammar

/-- The rest of a literal up to its quote. A backslash hides the next character, and what is not hidden
stays in one line. -/
inductive Quoted (quote : Char) : List Char → Prop where
  | close : Quoted quote [quote]
  | escape {c : Char} {rest : List Char} (later : Quoted quote rest) :
      Quoted quote ('\\' :: c :: rest)
  | plain {c : Char} {rest : List Char} (inside : c ≠ quote) (bare : c ≠ '\\') (inLine : c ≠ '\n')
      (later : Quoted quote rest) : Quoted quote (c :: rest)

/-- A closed comment or literal in front of a text. A literal does not begin with three double quotes.
-/
inductive Skipped : List Char → List Char → Prop where
  | lineComment {text rest : List Char} (inLine : '\n' ∉ text) :
      Skipped ('/' :: '/' :: text ++ ['\n']) rest
  | blockComment {text rest : List Char} (inside : ¬ ['*', '/'] <:+: text) :
      Skipped ('/' :: '*' :: text ++ ['*', '/']) rest
  | literal {quote : Char} {text rest : List Char} (mark : quote = '"' ∨ quote = '\'')
      (closed : Quoted quote text) (short : ¬ ['"', '"', '"'] <+: quote :: text ++ rest) :
      Skipped (quote :: text) rest

/-- A character that begins neither a literal nor, with what follows it, a comment. -/
structure IsPlain (c : Char) (rest : List Char) : Prop where
  noDouble : c ≠ '"'
  noSingle : c ≠ '\''
  noComment : c = '/' → ∀ d ∈ rest.head?, d ≠ '/' ∧ d ≠ '*'

/-- A text in which brackets are balanced outside of its comments and literals. -/
inductive Balanced (opening closing : Char) : List Char → Prop where
  | nil : Balanced opening closing []
  | plain {c : Char} {rest : List Char} (other : c ≠ opening ∧ c ≠ closing) (plain : IsPlain c rest)
      (later : Balanced opening closing rest) : Balanced opening closing (c :: rest)
  | skip {text rest : List Char} (skipped : Skipped text rest)
      (later : Balanced opening closing rest) : Balanced opening closing (text ++ rest)
  | group {inner rest : List Char} (within : Balanced opening closing inner)
      (later : Balanced opening closing rest) :
      Balanced opening closing (opening :: inner ++ closing :: rest)

/-- What stands in front of the body, the initializer or the semicolon of a member, or in its
initializer, where there may be equals signs and blocks. -/
inductive Run (initializer : Bool) : List Char → Prop where
  | nil : Run initializer []
  | plain {c : Char} {rest : List Char} (other : c ∉ ['\x7b', '\x7d', '(', ')', ';'])
      (equals : c = '=' → initializer = true) (plain : IsPlain c rest)
      (later : Run initializer rest) : Run initializer (c :: rest)
  | skip {text rest : List Char} (skipped : Skipped text rest) (later : Run initializer rest) :
      Run initializer (text ++ rest)
  | parens {inner rest : List Char} (within : Balanced '(' ')' inner) (later : Run initializer rest) :
      Run initializer ('(' :: inner ++ ')' :: rest)
  | block {inner rest : List Char} (allowed : initializer = true)
      (within : Balanced '\x7b' '\x7d' inner) (later : Run initializer rest) :
      Run initializer ('\x7b' :: inner ++ '\x7d' :: rest)

/-- A member without white space in front: a head with a semicolon, a block, or an initializer. -/
inductive MemberText : List Char → Prop where
  | declared {head : List Char} (run : Run false head) : MemberText (head ++ [';'])
  | withBody {head body : List Char} (run : Run false head)
      (balanced : Balanced '\x7b' '\x7d' body) : MemberText (head ++ '\x7b' :: body ++ ['\x7d'])
  | initialized {head value : List Char} (run : Run false head) (given : Run true value) :
      MemberText (head ++ '=' :: value ++ [';'])

def isOrdinary (c : Char) : Bool :=
  ! ['\x7b', '\x7d', '(', ')', ';', '=', '/', '"', '\''].contains c

theorem isPlain_of_isOrdinary {c : Char} (ordinary : isOrdinary c = true) (rest : List Char) :
    IsPlain c rest := by
  simp only [isOrdinary, List.contains_cons, List.contains_nil, Bool.or_false, Bool.not_eq_true',
    Bool.or_eq_false_iff, beq_eq_false_iff_ne] at ordinary
  exact ⟨ordinary.2.2.2.2.2.2.2.1, ordinary.2.2.2.2.2.2.2.2,
    fun slash => absurd slash ordinary.2.2.2.2.2.2.1⟩

theorem Run.ordinary {initializer : Bool} {text rest : List Char}
    (ordinary : ∀ c ∈ text, isOrdinary c = true) (run : Run initializer rest) :
    Run initializer (text ++ rest) := by
  induction text with
  | nil => exact run
  | cons c text ih =>
    have here := ordinary c List.mem_cons_self
    have later := ih fun d found => ordinary d (List.mem_cons_of_mem c found)
    have plain := isPlain_of_isOrdinary here (text ++ rest)
    simp only [isOrdinary, List.contains_cons, List.contains_nil, Bool.or_false, Bool.not_eq_true',
      Bool.or_eq_false_iff, beq_eq_false_iff_ne] at here
    exact .plain (by simp [here]) (fun equals => absurd equals here.2.2.2.2.2.1) plain later

end Grammar

namespace Source

open Grammar
open Lexeme (code ofSource splitQuoted isBare)

def leftOver (progress : Progress) (source : List Char) : List Lexeme :=
  (splitMember progress (ofSource source)).2

theorem leftOver_cons {progress : Progress} {c : Char} {rest more : List Char} {lexeme : Lexeme}
    (first : Lexeme.split c rest = (lexeme, more)) (before : progress.endsBefore lexeme = false)
    (after : progress.endsAfter lexeme = false) :
    leftOver progress (c :: rest) = leftOver (progress.after lexeme) more := by
  rw [leftOver, ofSource, first, splitMember, before, after]
  rfl

/-- Characters that cannot change what the text before them is. -/
def Follows (rest : List Char) : Prop :=
  ∀ c ∈ rest.head?, c ≠ '/' ∧ c ≠ '*' ∧ c ≠ '"'

theorem head?_append {a b : List Char} {d : Char} (found : d ∈ (a ++ b).head?) :
    d ∈ a.head? ∨ a = [] ∧ d ∈ b.head? := by
  cases a with
  | nil => exact .inr ⟨rfl, found⟩
  | cons c a => exact .inl found

theorem split_of_isPlain {c : Char} {rest : List Char} (plain : IsPlain c rest) {more : List Char}
    (follows : Follows more) : Lexeme.split c (rest ++ more) = (code c, rest ++ more) := by
  by_cases slash : c = '/'
  · have next : ∀ d ∈ (rest ++ more).head?, d ≠ '/' ∧ d ≠ '*' := by
      intro d found
      rcases head?_append found with inside | ⟨-, outside⟩
      · exact plain.noComment slash d inside
      · exact ⟨(follows d outside).1, (follows d outside).2.1⟩
    subst slash
    unfold Lexeme.split
    split
    · simp_all
    · simp_all
    · simp_all
    · rw [if_neg (by decide)]
  · exact Lexeme.split_of_isBare (by simp [isBare, slash, plain.noDouble, plain.noSingle]) _

theorem splitQuoted_of_quoted {quote : Char} {text : List Char} (closed : Quoted quote text)
    (mark : quote = '"' ∨ quote = '\'') (rest : List Char) :
    splitQuoted quote (text ++ rest) = (text, rest) := by
  have bare : quote ≠ '\\' ∧ quote ≠ '\n' := by
    rcases mark with rfl | rfl <;> decide
  induction closed with
  | close => rw [List.singleton_append, Mode.splitQuoted_cons bare.2 bare.1]; simp
  | escape later ih => simp [splitQuoted, ih]
  | plain inside backslash inLine later ih =>
    rw [List.cons_append, Mode.splitQuoted_cons inLine backslash, ih]
    simp [inside]

theorem splitClosed_append {text : List Char} (inside : ¬ ['*', '/'] <:+: text) (rest : List Char) :
    Lexeme.splitClosed ['*', '/'] (text ++ '*' :: '/' :: rest) = (text ++ ['*', '/'], rest) := by
  have cut : Text.splitBefore? ['*', '/'] (text ++ '*' :: '/' :: rest) =
      some (text, '*' :: '/' :: rest) := by
    induction text with
    | nil => simp [Text.splitBefore?]
    | cons c text ih =>
      have later : ¬ ['*', '/'] <:+: text := fun found =>
        inside (found.trans (List.suffix_cons c text).isInfix)
      have here : ['*', '/'].isPrefixOf (c :: (text ++ '*' :: '/' :: rest)) = false := by
        rw [Bool.eq_false_iff, ne_eq, List.isPrefixOf_iff_prefix]
        intro found
        obtain ⟨rfl, next⟩ := List.cons_prefix_cons.mp found
        cases text with
        | nil => simp at next
        | cons d text =>
          obtain ⟨rfl, -⟩ := List.cons_prefix_cons.mp next
          exact inside ⟨[], text, rfl⟩
      rw [List.cons_append, Text.splitBefore?, here, if_neg Bool.false_ne_true, ih later]
      rfl
  simp [Lexeme.splitClosed, Text.splitAfter?, cut]

private theorem not_prefix_append {quote : Char} {text rest more : List Char}
    (short : ¬ ['"', '"', '"'] <+: quote :: text ++ rest) (follows : Follows more) :
    ¬ ['"', '"', '"'] <+: quote :: (text ++ (rest ++ more)) := by
  intro found
  have whole : quote :: (text ++ (rest ++ more)) = (quote :: text ++ rest) ++ more := by simp
  rw [whole] at found
  rcases List.prefix_or_prefix_of_prefix found (List.prefix_append _ more) with inside | ⟨b, outside⟩
  · exact short inside
  · rw [← outside, List.prefix_append_right_inj] at found
    cases b with
    | nil =>
      rw [List.append_nil] at outside
      exact short (outside ▸ List.prefix_refl _)
    | cons d b =>
      have listed : d ∈ ['"', '"', '"'] := by
        rw [← outside]
        exact List.mem_append_right _ List.mem_cons_self
      obtain ⟨rest, rfl⟩ := found
      exact (follows d rfl).2.2 (by simpa using listed)

theorem after_comment (progress : Progress) (text : List Char) :
    progress.after (.comment text) = progress := by
  obtain ⟨parens, braces, initialized⟩ := progress
  cases braces with
  | zero => simp [Progress.after, parensAfter]
  | succ braces => simp [Progress.after]

theorem leftOver_skipped {text rest more : List Char} (skipped : Skipped text rest)
    (follows : Follows more) (progress : Progress) :
    leftOver progress (text ++ (rest ++ more)) = leftOver progress (rest ++ more) := by
  cases skipped with
  | @lineComment text _ inLine =>
    have apart : ∀ c ∈ text, (c != '\n') = true := fun c found =>
      bne_iff_ne.mpr fun same => inLine (same ▸ found)
    have first : Lexeme.split '/' ('/' :: text ++ ['\n'] ++ (rest ++ more)) =
        (.comment ('/' :: '/' :: text), '\n' :: (rest ++ more)) := by
      simp [Lexeme.split, List.takeWhile_append_of_pos apart, List.dropWhile_append_of_pos apart]
    have newline : progress.after (code '\n') = progress := by
      obtain ⟨parens, braces, initialized⟩ := progress
      cases braces with
      | zero => simp [Progress.after, parensAfter]
      | succ braces => simp [Progress.after]
    refine (leftOver_cons first (by simp [Progress.endsBefore]) (by simp [Progress.endsAfter])).trans ?_
    rw [after_comment, leftOver_cons (Lexeme.split_of_isBare (by decide) _)
      (by simp [Progress.endsBefore]) (by simp [Progress.endsAfter]), newline]
  | @blockComment text _ inside =>
    have first : Lexeme.split '/' ('*' :: text ++ ['*', '/'] ++ (rest ++ more)) =
        (.comment ('/' :: '*' :: text ++ ['*', '/']), rest ++ more) := by
      have closed := splitClosed_append inside (rest ++ more)
      simp [Lexeme.split, closed]
    refine (leftOver_cons first (by simp [Progress.endsBefore]) (by simp [Progress.endsAfter])).trans ?_
    rw [after_comment]
  | @literal quote text _ mark closed short =>
    have first : Lexeme.split quote (text ++ (rest ++ more)) =
        (.literal (quote :: text), rest ++ more) := by
      rw [Lexeme.split_of_quote mark (not_prefix_append short follows),
        splitQuoted_of_quoted closed mark]
    refine (leftOver_cons first (by simp [Progress.endsBefore]) (by simp [Progress.endsAfter])).trans ?_
    rw [Progress.after_literal]

/-- A character of code takes the progress from one to another and does not end the member. -/
structure Progress.Steps (progress : Progress) (c : Char) (next : Progress) : Prop where
  before : progress.endsBefore (code c) = false
  after : progress.endsAfter (code c) = false
  next : progress.after (code c) = next

theorem leftOver_plain {progress next : Progress} {c : Char} {rest more : List Char}
    (steps : progress.Steps c next) (plain : IsPlain c rest) (follows : Follows more) :
    leftOver progress (c :: (rest ++ more)) = leftOver next (rest ++ more) := by
  rw [leftOver_cons (split_of_isPlain plain follows) steps.before steps.after, steps.next]

theorem leftOver_bare {progress next : Progress} {c : Char} (steps : progress.Steps c next)
    (bare : isBare c = true) (rest : List Char) :
    leftOver progress (c :: rest) = leftOver next rest := by
  rw [leftOver_cons (Lexeme.split_of_isBare bare rest) steps.before steps.after, steps.next]

theorem follows_of_isBare {c : Char} (bare : isBare c = true) (star : c ≠ '*') (rest : List Char) :
    Follows (c :: rest) := by
  intro d found
  obtain rfl : c = d := by simpa using found
  simp only [isBare, Bool.and_eq_true, bne_iff_ne, ne_eq] at bare
  exact ⟨bare.1.1, star, bare.1.2⟩

/-- Brackets that are counted while a member is read: at each depth, other characters mean nothing. -/
structure Brackets (opening closing : Char) (nested : Nat → Progress) : Prop where
  bareOpening : isBare opening = true
  bareClosing : isBare closing = true
  noStar : closing ≠ '*'
  quiet : ∀ depth c, c ≠ opening → c ≠ closing → (nested depth).Steps c (nested depth)
  opens : ∀ depth, (nested depth).Steps opening (nested (depth + 1))
  closes : ∀ depth, (nested (depth + 1)).Steps closing (nested depth)

theorem brackets_parens (initialized : Bool) :
    Brackets '(' ')' fun depth => ⟨depth + 1, 0, initialized⟩ := by
  have open_ (depth : Nat) : ((depth : Int) + 1 == 0) = false := by
    rw [beq_eq_false_iff_ne]
    omega
  refine ⟨by decide, by decide, by decide, fun depth c opening closing => ⟨?_, ?_, ?_⟩,
    fun depth => ⟨?_, ?_, ?_⟩, fun depth => ⟨?_, ?_, ?_⟩⟩ <;>
    simp [Progress.endsBefore, Progress.endsAfter, Progress.after, Progress.isTop, parensAfter, *]

theorem brackets_braces (initialized : Bool) :
    Brackets '\x7b' '\x7d' fun depth => ⟨0, depth + 1, initialized⟩ := by
  refine ⟨by decide, by decide, by decide, fun depth c opening closing => ⟨?_, ?_, ?_⟩,
    fun depth => ⟨?_, ?_, ?_⟩, fun depth => ⟨?_, ?_, ?_⟩⟩ <;>
    simp [Progress.endsBefore, Progress.endsAfter, Progress.after, Progress.isTop, *]

theorem leftOver_balanced {opening closing : Char} {nested : Nat → Progress}
    (brackets : Brackets opening closing nested) {text : List Char}
    (balanced : Balanced opening closing text) (depth : Nat) {more : List Char}
    (follows : Follows more) :
    leftOver (nested depth) (text ++ more) = leftOver (nested depth) more := by
  induction balanced generalizing depth more with
  | nil => rfl
  | plain other plain later ih =>
    rw [List.cons_append, leftOver_plain (brackets.quiet depth _ other.1 other.2) plain follows,
      ih depth follows]
  | skip skipped later ih =>
    rw [List.append_assoc, leftOver_skipped skipped follows, ih depth follows]
  | @group inner rest within later ihWithin ihLater =>
    have closed := follows_of_isBare brackets.bareClosing brackets.noStar (rest ++ more)
    calc leftOver (nested depth) (opening :: inner ++ closing :: rest ++ more)
      _ = leftOver (nested depth) (opening :: (inner ++ closing :: (rest ++ more))) := by simp
      _ = leftOver (nested (depth + 1)) (inner ++ closing :: (rest ++ more)) :=
          leftOver_bare (brackets.opens depth) brackets.bareOpening _
      _ = leftOver (nested (depth + 1)) (closing :: (rest ++ more)) := ihWithin (depth + 1) closed
      _ = leftOver (nested depth) (rest ++ more) :=
          leftOver_bare (brackets.closes depth) brackets.bareClosing _
      _ = leftOver (nested depth) more := ihLater depth follows

/-- Outside of parentheses and blocks, in front of an initializer or in it. -/
def Progress.top (initialized : Bool) : Progress :=
  ⟨0, 0, initialized⟩

theorem leftOver_last {progress : Progress} {c : Char} (bare : isBare c = true)
    (before : progress.endsBefore (code c) = false) (after : progress.endsAfter (code c) = true)
    (rest : List Char) : leftOver progress (c :: rest) = ofSource rest := by
  rw [leftOver, Lexeme.ofSource_cons_of_isBare bare, splitMember, before, after]
  rfl

theorem leftOver_run {initializer : Bool} {text : List Char} (run : Run initializer text)
    {more : List Char} (follows : Follows more) :
    leftOver (.top initializer) (text ++ more) = leftOver (.top initializer) more := by
  induction run with
  | nil => rfl
  | @plain c rest other equals plain later ih =>
    have steps : (Progress.top initializer).Steps c (.top initializer) := by
      simp only [List.mem_cons, List.not_mem_nil, or_false, not_or] at other
      refine ⟨?_, ?_, ?_⟩
      · simp [Progress.endsBefore, other]
      · simp [Progress.endsAfter, other]
      · by_cases assigned : c = '='
        · simp [Progress.after, Progress.top, parensAfter, Progress.isTop, assigned, equals assigned]
        · simp [Progress.after, Progress.top, parensAfter, other, assigned]
    rw [List.cons_append, leftOver_plain steps plain follows, ih]
  | skip skipped later ih => rw [List.append_assoc, leftOver_skipped skipped follows, ih]
  | @parens inner rest within later ih =>
    have brackets := brackets_parens initializer
    have opens : (Progress.top initializer).Steps '(' ⟨(0 : Nat) + 1, 0, initializer⟩ :=
      ⟨rfl, rfl, by cases initializer <;> rfl⟩
    have closes : (Progress.mk ((0 : Nat) + 1) 0 initializer).Steps ')' (.top initializer) :=
      ⟨rfl, rfl, by cases initializer <;> rfl⟩
    have closed := follows_of_isBare brackets.bareClosing brackets.noStar (rest ++ more)
    rw [List.append_assoc, List.cons_append, List.cons_append, leftOver_bare opens (by decide),
      leftOver_balanced brackets within 0 closed, leftOver_bare closes (by decide), ih]
  | @block inner rest allowed within later ih =>
    subst allowed
    have brackets := brackets_braces true
    have opens : (Progress.top true).Steps '\x7b' ⟨0, 0 + 1, true⟩ := ⟨rfl, rfl, rfl⟩
    have closes : (Progress.mk 0 (0 + 1) true).Steps '\x7d' (.top true) := ⟨rfl, rfl, rfl⟩
    have closed := follows_of_isBare brackets.bareClosing brackets.noStar (rest ++ more)
    rw [List.append_assoc, List.cons_append, List.cons_append, leftOver_bare opens (by decide),
      leftOver_balanced brackets within 0 closed, leftOver_bare closes (by decide), ih]

/-- A text of the grammar is read as one member, whatever comes after it. -/
theorem leftOver_memberText {text : List Char} (member : MemberText text) (rest : List Char) :
    leftOver .start (text ++ rest) = ofSource rest := by
  have top : Progress.start = .top false := rfl
  cases member with
  | declared run =>
    have ended := follows_of_isBare (c := ';') (by decide) (by decide) rest
    rw [List.append_assoc, List.singleton_append, top, leftOver_run run ended,
      leftOver_last (by decide) rfl rfl]
  | @withBody head body run balanced =>
    have begun := follows_of_isBare (c := '\x7b') (by decide) (by decide) (body ++ '\x7d' :: rest)
    have ended := follows_of_isBare (c := '\x7d') (by decide) (by decide) rest
    have opens : (Progress.top false).Steps '\x7b' ⟨0, 0 + 1, false⟩ := ⟨rfl, rfl, rfl⟩
    calc leftOver .start (head ++ '\x7b' :: body ++ ['\x7d'] ++ rest)
      _ = leftOver (.top false) (head ++ '\x7b' :: (body ++ '\x7d' :: rest)) := by simp [top]
      _ = leftOver (.top false) ('\x7b' :: (body ++ '\x7d' :: rest)) := leftOver_run run begun
      _ = leftOver ⟨0, 0 + 1, false⟩ (body ++ '\x7d' :: rest) := leftOver_bare opens (by decide) _
      _ = leftOver ⟨0, 0 + 1, false⟩ ('\x7d' :: rest) :=
          leftOver_balanced (brackets_braces false) balanced 0 ended
      _ = ofSource rest := leftOver_last (by decide) rfl rfl rest
  | @initialized head value run given =>
    have begun := follows_of_isBare (c := '=') (by decide) (by decide) (value ++ ';' :: rest)
    have ended := follows_of_isBare (c := ';') (by decide) (by decide) rest
    have assigns : (Progress.top false).Steps '=' (.top true) := ⟨rfl, rfl, rfl⟩
    calc leftOver .start (head ++ '=' :: value ++ [';'] ++ rest)
      _ = leftOver (.top false) (head ++ '=' :: (value ++ ';' :: rest)) := by simp [top]
      _ = leftOver (.top false) ('=' :: (value ++ ';' :: rest)) := leftOver_run run begun
      _ = leftOver (.top true) (value ++ ';' :: rest) := leftOver_bare assigns (by decide) _
      _ = leftOver (.top true) (';' :: rest) := leftOver_run given ended
      _ = ofSource rest := leftOver_last (by decide) rfl rfl rest

end Source

end ClassWeaver.Fragment
