import ClassWeaver.Text.Blank
import ClassWeaver.Text.Search

set_option autoImplicit false

/-!
Lexemes of a source text: comments, literals and single characters, so that braces and semicolons
inside comments and literals cannot be taken for structure. Main statement: the texts of the lexemes
joined together are the source.
-/

namespace ClassWeaver.Fragment

/-- A comment, a literal or a character of code. -/
inductive Lexeme where
  | code (c : Char)
  | comment (text : List Char)
  | literal (text : List Char)
  deriving DecidableEq, Repr

namespace Lexeme

def text : Lexeme → List Char
  | code c => [c]
  | comment text => text
  | literal text => text

def isBlank : Lexeme → Bool
  | code c => Text.isAsciiBlank c
  | _ => false

def textOf (lexemes : List Lexeme) : List Char :=
  lexemes.flatMap text

def stringOf (lexemes : List Lexeme) : String :=
  String.ofList (textOf lexemes)

@[simp] theorem textOf_nil : textOf [] = [] := rfl

@[simp] theorem textOf_cons (lexeme : Lexeme) (rest : List Lexeme) :
    textOf (lexeme :: rest) = lexeme.text ++ textOf rest := rfl

@[simp] theorem textOf_append (a b : List Lexeme) : textOf (a ++ b) = textOf a ++ textOf b :=
  List.flatMap_append

@[simp] theorem toList_stringOf (lexemes : List Lexeme) :
    (stringOf lexemes).toList = textOf lexemes :=
  String.toList_ofList

/-- Cuts after the quote that closes a literal. A backslash hides the next character; the end of the
line ends the literal. -/
def splitQuoted (quote : Char) : List Char → List Char × List Char
  | [] => ([], [])
  | '\\' :: [] => (['\\'], [])
  | '\\' :: c :: rest =>
    let (inside, rest) := splitQuoted quote rest
    ('\\' :: c :: inside, rest)
  | c :: rest =>
    if c == '\n' then ([], c :: rest)
    else if c == quote then ([c], rest)
    else
      let (inside, rest) := splitQuoted quote rest
      (c :: inside, rest)

theorem append_splitQuoted (quote : Char) (text : List Char) :
    (splitQuoted quote text).1 ++ (splitQuoted quote text).2 = text := by
  fun_induction splitQuoted quote text <;> simp_all

/-- Cuts after the first occurrence of a closing mark, or at the end of the text. -/
def splitClosed (mark text : List Char) : List Char × List Char :=
  (Text.splitAfter? mark text).getD (text, [])

theorem append_splitClosed (mark text : List Char) :
    (splitClosed mark text).1 ++ (splitClosed mark text).2 = text := by
  unfold splitClosed
  cases cut : Text.splitAfter? mark text with
  | none => simp
  | some parts => simpa using Text.append_of_splitAfter? cut

/-- The lexeme at the front of the text `c :: rest` and what comes after it. -/
def split (c : Char) (rest : List Char) : Lexeme × List Char :=
  match c, rest with
  | '/', '/' :: rest =>
    (comment ('/' :: '/' :: rest.takeWhile (· != '\n')), rest.dropWhile (· != '\n'))
  | '/', '*' :: rest =>
    let (inside, rest) := splitClosed ['*', '/'] rest
    (comment ('/' :: '*' :: inside), rest)
  | '"', '"' :: '"' :: rest =>
    let (inside, rest) := splitClosed ['"', '"', '"'] rest
    (literal ('"' :: '"' :: '"' :: inside), rest)
  | c, rest =>
    if c == '"' || c == '\'' then
      let (inside, rest) := splitQuoted c rest
      (literal (c :: inside), rest)
    else (code c, rest)

theorem append_split (c : Char) (rest : List Char) :
    (split c rest).1.text ++ (split c rest).2 = c :: rest := by
  unfold split
  split
  · simp [text]
  · simp [text, append_splitClosed]
  · simp [text, append_splitClosed]
  · split <;> simp [text, append_splitQuoted]

private theorem text_ne_nil_of_split (c : Char) (rest : List Char) :
    (split c rest).1.text ≠ [] := by
  unfold split
  split
  · simp [text]
  · simp [text]
  · simp [text]
  · split <;> simp [text]

theorem length_split_lt (c : Char) (rest : List Char) :
    (split c rest).2.length < (c :: rest).length := by
  have whole := congrArg List.length (append_split c rest)
  have first := List.length_pos_iff.2 (text_ne_nil_of_split c rest)
  simp only [List.length_append] at whole
  omega

def ofSource : List Char → List Lexeme
  | [] => []
  | c :: rest => (split c rest).1 :: ofSource (split c rest).2
termination_by source => source.length
decreasing_by exact length_split_lt c rest

theorem textOf_ofSource (source : List Char) : textOf (ofSource source) = source := by
  fun_induction ofSource source with
  | case1 => rfl
  | case2 c rest ih => rw [textOf_cons, ih, append_split]

end Lexeme

end ClassWeaver.Fragment
