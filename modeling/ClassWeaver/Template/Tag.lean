import ClassWeaver.Template.Basic
import ClassWeaver.Text.Search

set_option autoImplicit false

/-!
The tags of written templates: what stands between double braces.
-/

namespace ClassWeaver.Template

inductive Tag where
  | comment
  | print (source : Expression)
  | openBlock (helper : String) (arguments : List Expression)
  | otherwise
  /-- The alternative of a block is another block that ends with it. -/
  | otherwiseBlock (helper : String) (arguments : List Expression)
  | closeBlock (helper : String)
  | failing
  deriving Repr

structure Mark where
  tag : Tag
  trimsBefore : Bool
  trimsAfter : Bool
  deriving Repr

def isTagBlank (c : Char) : Bool :=
  c == ' ' || c == '\t' || c == '\n' || c == '\r'

def isSymbol (c : Char) : Bool :=
  c.isAlphanum || c == '_' || c == '-' || c == '$' || '\u0080' ≤ c

private def isAtomPart (c : Char) : Bool :=
  isSymbol c || c == '.' || c == '/' || c == '@'

/-- The characters of an atom at the front of a text. Between square brackets there can be any. -/
def splitAtom (inBrackets : Bool) : List Char → List Char × List Char
  | [] => ([], [])
  | c :: rest =>
    if inBrackets || isAtomPart c || c == '[' then
      let (atom, left) := splitAtom (if inBrackets then c != ']' else c == '[') rest
      (c :: atom, left)
    else ([], c :: rest)

theorem length_splitAtom_le (inBrackets : Bool) (text : List Char) :
    (splitAtom inBrackets text).2.length ≤ text.length := by
  fun_induction splitAtom inBrackets text with
  | case1 => exact Nat.le_refl _
  | case2 inBrackets c rest _ atom left found ih =>
    rw [found] at ih
    exact Nat.le_succ_of_le ih
  | case3 => exact Nat.le_refl _

inductive Word where
  | opening
  | closing
  | quoted (content : String)
  | atom (text : List Char)
  deriving DecidableEq, Repr

namespace Word

def ofText? (text : List Char) : Option (List Word) :=
  match text with
  | [] => some []
  | c :: rest =>
    if isTagBlank c then ofText? rest
    else if c == '(' then (ofText? rest).map (opening :: ·)
    else if c == ')' then (ofText? rest).map (closing :: ·)
    else if c == '"' || c == '\'' then
      if rest.contains c then
        (ofText? ((rest.dropWhile (· != c)).drop 1)).map
          (quoted (String.ofList (rest.takeWhile (· != c))) :: ·)
      else none
    else if isAtomPart c || c == '[' then
      (ofText? (splitAtom (c == '[') rest).2).map
        (atom (c :: (splitAtom (c == '[') rest).1) :: ·)
    else none
termination_by text.length
decreasing_by
  all_goals
    have quotedEnd := (List.dropWhile_suffix (l := rest) (· != c)).length_le
    have atomEnd := length_splitAtom_le (c == '[') rest
    simp only [List.length_cons, List.length_drop]
    omega

end Word

def name? (part : List Char) : Option String :=
  match part with
  | '[' :: rest =>
    if rest.getLast? == some ']' then some (String.ofList rest.dropLast) else none
  | _ => if part.isEmpty || ! part.all isSymbol then none else some (String.ofList part)

/-- The parts of a chain between dots and slashes that stand outside of square brackets. -/
def chainParts (inBrackets : Bool) : List Char → List (List Char)
  | [] => [[]]
  | c :: rest =>
    if ! inBrackets && (c == '.' || c == '/') then [] :: chainParts false rest
    else Text.pushFront c (chainParts (if inBrackets then c != ']' else c == '[') rest)

def chain? (text : List Char) : Option (List String) :=
  ((chainParts false text).mapM name?).map (·.filter (· != "this"))

def outwards : List Char → Nat × List Char
  | '.' :: '.' :: '/' :: rest => ((outwards rest).1 + 1, (outwards rest).2)
  | text => (0, text)

private def dropHere : List Char → List Char
  | '.' :: '/' :: rest => dropHere rest
  | text => text

def path? (text : List Char) : Option Path :=
  match text with
  | '@' :: 'r' :: 'o' :: 'o' :: 't' :: [] => some (.fromRoot [])
  | '@' :: 'r' :: 'o' :: 'o' :: 't' :: '.' :: rest => (chain? rest).map .fromRoot
  | '@' :: 'r' :: 'o' :: 'o' :: 't' :: '/' :: rest => (chain? rest).map .fromRoot
  | '@' :: rest =>
    let (levels, rest) := outwards rest
    (name? rest).map (.loopVariable levels)
  | _ =>
    let (levels, rest) := outwards (dropHere text)
    (chain? rest).map (.inScope levels)

private def integer? (text : List Char) : Option Int :=
  match text with
  | '-' :: digits => (Value.position? (String.ofList digits)).map fun value => -(value : Int)
  | digits => (Value.position? (String.ofList digits)).map Int.ofNat

def argument? (text : List Char) : Option Expression :=
  match String.ofList text with
  | "true" => some (.literal (.truth true))
  | "false" => some (.literal (.truth false))
  | "null" => some (.literal .null)
  | _ =>
    match integer? text with
    | some value => some (.literal (.number value))
    | none => (path? text).map .path

def symbol? (text : List Char) : Option String :=
  if text.isEmpty || ! text.all isSymbol then none else some (String.ofList text)

/-- A call that has not been closed yet: what comes before it, its function, and its arguments so
far in reverse order. -/
structure Pending where
  before : List Expression
  function : String

/-- Reads arguments, where `found` are those found so far in reverse order. -/
def arguments? (pending : List Pending) (found : List Expression) :
    List Word → Option (List Expression)
  | [] => if pending.isEmpty then some found.reverse else none
  | .quoted content :: rest => arguments? pending (.literal (.text content) :: found) rest
  | .atom text :: rest =>
    (argument? text).bind fun value => arguments? pending (value :: found) rest
  | .opening :: .atom text :: rest =>
    (symbol? text).bind fun function => arguments? (⟨found, function⟩ :: pending) [] rest
  | .opening :: _ => none
  | .closing :: rest =>
    match pending with
    | [] => none
    | call :: pending =>
      arguments? pending (.call call.function found.reverse :: call.before) rest

/-- The functions and helpers, which are no variables even if nothing follows them. -/
def reservedNames : List String :=
  ["if", "unless", "each", "with", "lookup", "raw", "log", "eq", "ne", "gt", "gte", "lt", "lte",
    "and", "or", "not", "len"]

def print? (words : List Word) : Option Tag :=
  match words with
  | [.atom text] =>
    (path? text).map fun place =>
      let name := String.ofList text
      .print (if reservedNames.contains name then .call name [] else .path place)
  | .atom text :: arguments =>
    (symbol? text).bind fun function =>
      (arguments? [] [] arguments).map fun found => .print (.call function found)
  | .opening :: _ =>
    match arguments? [] [] words with
    | some [source] => some (.print source)
    | _ => none
  | _ => none

def helper? (make : String → List Expression → Tag) (words : List Word) : Option Tag :=
  match words with
  | .atom text :: arguments =>
    (symbol? text).bind fun helper => (arguments? [] [] arguments).map (make helper)
  | _ => none

private def otherwiseOf? (words : List Word) : Option Tag :=
  if words.isEmpty then some .otherwise else helper? .otherwiseBlock words

def Tag.ofContent? (content : List Char) : Option Tag :=
  match Text.dropWhileEnd isTagBlank (content.dropWhile isTagBlank) with
  | '!' :: _ => some .comment
  | '&' :: rest => (Word.ofText? rest).bind print?
  | '#' :: rest => (Word.ofText? rest).bind (helper? .openBlock)
  | '/' :: rest =>
    match Word.ofText? rest with
    | some [.atom text] => (symbol? text).map .closeBlock
    | _ => none
  | '^' :: rest => (Word.ofText? rest).bind otherwiseOf?
  | '>' :: _ => some .failing
  | '*' :: _ => some .failing
  | '\x7b' :: rest =>
    if rest.getLast? == some '\x7d' then (Word.ofText? rest.dropLast).bind print? else none
  | content =>
    (Word.ofText? content).bind fun words =>
      match words with
      | .atom ['e', 'l', 's', 'e'] :: rest => otherwiseOf? rest
      | _ => print? words

/-- Reads a tag with the signs that take away white space. A brace in front belongs to a third brace
behind that is not part of the content any more. -/
def Mark.ofContent? (content : List Char) : Option Mark :=
  let isBraced := content.head? == some '\x7b'
  let content := if isBraced then content.drop 1 else content
  let trimsBefore := content.head? == some '~'
  let content := if trimsBefore then content.drop 1 else content
  let trimsAfter := content.getLast? == some '~'
  let content := if trimsAfter then content.dropLast else content
  let tag := if isBraced then (Word.ofText? content).bind print? else Tag.ofContent? content
  tag.map (⟨·, trimsBefore, trimsAfter⟩)

private def isLongComment (text : List Char) : Bool :=
  let text := if text.head? == some '~' then text.drop 1 else text
  (text.dropWhile isTagBlank).take 3 == ['!', '-', '-']

private def endings (text : List Char) : List (List Char) :=
  if text.head? == some '\x7b' then ["\x7d\x7d\x7d".toList]
  else if isLongComment text then ["--\x7d\x7d".toList, "--~\x7d\x7d".toList, "\x7d\x7d".toList]
  else ["\x7d\x7d".toList]

/-- Cuts a text after the tag in front, whose opening braces are gone already. -/
def splitTag? (text : List Char) : Option (Mark × List Char) :=
  (endings text).findSome? fun ending =>
    (Text.splitBefore? ending text).bind fun (content, rest) =>
      (Mark.ofContent? content).map (·, rest.drop ending.length)

theorem length_of_splitTag? {text rest : List Char} {mark : Mark}
    (cut : splitTag? text = some (mark, rest)) : rest.length ≤ text.length := by
  obtain ⟨_, ending, _, _, found, _⟩ := List.findSome?_eq_some_iff.1 cut
  obtain ⟨⟨content, tail⟩, inner, made⟩ := Option.bind_eq_some_iff.1 found
  obtain ⟨_, _, same⟩ := Option.map_eq_some_iff.1 made
  have whole := congrArg List.length (Text.append_of_splitBefore? inner)
  simp only [Prod.mk.injEq] at same
  rw [← same.2, List.length_drop]
  simp only [List.length_append] at whole
  omega

end ClassWeaver.Template
