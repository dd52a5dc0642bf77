import ClassWeaver.Yaml.Resolution
import ClassWeaver.Yaml.Character

set_option autoImplicit false

/-!
The written form of scalars. A text is written plainly if that reads back as the same text, with its
lines one below the other if it has several, and in quotes otherwise.
-/

namespace ClassWeaver.Yaml.ScalarWriting

inductive Style where
  | plain
  | singleQuoted
  | doubleQuoted
  | literal
  deriving DecidableEq, Repr

/-- Says whether a character that satisfies `p` stands in front of one that satisfies `q`. -/
def hasPair (p q : Char → Bool) : List Char → Bool
  | c :: d :: rest => p c && q d || hasPair p q (d :: rest)
  | _ => false

def isSpace (c : Char) : Bool :=
  c == ' '

def needsEscapes (text : List Char) : Bool :=
  text.any fun c => ! (isPlainlyWritten c)

def hasSpaceAtLineEnd : List Char → Bool :=
  hasPair isSpace isBreak

def hasColonAtGap : List Char → Bool
  | [] => false
  | c :: rest => c == ':' && atGap rest || hasColonAtGap rest

/-- Characters that mean something else at the beginning of a plain scalar. -/
def isIndicator (c : Char) : Bool :=
  c == Char.ofNat 96 || "#,[]\x7b\x7d&*!|>'\"%@".toList.contains c

/-- Says whether a text would be read as something else because of its first characters. -/
def startsAsOther : List Char → Bool
  | [] => false
  | c :: rest =>
    isIndicator c || (c == '-' || c == '?') && atGap rest
      || (c == '-' || c == '.') && rest.take 2 == [c, c]

def fitsPlain (text : List Char) : Bool :=
  ! (needsEscapes text || text.any isBreak || text.head?.any isSpace || text.getLast?.any isSpace
    || startsAsOther text || hasColonAtGap text || hasPair isGap (· == '#') text)

def fitsSingleQuotes (text : List Char) : Bool :=
  ! (needsEscapes text || hasSpaceAtLineEnd text || hasPair isBreak isSpace text)

def fitsLiteral (text : List Char) : Bool :=
  ! (needsEscapes text || hasSpaceAtLineEnd text || text.getLast?.any isSpace)

def styleOf (text : List Char) : Style :=
  if text.contains '\n' then if fitsLiteral text then .literal else .doubleQuoted
  else if ! Resolution.isAmbiguous text && fitsPlain text then .plain
  else if fitsSingleQuotes text then .singleQuoted
  else .doubleQuoted

def indentAfterBreaks (indent : Nat) (broken : Bool) : List Char → List Char
  | [] => []
  | c :: rest =>
    if isBreak c then c :: indentAfterBreaks indent true rest
    else
      (if broken then List.replicate indent ' ' else [])
        ++ c :: indentAfterBreaks indent false rest

def singleQuoted (indent : Nat) (text : List Char) : List Char :=
  let doubled := text.flatMap fun c => if c == '\'' then ['\'', '\''] else [c]
  '\'' :: indentAfterBreaks indent false (doubled ++ ['\''])

def hexDigits (width : Nat) (code : Nat) : List Char :=
  let digits := (Nat.toDigits 16 code).map Char.toUpper
  List.replicate (width - digits.length) '0' ++ digits

def escape (c : Char) : List Char :=
  match c with
  | '\x00' => ['0']
  | '\x07' => ['a']
  | '\x08' => ['b']
  | '\t' => ['t']
  | '\n' => ['n']
  | '\x0B' => ['v']
  | '\x0C' => ['f']
  | '\r' => ['r']
  | '\x1B' => ['e']
  | '"' => ['"']
  | '\\' => ['\\']
  | '\u0085' => ['N']
  | '\u2028' => ['L']
  | '\u2029' => ['P']
  | _ =>
    if c.toNat ≤ 0xFF then 'x' :: hexDigits 2 c.toNat
    else if c.toNat ≤ 0xFFFF then 'u' :: hexDigits 4 c.toNat
    else 'U' :: hexDigits 8 c.toNat

def doubleQuoted (text : List Char) : List Char :=
  let escaped (c : Char) :=
    if ! isPlainlyWritten c || isBreak c || c == '"' || c == '\\' then '\\' :: escape c else [c]
  '"' :: (text.flatMap escaped ++ ['"'])

/-- What the header of a literal scalar says about line breaks at the end of the text. -/
def chomping (text : List Char) : List Char :=
  match text.reverse with
  | [] => ['-']
  | last :: front =>
    if ! isBreak last then ['-'] else if front.head?.all isBreak then ['+'] else []

/-- The text line by line below a header. The header gives the indentation if the text itself begins
with a gap. -/
def literal (indent : Nat) (text : List Char) : List Char :=
  let width := if text.head?.any fun c => isSpace c || isBreak c then ['2'] else []
  '|' :: (width ++ chomping text ++ '\n' :: indentAfterBreaks indent true text)

def write (indent : Nat) (text : List Char) : List Char :=
  match styleOf text with
  | .plain => text
  | .singleQuoted => singleQuoted indent text
  | .doubleQuoted => doubleQuoted text
  | .literal => literal indent text

end ClassWeaver.Yaml.ScalarWriting
