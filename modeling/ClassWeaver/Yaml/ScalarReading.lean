import ClassWeaver.Yaml.Character
import ClassWeaver.Yaml.Resolution

set_option autoImplicit false

/-!
Reading plain and quoted scalars. White space inside a scalar is kept as long as it stays on a line;
line breaks are folded. All texts here have normalized line ends.
-/

namespace ClassWeaver.Yaml

/-- White space inside a scalar that has been read but not yet taken into its text. -/
inductive Gap where
  /-- Blanks on one line. -/
  | blanks (text : List Char)
  /-- Line breaks, with the blanks around them dropped. -/
  | breaks (text : List Char)
  /-- Line breaks after one that was hidden by a backslash. -/
  | hidden (text : List Char)

namespace Gap

def none : Gap :=
  .blanks []

def addBlank (c : Char) : Gap → Gap
  | blanks text => blanks (text ++ [c])
  | gap => gap

def addBreak (c : Char) : Gap → Gap
  | blanks _ => breaks [c]
  | breaks text => breaks (text ++ [c])
  | hidden text => hidden (text ++ [c])

def isBroken : Gap → Bool
  | blanks _ => false
  | _ => true

/-- Folding line breaks: a single one becomes a space, and the first of several is dropped. -/
def fold : List Char → List Char
  | ['\n'] => [' ']
  | '\n' :: rest => rest
  | text => text

def text : Gap → List Char
  | blanks text => text
  | breaks text => fold text
  | hidden text => text

end Gap

/-- Three hyphens or three dots that stand alone at the beginning of a line. -/
def isDocumentMark : List Char → Bool
  | '-' :: '-' :: '-' :: rest => atGap rest
  | '.' :: '.' :: '.' :: rest => atGap rest
  | _ => false

def isFlowIndicator (c : Char) : Bool :=
  c == ',' || c == '[' || c == ']' || c == '\x7b' || c == '\x7d'

/-- A plain scalar: its text, what comes after it and whether a line break came between. -/
structure PlainScalar where
  text : List Char
  rest : List Char
  broken : Bool

/-- Reads the rest of a plain scalar. `inFlow` says whether it stands inside brackets, `indent` is
the least column of its further lines, `column` the column reached and `gap` the white space in
front of the rest. -/
def readPlain (inFlow : Bool) (indent : Nat) : Nat → Gap → List Char → Option PlainScalar
  | _, gap, [] => some ⟨[], [], gap.isBroken⟩
  | column, gap, c :: rest =>
    if isBreak c then readPlain inFlow indent 0 (gap.addBreak c) rest
    else if isSpaceOrTab c then
      if c == '\t' && gap.isBroken && column < indent then none
      else readPlain inFlow indent (column + 1) (gap.addBlank c) rest
    else
      let hasGap := match gap with
        | .blanks [] => false
        | _ => true
      let endsAfterGap := hasGap &&
        (c == '#' || (! inFlow && column < indent)
          || (column == 0 && isDocumentMark (c :: rest)))
      if endsAfterGap then some ⟨[], c :: rest, gap.isBroken⟩
      else if inFlow && c == ':'
          && (rest.head?.any fun d => isFlowIndicator d || d == '?') then none
      else if (c == ':' && atGap rest) || (inFlow && isFlowIndicator c) then
        some ⟨[], c :: rest, gap.isBroken⟩
      else
        (readPlain inFlow indent (column + 1) .none rest).map fun scalar =>
          { scalar with text := gap.text ++ c :: scalar.text }

def escaped? : Char → Option Char
  | '0' => some '\x00'
  | 'a' => some '\x07'
  | 'b' => some '\x08'
  | 't' => some '\t'
  | '\t' => some '\t'
  | 'n' => some '\n'
  | 'v' => some '\x0B'
  | 'f' => some '\x0C'
  | 'r' => some '\r'
  | 'e' => some '\x1B'
  | ' ' => some ' '
  | '"' => some '"'
  | '/' => some '/'
  | '\\' => some '\\'
  | 'N' => some '\u0085'
  | '_' => some '\u00A0'
  | 'L' => some '\u2028'
  | 'P' => some '\u2029'
  | _ => none

/-- The number of hexadecimal digits after the letter of an escape that gives a code point. -/
def escapeLength? : Char → Option Nat
  | 'x' => some 2
  | 'u' => some 4
  | 'U' => some 8
  | _ => none

/-- The character whose code point the first `length` hexadecimal digits of a text give. -/
def codePoint? (length : Nat) (text : List Char) : Option Char :=
  let digits := text.take length
  if digits.length < length then none
  else (Resolution.number? 16 digits).bind fun code =>
    if code.isValidChar then some (Char.ofNat code) else none

/-- A document mark at the beginning of a line ends no quoted scalar; it is an error. -/
def startsWithMark (column : Nat) (gap : Gap) (text : List Char) : Bool :=
  gap.isBroken && column == 0 && isDocumentMark text

/-- Reads the rest of a scalar in single quotes, in which two quotes stand for one. Gives its text
and what comes after the closing quote. -/
def readSingleQuoted : Nat → Gap → List Char → Option (List Char × List Char)
  | _, _, [] => none
  | column, gap, c :: rest =>
    if isBreak c then readSingleQuoted 0 (gap.addBreak c) rest
    else if isSpaceOrTab c then readSingleQuoted (column + 1) (gap.addBlank c) rest
    else if startsWithMark column gap (c :: rest) then none
    else if c == '\'' then
      match rest with
      | '\'' :: rest =>
        (readSingleQuoted (column + 2) .none rest).map (Prod.map (gap.text ++ '\'' :: ·) id)
      | _ => some (gap.text, rest)
    else (readSingleQuoted (column + 1) .none rest).map (Prod.map (gap.text ++ c :: ·) id)

/-- Reads the rest of a scalar in double quotes with its escapes. Gives its text and what comes
after the closing quote. -/
def readDoubleQuoted (column : Nat) (gap : Gap) : List Char → Option (List Char × List Char)
  | [] => none
  | c :: rest =>
    if isBreak c then readDoubleQuoted 0 (gap.addBreak c) rest
    else if isSpaceOrTab c then readDoubleQuoted (column + 1) (gap.addBlank c) rest
    else if startsWithMark column gap (c :: rest) then none
    else if c == '"' then some (gap.text, rest)
    else if c == '\\' then
      match rest with
      | [] => none
      | mark :: rest =>
        if isBreak mark then
          (readDoubleQuoted 0 (.hidden []) rest).map (Prod.map (gap.text ++ ·) id)
        else
          match escapeLength? mark with
          | some length =>
            (codePoint? length rest).bind fun c =>
              (readDoubleQuoted (column + 2 + length) .none (rest.drop length)).map
                (Prod.map (gap.text ++ c :: ·) id)
          | none =>
            (escaped? mark).bind fun c =>
              (readDoubleQuoted (column + 2) .none rest).map (Prod.map (gap.text ++ c :: ·) id)
    else (readDoubleQuoted (column + 1) .none rest).map (Prod.map (gap.text ++ c :: ·) id)
termination_by text => text.length
decreasing_by all_goals simp only [List.length_cons, List.length_drop]; omega

end ClassWeaver.Yaml
