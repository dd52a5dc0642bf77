import ClassWeaver.Yaml.ScalarReading

set_option autoImplicit false

/-!
Block scalars: literal ones keep their line breaks, folded ones join lines with spaces. The header
says which, what happens to the breaks at the end and, if it must, how far the lines are indented.
All texts here have normalized line ends.
-/

namespace ClassWeaver.Yaml.BlockScalar

inductive Chomping where
  /-- No break is kept. -/
  | strip
  /-- One break is kept. -/
  | clip
  /-- All breaks are kept. -/
  | keep
  deriving DecidableEq, Repr

structure Header where
  chomping : Chomping
  indentation : Option Nat
  deriving DecidableEq, Repr

def chomping? : Char → Option Chomping
  | '+' => some .keep
  | '-' => some .strip
  | _ => none

def indentation? (c : Char) : Option Nat :=
  if c.isDigit && c != '0' then some (c.toNat - '0'.toNat) else none

/-- The rest of a line with nothing but blanks and a comment, and the line break if there is one. -/
def afterComment? (text : List Char) : Option (List Char) :=
  let rest := text.dropWhile isSpaceOrTab
  let rest := if rest.head? == some '#' then rest.dropWhile (! isBreak ·) else rest
  match rest with
  | [] => some []
  | c :: rest => if isBreak c then some rest else none

def readIndicators (text : List Char) : Header × List Char :=
  match text with
  | [] => (⟨.clip, none⟩, [])
  | c :: rest =>
    match chomping? c, indentation? c with
    | some chomping, _ =>
      match rest with
      | d :: rest' =>
        match indentation? d with
        | some width => (⟨chomping, some width⟩, rest')
        | none => (⟨chomping, none⟩, rest)
      | [] => (⟨chomping, none⟩, rest)
    | none, some width =>
      match rest with
      | d :: rest' =>
        match chomping? d with
        | some chomping => (⟨chomping, some width⟩, rest')
        | none => (⟨.clip, some width⟩, rest)
      | [] => (⟨.clip, some width⟩, rest)
    | none, none => (⟨.clip, none⟩, text)

/-- Reads the header and the end of its line. A zero as the indentation is left over and refused. -/
def readHeader (text : List Char) : Option (Header × List Char) :=
  let (header, rest) := readIndicators text
  (afterComment? rest).map (header, ·)

/-- A line of the document: its text and its line break, which the last line may lack. -/
structure Line where
  text : List Char
  lineBreak : List Char
  deriving DecidableEq, Repr

def linesOf : List Char → List Line
  | [] => []
  | c :: rest =>
    if isBreak c then ⟨[], [c]⟩ :: linesOf rest
    else
      match linesOf rest with
      | [] => [⟨[c], []⟩]
      | line :: lines => ⟨c :: line.text, line.lineBreak⟩ :: lines

def textOf (lines : List Line) : List Char :=
  lines.flatMap fun line => line.text ++ line.lineBreak

theorem textOf_linesOf (text : List Char) : textOf (linesOf text) = text := by
  induction text with
  | nil => rfl
  | cons c rest ih =>
    unfold linesOf
    split
    · simpa [textOf] using ih
    · split
      · next none =>
        rw [none] at ih
        simp [textOf, ← ih]
      · next line lines some =>
        rw [some] at ih
        simpa [textOf] using ih

def spaces (text : List Char) : Nat :=
  (text.takeWhile (· == ' ')).length

/-- The indentation of lines without an indentation indicator: that of the longest of the empty
lines in front and the first other one, and at least `least`. A tab must not stand in it. -/
def detectIndent (least : Nat) : List Line → Option Nat
  | [] => some least
  | line :: lines =>
    let least' := max least (spaces line.text)
    match line.text.dropWhile (· == ' ') with
    | [] => if line.lineBreak.isEmpty then some least' else detectIndent least' lines
    | c :: _ => if c == '\t' then none else some least'

inductive Kind where
  /-- A line without text. -/
  | empty
  /-- A line with text after the indentation. -/
  | filled (text : List Char)
  /-- A line that does not belong to the scalar any more. -/
  | outside
  /-- A line with a tab in its indentation. -/
  | malformed

def Line.kind (indent : Nat) (line : Line) : Kind :=
  let width := min indent (spaces line.text)
  match line.text.drop width with
  | [] => if line.lineBreak.isEmpty then .outside else .empty
  | c :: rest =>
    if width == indent then .filled (c :: rest)
    else if c == '\t' then .malformed
    else .outside

/-- A line with text of a block scalar, its line break, and the breaks of the empty lines after it.
-/
structure Filled where
  text : List Char
  lineBreak : List Char
  emptyLines : List Char

/-- The lines of a block scalar: the breaks of the empty lines in front, the lines with text, and
the lines of the document that follow. -/
structure Body where
  emptyLines : List Char
  filled : List Filled
  rest : List Line

def collect (indent : Nat) : List Line → Option Body
  | [] => some ⟨[], [], []⟩
  | line :: lines =>
    match line.kind indent with
    | .malformed => none
    | .outside => some ⟨[], [], line :: lines⟩
    | .empty => (collect indent lines).map fun body =>
      { body with emptyLines := line.lineBreak ++ body.emptyLines }
    | .filled text => (collect indent lines).map fun body =>
      ⟨[], ⟨text, line.lineBreak, body.emptyLines⟩ :: body.filled, body.rest⟩

private def startsWithBlank (text : List Char) : Bool :=
  text.head?.any isSpaceOrTab

/-- What stands between two lines with text: their breaks, or in a folded scalar a space for a
single break between lines that do not begin with a blank. -/
def between (folded : Bool) (line next : Filled) : List Char :=
  if folded && line.lineBreak == ['\n'] && ! startsWithBlank line.text
      && ! startsWithBlank next.text then
    if line.emptyLines.isEmpty then [' '] else line.emptyLines
  else line.lineBreak ++ line.emptyLines

def joinAfter (folded : Bool) (chomping : Chomping) (line : Filled) : List Filled → List Char
  | [] =>
    (if chomping == .strip then [] else line.lineBreak)
      ++ (if chomping == .keep then line.emptyLines else [])
  | next :: lines => between folded line next ++ next.text ++ joinAfter folded chomping next lines

def Body.text (folded : Bool) (chomping : Chomping) (body : Body) : List Char :=
  match body.filled with
  | [] => if chomping == .keep then body.emptyLines else []
  | line :: lines => body.emptyLines ++ line.text ++ joinAfter folded chomping line lines

/-- Reads a block scalar after its indicator, inside a structure that is indented by `outer` less
one. Gives its text and what comes after it. -/
def read (folded : Bool) (outer : Nat) (text : List Char) : Option (List Char × List Char) := do
  let (header, rest) ← readHeader text
  let lines := linesOf rest
  let indent ← match header.indentation with
    | some width => some (outer - 1 + width)
    | none => detectIndent (max outer 1) lines
  let body ← collect indent lines
  return (body.text folded header.chomping, textOf body.rest)

end ClassWeaver.Yaml.BlockScalar
