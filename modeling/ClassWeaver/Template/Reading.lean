import ClassWeaver.Template.Tag
import ClassWeaver.Text.Blank

set_option autoImplicit false

/-!
Reading templates. A text is cut at its tags, a line with nothing but a tag of a block or a comment
disappears, and the tags of blocks are matched with each other.
-/

namespace ClassWeaver.Template

structure Segment where
  mark : Mark
  text : List Char

/-- Cuts a text before the braces of its first tag. A backslash in front of the braces makes them
text; of several backslashes one is dropped and the tag counts. `inRun` says that a backslash has
been dropped from the run of backslashes at the front. -/
def cutText (inRun : Bool) : List Char → List Char × Option (List Char)
  | [] => ([], none)
  | '\x7b' :: '\x7b' :: rest => ([], some rest)
  | '\\' :: '\x7b' :: '\x7b' :: rest =>
    if inRun then (['\\'], some rest)
    else
      let (text, found) := cutText false rest
      ('\x7b' :: '\x7b' :: text, found)
  | '\\' :: '\\' :: rest =>
    let beforeTag := (rest.dropWhile (· == '\\')).take 2 == ['\x7b', '\x7b']
    let (text, found) := cutText beforeTag ('\\' :: rest)
    (if beforeTag && ! inRun then text else '\\' :: text, found)
  | c :: rest =>
    let (text, found) := cutText false rest
    (c :: text, found)

theorem length_of_cutText {inRun : Bool} {text before rest : List Char}
    (cut : cutText inRun text = (before, some rest)) : rest.length < text.length := by
  fun_induction cutText inRun text generalizing before with
  | case1 => simp at cut
  | case2 =>
    simp only [Prod.mk.injEq, Option.some.injEq] at cut
    simp only [← cut.2, List.length_cons]
    omega
  | case3 =>
    simp only [Prod.mk.injEq, Option.some.injEq] at cut
    simp only [← cut.2, List.length_cons]
    omega
  | case4 _ _ _ _ _ found ih =>
    simp only [Prod.mk.injEq] at cut
    have shorter := ih (by rw [found, cut.2])
    simp only [List.length_cons]
    omega
  | case5 =>
    rename_i found ih
    simp only [Prod.mk.injEq] at cut
    have shorter := ih (by rw [found, cut.2])
    simp only [List.length_cons] at shorter ⊢
    omega
  | case6 _ _ _ _ _ _ _ _ found ih =>
    simp only [Prod.mk.injEq] at cut
    have shorter := ih (by rw [found, cut.2])
    simp only [List.length_cons]
    omega

/-- Cuts a text at its tags: the text in front, and the tags with what follows them. -/
def segments? (text : List Char) : Option (List Char × List Segment) :=
  match cut : cutText false text with
  | (before, none) => some (before, [])
  | (before, some rest) =>
    have := length_of_cutText cut
    match tag : splitTag? rest with
    | none => none
    | some (mark, rest) =>
      have := length_of_splitTag? tag
      (segments? rest).map fun (text, segments) => (before, ⟨mark, text⟩ :: segments)
termination_by text.length

def Tag.isStructural : Tag → Bool
  | .print _ | .failing => false
  | _ => true

private def isSpaceOrTab (c : Char) : Bool :=
  c == ' ' || c == '\t'

private def isLineEnd (c : Char) : Bool :=
  c == '\n' || c == '\r'

def endsWithEmptyLine (isFirst : Bool) (text : List Char) : Bool :=
  match (text.reverse.dropWhile isSpaceOrTab).head? with
  | none => isFirst
  | some c => isLineEnd c

def startsWithEmptyLine (text : List Char) : Bool :=
  (text.dropWhile isSpaceOrTab).head?.any isLineEnd

def dropEmptyLine (text : List Char) : List Char :=
  match text.dropWhile isSpaceOrTab with
  | '\r' :: '\n' :: rest => rest
  | '\n' :: rest => rest
  | rest => rest

inductive Item where
  | text (content : List Char)
  | tag (tag : Tag)

/-- Takes away the white space that tags take away around them, and the lines that hold nothing but
a tag. `shorten` takes away what the tag in front of the text does. -/
def arrange (isFirst : Bool) (shorten : List Char → List Char) (text : List Char) :
    List Segment → List Item
  | [] => [.text (shorten text)]
  | ⟨mark, next⟩ :: rest =>
    let isAlone := mark.tag.isStructural && endsWithEmptyLine isFirst text
      && startsWithEmptyLine next
    let kept :=
      if mark.trimsBefore then Text.trimEnd (shorten text)
      else if isAlone then Text.dropWhileEnd isSpaceOrTab (shorten text)
      else shorten text
    let shortenNext :=
      if mark.trimsAfter then Text.trimStart else if isAlone then dropEmptyLine else id
    .text kept :: .tag mark.tag :: arrange false shortenNext next rest

/-- A block that has not been closed yet: what comes before it in reverse order, its helper and
arguments, its body once that is finished, and whether it ends together with the block around it. -/
structure OpenBlock where
  before : List Piece
  helper : String
  arguments : List Expression
  body : Option (List Piece)
  isChained : Bool

def OpenBlock.piece (block : OpenBlock) (last : List Piece) : Piece :=
  let body := block.body.getD last
  let otherwise := if block.body.isSome then last else []
  match block.helper, block.arguments with
  | "if", condition :: _ => .choose condition body otherwise
  | "unless", condition :: _ => .choose condition otherwise body
  | "each", items :: _ => .each items block.body.isNone body otherwise
  | "with", value :: _ => .within value block.body.isNone body otherwise
  | _, _ => .failing

/-- Closes a block together with the blocks that end with it. `found` holds the parts of the
innermost one in reverse order. -/
def closeBlock? (helper : String) (found : List Piece) :
    List OpenBlock → Option (List Piece × List OpenBlock)
  | [] => none
  | block :: outer =>
    let closed := block.piece found.reverse :: block.before
    if block.isChained then closeBlock? helper closed outer
    else if block.helper == helper then some (closed, outer)
    else none

/-- Matches the tags of blocks. `blocks` are the blocks around the items, and `found` holds the
parts of the innermost one so far in reverse order. -/
def ofItems? (blocks : List OpenBlock) (found : List Piece) : List Item → Option Template
  | [] => if blocks.isEmpty then some found.reverse else none
  | .text [] :: rest => ofItems? blocks found rest
  | .text content :: rest => ofItems? blocks (.text (String.ofList content) :: found) rest
  | .tag .comment :: rest => ofItems? blocks found rest
  | .tag .failing :: rest => ofItems? blocks (.failing :: found) rest
  | .tag (.print source) :: rest => ofItems? blocks (.print source :: found) rest
  | .tag (.openBlock helper arguments) :: rest =>
    ofItems? (⟨found, helper, arguments, none, false⟩ :: blocks) [] rest
  | .tag .otherwise :: rest =>
    match blocks with
    | [] => none
    | block :: outer =>
      if block.body.isSome then none
      else ofItems? ({ block with body := some found.reverse } :: outer) [] rest
  | .tag (.otherwiseBlock helper arguments) :: rest =>
    match blocks with
    | [] => none
    | block :: outer =>
      if block.body.isSome then none
      else
        let chained : OpenBlock := ⟨[], helper, arguments, none, true⟩
        ofItems? (chained :: { block with body := some found.reverse } :: outer) [] rest
  | .tag (.closeBlock helper) :: rest =>
    (closeBlock? helper found blocks).bind fun (found, blocks) => ofItems? blocks found rest

def parse? (text : String) : Option Template := do
  let (front, segments) ← segments? text.toList
  ofItems? [] [] (arrange true id front segments)

end ClassWeaver.Template
