import ClassWeaver.Yaml.Property

set_option autoImplicit false

/-!
Finding the tokens of a document. Block structures begin and end by indentation. A key without a
question mark is known as a key only when its colon is reached; the tokens that announce it are then
put in front of it.
-/

namespace ClassWeaver.Yaml

structure Position where
  index : Nat
  line : Nat
  column : Nat

def Position.pass (position : Position) (c : Char) : Position :=
  if isBreak c then ⟨position.index + 1, position.line + 1, 0⟩
  else ⟨position.index + 1, position.line, position.column + 1⟩

/-- A place where a key without a question mark may have begun, and the number of tokens in front of
it. A required one stands where only a key can stand. -/
structure KeyPlace where
  position : Position
  index : Nat
  required : Bool

/-- A possible key is out of reach from another line or after 1024 characters. -/
def KeyPlace.isStale (place : KeyPlace) (position : Position) : Bool :=
  place.position.line < position.line || place.position.index + 1024 < position.index

/-- How far the tokens of a document have been found: the tokens, the places of possible keys for
each level of brackets and outside them, the indentation of the open block structures, and whether a
key may begin here. -/
structure Progress where
  position : Position
  tokens : Array Token
  places : List (Option KeyPlace)
  indents : List Nat
  keyAllowed : Bool

namespace Progress

def start : Progress :=
  ⟨⟨0, 0, 0⟩, #[], [none], [], true⟩

def inner (progress : Progress) : Nat :=
  match progress.indents with
  | [] => 0
  | indent :: _ => indent + 1

def inFlow (progress : Progress) : Bool :=
  1 < progress.places.length

def push (progress : Progress) (token : Token) : Progress :=
  { progress with tokens := progress.tokens.push token }

def allowKey (progress : Progress) (allowed : Bool) : Progress :=
  { progress with keyAllowed := allowed }

def closeFrom (column : Nat) : List Nat → Array Token → List Nat × Array Token
  | [], tokens => ([], tokens)
  | indent :: outer, tokens =>
    if column ≤ indent then closeFrom column outer (tokens.push .blockEnd)
    else (indent :: outer, tokens)

/-- Ends the block structures that are indented by `column` or more, unless brackets are open. -/
def unroll (progress : Progress) (column : Nat) : Progress :=
  if progress.inFlow then progress
  else
    let (indents, tokens) := closeFrom column progress.indents progress.tokens
    { progress with indents := indents, tokens := tokens }

/-- Begins a block structure at a column unless one begins there already. `index` tokens stay in
front of its token. -/
def roll (progress : Progress) (column index : Nat) (token : Token) : Progress :=
  if progress.inFlow || column < progress.inner then progress
  else
    { progress with
      indents := column :: progress.indents
      tokens := progress.tokens.insertIdxIfInBounds index token }

/-- Gives up the possible key of the innermost level; a required one must not be given up. -/
def dropPlace (progress : Progress) : Option Progress :=
  match progress.places with
  | [] => some progress
  | place :: outer =>
    if place.any (·.required) then none else some { progress with places := none :: outer }

def notePlace (progress : Progress) : Option Progress :=
  if progress.keyAllowed then
    let required := ! progress.inFlow && progress.inner == progress.position.column + 1
    let place : KeyPlace := ⟨progress.position, progress.tokens.size, required⟩
    progress.dropPlace.map fun progress =>
      { progress with places := some place :: progress.places.drop 1 }
  else some progress

def dropStale (progress : Progress) : Option Progress :=
  let isStale (place : Option KeyPlace) := place.any (·.isStale progress.position)
  if progress.places.any fun place => isStale place && place.any (·.required) then none
  else
    some { progress with
      places := progress.places.map fun place => if isStale place then none else place }

abbrev Step := Option (Progress × List Char)

/-- A directive, a document mark and the end of the text end all block structures. -/
def leaveBlocks (progress : Progress) : Option Progress :=
  (progress.unroll 0).dropPlace.map (·.allowKey false)

private def directive (progress : Progress) (text : List Char) : Step := do
  let progress ← progress.leaveBlocks
  let (token, rest) ← Property.directive? text
  return (progress.push token, rest)

private def documentMark (progress : Progress) (token : Token) (rest : List Char) : Step := do
  let progress ← progress.leaveBlocks
  return (progress.push token, rest.drop 2)

def openFlow (progress : Progress) (token : Token) (rest : List Char) : Step := do
  let progress ← progress.notePlace
  let progress := { progress with places := none :: progress.places }
  return ((progress.push token).allowKey true, rest)

def closeFlow (progress : Progress) (token : Token) (rest : List Char) : Step := do
  let progress ← progress.dropPlace
  let places := if progress.inFlow then progress.places.drop 1 else progress.places
  return (({ progress with places := places }.push token).allowKey false, rest)

private def flowEntry (progress : Progress) (rest : List Char) : Step := do
  let progress ← progress.dropPlace
  return ((progress.push .flowEntry).allowKey true, rest)

def enterBlock (progress : Progress) (token : Token) : Option Progress :=
  if progress.inFlow then some progress
  else if progress.keyAllowed then
    some (progress.roll progress.position.column progress.tokens.size token)
  else none

def blockEntry (progress : Progress) (rest : List Char) : Step := do
  let progress ← (← progress.enterBlock .blockSequenceStart).dropPlace
  return ((progress.push .blockEntry).allowKey true, rest)

private def announcedKey (progress : Progress) (rest : List Char) : Step := do
  let progress ← (← progress.enterBlock .blockMappingStart).dropPlace
  return ((progress.push .key).allowKey (! progress.inFlow), rest)

/-- The colon after a key. The tokens that announce the key are put in front of it. -/
def colon (progress : Progress) (rest : List Char) : Step :=
  match progress.places.head?.join with
  | some place =>
    let announced :=
      { progress with
        tokens := progress.tokens.insertIdxIfInBounds place.index .key
        places := none :: progress.places.drop 1 }
    let progress := announced.roll place.position.column place.index .blockMappingStart
    some ((progress.push .value).allowKey false, rest)
  | none =>
    (progress.enterBlock .blockMappingStart).map fun progress =>
      ((progress.push .value).allowKey (! progress.inFlow), rest)

def leaf (progress : Progress) (found : Option (Token × List Char)) : Step := do
  let progress ← progress.notePlace
  let (token, rest) ← found
  return ((progress.push token).allowKey false, rest)

private def tag (progress : Progress) (text : List Char) : Step :=
  leaf progress <| (Property.tagToken? text).filter fun (_, rest) =>
    atGap rest || (progress.inFlow && rest.head? == some ',')

def quoted (progress : Progress)
    (read : Nat → Gap → List Char → Option (List Char × List Char)) (text : List Char) : Step :=
  leaf progress <| (read (progress.position.column + 1) .none text).map fun (content, rest) =>
    (.scalar false (String.ofList content), rest)

def blockScalar (progress : Progress) (folded : Bool) (text : List Char) : Step := do
  let progress ← progress.dropPlace
  let (content, rest) ← BlockScalar.read folded progress.inner text
  return ((progress.push (.scalar false (String.ofList content))).allowKey true, rest)

def plain (progress : Progress) (text : List Char) : Step := do
  let progress ← progress.notePlace
  let scalar ← readPlain progress.inFlow progress.inner progress.position.column .none text
  return ((progress.push (.scalar true (String.ofList scalar.text))).allowKey scalar.broken,
    scalar.rest)

def indicators : List Char :=
  Char.ofNat 96 :: "-?:,[]\x7b\x7d#&*!|>'\"%@".toList

def startsPlain (inFlow : Bool) (c : Char) (rest : List Char) : Bool :=
  ! (isGap c || indicators.contains c)
    || c == '-' && ! rest.head?.any isSpaceOrTab
    || ! inFlow && (c == '?' || c == ':') && ! atGap rest

/-- Reads the token that begins with `c`, which stands where the block structures that are indented
further have ended. -/
def token (progress : Progress) (c : Char) (rest : List Char) : Step :=
  let inFlow := progress.inFlow
  let isLineStart := progress.position.column == 0
  if isLineStart && c == '%' then progress.directive rest
  else if isLineStart && isDocumentMark (c :: rest) then
    progress.documentMark (if c == '-' then .documentStart else .documentEnd) rest
  else if c == '[' then progress.openFlow .flowSequenceStart rest
  else if c == '\x7b' then progress.openFlow .flowMappingStart rest
  else if c == ']' then progress.closeFlow .flowSequenceEnd rest
  else if c == '\x7d' then progress.closeFlow .flowMappingEnd rest
  else if c == ',' then progress.flowEntry rest
  else if c == '-' && atGap rest then progress.blockEntry rest
  else if c == '?' && (inFlow || atGap rest) then progress.announcedKey rest
  else if c == ':' && (inFlow || atGap rest) then progress.colon rest
  else if c == '*' then progress.leaf ((Property.name? rest).map (Prod.map .reference id))
  else if c == '&' then progress.leaf ((Property.name? rest).map (Prod.map .anchor id))
  else if c == '!' then progress.tag rest
  else if c == '|' && ! inFlow then progress.blockScalar false rest
  else if c == '>' && ! inFlow then progress.blockScalar true rest
  else if c == '\'' then progress.quoted readSingleQuoted rest
  else if c == '"' then progress.quoted readDoubleQuoted rest
  else if startsPlain inFlow c rest then progress.plain (c :: rest)
  else none

def step (progress : Progress) (c : Char) (rest : List Char) : Step :=
  let isWhite := c == ' ' || c == '\t' && (progress.inFlow || ! progress.keyAllowed)
    || c == '\uFEFF' && progress.position.column == 0
  if isWhite then some (progress, rest)
  else if c == '#' then some (progress, rest.dropWhile (! isBreak ·))
  else if isBreak c then some (progress.allowKey (progress.keyAllowed || ! progress.inFlow), rest)
  else
    progress.dropStale.bind fun progress =>
      (progress.unroll (progress.position.column + 1)).token c rest

def finish (progress : Progress) : Option (Array Token) := do
  let progress ← (← progress.dropStale).leaveBlocks
  return (progress.push .streamEnd).tokens

/-- Finds the tokens of a text whose first `skipped` characters belong to a token already found. -/
def scan (skipped : Nat) (progress : Progress) : List Char → Option (Array Token)
  | [] => progress.finish
  | c :: rest =>
    let position := progress.position.pass c
    match skipped with
    | skipped + 1 => scan skipped { progress with position := position } rest
    | 0 =>
      (progress.step c rest).bind fun (progress, left) =>
        scan (rest.length - left.length) { progress with position := position } rest

end Progress

/-- The tokens of a document. A text with characters that must not occur or with a misplaced key has
none. -/
def Token.ofText (text : List Char) : Option (List Token) :=
  if text.all isAllowed then (Progress.start.scan 0 (normalizeBreaks text)).map Array.toList
  else none

end ClassWeaver.Yaml
