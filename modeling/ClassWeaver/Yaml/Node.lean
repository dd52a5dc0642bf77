import ClassWeaver.Yaml.Progress

set_option autoImplicit false

/-!
Nodes of YAML documents. A document is read from its tokens: block and flow structures become
sequences and mappings, a reference becomes a copy of the node it names, and what is left out
becomes an empty scalar.
-/

namespace ClassWeaver.Yaml

inductive Node where
  /-- A text, which means something else than itself only if it is plain. -/
  | scalar (tag : Option String) (isPlain : Bool) (text : String)
  | sequence (tag : Option String) (items : List Node)
  | mapping (tag : Option String) (entries : List (Node × Node))
  /-- A reference to a node from within that node. -/
  | endless
  deriving Repr

namespace Node

def empty : Node :=
  .scalar none true ""

/-- What is left of a document: its tokens, the nodes that have names so far, and what the handles
of tags stand for. -/
structure Input where
  tokens : List Token
  anchors : Array (String × Node)
  handles : List (String × String)

/-- Reads a part of a document; there is no answer if the document is malformed. -/
abbrev Reading (α : Type) :=
  StateT Input Option α

def peek : Reading (Option Token) :=
  fun input => some (input.tokens.head?, input)

def skip : Reading Unit :=
  fun input => some ((), { input with tokens := input.tokens.drop 1 })

def malformed {α : Type} : Reading α :=
  fun _ => none

def isNext (tokens : List Token) : Reading Bool := do
  return (← peek).any tokens.contains

def expect (token : Token) : Reading Unit := do
  if ← isNext [token] then skip else malformed

def standardHandles : List (String × String) :=
  [("!", "!"), ("!!", "tag:yaml.org,2002:")]

def resolveTag (handle suffix : String) : Reading String :=
  fun input =>
    if handle.isEmpty then some (suffix, input)
    else ((input.handles ++ standardHandles).lookup handle).map fun start =>
      (start ++ suffix, input)

structure Properties where
  anchor : Option String
  tag : Option String

def anchor? : Reading (Option String) := do
  match ← peek with
  | some (.anchor name) => skip; return some name
  | _ => return none

def tag? : Reading (Option String) := do
  match ← peek with
  | some (.tag handle suffix) => skip; return some (← resolveTag handle suffix)
  | _ => return none

def properties : Reading Properties := do
  match ← anchor? with
  | some name => return ⟨some name, ← tag?⟩
  | none =>
    let tag ← tag?
    return ⟨← anchor?, tag⟩

def named (name : String) : Reading Node :=
  fun input =>
    ((input.anchors.findRev? fun anchor => anchor.1 == name).map (·.2)).map (·, input)

/-- Reads a node that may have a name. Within itself the name stands for an endless node. -/
def withName (name : Option String) (read : Reading Node) : Reading Node :=
  match name with
  | none => read
  | some name => do
    let index := (← get).anchors.size
    modify fun input => { input with anchors := input.anchors.push (name, .endless) }
    let node ← read
    modify fun input => { input with anchors := input.anchors.setIfInBounds index (name, node) }
    return node

/-- Where a node stands. It decides which structures may begin there. -/
inductive Place where
  /-- Inside brackets. -/
  | flow
  /-- In a block sequence or a document. -/
  | block
  /-- In a block mapping, where a sequence need not be indented. -/
  | blockEntry
  deriving DecidableEq, Repr

/-- The tag of a scalar, unless it says that the text is to be taken as it is. -/
def nonSpecific (tag : Option String) : Option String :=
  tag.filter (· != "!")

mutual

def node : Nat → Place → Reading Node
  | 0, _ => malformed
  | fuel + 1, place => do
    match ← peek with
    | some (.reference name) => skip; named name
    | _ =>
      let ⟨name, tag⟩ ← properties
      withName name (content fuel place (name.isSome || tag.isSome) tag)

/-- Reads a node without what stands in front of it; it may be left out if something does. -/
def content : Nat → Place → Bool → Option String → Reading Node
  | 0, _, _, _ => malformed
  | fuel + 1, place, optional, tag => do
    match ← peek, place with
    | some .blockEntry, .blockEntry => return .sequence tag (← looseItems fuel)
    | some (.scalar isPlain text), _ => skip; return .scalar (nonSpecific tag) isPlain text
    | some .flowSequenceStart, _ => skip; return .sequence tag (← flowItems fuel true)
    | some .flowMappingStart, _ => skip; return .mapping tag (← flowEntries fuel true)
    | some .blockSequenceStart, .block | some .blockSequenceStart, .blockEntry =>
      skip; return .sequence tag (← blockItems fuel)
    | some .blockMappingStart, .block | some .blockMappingStart, .blockEntry =>
      skip; return .mapping tag (← blockEntries fuel)
    | _, _ => if optional then return .scalar (nonSpecific tag) true "" else malformed

def nodeOrEmpty : Nat → Place → List Token → Reading Node
  | 0, _, _ => malformed
  | fuel + 1, place, ends => do
    if ← isNext ends then return empty else node fuel place

def blockItems : Nat → Reading (List Node)
  | 0 => malformed
  | fuel + 1 => do
    if ← isNext [.blockEntry] then
      skip
      let item ← nodeOrEmpty fuel .block [.blockEntry, .blockEnd]
      return item :: (← blockItems fuel)
    else
      expect .blockEnd
      return []

/-- Reads the items of a sequence that is not indented; it ends where no item follows. -/
def looseItems : Nat → Reading (List Node)
  | 0 => malformed
  | fuel + 1 => do
    if ← isNext [.blockEntry] then
      skip
      let item ← nodeOrEmpty fuel .block [.blockEntry, .key, .value, .blockEnd]
      return item :: (← looseItems fuel)
    else return []

def blockEntries : Nat → Reading (List (Node × Node))
  | 0 => malformed
  | fuel + 1 => do
    if ← isNext [.key] then
      skip
      let ends := [.key, .value, .blockEnd]
      let key ← nodeOrEmpty fuel .blockEntry ends
      let entry ← value fuel .blockEntry ends
      return (key, entry) :: (← blockEntries fuel)
    else
      expect .blockEnd
      return []

/-- Reads the value after a key; it may be left out together with its colon. -/
def value : Nat → Place → List Token → Reading Node
  | 0, _, _ => malformed
  | fuel + 1, place, ends => do
    if ← isNext [.value] then
      skip
      nodeOrEmpty fuel place ends
    else return empty

/-- Reads the items of a sequence in brackets and the closing bracket. A key makes an item a mapping
with one entry. -/
def flowItems : Nat → Bool → Reading (List Node)
  | 0, _ => malformed
  | fuel + 1, first => do
    if ← isNext [.flowSequenceEnd] then
      skip
      return []
    else
      if ! first then expect .flowEntry
      if ← isNext [.key] then
        skip
        let key ← if ← isNext [.value, .flowEntry, .flowSequenceEnd] then skip; pure empty
          else node fuel .flow
        let entry ← value fuel .flow [.flowEntry, .flowSequenceEnd]
        return .mapping none [(key, entry)] :: (← flowItems fuel false)
      else if ← isNext [.flowSequenceEnd] then
        skip
        return []
      else
        let item ← node fuel .flow
        return item :: (← flowItems fuel false)

/-- Reads the entries of a mapping in brackets and the closing bracket. An item without a question
mark and a colon is a key whose value is left out. -/
def flowEntries : Nat → Bool → Reading (List (Node × Node))
  | 0, _ => malformed
  | fuel + 1, first => do
    if ← isNext [.flowMappingEnd] then
      skip
      return []
    else
      if ! first then expect .flowEntry
      if ← isNext [.key] then
        skip
        let key ← nodeOrEmpty fuel .flow [.value, .flowEntry, .flowMappingEnd]
        let entry ← value fuel .flow [.flowEntry, .flowMappingEnd]
        return (key, entry) :: (← flowEntries fuel false)
      else if ← isNext [.flowMappingEnd] then
        skip
        return []
      else
        let key ← node fuel .flow
        return (key, empty) :: (← flowEntries fuel false)

end

/-- Reads the directives in front of a document: the version, which must be 1.1 or 1.2, and the
handles of tags. None may be given twice. -/
def directives (hasVersion : Bool) (handles : List (String × String)) :
    List Token → Option (List (String × String) × List Token)
  | .versionDirective major minor :: tokens =>
    if hasVersion || major != 1 || (minor != 1 && minor != 2) then none
    else directives true handles tokens
  | .tagDirective handle start :: tokens =>
    if (handles.lookup handle).isSome then none
    else directives hasVersion ((handle, start) :: handles) tokens
  | tokens => some (handles, tokens)

def atEnd : List Token → Bool
  | .documentEnd :: tokens => atEnd tokens
  | tokens => tokens == [.streamEnd]

def endsDocument : Token → Bool
  | .versionDirective _ _ | .tagDirective _ _ | .documentStart | .documentEnd | .streamEnd => true
  | _ => false

def ofInput (input : Input) : Option Node :=
  ((node (3 * input.tokens.length + 3) .block).run input).bind fun (node, input) =>
    if atEnd input.tokens then some node else none

/-- Reads the only document of a text; a text without one stands for an empty scalar. -/
def ofTokens (tokens : List Token) : Option Node := do
  if tokens == [.streamEnd] then return empty
  else
    let (handles, content) ← directives false [] tokens
    match content with
    | .documentStart :: content =>
      if content.head?.any endsDocument then
        if atEnd content then return empty else none
      else ofInput ⟨content, #[], handles⟩
    | _ =>
      -- Only a mark may follow directives.
      if content.length == tokens.length then ofInput ⟨tokens, #[], []⟩ else none

def read (text : List Char) : Option Node :=
  (Token.ofText text).bind ofTokens

end Node

end ClassWeaver.Yaml
