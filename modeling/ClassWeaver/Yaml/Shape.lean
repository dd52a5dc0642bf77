import ClassWeaver.Yaml.Node

set_option autoImplicit false

/-!
The shapes in which the nodes of a document are taken: texts, numbers, lists and records. Where
nothing is written, a list or record is empty. A reading without an answer says that a node does not
have the shape.
-/

namespace ClassWeaver.Yaml

def nullTag : String :=
  "tag:yaml.org,2002:null"

abbrev Record :=
  List (String × Node)

namespace Node

def text? : Node → Option String
  | .scalar _ _ text => some text
  | _ => none

def isAbsent (text : String) : Bool :=
  text.isEmpty || Resolution.isNull text

/-- Takes a node as a value that may be absent. The tag of null fits the spellings of null only. -/
def optional? {α : Type} (take : Node → Option α) (node : Node) : Option (Option α) :=
  let present := (take node).map some
  match node with
  | .scalar tag true text =>
    match tag with
    | none => if isAbsent text then some none else present
    | some tag =>
      if tag == nullTag then if Resolution.isNull text then some none else none
      else present
  | _ => present

def isMissing : Node → Bool
  | .scalar _ true text => text.isEmpty
  | _ => false

def list? {α : Type} (take : Node → Option α) (node : Node) : Option (List α) :=
  match node with
  | .sequence _ items => items.mapM take
  | _ => if node.isMissing then some [] else none

def record? (node : Node) : Option Record :=
  match node with
  | .mapping _ entries => entries.mapM fun (key, value) => key.text?.map (·, value)
  | _ => if node.isMissing then some [] else none

/-- Takes a node as a number that fits into 64 bits. It must not be quoted. -/
def natural? : Node → Option Nat
  | .scalar none true text => (Resolution.natural? text.toList).filter (· < Nat.pow 2 64)
  | _ => none

/-- Takes a node as one of some names: a text without a tag, or a tag after an exclamation mark with
nothing to it. -/
def choice? {α : Type} (choices : List (String × α)) : Node → Option α
  | .scalar none _ text => choices.lookup text
  | .scalar (some tag) isPlain text =>
    if isPlain && isAbsent text then
      match tag.toList with
      | '!' :: name => choices.lookup (String.ofList name)
      | _ => none
    else none
  | _ => none

end Node

namespace Record

def required? {α : Type} (record : Record) (name : String) (take : Node → Option α) : Option α :=
  match record.filter (·.1 == name) with
  | [(_, node)] => take node
  | _ => none

def withDefault? {α : Type} (record : Record) (name : String) (default : α)
    (take : Node → Option α) : Option α :=
  match record.filter (·.1 == name) with
  | [] => some default
  | [(_, node)] => take node
  | _ => none

def optional? {α : Type} (record : Record) (name : String) (take : Node → Option α) :
    Option (Option α) :=
  record.withDefault? name none (Node.optional? take)

def list? {α : Type} (record : Record) (name : String) (take : Node → Option α) :
    Option (List α) :=
  record.withDefault? name [] (Node.list? take)

end Record

end ClassWeaver.Yaml
