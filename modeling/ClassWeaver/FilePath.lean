import ClassWeaver.Text.Search

set_option autoImplicit false

/-!
File paths as written texts that stand for lists of components: repeated and closing slashes and
single dots inside a path do not count. Paths are ordered by their components.
-/

namespace ClassWeaver

/-- A path in the spelling in which it was given. -/
structure FilePath where
  text : String
  deriving DecidableEq, Repr

namespace FilePath

inductive Component where
  /-- The slash in front of an absolute path. -/
  | root
  /-- A single dot in front of a relative path. -/
  | here
  /-- Two dots. -/
  | up
  /-- The name of a file or folder. -/
  | named (name : String)
  deriving DecidableEq, Repr

namespace Component

def rank : Component → Nat
  | root => 0
  | here => 1
  | up => 2
  | named _ => 3

def label : Component → String
  | named name => name
  | _ => ""

instance : LT Component :=
  ⟨fun a b => a.rank < b.rank ∨ a.rank = b.rank ∧ a.label < b.label⟩

instance (a b : Component) : Decidable (a < b) :=
  inferInstanceAs (Decidable (a.rank < b.rank ∨ a.rank = b.rank ∧ a.label < b.label))

def ofPart? (part : List Char) : Option Component :=
  match part with
  | [] => none
  | ['.'] => none
  | ['.', '.'] => some up
  | _ => some (named (String.ofList part))

end Component

private def partsOf (text : List Char) : List (List Char) :=
  Text.splitWhere (· == '/') text

def components (path : FilePath) : List Component :=
  match path.text.toList with
  | '/' :: rest => .root :: (partsOf rest).filterMap Component.ofPart?
  | text =>
    match partsOf text with
    | ['.'] :: parts => .here :: parts.filterMap Component.ofPart?
    | parts => parts.filterMap Component.ofPart?

/-- Two spellings of one path. -/
def same (a b : FilePath) : Bool :=
  a.components == b.components

def precedes (a b : FilePath) : Bool :=
  decide (a.components < b.components)

def isBelow (path folder : FilePath) : Bool :=
  folder.components.isPrefixOf path.components && ! path.same folder

/-- The path of `name` in a folder; an absolute name stands for itself. -/
def join (folder : FilePath) (name : String) : FilePath :=
  if name.toList.head? == some '/' || folder.text.isEmpty then ⟨name⟩
  else if folder.text.toList.getLast? == some '/' then ⟨folder.text ++ name⟩
  else ⟨folder.text ++ "/" ++ name⟩

end FilePath

end ClassWeaver
