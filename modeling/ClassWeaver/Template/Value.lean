set_option autoImplicit false

/-!
What the variables of templates stand for.
-/

namespace ClassWeaver.Template

inductive Value where
  | null
  | truth (holds : Bool)
  | number (value : Int)
  | text (content : String)
  | list (items : List Value)
  | record (fields : List (String × Value))
  deriving Inhabited, Repr

namespace Value

mutual

def shown : Value → String
  | .null => ""
  | .truth holds => if holds then "true" else "false"
  | .number value => toString value
  | .text content => content
  | .list items => "[" ++ ", ".intercalate (shownAll items) ++ "]"
  | .record _ => "[object]"

def shownAll : List Value → List String
  | [] => []
  | value :: rest => shown value :: shownAll rest

end

/-- Says whether a value counts as true: null, zero and whatever is empty do not. -/
def isTruthy : Value → Bool
  | .null => false
  | .truth holds => holds
  | .number value => value != 0
  | .text content => ! content.isEmpty
  | .list items => ! items.isEmpty
  | .record fields => ! fields.isEmpty

def position? (name : String) : Option Nat :=
  if name.isEmpty || ! name.toList.all Char.isDigit then none
  else some (name.toList.foldl (fun value c => value * 10 + (c.toNat - '0'.toNat)) 0)

/-- The part of a value with a name, if there is one. Items are named by their positions, and to ask
a list for anything else is a mistake without an answer. -/
def part? (name : String) : Value → Option (Option Value)
  | .list items => (position? name).map fun index => items[index]?
  | .record fields => some (fields.lookup name)
  | _ => some none

def parts? : List String → Value → Option (Option Value)
  | [], value => some (some value)
  | name :: names, value =>
    match value.part? name with
    | none => none
    | some none => some none
    | some (some part) => parts? names part

def ofText? : Option String → Value
  | none => .null
  | some content => .text content

end Value

end ClassWeaver.Template
