import ClassWeaver.Yaml.ScalarWriting

set_option autoImplicit false

/-!
Documents to be written: records, lists, texts and numbers. Every field of a record has a line of
its own; what belongs to a field or an item is indented by two more spaces, but the items of a list
stand below the name of their field.
-/

namespace ClassWeaver.Yaml

inductive Tree where
  | text (content : String)
  | number (value : Nat)
  | sequence (items : List Tree)
  | record (fields : List (String × Tree))
  deriving Repr

namespace Tree

def endLine (text : List Char) : List Char :=
  if text.getLast?.any isBreak then text else text ++ ['\n']

def pad (indent : Nat) : List Char :=
  List.replicate indent ' '

mutual

/-- What follows the colon of a field, or the hyphen of an item, that is indented. -/
def valueText (indent : Nat) : Tree → List Char
  | .text content => endLine (' ' :: ScalarWriting.write (indent + 2) content.toList)
  | .number value => endLine (' ' :: Nat.toDigits 10 value)
  | .sequence [] => " []\n".toList
  | .sequence items => '\n' :: itemsText indent items
  | .record fields => '\n' :: fieldsText (indent + 2) fields

/-- The lines of items. An item that is a record begins on the line of its hyphen. -/
def itemsText (indent : Nat) : List Tree → List Char
  | [] => []
  | .record fields :: rest =>
    pad indent ++ '-' :: ' ' :: (fieldsText (indent + 2) fields).drop (indent + 2)
      ++ itemsText indent rest
  | item :: rest => pad indent ++ '-' :: valueText indent item ++ itemsText indent rest

def fieldsText (indent : Nat) : List (String × Tree) → List Char
  | [] => []
  | (name, value) :: rest =>
    pad indent ++ name.toList ++ ':' :: valueText indent value ++ fieldsText indent rest

end

def documentText (fields : List (String × Tree)) : String :=
  String.ofList (fieldsText 0 fields)

end Tree

end ClassWeaver.Yaml
