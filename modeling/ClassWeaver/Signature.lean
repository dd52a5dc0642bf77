import ClassWeaver.Annotations
import ClassWeaver.Name

set_option autoImplicit false

/-!
Signatures of methods and constructors: a name and the types of the parameters, without white space.
Generated members and members found in a source file get their keys from signatures, so that a
member generated once is found again.
-/

namespace ClassWeaver

/-- The name of a method or constructor and its parameter types in order. -/
structure Signature where
  name : String
  paramTypes : List String
  deriving DecidableEq, Repr

namespace Signature

def withoutBlanks (text : List Char) : String :=
  String.ofList (text.filter (! Text.isBlank ·))

def normalizeType (type : String) : String :=
  withoutBlanks type.toList

/-- The signature of a name and the types of its parameters as they are written. -/
def ofTypes (name : String) (types : List String) : Signature :=
  ⟨name, types.map normalizeType⟩

def text (signature : Signature) : String :=
  signature.name ++ "(" ++ ",".intercalate signature.paramTypes ++ ")"

def nesting (c : Char) : Int :=
  if c == '<' || c == '(' || c == '[' then 1
  else if c == '>' || c == ')' || c == ']' then -1
  else 0

/-- The parts of a parameter list between the commas at depth zero, starting at `depth`. -/
def splitCommas : Int → List Char → List (List Char)
  | _, [] => [[]]
  | depth, c :: rest =>
    if c == ',' && depth == 0 then [] :: splitCommas depth rest
    else Text.pushFront c (splitCommas (depth + nesting c) rest)

/-- The parameters of a list, trimmed; nothing after the last comma is no parameter. -/
def splitParams (params : List Char) : List (List Char) :=
  let parts := (splitCommas 0 params).map Text.trim
  if parts.getLast?.all (·.isEmpty) then parts.dropLast else parts

/-- Drops the modifier `final` in front of a type, as often as it stands there. -/
def dropFinal (param : List Char) : List Char :=
  match param with
  | 'f' :: 'i' :: 'n' :: 'a' :: 'l' :: c :: rest =>
    if Text.isBlank c then dropFinal (Text.trimStart rest) else param
  | _ => param
termination_by param.length
decreasing_by
  have shorter := (List.dropWhile_suffix (l := rest) Text.isBlank).length_le
  simp only [Text.trimStart, List.length_cons]
  omega

/-- The type in a parameter declaration: what stands before the name, or the only word if there is
no name. Annotations and `final` do not belong to it. -/
def paramTypeChars (param : List Char) : String :=
  let bare := dropFinal (Text.trim (Annotations.replaceAll false [] param))
  let type := Text.trim (Text.dropWhileEnd Name.isPart bare)
  if type.isEmpty then withoutBlanks bare else withoutBlanks type

def paramType (param : String) : String :=
  paramTypeChars param.toList

/-- The text up to the parenthesis that closes the one before it, where `inner` more are open. -/
def untilClosed? : Nat → List Char → Option (List Char)
  | _, [] => none
  | inner, c :: rest =>
    if c == '(' then (untilClosed? (inner + 1) rest).map (c :: ·)
    else if c == ')' then
      match inner with
      | 0 => some []
      | inner + 1 => (untilClosed? inner rest).map (c :: ·)
    else (untilClosed? inner rest).map (c :: ·)

/-- The signature in a declaration such as `public Person withFriends(Person... value)`, if the
text has a name and a closed parameter list after it. -/
def ofDeclarationChars? (declaration : List Char) : Option Signature :=
  match declaration.dropWhile (· != '(') with
  | [] => none
  | _ :: rest =>
    let head := Text.trimEnd (declaration.takeWhile (· != '('))
    let name := Text.takeWhileEnd Name.isPart head
    if name.isEmpty then none
    else (untilClosed? 0 rest).map fun params =>
      ⟨String.ofList name, (splitParams params).map paramTypeChars⟩

def ofDeclaration? (declaration : String) : Option Signature :=
  ofDeclarationChars? declaration.toList

end Signature

end ClassWeaver
