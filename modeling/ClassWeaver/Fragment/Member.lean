import ClassWeaver.Fragment.Key

set_option autoImplicit false

/-!
What a member of a class body is, read off its header: the text before its body, its initializer or
its semicolon.
-/

namespace ClassWeaver.Fragment.Member

/-- Words that make a member with a parameter list a constructor if nothing else precedes the name.
-/
def modifiers : List String := [
  "public", "protected", "private", "static", "final", "abstract", "synchronized", "native",
  "strictfp", "default"]

def typeKeywords : List String := ["class", "interface", "enum", "record"]

/-- Replaces every comment by a blank. A comment that is not closed is no comment. -/
def blankComments : List Char → List Char
  | [] => []
  | '/' :: '/' :: rest => ' ' :: blankComments (rest.dropWhile (· != '\n'))
  | '/' :: '*' :: rest =>
    if Text.contains rest ['*', '/'] then ' ' :: blankComments (Text.dropThrough ['*', '/'] rest)
    else '/' :: blankComments ('*' :: rest)
  | c :: rest => c :: blankComments rest
termination_by text => text.length
decreasing_by
  · have shorter := (List.dropWhile_suffix (l := rest) (· != '\n')).length_le
    simp only [List.length_cons]
    omega
  · have shorter := Text.length_dropThrough_le ['*', '/'] rest
    simp only [List.length_cons]
    omega
  · simp
  · simp

/-- Cuts a code text before its body, initializer or end, where `depth` parentheses are open, and
says whether a body follows. -/
def splitHeader : Int → List Char → List Char × Bool
  | _, [] => ([], false)
  | depth, c :: rest =>
    if depth == 0 && c == '\x7b' then ([], true)
    else if depth == 0 && (c == '=' || c == ';') then ([], false)
    else
      let depth := if c == '(' then depth + 1 else if c == ')' then depth - 1 else depth
      let (header, hasBody) := splitHeader depth rest
      (c :: header, hasBody)

/-- The header of a member without comments and annotations, and whether a body follows it. -/
def header (text : List Char) : List Char × Bool :=
  let (header, hasBody) := splitHeader 0 (Annotations.replaceAll true [' '] (blankComments text))
  (Text.trim header, hasBody)

def isTypeParameters (word : List Char) : Bool :=
  word.head? == some '<' && word.getLast? == some '>'

def dropEnd (ending text : List Char) : List Char :=
  ((Text.dropStart? ending.reverse text.reverse).map List.reverse).getD text

def isFieldName (word : List Char) : Bool :=
  word.all fun c => c.isAlphanum || c == '_' || c == '$'

/-- The key of a member with a parameter list: a constructor if only modifiers and type parameters
stand before the name. -/
def invocableKey (header beforeParams : List Char) : Key :=
  match Signature.ofDeclarationChars? header with
  | none => .unclassified
  | some signature =>
    let front := dropEnd signature.name.toList (Text.trimEnd beforeParams)
    let isModifier (word : List Char) :=
      modifiers.contains (String.ofList word) || isTypeParameters word
    if (Text.words front).all isModifier then .ofConstructor signature else .ofMethod signature

/-- The key of a member without a parameter list: an attribute if a type stands before its name. -/
def fieldKey (header : List Char) : Key :=
  let parts := Text.words header
  match parts.getLast? with
  | some name =>
    if isFieldName name && 2 ≤ parts.length then .attributeOf (String.ofList name)
    else .unclassified
  | none => .unclassified

/-- The key of a member. Nested types, initializer blocks and what has no recognizable header are
unclassified. -/
def key (text : List Char) : Key :=
  let (header, hasBody) := header text
  let beforeParams := header.takeWhile (· != '(')
  if (Text.words beforeParams).any fun word => typeKeywords.contains (String.ofList word) then
    .unclassified
  else if header.contains '(' then invocableKey header beforeParams
  else if hasBody then .unclassified
  else fieldKey header

end ClassWeaver.Fragment.Member
