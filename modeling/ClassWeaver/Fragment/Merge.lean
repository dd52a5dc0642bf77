import ClassWeaver.Fragment.Key

set_option autoImplicit false

/-!
Merging the text generated for a fragment into the text that stands in the file. Class declarations
and attributes keep what was written around them by hand; all other texts are replaced. The places
where texts are joined are found by searching, the first occurrence wins.
-/

namespace ClassWeaver.Fragment

/-- A fragment with this text in it is never changed or removed. -/
def protectionMark : String :=
  "// no"

/-- What a class declaration says: the name and the clause that names the superclass. -/
structure Declared where
  name : List Char
  extendsClause : Option (List Char)
  deriving DecidableEq, Repr

/-- The beginning of a text up to the end of the blanks in front and the word after them. -/
def blanksAndWord? (isWordPart : Char → Bool) (text : List Char) :
    Option (List Char × List Char × List Char) :=
  let rest := Text.trimStart text
  let word := rest.takeWhile isWordPart
  if rest.length = text.length || word.isEmpty then none
  else some (text.takeWhile Text.isBlank, word, rest.dropWhile isWordPart)

def extendsClauseAt? (text : List Char) : Option (List Char) :=
  (Text.dropStart? "extends".toList text).bind fun rest =>
    (blanksAndWord? (! Text.isBlank ·) rest).map fun (blanks, name, _) =>
      "extends".toList ++ blanks ++ name

def declaredAt? (text : List Char) : Option Declared :=
  (Text.dropStart? "class".toList text).bind fun rest =>
    (blanksAndWord? Text.isWord rest).map fun (_, name, rest) =>
      ⟨name, extendsClauseAt? (Text.trimStart rest)⟩

def declared? : List Char → Option Declared
  | [] => none
  | c :: rest => declaredAt? (c :: rest) <|> declared? rest

/-- Takes the class name and the superclass from the new text and keeps what stands before the
declaration in the old text and its list of interfaces. Where the new text declares no class, or the
old text does not declare the same one, the new text stands. -/
def mergeClassDecl (old new : List Char) : List Char :=
  match declared? new with
  | none => new
  | some declared =>
    let declaration := "class ".toList ++ declared.name
    match Text.splitBefore? declaration old with
    | none => new
    | some (before, _) =>
      let clause := (declared.extendsClause.map (' ' :: ·)).getD []
      let interfaces :=
        match Text.splitBefore? "implements".toList old with
        | some (_, found) => ' ' :: found
        | none => ['\n', '\x7b']
      before ++ declaration ++ clause ++ interfaces

/-- Keeps what stands before the visibility in the old text and takes the rest from the new text. -/
def mergeAttribute (old new : List Char) : List Char :=
  match Text.splitBefore? "public".toList new, Text.splitBefore? "public".toList old with
  | some (_, found), some (before, _) => before ++ found
  | _, _ => new

/-- The text of a fragment after generating it anew, trimmed. A generated text with an annotation
replaces the old text as a whole. -/
def mergeChars (key : Key) (old new : List Char) : List Char :=
  Text.trim <|
    if new.contains '@' then new
    else
      match key with
      | .classDecl => mergeClassDecl old new
      | .attributeOf _ => mergeAttribute old new
      | _ => new

/-- The text of a fragment after generating it anew. -/
def mergeText (key : Key) (old new : String) : String :=
  String.ofList (mergeChars key old.toList new.toList)

end ClassWeaver.Fragment
