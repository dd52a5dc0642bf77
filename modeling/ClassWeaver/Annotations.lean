import ClassWeaver.Text.Blank
import ClassWeaver.Text.Search
import ClassWeaver.Text.Word

set_option autoImplicit false

/-!
Annotations in declarations: an at sign, a name of word characters and dots, and possibly arguments
in parentheses.
-/

namespace ClassWeaver.Annotations

def isNamePart (c : Char) : Bool :=
  Text.isWord c || c == '.'

/-- The rest after the arguments that may follow an annotation's name, with blanks in front of them
if `spaced` allows it. Arguments end with the first closing parenthesis. -/
def afterArguments (spaced : Bool) (text : List Char) : List Char :=
  match if spaced then Text.trimStart text else text with
  | '(' :: rest => if rest.contains ')' then Text.dropThrough [')'] rest else text
  | _ => text

private theorem afterArguments_length (spaced : Bool) (text : List Char) :
    (afterArguments spaced text).length ≤ text.length := by
  unfold afterArguments
  split
  · next rest front =>
    split
    · have cut := Text.length_dropThrough_le [')'] rest
      have whole : (if spaced then Text.trimStart text else text).length ≤ text.length := by
        split
        · exact (List.dropWhile_suffix _).length_le
        · exact Nat.le_refl _
      rw [front, List.length_cons] at whole
      omega
    · exact Nat.le_refl _
  · exact Nat.le_refl _

def replaceAll (spaced : Bool) (filling : List Char) : List Char → List Char
  | [] => []
  | c :: rest =>
    if c == '@' && ! (rest.takeWhile isNamePart).isEmpty then
      filling ++ replaceAll spaced filling (afterArguments spaced (rest.dropWhile isNamePart))
    else c :: replaceAll spaced filling rest
termination_by text => text.length
decreasing_by
  · have first := afterArguments_length spaced (rest.dropWhile isNamePart)
    have second := (List.dropWhile_suffix (l := rest) isNamePart).length_le
    simp only [List.length_cons]
    omega
  · simp

end ClassWeaver.Annotations
