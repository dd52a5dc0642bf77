import ClassWeaver.Text.Ranges
import ClassWeaver.Text.Search

set_option autoImplicit false

/-!
White space: the Unicode property, and the five blanks of ASCII that separate source code; trimming
and splitting at it. Main statement: the ASCII blanks are white space.
-/

namespace ClassWeaver.Text

def blankRanges : Ranges := [
  (0x85, 0x85), (0xA0, 0xA0), (0x1680, 0x1680), (0x2000, 0x200A), (0x2028, 0x2029),
  (0x202F, 0x202F), (0x205F, 0x205F), (0x3000, 0x3000)]

def isBlank (c : Char) : Bool :=
  if isAscii c then (9 ≤ c.toNat && c.toNat ≤ 13) || c == ' ' else blankRanges.holds c

theorem toNat_of_isBlank_of_isAscii {c : Char} (blank : isBlank c = true)
    (ascii : isAscii c = true) : c.toNat ∈ [9, 10, 11, 12, 13, 32] := by
  simp only [isBlank, ascii, if_true, Bool.or_eq_true, Bool.and_eq_true, decide_eq_true_eq,
    beq_iff_eq] at blank
  rcases blank with ⟨low, high⟩ | rfl
  · simp only [List.mem_cons, List.not_mem_nil, or_false]
    omega
  · decide

def isAsciiBlank (c : Char) : Bool :=
  c == ' ' || c == '\t' || c == '\n' || c == '\x0C' || c == '\r'

theorem isBlank_of_isAsciiBlank {c : Char} (blank : isAsciiBlank c = true) : isBlank c = true := by
  simp only [isAsciiBlank, Bool.or_eq_true, beq_iff_eq] at blank
  rcases blank with (((rfl | rfl) | rfl) | rfl) | rfl <;> decide

def trimStart (text : List Char) : List Char :=
  text.dropWhile isBlank

def trimEnd (text : List Char) : List Char :=
  dropWhileEnd isBlank text

def trim (text : List Char) : List Char :=
  trimEnd (trimStart text)

def trimmed (text : String) : String :=
  String.ofList (trim text.toList)

def words (text : List Char) : List (List Char) :=
  (splitWhere isBlank text).filter (! ·.isEmpty)

end ClassWeaver.Text
