set_option autoImplicit false

/-!
Sets of characters given as ranges of code points.
-/

namespace ClassWeaver.Text

abbrev Ranges := List (Nat × Nat)

/-- A character belongs to a set if one of the ranges holds its code point. -/
def Ranges.holds (ranges : Ranges) (c : Char) : Bool :=
  ranges.any fun range => range.1 ≤ c.toNat && c.toNat ≤ range.2

theorem Ranges.holds_of_apart {ranges others : Ranges}
    (apart : (ranges.all fun range => others.all fun other =>
      range.2.blt other.1 || other.2.blt range.1) = true)
    {c : Char} (held : others.holds c = true) : ranges.holds c = false := by
  obtain ⟨other, inOthers, hits⟩ := List.any_eq_true.1 held
  refine List.any_eq_false.2 fun range inRanges => ?_
  have clear := List.all_eq_true.1 (List.all_eq_true.1 apart range inRanges) other inOthers
  simp only [Bool.and_eq_true, decide_eq_true_eq, Bool.or_eq_true, Nat.blt_eq] at hits clear ⊢
  omega

def isAscii (c : Char) : Bool :=
  c.toNat < 128

end ClassWeaver.Text
