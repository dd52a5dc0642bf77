import ClassWeaver.Proofs.Text.Trimming

set_option autoImplicit false

/-!
The first occurrence of a text in another one. Main statements: where it is depends on what stands in
front of it only, trimming takes the white space in front from there, and for a text whose first
character does not come again it is where the text in front has no other occurrence.
-/

namespace ClassWeaver.Text

variable {part before rest text found : List Char} {c : Char} {tail : List Char}

/-- Says that a text comes for the first time right behind another one. -/
def ComesFirst (part before : List Char) : Prop :=
  splitBefore? part (before ++ part) = some (before, part)

private theorem isPrefixOf_append (long : part.length ≤ text.length) (rest : List Char) :
    part.isPrefixOf (text ++ rest) = part.isPrefixOf text := by
  rw [Bool.eq_iff_iff, List.isPrefixOf_iff_prefix, List.isPrefixOf_iff_prefix]
  constructor
  · exact fun front => List.prefix_of_prefix_length_le front (List.prefix_append text rest) long
  · exact fun front => front.trans (List.prefix_append text rest)

private theorem map_cons_eq_some_iff {inner : Option (List Char × List Char)} :
    (inner.map fun (front, back) => (c :: front, back)) = some (c :: before, found) ↔
      inner = some (before, found) := by
  cases inner <;> simp [Prod.ext_iff]

theorem splitBefore?_append_iff (rest : List Char) :
    splitBefore? part (before ++ (part ++ rest)) = some (before, part ++ rest) ↔
      ComesFirst part before := by
  unfold ComesFirst
  induction before with
  | nil =>
    have here (text : List Char) : splitBefore? part (part ++ text) = some ([], part ++ text) := by
      cases part with
      | nil => cases text <;> simp [splitBefore?]
      | cons c tail => simp [splitBefore?]
    exact iff_of_true (here rest) (by simpa using here [])
  | cons c before ih =>
    have long : part.length ≤ (c :: (before ++ part)).length := by
      rw [List.length_cons, List.length_append]
      omega
    have same := isPrefixOf_append long rest
    rw [List.cons_append, List.append_assoc] at same
    rw [List.cons_append, List.cons_append, splitBefore?, splitBefore?, same]
    split
    · simp
    · rw [map_cons_eq_some_iff, map_cons_eq_some_iff, ih]

theorem ComesFirst.splitBefore? (first : ComesFirst part before) (rest : List Char) :
    Text.splitBefore? part (before ++ (part ++ rest)) = some (before, part ++ rest) :=
  (splitBefore?_append_iff rest).mpr first

theorem exists_of_splitBefore? (cut : splitBefore? part text = some (before, found)) :
    ∃ rest, found = part ++ rest ∧ text = before ++ (part ++ rest) ∧ ComesFirst part before := by
  obtain ⟨rest, rfl⟩ := isPrefix_of_splitBefore? cut
  obtain rfl := append_of_splitBefore? cut
  exact ⟨rest, rfl, rfl, (splitBefore?_append_iff rest).mp cut⟩

theorem exists_comesFirst (occurs : part <:+: text) :
    ∃ before rest, text = before ++ (part ++ rest) ∧ ComesFirst part before := by
  obtain ⟨⟨before, found⟩, cut⟩ := Option.isSome_iff_exists.mp (splitBefore?_isSome_iff.mpr occurs)
  obtain ⟨rest, -, whole, first⟩ := exists_of_splitBefore? cut
  exact ⟨before, rest, whole, first⟩

theorem ComesFirst.of_append {front : List Char} (first : ComesFirst part (front ++ before)) :
    ComesFirst part before := by
  induction front with
  | nil => exact first
  | cons c front ih =>
    refine ih ?_
    unfold ComesFirst at first ⊢
    rw [List.cons_append, List.cons_append, Text.splitBefore?] at first
    split at first
    · simp at first
    · exact map_cons_eq_some_iff.mp first

theorem ComesFirst.trimStart (first : ComesFirst part before) :
    ComesFirst part (Text.trimStart before) := by
  have whole : before.takeWhile isBlank ++ Text.trimStart before = before :=
    List.takeWhile_append_dropWhile
  rw [← whole] at first
  exact first.of_append

theorem comesFirst_iff (whole : part = c :: tail) (alone : c ∉ tail) :
    ComesFirst part before ↔ ¬ part <:+: before := by
  subst whole
  unfold ComesFirst
  induction before with
  | nil => simp [splitBefore?]
  | cons d before ih =>
    rw [List.cons_append, splitBefore?, List.infix_cons_iff, not_or]
    split
    · next front =>
      -- An occurrence that begins in front cannot reach into the next one.
      have inside : (c :: tail) <+: d :: before := by
        rw [List.isPrefixOf_iff_prefix, ← List.cons_append] at front
        rcases List.prefix_or_prefix_of_prefix front (List.prefix_append _ _) with
          inside | ⟨more, whole⟩
        · exact inside
        · cases more with
          | nil => exact ⟨[], by simpa using whole.symm⟩
          | cons e more =>
            rw [← whole, List.prefix_append_right_inj, whole] at front
            obtain ⟨rfl, -⟩ := List.cons_prefix_cons.mp front
            obtain ⟨-, rfl⟩ := List.cons.inj whole
            exact absurd (List.mem_append_right before List.mem_cons_self) alone
      simp [inside]
    · next front =>
      have outside : ¬ (c :: tail) <+: d :: before := by
        intro inside
        refine front (List.isPrefixOf_iff_prefix.mpr ?_)
        exact inside.trans (List.prefix_append (d :: before) (c :: tail))
      rw [map_cons_eq_some_iff, ih]
      simp [outside]

theorem comesFirst_concat (whole : part = c :: tail) (alone : c ∉ tail) {d : Char}
    (other : d ∉ part) (absent : ¬ part <:+: before) : ComesFirst part (before ++ [d]) := by
  rw [comesFirst_iff whole alone]
  intro found
  rcases isInfix_of_append_cons other found with found | found
  · exact absent found
  · simp [whole] at found

theorem isInfix_trimStart_append {part : List Char} (visible : ∀ c ∈ part, isBlank c = false)
    (found : part <:+: text ++ rest) : part <:+: trimStart text ++ rest := by
  induction text with
  | nil => exact found
  | cons d text ih =>
    rw [trimStart, List.dropWhile_cons]
    split
    · next blank =>
      have other : d ∉ part := fun inside => by
        rw [visible d inside] at blank
        cases blank
      have apart : part <:+: [] ++ d :: (text ++ rest) := found
      rcases isInfix_of_append_cons other apart with none | later
      · exact (List.infix_nil.mp none) ▸ (List.nil_infix)
      · exact ih later
    · exact found

theorem trimStart_append_cons (filled : isBlank c = false) (before rest : List Char) :
    trimStart (before ++ c :: rest) = trimStart before ++ c :: rest := by
  rw [trimStart, List.dropWhile_append]
  split
  · next none => rw [trimStart, List.isEmpty_iff.mp none]; simp [filled]
  · rfl

theorem trimEnd_append_cons (filled : isBlank c = false) (before rest : List Char) :
    trimEnd (before ++ c :: rest) = before ++ c :: trimEnd rest := by
  have whole : (before ++ c :: rest).reverse = (c :: rest).reverse ++ before.reverse := by simp
  have some : ((c :: rest).reverse.dropWhile isBlank).isEmpty = false := by
    rw [List.isEmpty_eq_false_iff]
    intro none
    rw [List.dropWhile_eq_nil_iff] at none
    have blank := none c (by simp)
    rw [filled] at blank
    cases blank
  have last := trimEnd_cons filled rest
  rw [trimEnd, dropWhileEnd] at last
  rw [trimEnd, dropWhileEnd, whole, List.dropWhile_append, some, if_neg Bool.false_ne_true,
    List.reverse_append, List.reverse_reverse, last]

theorem trimEnd_append_append (last : part.getLast?.any (! isBlank ·) = true)
    (before rest : List Char) :
    trimEnd (before ++ (part ++ rest)) = before ++ (part ++ trimEnd rest) := by
  obtain ⟨c, ends, filled⟩ := Option.any_eq_true _ _ |>.mp last
  rw [Bool.not_eq_true'] at filled
  obtain ⟨front, rfl⟩ := List.getLast?_eq_some_iff.mp ends
  have regroup (rest : List Char) :
      before ++ (front ++ [c] ++ rest) = (before ++ front) ++ c :: rest := by
    simp
  rw [regroup, regroup, trimEnd_append_cons filled]

theorem trim_append_append (ends : isTrim part = true) (before rest : List Char) :
    trim (before ++ (part ++ rest)) = trimStart before ++ (part ++ trimEnd rest) := by
  obtain ⟨first, last⟩ := Bool.and_eq_true_iff.mp ends
  rw [trim]
  cases part with
  | nil => cases first
  | cons c part =>
    have filled : isBlank c = false := by simpa using first
    rw [List.cons_append, trimStart_append_cons filled, ← List.cons_append,
      trimEnd_append_append last]

end ClassWeaver.Text
