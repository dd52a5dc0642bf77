set_option autoImplicit false

/-!
Searching and cutting texts. Main statements: a cut before the first occurrence of a text loses
nothing, and cutting at characters never gives the empty list of parts.
-/

namespace ClassWeaver.Text

def dropStart? : List Char → List Char → Option (List Char)
  | [], text => some text
  | _ :: _, [] => none
  | c :: start, d :: text => if c = d then dropStart? start text else none

def splitBefore? (part : List Char) : List Char → Option (List Char × List Char)
  | [] => if part = [] then some ([], []) else none
  | c :: rest =>
    if part.isPrefixOf (c :: rest) then some ([], c :: rest)
    else (splitBefore? part rest).map fun (before, found) => (c :: before, found)

theorem append_of_splitBefore? {part text before found : List Char}
    (cut : splitBefore? part text = some (before, found)) : before ++ found = text := by
  induction text generalizing before with
  | nil =>
    simp only [splitBefore?] at cut
    split at cut <;> simp_all
  | cons c rest ih =>
    simp only [splitBefore?] at cut
    split at cut
    · simp_all
    · obtain ⟨⟨left, right⟩, inner, same⟩ := Option.map_eq_some_iff.1 cut
      simp only [Prod.mk.injEq] at same
      obtain ⟨rfl, rfl⟩ := same
      simp [ih inner]

theorem isPrefix_of_splitBefore? {part text before found : List Char}
    (cut : splitBefore? part text = some (before, found)) : part <+: found := by
  induction text generalizing before with
  | nil =>
    simp only [splitBefore?] at cut
    split at cut <;> simp_all
  | cons c rest ih =>
    simp only [splitBefore?] at cut
    split at cut
    · next front =>
      obtain ⟨rfl, rfl⟩ := Prod.mk.inj (Option.some.inj cut)
      exact List.isPrefixOf_iff_prefix.1 front
    · obtain ⟨⟨left, right⟩, inner, same⟩ := Option.map_eq_some_iff.1 cut
      obtain ⟨rfl, rfl⟩ := Prod.mk.inj same
      exact ih inner

def splitAfter? (part text : List Char) : Option (List Char × List Char) :=
  (splitBefore? part text).map fun (before, found) =>
    (before ++ found.take part.length, found.drop part.length)

theorem append_of_splitAfter? {part text before rest : List Char}
    (cut : splitAfter? part text = some (before, rest)) : before ++ rest = text := by
  obtain ⟨⟨left, found⟩, inner, same⟩ := Option.map_eq_some_iff.1 cut
  simp only [Prod.mk.injEq] at same
  obtain ⟨rfl, rfl⟩ := same
  simp [append_of_splitBefore? inner]

/-- The text after the first occurrence of `part`, or the whole text without one. -/
def dropThrough (part text : List Char) : List Char :=
  ((splitAfter? part text).map (·.2)).getD text

theorem length_dropThrough_le (part text : List Char) :
    (dropThrough part text).length ≤ text.length := by
  unfold dropThrough
  cases cut : splitAfter? part text with
  | none => simp
  | some parts =>
    have whole := congrArg List.length (append_of_splitAfter? cut)
    simp only [List.length_append] at whole
    simp only [Option.map_some, Option.getD_some]
    omega

def contains (text part : List Char) : Bool :=
  (splitBefore? part text).isSome

def pushFront (c : Char) : List (List Char) → List (List Char)
  | [] => [[c]]
  | part :: parts => (c :: part) :: parts

def splitWhere (p : Char → Bool) : List Char → List (List Char)
  | [] => [[]]
  | c :: rest => if p c then [] :: splitWhere p rest else pushFront c (splitWhere p rest)

theorem splitWhere_ne_nil (p : Char → Bool) (text : List Char) : splitWhere p text ≠ [] := by
  cases text with
  | nil => simp [splitWhere]
  | cons c rest =>
    simp only [splitWhere]
    split
    · simp
    · cases splitWhere p rest <;> simp [pushFront]

def takeWhileEnd (p : Char → Bool) (text : List Char) : List Char :=
  (text.reverse.takeWhile p).reverse

def dropWhileEnd (p : Char → Bool) (text : List Char) : List Char :=
  (text.reverse.dropWhile p).reverse

theorem dropWhileEnd_append_takeWhileEnd (p : Char → Bool) (text : List Char) :
    dropWhileEnd p text ++ takeWhileEnd p text = text := by
  rw [dropWhileEnd, takeWhileEnd, ← List.reverse_append, List.takeWhile_append_dropWhile,
    List.reverse_reverse]

end ClassWeaver.Text
