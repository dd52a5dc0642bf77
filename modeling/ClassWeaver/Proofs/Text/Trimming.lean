import ClassWeaver.Text.Blank
import Mathlib.Data.List.DropRight

set_option autoImplicit false

/-!
Trimming texts and searching in them. Main statements: trimming twice is trimming once, blanks in
front of a text or behind it do not matter, and what begins a text after blanks is found there.
-/

namespace ClassWeaver.Text

-- Characters are finitely many, so that without this all of them might be tested, not those listed.
instance (priority := 2000) decidableForallMem {α : Type} (listed : List α) (holds : α → Prop)
    [DecidablePred holds] : Decidable (∀ a, a ∈ listed → holds a) :=
  List.decidableBAll holds listed

def isTrim (text : List Char) : Bool :=
  text.head?.any (! isBlank ·) && text.getLast?.any (! isBlank ·)

theorem trimStart_append {blanks text : List Char} (blank : ∀ c ∈ blanks, isBlank c = true) :
    trimStart (blanks ++ text) = trimStart text := by
  rw [trimStart, List.dropWhile_append_of_pos blank, ← trimStart]

theorem trimStart_of_filled {text : List Char} (filled : text.head?.all (! isBlank ·) = true) :
    trimStart text = text := by
  cases text with
  | nil => rfl
  | cons c text =>
      have first : isBlank c = false := by simpa using filled
      simp [trimStart, first]

theorem trimEnd_append {blanks text : List Char} (blank : ∀ c ∈ blanks, isBlank c = true) :
    trimEnd (text ++ blanks) = trimEnd text := by
  have blank' : ∀ c ∈ blanks.reverse, isBlank c = true := by simpa using blank
  rw [trimEnd, dropWhileEnd, List.reverse_append, List.dropWhile_append_of_pos blank', ← dropWhileEnd,
    ← trimEnd]

theorem trimEnd_of_filled {text : List Char} (filled : text.getLast?.all (! isBlank ·) = true) :
    trimEnd text = text := by
  refine List.rdropWhile_eq_self_iff.mpr fun some => ?_
  simpa [List.getLast?_eq_some_getLast some] using filled

theorem trimEnd_cons {c : Char} (filled : isBlank c = false) (text : List Char) :
    trimEnd (c :: text) = c :: trimEnd text := by
  rw [trimEnd, dropWhileEnd, List.reverse_cons, List.dropWhile_append]
  split
  · next none => simp [trimEnd, dropWhileEnd, List.isEmpty_iff.mp none, filled]
  · simp [trimEnd, dropWhileEnd]

theorem trimStart_trimStart (text : List Char) : trimStart (trimStart text) = trimStart text :=
  List.dropWhile_idempotent isBlank text

theorem trimEnd_trimEnd (text : List Char) : trimEnd (trimEnd text) = trimEnd text :=
  List.rdropWhile_idempotent isBlank text

private theorem filter_not_dropWhile (p : Char → Bool) (text : List Char) :
    (text.dropWhile p).filter (! p ·) = text.filter (! p ·) := by
  induction text with
  | nil => rfl
  | cons c text ih =>
      cases here : p c with
      | true => simpa [here] using ih
      | false => rw [List.dropWhile_cons_of_neg (by simp [here])]

theorem filter_trimStart (text : List Char) :
    (trimStart text).filter (! isBlank ·) = text.filter (! isBlank ·) :=
  filter_not_dropWhile isBlank text

theorem filter_trim (text : List Char) :
    (trim text).filter (! isBlank ·) = text.filter (! isBlank ·) := by
  rw [trim, trimEnd, dropWhileEnd, List.filter_reverse, filter_not_dropWhile, List.filter_reverse,
    List.reverse_reverse, filter_trimStart]

theorem trim_ne_nil {text : List Char} (visible : text.any (! isBlank ·) = true) :
    trim text ≠ [] := by
  intro none
  have kept := filter_trim text
  rw [none, List.filter_nil, eq_comm, List.filter_eq_nil_iff] at kept
  obtain ⟨c, found, here⟩ := List.any_eq_true.mp visible
  exact kept c found here

theorem getLast?_trim (text : List Char) : (trim text).getLast?.all (! isBlank ·) = true := by
  have first := List.head?_dropWhile_not isBlank (trimStart text).reverse
  rw [trim, trimEnd, dropWhileEnd, List.getLast?_reverse]
  cases shown : ((trimStart text).reverse.dropWhile isBlank).head? with
  | none => rfl
  | some c => simpa [shown] using first

theorem trim_isInfix (text : List Char) : trim text <:+: text :=
  (List.rdropWhile_prefix isBlank _).isInfix.trans (List.dropWhile_suffix isBlank).isInfix

theorem trim_blanks_append {blanks : List Char} (blank : ∀ c ∈ blanks, isBlank c = true)
    (text : List Char) : trim (blanks ++ text) = trim text := by
  rw [trim, trimStart_append blank, trim]

theorem trim_append_blanks {blanks : List Char} (text : List Char)
    (blank : ∀ c ∈ blanks, isBlank c = true) : trim (text ++ blanks) = trim text := by
  rw [trim, trim, trimStart, List.dropWhile_append, ← trimStart]
  split
  · next none =>
      have rest : ∀ c ∈ blanks.dropWhile isBlank, isBlank c = true := fun c found =>
        blank c ((List.dropWhile_suffix _).subset found)
      rw [List.isEmpty_iff.mp none]
      exact List.rdropWhile_eq_nil_iff.mpr rest
  · exact trimEnd_append blank

theorem trim_of_isTrim {text : List Char} (trimmed : isTrim text = true) : trim text = text := by
  obtain ⟨first, last⟩ := Bool.and_eq_true_iff.mp trimmed
  have front : trimStart text = text := by
    refine trimStart_of_filled ?_
    cases text with
    | nil => rfl
    | cons c text => simpa using first
  rw [trim, front]
  refine trimEnd_of_filled ?_
  cases shown : text.getLast? with
  | none => rfl
  | some c => simpa [shown] using last

theorem trimStart_trimEnd {text : List Char} (filled : text.head?.all (! isBlank ·) = true) :
    trimStart (trimEnd text) = trimEnd text := by
  refine trimStart_of_filled ?_
  cases text with
  | nil => rfl
  | cons c text =>
      have first : isBlank c = false := by simpa using filled
      simp [trimEnd_cons first, first]

theorem head?_trimStart (text : List Char) : (trimStart text).head?.all (! isBlank ·) = true := by
  have first := List.head?_dropWhile_not isBlank text
  rw [← trimStart] at first
  cases shown : (trimStart text).head? with
  | none => rfl
  | some c => simpa [shown] using first

theorem exists_trim (text : List Char) : ∃ front back, (∀ c ∈ front, isBlank c = true) ∧
    (∀ c ∈ back, isBlank c = true) ∧ text = front ++ trim text ++ back := by
  refine ⟨text.takeWhile isBlank, takeWhileEnd isBlank (trimStart text), fun c found => ?_,
    fun c found => ?_, ?_⟩
  · exact List.mem_takeWhile_imp found
  · rw [takeWhileEnd, List.mem_reverse] at found
    exact List.mem_takeWhile_imp found
  · rw [List.append_assoc, trim, trimEnd, dropWhileEnd_append_takeWhileEnd, trimStart,
      List.takeWhile_append_dropWhile]

theorem trim_trim (text : List Char) : trim (trim text) = trim text := by
  rw [trim, trim, trimStart_trimEnd (head?_trimStart text), trimEnd_trimEnd]

theorem trimmed_trimmed (text : String) : trimmed (trimmed text) = trimmed text := by
  rw [trimmed, trimmed, String.toList_ofList, trim_trim]

theorem isPrefix_trimStart_append {word first : List Char} (filled : word ≠ [])
    (front : word <+: trimStart first) (rest : List Char) : word <+: trimStart (first ++ rest) := by
  have some : (first.dropWhile isBlank).isEmpty = false := by
    rw [← trimStart, List.isEmpty_eq_false_iff]
    rintro none
    rw [none, List.prefix_nil] at front
    exact filled front
  rw [trimStart, List.dropWhile_append, some]
  exact front.trans (List.prefix_append _ rest)

theorem splitBefore?_append {part before rest : List Char} {c : Char} {tail : List Char}
    (whole : part = c :: tail) (other : c ∉ before) (found : part <+: rest) :
    splitBefore? part (before ++ rest) = some (before, rest) := by
  induction before with
  | nil =>
      cases rest with
      | nil => simp [whole] at found
      | cons d rest => simp [splitBefore?, List.isPrefixOf_iff_prefix.mpr found]
  | cons d before ih =>
      rw [List.mem_cons, not_or] at other
      have differ : part.isPrefixOf (d :: (before ++ rest)) = false := by
        rw [whole, List.isPrefixOf, beq_false_of_ne other.1, Bool.false_and]
      rw [List.cons_append, splitBefore?, differ, ih other.2]
      simp

theorem splitBefore?_isSome_iff {part text : List Char} :
    (splitBefore? part text).isSome = true ↔ part <:+: text := by
  constructor
  · intro found
    obtain ⟨⟨before, rest⟩, cut⟩ := Option.isSome_iff_exists.mp found
    have whole := append_of_splitBefore? cut
    exact (isPrefix_of_splitBefore? cut).isInfix.trans ⟨before, [], by simpa using whole⟩
  · rintro ⟨before, after, rfl⟩
    induction before with
    | nil =>
        cases part with
        | nil => cases after <;> simp [splitBefore?]
        | cons c part => simp [splitBefore?]
    | cons c before ih =>
        simp only [List.append_assoc, List.cons_append] at ih ⊢
        rw [splitBefore?]
        split
        · rfl
        · simpa using ih

theorem contains_iff {text part : List Char} : contains text part = true ↔ part <:+: text :=
  splitBefore?_isSome_iff

theorem contains_eq_false_iff {text part : List Char} :
    contains text part = false ↔ ¬ part <:+: text := by
  rw [← Bool.not_eq_true, contains_iff]

theorem splitBefore?_eq_none {part text : List Char} (absent : contains text part = false) :
    splitBefore? part text = none := by
  simpa [contains] using absent

theorem isInfix_of_append_cons {part a b : List Char} {c : Char} (other : c ∉ part)
    (found : part <:+: a ++ c :: b) : part <:+: a ∨ part <:+: b := by
  obtain ⟨before, after, whole⟩ := found
  rcases List.append_eq_append_iff.mp whole with ⟨front, same, rest⟩ | ⟨front, same, rest⟩
  · exact .inl ⟨before, front, by rw [same]⟩
  · cases front with
    | nil => exact .inl ⟨before, [], by simpa using same⟩
    | cons d front =>
        obtain ⟨rfl, rfl⟩ := List.cons.inj rest
        rcases List.append_eq_append_iff.mp same with ⟨middle, rfl, hit⟩ | ⟨middle, rfl, hit⟩
        · have inside : c ∈ part := by simp [hit]
          exact absurd inside other
        · cases middle with
          | nil =>
              have inside : c ∈ part := by
                rw [← (show c :: front = part from hit)]
                exact List.mem_cons_self
              exact absurd inside other
          | cons e middle =>
              obtain ⟨-, rfl⟩ := List.cons.inj hit
              exact .inr ⟨middle, after, rfl⟩

theorem isInfix_append_cons_iff {part a b : List Char} {c : Char} (other : c ∉ part) :
    part <:+: a ++ c :: b ↔ part <:+: a ∨ part <:+: b := by
  refine ⟨isInfix_of_append_cons other, ?_⟩
  rintro (found | found)
  · exact found.trans (List.prefix_append a (c :: b)).isInfix
  · exact found.trans ((List.suffix_cons c b).trans (List.suffix_append a (c :: b))).isInfix

end ClassWeaver.Text
