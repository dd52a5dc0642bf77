import ClassWeaver.Proofs.TypeText

set_option autoImplicit false

/-!
Commas between parameters and commas inside brackets. Reading a text only its brackets and commas
matter, and the depth is counted for all kinds of brackets together, below zero too.

Main statements: `isCut_splitCommas`, cutting at the commas at depth zero leaves parts in which no
comma stands at depth zero, and `splitCommas_intercalate`, such parts are found again when they are
joined by commas.
-/

namespace ClassWeaver.Signature

open TypeText (isLevel pushAll pushAll_cons)

/-- The depth behind a text that is read from some depth on, if no comma of it stands at depth zero. -/
def depthAfter? : Int → List Char → Option Int
  | depth, [] => some depth
  | depth, c :: rest =>
    if c == ',' && depth == 0 then none else depthAfter? (depth + nesting c) rest

theorem depthAfter?_append (depth : Int) (a b : List Char) :
    depthAfter? depth (a ++ b) = (depthAfter? depth a).bind (depthAfter? · b) := by
  induction a generalizing depth with
  | nil => rfl
  | cons c a ih =>
    rw [List.cons_append, depthAfter?, depthAfter?]
    split
    · rfl
    · exact ih _

theorem depthAfter?_cons_of_isLevel {c : Char} (level : isLevel c = true) (depth : Int)
    (rest : List Char) : depthAfter? depth (c :: rest) = depthAfter? depth rest := by
  simp only [isLevel, Bool.and_eq_true, bne_iff_ne, ne_eq, beq_iff_eq] at level
  rw [depthAfter?, if_neg (by simp [level.1]), level.2, Int.add_zero]

theorem depthAfter?_append_of_isLevel {text : List Char} (level : ∀ c ∈ text, isLevel c = true)
    (depth : Int) (rest : List Char) : depthAfter? depth (text ++ rest) = depthAfter? depth rest := by
  induction text with
  | nil => rfl
  | cons c text ih =>
    rw [List.cons_append, depthAfter?_cons_of_isLevel (level c List.mem_cons_self)]
    exact ih fun d found => level d (List.mem_cons_of_mem c found)

theorem depthAfter?_of_isLevel {text : List Char} (level : ∀ c ∈ text, isLevel c = true)
    (depth : Int) : depthAfter? depth text = some depth := by
  simpa [depthAfter?] using depthAfter?_append_of_isLevel level depth []

theorem depthAfter?_append_level {text : List Char} (front : List Char)
    (level : ∀ c ∈ text, isLevel c = true) (depth : Int) :
    depthAfter? depth (front ++ text) = depthAfter? depth front := by
  rw [depthAfter?_append]
  cases depthAfter? depth front with
  | none => rfl
  | some after => exact depthAfter?_of_isLevel level after

theorem depthAfter?_filter {keeps : Char → Bool}
    (level : ∀ c, keeps c = false → isLevel c = true) (depth : Int) (text : List Char) :
    depthAfter? depth (text.filter keeps) = depthAfter? depth text := by
  induction text generalizing depth with
  | nil => rfl
  | cons c text ih =>
    cases kept : keeps c with
    | true =>
      rw [List.filter_cons_of_pos kept, depthAfter?, depthAfter?]
      split
      · rfl
      · exact ih _
    | false =>
      rw [List.filter_cons_of_neg (by simp [kept]), depthAfter?_cons_of_isLevel (level c kept)]
      exact ih depth

def openIn : List Char → Int
  | [] => 0
  | c :: text => nesting c + openIn text

theorem depthAfter?_eq_openIn {depth : Int} {text : List Char}
    (inside : ∀ front rest, text = front ++ ',' :: rest → depth + openIn front ≠ 0) :
    depthAfter? depth text = some (depth + openIn text) := by
  induction text generalizing depth with
  | nil => simp [depthAfter?, openIn]
  | cons c text ih =>
    have apart : ¬ ((c == ',' && depth == 0) = true) := by
      intro cut
      rw [Bool.and_eq_true, beq_iff_eq, beq_iff_eq] at cut
      exact inside [] text (by rw [cut.1]; rfl) (by simp [openIn, cut.2])
    rw [depthAfter?, if_neg apart, ih]
    · rw [openIn, Int.add_assoc]
    · intro front rest whole
      have later := inside (c :: front) rest (by rw [whole]; rfl)
      rwa [openIn, ← Int.add_assoc] at later

theorem splitCommas_append {depth after : Int} {text : List Char}
    (read : depthAfter? depth text = some after) (rest : List Char) :
    splitCommas depth (text ++ rest) = pushAll text (splitCommas after rest) := by
  induction text generalizing depth with
  | nil =>
    rw [Option.some.inj read]
    rfl
  | cons c text ih =>
    rw [depthAfter?] at read
    split at read
    · cases read
    · next inside =>
      rw [List.cons_append, splitCommas, if_neg inside, ih read]
      rfl

theorem splitCommas_ne_nil (depth : Int) (text : List Char) : splitCommas depth text ≠ [] := by
  cases text with
  | nil => simp [splitCommas]
  | cons c text =>
    rw [splitCommas]
    split
    · exact List.cons_ne_nil _ _
    · cases splitCommas (depth + nesting c) text <;> exact List.cons_ne_nil _ _

private theorem one_lt_length_splitCommas {depth : Int} {text : List Char}
    (cut : depthAfter? depth text = none) : 1 < (splitCommas depth text).length := by
  induction text generalizing depth with
  | nil => cases cut
  | cons c text ih =>
    rw [splitCommas]
    split
    · have := List.length_pos_iff.mpr (splitCommas_ne_nil depth text)
      rw [List.length_cons]
      omega
    · next inside =>
      rw [depthAfter?, if_neg inside] at cut
      have later := ih cut
      cases shown : splitCommas (depth + nesting c) text with
      | nil => simp [shown] at later
      | cons part parts => simpa [shown, Text.pushFront] using later

theorem depthAfter?_of_splitCommas {text : List Char} (unseen : ∀ rest,
    splitCommas 0 (text ++ rest) = pushAll text (splitCommas 0 rest)) :
    depthAfter? 0 text = some 0 := by
  cases read : depthAfter? 0 text with
  | none =>
    have alone := unseen []
    have parts := one_lt_length_splitCommas read
    rw [List.append_nil, splitCommas, pushAll_cons] at alone
    simp [alone] at parts
  | some after =>
    have comma := unseen [',']
    rw [splitCommas_append read] at comma
    by_cases level : after = 0
    · rw [level]
    · simp [splitCommas, level, Text.pushFront, pushAll_cons] at comma

/-- Parts as commas at depth zero leave them: no comma at depth zero in any of them, and depth zero
behind all but the last. -/
structure IsCut (parts : List (List Char)) : Prop where
  whole : ∀ part ∈ parts, (depthAfter? 0 part).isSome = true
  closed : ∀ part ∈ parts.dropLast, depthAfter? 0 part = some 0

namespace IsCut

variable {first : List Char} {parts rest : List (List Char)}

theorem singleton (whole : (depthAfter? 0 first).isSome = true) : IsCut [first] :=
  ⟨List.forall_mem_singleton.mpr whole, by simp⟩

theorem cons (closed : depthAfter? 0 first = some 0) (cut : IsCut rest) : IsCut (first :: rest) where
  whole := List.forall_mem_cons.mpr ⟨by rw [closed]; rfl, cut.whole⟩
  closed := by
    intro part found
    cases rest with
    | nil => simp at found
    | cons second rest =>
      rw [List.dropLast_cons_cons] at found
      rcases List.mem_cons.mp found with rfl | found
      · exact closed
      · exact cut.closed part found

theorem tail (cut : IsCut (first :: rest)) : IsCut rest where
  whole := (List.forall_mem_cons.mp cut.whole).2
  closed := by
    intro part found
    cases rest with
    | nil => simp at found
    | cons second rest =>
      refine cut.closed part ?_
      rw [List.dropLast_cons_cons]
      exact List.mem_cons_of_mem first found

theorem dropLast (cut : IsCut parts) : IsCut parts.dropLast where
  whole := fun part found => cut.whole part (List.dropLast_subset _ found)
  closed := fun part found => cut.closed part (List.dropLast_subset _ found)

theorem map (cut : IsCut parts) {change : List Char → List Char}
    (same : ∀ part ∈ parts, depthAfter? 0 (change part) = depthAfter? 0 part) :
    IsCut (parts.map change) where
  whole := by
    intro part found
    obtain ⟨old, inside, rfl⟩ := List.mem_map.mp found
    rw [same old inside]
    exact cut.whole old inside
  closed := by
    intro part found
    rw [← List.map_dropLast] at found
    obtain ⟨old, inside, rfl⟩ := List.mem_map.mp found
    rw [same old (List.dropLast_subset _ inside)]
    exact cut.closed old inside

end IsCut

private theorem exists_splitCommas (depth : Int) (text : List Char) :
    ∃ first rest, splitCommas depth text = first :: rest ∧
      (depthAfter? depth first).isSome = true ∧
        (rest ≠ [] → depthAfter? depth first = some 0) ∧ IsCut rest := by
  induction text generalizing depth with
  | nil => exact ⟨[], [], rfl, rfl, fun some => absurd rfl some, ⟨by simp, by simp⟩⟩
  | cons c text ih =>
    rw [splitCommas]
    split
    · next cut =>
      rw [Bool.and_eq_true, beq_iff_eq, beq_iff_eq] at cut
      obtain ⟨first, rest, shown, whole, closed, later⟩ := ih depth
      refine ⟨[], first :: rest, by rw [shown], rfl, fun _ => by rw [cut.2]; rfl, ?_⟩
      rw [cut.2] at whole closed
      cases rest with
      | nil => exact .singleton whole
      | cons second rest => exact later.cons (closed (by simp))
    · next inside =>
      obtain ⟨first, rest, shown, whole, closed, later⟩ := ih (depth + nesting c)
      refine ⟨c :: first, rest, by rw [shown]; rfl, ?_, ?_, later⟩
      · rwa [depthAfter?, if_neg inside]
      · rwa [depthAfter?, if_neg inside]

theorem isCut_splitCommas (text : List Char) : IsCut (splitCommas 0 text) := by
  obtain ⟨first, rest, shown, whole, closed, later⟩ := exists_splitCommas 0 text
  rw [shown]
  cases rest with
  | nil => exact .singleton whole
  | cons second rest => exact later.cons (closed (by simp))

/-- Parts joined by commas are found again. -/
theorem splitCommas_intercalate {parts : List (List Char)} (some : parts ≠ []) (cut : IsCut parts) :
    splitCommas 0 ([','].intercalate parts) = parts := by
  induction parts with
  | nil => exact absurd rfl some
  | cons first rest ih =>
    cases rest with
    | nil =>
      obtain ⟨after, read⟩ := Option.isSome_iff_exists.mp (cut.whole first List.mem_cons_self)
      have alone := splitCommas_append read []
      rw [List.append_nil] at alone
      rw [List.intercalate_singleton, alone, splitCommas, pushAll_cons, List.append_nil]
    | cons second rest =>
      have closed : depthAfter? 0 first = Option.some 0 := cut.closed first (by simp)
      have comma (text : List Char) : splitCommas 0 (',' :: text) = [] :: splitCommas 0 text := rfl
      rw [List.intercalate_cons_cons, List.append_assoc, splitCommas_append closed,
        List.singleton_append, comma, pushAll_cons, List.append_nil,
        ih (List.cons_ne_nil second rest) cut.tail]

end ClassWeaver.Signature
