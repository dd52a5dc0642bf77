import ClassWeaver.Proofs.Text.Trimming
import Mathlib.Data.List.TakeWhile

set_option autoImplicit false

/-!
Parts of texts between separators. Main statement: the words of two texts with a blank between them
are the words of the one and those of the other.
-/

namespace ClassWeaver.Text

variable {p : Char → Bool} {a b : List Char} {c : Char}

private theorem pushFront_append {parts : List (List Char)} (filled : parts ≠ [])
    (more : List (List Char)) : pushFront c (parts ++ more) = pushFront c parts ++ more := by
  cases parts with
  | nil => exact absurd rfl filled
  | cons part parts => rfl

theorem splitWhere_append_cons (separates : p c = true) :
    splitWhere p (a ++ c :: b) = splitWhere p a ++ splitWhere p b := by
  induction a with
  | nil => simp [splitWhere, separates]
  | cons d a ih =>
      rw [List.cons_append, splitWhere, splitWhere, ih]
      split
      · rfl
      · exact pushFront_append (splitWhere_ne_nil p a) _

theorem splitWhere_of_forall (absent : ∀ c ∈ a, p c = false) : splitWhere p a = [a] := by
  induction a with
  | nil => rfl
  | cons c a ih =>
      have here : p c = false := absent c List.mem_cons_self
      have rest := ih fun d found => absent d (List.mem_cons_of_mem c found)
      rw [splitWhere, here, rest]
      rfl

theorem exists_part_of_mem {text : List Char} (found : c ∈ text) (other : p c = false) :
    ∃ part ∈ splitWhere p text, c ∈ part := by
  induction text with
  | nil => simp at found
  | cons d text ih =>
      rw [splitWhere]
      rcases List.mem_cons.mp found with rfl | later
      · rw [other]
        cases shown : splitWhere p text with
        | nil => exact absurd shown (splitWhere_ne_nil p text)
        | cons part parts => exact ⟨c :: part, by simp [pushFront], List.mem_cons_self⟩
      · obtain ⟨part, inside, here⟩ := ih later
        split
        · exact ⟨part, List.mem_cons_of_mem _ inside, here⟩
        · cases shown : splitWhere p text with
          | nil => exact absurd shown (splitWhere_ne_nil p text)
          | cons first parts =>
              rw [shown] at inside
              rcases List.mem_cons.mp inside with rfl | inside
              · exact ⟨d :: part, List.mem_cons_self, List.mem_cons_of_mem d here⟩
              · exact ⟨part, List.mem_cons_of_mem _ inside, here⟩

private theorem splitWhere_finer {q : Char → Bool} (finer : ∀ c, p c = true → q c = true)
    (text : List Char) : ∃ first rest first' rest', splitWhere p text = first :: rest ∧
      splitWhere q text = first' :: rest' ∧ first' = first.takeWhile (! q ·) ∧
        ∀ part ∈ rest, (∀ c ∈ part, q c = false) → part ∈ rest' := by
  induction text with
  | nil => exact ⟨[], [], [], [], rfl, rfl, rfl, by simp⟩
  | cons c text ih =>
      obtain ⟨first, rest, first', rest', same, same', front, later⟩ := ih
      have all (part : List Char) (free : ∀ c ∈ part, q c = false) :
          part = first → part = first' := by
        rintro rfl
        have whole : part.takeWhile (! q ·) = part := by
          rw [List.takeWhile_eq_self_iff]
          exact fun d found => by simp [free d found]
        rw [front, whole]
      by_cases separates : p c = true
      · refine ⟨[], first :: rest, [], first' :: rest', by simp [splitWhere, separates, same],
          by simp [splitWhere, finer c separates, same'], rfl, ?_⟩
        intro part found free
        rcases List.mem_cons.mp found with here | found
        · rw [all part free here]
          exact List.mem_cons_self
        · exact List.mem_cons_of_mem _ (later part found free)
      · by_cases cut : q c = true
        · refine ⟨c :: first, rest, [], first' :: rest', by simp [splitWhere, separates, same, pushFront],
            by simp [splitWhere, cut, same'], by simp [cut], ?_⟩
          exact fun part found free => List.mem_cons_of_mem _ (later part found free)
        · refine ⟨c :: first, rest, c :: first', rest', by simp [splitWhere, separates, same, pushFront],
            by simp [splitWhere, cut, same', pushFront], by simp [cut, front], later⟩

theorem mem_splitWhere_of_finer {q : Char → Bool} (finer : ∀ c, p c = true → q c = true)
    {part text : List Char} (found : part ∈ splitWhere p text) (free : ∀ c ∈ part, q c = false) :
    part ∈ splitWhere q text := by
  obtain ⟨first, rest, first', rest', same, same', front, later⟩ := splitWhere_finer finer text
  rw [same] at found
  rw [same']
  rcases List.mem_cons.mp found with rfl | found
  · have whole : part.takeWhile (! q ·) = part := by
      rw [List.takeWhile_eq_self_iff]
      exact fun d inside => by simp [free d inside]
    rw [front, whole]
    exact List.mem_cons_self
  · exact List.mem_cons_of_mem _ (later part found free)

theorem words_append_cons (blank : isBlank c = true) : words (a ++ c :: b) = words a ++ words b := by
  rw [words, splitWhere_append_cons blank, List.filter_append, ← words, ← words]

theorem words_trimStart (text : List Char) : words (trimStart text) = words text := by
  induction text with
  | nil => rfl
  | cons c text ih =>
      rw [trimStart, List.dropWhile_cons]
      split
      · next blank =>
          have front := words_append_cons (a := []) (b := text) blank
          rw [← trimStart, ih]
          exact front.symm
      · rfl

theorem words_append_blanks {blanks : List Char} (blank : ∀ c ∈ blanks, isBlank c = true)
    (text : List Char) : words (text ++ blanks) = words text := by
  cases blanks with
  | nil => rw [List.append_nil]
  | cons c rest =>
    obtain ⟨here, later⟩ := List.forall_mem_cons.mp blank
    have none : trimStart rest = [] := List.dropWhile_eq_nil_iff.mpr later
    have nothing : words rest = [] := by
      rw [← words_trimStart, none]
      rfl
    rw [words_append_cons here, nothing, List.append_nil]

theorem words_of_visible (filled : a ≠ []) (visible : ∀ c ∈ a, isBlank c = false) :
    words a = [a] := by
  rw [words, splitWhere_of_forall visible]
  simp [filled]

theorem exists_word {text : List Char} (begins : text.head?.any (! isBlank ·) = true) :
    ∃ word ∈ words text, word.head? = text.head? := by
  cases text with
  | nil => simp at begins
  | cons c rest =>
      have visible : isBlank c = false := by simpa using begins
      cases shown : splitWhere isBlank rest with
      | nil => exact absurd shown (splitWhere_ne_nil _ rest)
      | cons first more =>
          refine ⟨c :: first, ?_, rfl⟩
          rw [words, splitWhere, visible, shown]
          simp [pushFront]

theorem dropStart?_append (start rest : List Char) : dropStart? start (start ++ rest) = some rest := by
  induction start with
  | nil => cases rest <;> rfl
  | cons c start ih => simp [dropStart?, ih]

end ClassWeaver.Text
