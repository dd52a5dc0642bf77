import ClassWeaver.Yaml.ScalarWriting

set_option autoImplicit false

/-!
Digits that are written and read back: the decimal digits of a number, and the hexadecimal digits of
a code point with the zeros in front of them.

Main statements: `natural?_toDigits` and `number?_hexDigits`.
-/

namespace ClassWeaver.Yaml

namespace Resolution

theorem digit?_of_hexadecimal {base d : Nat} {c : Char} (of_hexadecimal : digit? 16 c = some d)
    (lt : d < base) : digit? base c = some d := by
  unfold digit? at of_hexadecimal ⊢
  obtain ⟨value, -⟩ := Option.filter_eq_some_iff.1 of_hexadecimal
  exact Option.filter_eq_some_iff.2 ⟨value, by simpa using lt⟩

theorem digit?_digitChar {base d : Nat} (lt : d < base) (le : base ≤ 16) :
    digit? base d.digitChar = some d := by
  have all : ∀ d : Fin 16, digit? 16 d.val.digitChar = some d.val := by decide
  exact digit?_of_hexadecimal (all ⟨d, by omega⟩) lt

theorem digit?_toUpper_digitChar {d : Nat} (lt : d < 16) :
    digit? 16 d.digitChar.toUpper = some d := by
  have all : ∀ d : Fin 16, digit? 16 d.val.digitChar.toUpper = some d.val := by decide
  exact all ⟨d, lt⟩

theorem foldlM_toDigits {base : Nat} (spell : Char → Char) (one_lt : 1 < base)
    (reads : ∀ d < base, digit? base (spell d.digitChar) = some d) (n : Nat) :
    ((Nat.toDigits base n).map spell).foldlM
      (fun value c => (digit? base c).map (value * base + ·)) 0 = some n := by
  induction n using Nat.strongRecOn with
  | ind n ih =>
    rw [Nat.toDigits_eq_if one_lt]
    split
    next lt => simp [reads n lt]
    next not_lt =>
      have smaller : n / base < n := Nat.div_lt_self (by omega) one_lt
      have last := reads (n % base) (Nat.mod_lt n (by omega))
      simp [ih _ smaller, last, Nat.div_add_mod']

theorem number?_toDigits (n : Nat) : number? 10 (Nat.toDigits 10 n) = some n := by
  have read := foldlM_toDigits id (by decide)
    (fun d lt => digit?_digitChar lt (by decide : 10 ≤ 16)) n
  simpa [number?] using read

theorem number?_zeros (count : Nat) {digits : List Char} (ne_nil : digits ≠ []) :
    number? 16 (List.replicate count '0' ++ digits) = number? 16 digits := by
  have zero : digit? 16 '0' = some 0 := by decide
  have zeros : (List.replicate count '0').foldlM
      (fun value c => (digit? 16 c).map (value * 16 + ·)) 0 = some 0 := by
    induction count with
    | zero => rfl
    | succ count ih => simp [List.replicate_succ, zero, ih]
  simp [number?, ne_nil, List.foldlM_append, zeros]

theorem eq_zero_of_head?_toDigits {n : Nat} (head : (Nat.toDigits 10 n).head? = some '0') :
    n = 0 := by
  induction n using Nat.strongRecOn with
  | ind n ih =>
    rw [Nat.toDigits_eq_if (by decide)] at head
    split at head
    next lt =>
      have all : ∀ d : Fin 10, d.val.digitChar = '0' → d.val = 0 := by decide
      exact all ⟨n, lt⟩ (by simpa using head)
    next not_lt =>
      have front : (Nat.toDigits 10 (n / 10)).head? = some '0' := by
        simpa [List.head?_append, List.head?_eq_some_head Nat.toDigits_ne_nil] using head
      have := ih (n / 10) (by omega) front
      omega

theorem exists_toDigits (n : Nat) : ∃ c rest, Nat.toDigits 10 n = c :: rest ∧ c.isDigit = true ∧
    (c = '0' → rest = []) := by
  obtain ⟨c, rest, digits⟩ := List.exists_cons_of_ne_nil (Nat.toDigits_ne_nil (n := n) (b := 10))
  refine ⟨c, rest, digits, ?_, ?_⟩
  · exact Nat.isDigit_of_mem_toDigits (by decide) (by decide) (digits ▸ List.mem_cons_self)
  · rintro rfl
    have zero := eq_zero_of_head?_toDigits (n := n) (by rw [digits]; rfl)
    rw [zero, Nat.toDigits_zero] at digits
    exact (List.cons.inj digits).2.symm

theorem natural?_toDigits (n : Nat) : natural? (Nat.toDigits 10 n) = some n := by
  obtain ⟨c, rest, digits, isDigit, zeroAlone⟩ := exists_toDigits n
  have plus : c ≠ '+' := by rintro rfl; exact absurd isDigit (by decide)
  have minus : c ≠ '-' := by rintro rfl; exact absurd isDigit (by decide)
  have zeroLed : isZeroLed (c :: rest) = false := by
    by_cases zero : c = '0'
    · simp [isZeroLed, zero, zeroAlone zero]
    · simp [isZeroLed, plus, minus, zero]
  have radix : radix? (c :: rest) = none := by
    by_cases zero : c = '0'
    · simp [radix?, zero, zeroAlone zero]
    · simp [radix?, zero]
  have unsigned : unsigned (c :: rest) = c :: rest := by simp [unsigned, plus]
  rw [← number?_toDigits n, digits]
  simp [natural?, magnitude?, zeroLed, radix, unsigned]

end Resolution

namespace ScalarWriting

open Resolution (number?)

theorem length_hexDigits {width code : Nat} (lt : code < Nat.pow 16 width) (pos : 0 < width) :
    (hexDigits width code).length = width := by
  have := (Nat.length_toDigits_le_iff (b := 16) (n := code) (by decide) pos).2 lt
  simp [hexDigits]
  omega

theorem number?_hexDigits (width code : Nat) : number? 16 (hexDigits width code) = some code := by
  have read := Resolution.foldlM_toDigits Char.toUpper (by decide)
    (fun d lt => Resolution.digit?_toUpper_digitChar lt) code
  rw [hexDigits, Resolution.number?_zeros _ (by simp)]
  simpa [number?] using read

end ScalarWriting

end ClassWeaver.Yaml
