import ClassWeaver.Proofs.Yaml.Layout

set_option autoImplicit false

/-!
The characters of a document that has been laid out. All of them may be written as they are, so the
document is accepted as it stands.

Main statement: `Token.ofText_fieldsText`.
-/

namespace ClassWeaver.Yaml

open ScalarWriting

theorem isAllowed_of_isPlainlyWritten {c : Char} (written : isPlainlyWritten c = true) :
    isAllowed c = true := by
  simp only [isPlainlyWritten, Bool.or_eq_true, Bool.and_eq_true] at written
  simp only [isAllowed, Bool.or_eq_true, Bool.and_eq_true]
  rcases written with (feed | ascii) | ⟨plane, -⟩ <;> simp_all

theorem normalizeBreaks_eq_self {text : List Char}
    (written : ∀ c ∈ text, isPlainlyWritten c = true) : normalizeBreaks text = text := by
  fun_induction normalizeBreaks with
  | case1 => rfl
  | case2 rest ih => exact absurd (written '\r' (by simp)) (by decide)
  | case3 c rest _ ih =>
    obtain ⟨first, written⟩ := List.forall_mem_cons.1 written
    have noReturn : c ≠ '\r' := by rintro rfl; exact absurd first (by decide)
    have noNextLine : c ≠ '\u0085' := by rintro rfl; exact absurd first (by decide)
    simp [noReturn, noNextLine, ih written]

namespace ScalarWriting

theorem isPlainlyWritten_of_mem_toDigits {base : Nat} (spell : Char → Char) (one_lt : 1 < base)
    (each : ∀ d < base, isPlainlyWritten (spell d.digitChar) = true) (n : Nat) :
    ∀ c ∈ Nat.toDigits base n, isPlainlyWritten (spell c) = true := by
  induction n using Nat.strongRecOn with
  | ind n ih =>
    rw [Nat.toDigits_eq_if one_lt]
    split
    next lt => simpa using each n lt
    next not_lt =>
      have smaller : n / base < n := Nat.div_lt_self (by omega) one_lt
      have last := each (n % base) (Nat.mod_lt n (by omega))
      exact List.forall_mem_append.2 ⟨ih _ smaller, List.forall_mem_singleton.2 last⟩

theorem isPlainlyWritten_of_mem_decimal (n : Nat) :
    ∀ c ∈ Nat.toDigits 10 n, isPlainlyWritten c = true :=
  isPlainlyWritten_of_mem_toDigits id (by decide) (by decide) n

theorem isPlainlyWritten_of_mem_hexDigits (width code : Nat) :
    ∀ c ∈ hexDigits width code, isPlainlyWritten c = true := by
  intro c mem
  rcases List.mem_append.1 mem with zero | digit
  · rw [List.eq_of_mem_replicate zero]
    decide
  · obtain ⟨d, found, rfl⟩ := List.mem_map.1 digit
    exact isPlainlyWritten_of_mem_toDigits _ (by decide) (by decide) code d found

theorem isPlainlyWritten_of_mem_escape (c : Char) :
    ∀ d ∈ escape c, isPlainlyWritten d = true := by
  unfold escape
  split
  all_goals try decide
  have digits (width : Nat) := isPlainlyWritten_of_mem_hexDigits width c.toNat
  split
  · exact List.forall_mem_cons.2 ⟨by decide, digits 2⟩
  split
  · exact List.forall_mem_cons.2 ⟨by decide, digits 4⟩
  · exact List.forall_mem_cons.2 ⟨by decide, digits 8⟩

theorem mem_indentAfterBreaks {indent : Nat} {broken : Bool} {text : List Char} {c : Char}
    (mem : c ∈ indentAfterBreaks indent broken text) : c = ' ' ∨ c ∈ text := by
  induction text generalizing broken with
  | nil => exact .inr mem
  | cons d text ih =>
    unfold indentAfterBreaks at mem
    split at mem
    next =>
      rcases List.mem_cons.1 mem with rfl | mem
      · exact .inr List.mem_cons_self
      · exact (ih mem).imp_right (List.mem_cons_of_mem d)
    next =>
      rcases List.mem_append.1 mem with pad | mem
      · split at pad
        next => exact .inl (List.eq_of_mem_replicate pad)
        next => cases pad
      · rcases List.mem_cons.1 mem with rfl | mem
        · exact .inr List.mem_cons_self
        · exact (ih mem).imp_right (List.mem_cons_of_mem d)

theorem isPlainlyWritten_of_mem_doubled {text : List Char}
    (written : ∀ c ∈ text, isPlainlyWritten c = true) :
    ∀ c ∈ doubled text, isPlainlyWritten c = true := by
  intro c mem
  obtain ⟨d, found, spelled⟩ := List.mem_flatMap.1 mem
  obtain rfl : c = d := by
    split at spelled <;> simp_all
  exact written c found

theorem isPlainlyWritten_of_mem_spelled (c : Char) :
    ∀ d ∈ spelled c, isPlainlyWritten d = true := by
  unfold spelled
  split
  next => exact List.forall_mem_cons.2 ⟨by decide, isPlainlyWritten_of_mem_escape c⟩
  next written =>
    simp only [Bool.or_eq_true, not_or] at written
    simpa using written.1.1.1

theorem isPlainlyWritten_of_mem_indentAfterBreaks {text : List Char}
    (written : ∀ c ∈ text, isPlainlyWritten c = true) (indent : Nat) (broken : Bool) :
    ∀ c ∈ indentAfterBreaks indent broken text, isPlainlyWritten c = true := by
  intro c mem
  rcases mem_indentAfterBreaks mem with rfl | mem
  · decide
  · exact written c mem

theorem isPlainlyWritten_of_mem_literal {text : List Char}
    (written : ∀ c ∈ text, isPlainlyWritten c = true) (indent : Nat) :
    ∀ c ∈ literal indent text, isPlainlyWritten c = true := by
  have width (p : Prop) [Decidable p] :
      ∀ c ∈ if p then ['2'] else [], isPlainlyWritten c = true := by
    split <;> decide
  have chomped : ∀ c ∈ chomping text, isPlainlyWritten c = true := by
    unfold chomping
    split
    · decide
    split
    · decide
    split <;> decide
  refine List.forall_mem_cons.2 ⟨by decide, List.forall_mem_append.2
    ⟨List.forall_mem_append.2 ⟨width _, chomped⟩, List.forall_mem_cons.2 ⟨by decide, ?_⟩⟩⟩
  exact isPlainlyWritten_of_mem_indentAfterBreaks written indent true

theorem isPlainlyWritten_of_mem_write (indent : Nat) (text : List Char) :
    ∀ c ∈ write indent text, isPlainlyWritten c = true := by
  unfold write
  cases style : styleOf text with
  | plain =>
    exact isPlainlyWritten_of_needsEscapes (of_fitsPlain (of_styleOf_plain style).1).2.1
  | singleQuoted =>
    have fits := (of_styleOf_singleQuoted style).1
    simp only [fitsSingleQuotes, Bool.not_eq_true', Bool.or_eq_false_iff] at fits
    have written := isPlainlyWritten_of_needsEscapes fits.1.1
    have closed : ∀ c ∈ doubled text ++ ['\''], isPlainlyWritten c = true :=
      List.forall_mem_append.2
        ⟨isPlainlyWritten_of_mem_doubled written, List.forall_mem_singleton.2 (by decide)⟩
    exact List.forall_mem_cons.2
      ⟨by decide, isPlainlyWritten_of_mem_indentAfterBreaks closed indent false⟩
  | doubleQuoted =>
    have body : ∀ c ∈ text.flatMap spelled, isPlainlyWritten c = true := by
      intro c mem
      obtain ⟨d, -, spelled⟩ := List.mem_flatMap.1 mem
      exact isPlainlyWritten_of_mem_spelled d c spelled
    exact List.forall_mem_cons.2 ⟨by decide, List.forall_mem_append.2
      ⟨body, List.forall_mem_singleton.2 (by decide)⟩⟩
  | literal =>
    have written := isPlainlyWritten_of_needsEscapes (of_styleOf_literal style).2
    exact isPlainlyWritten_of_mem_literal written indent

end ScalarWriting

namespace Tree

theorem isPlainlyWritten_of_mem_pad (indent : Nat) :
    ∀ c ∈ pad indent, isPlainlyWritten c = true := by
  intro c mem
  rw [List.eq_of_mem_replicate mem]
  decide

theorem isPlainlyWritten_of_mem_endLine {text : List Char}
    (written : ∀ c ∈ text, isPlainlyWritten c = true) :
    ∀ c ∈ endLine text, isPlainlyWritten c = true := by
  unfold endLine
  split
  · exact written
  · exact List.forall_mem_append.2 ⟨written, by decide⟩

theorem isPlainlyWritten_of_isKey {name : String} (isKey : Progress.IsKey name.toList) :
    ∀ c ∈ name.toList, isPlainlyWritten c = true :=
  isPlainlyWritten_of_needsEscapes (of_fitsPlain isKey.fits).2.1

theorem isPlainlyWritten_of_mem_field {name : String} {indent : Nat} {value rest : List Char}
    (isKey : Progress.IsKey name.toList) (valueWritten : ∀ c ∈ value, isPlainlyWritten c = true)
    (restWritten : ∀ c ∈ rest, isPlainlyWritten c = true) :
    ∀ c ∈ pad indent ++ name.toList ++ ':' :: value ++ rest, isPlainlyWritten c = true := by
  refine List.forall_mem_append.2 ⟨List.forall_mem_append.2 ⟨List.forall_mem_append.2
    ⟨isPlainlyWritten_of_mem_pad indent, isPlainlyWritten_of_isKey isKey⟩, ?_⟩, restWritten⟩
  exact List.forall_mem_cons.2 ⟨by decide, valueWritten⟩

mutual

theorem isPlainlyWritten_of_mem_valueText {value : Tree} (regular : IsRegular value)
    (indent : Nat) : ∀ c ∈ valueText indent value, isPlainlyWritten c = true :=
  match regular with
  | .text content => by
    have written := isPlainlyWritten_of_mem_write (indent + 2) content.toList
    exact isPlainlyWritten_of_mem_endLine (List.forall_mem_cons.2 ⟨by decide, written⟩)
  | .number value => by
    have written := isPlainlyWritten_of_mem_decimal value
    exact isPlainlyWritten_of_mem_endLine (List.forall_mem_cons.2 ⟨by decide, written⟩)
  | @IsRegular.sequence items records => by
    cases items with
    | nil => exact (by decide : ∀ c ∈ [' ', '[', ']', '\n'], isPlainlyWritten c = true)
    | cons item items =>
      exact List.forall_mem_cons.2
        ⟨by decide, isPlainlyWritten_of_mem_itemsText records indent⟩
  | .record regular =>
    List.forall_mem_cons.2 ⟨by decide, isPlainlyWritten_of_mem_fieldsText regular (indent + 2)⟩

theorem isPlainlyWritten_of_mem_itemsText {items : List Tree} (records : AreRecords items)
    (indent : Nat) : ∀ c ∈ itemsText indent items, isPlainlyWritten c = true :=
  match records with
  | .nil => List.forall_mem_nil _
  | .cons regular others => by
    have fields := isPlainlyWritten_of_mem_fieldsText regular (indent + 2)
    refine List.forall_mem_append.2 ⟨List.forall_mem_append.2 ⟨isPlainlyWritten_of_mem_pad indent,
      ?_⟩, isPlainlyWritten_of_mem_itemsText others indent⟩
    exact List.forall_mem_cons.2 ⟨by decide, List.forall_mem_cons.2 ⟨by decide,
      fun c mem => fields c (List.mem_of_mem_drop mem)⟩⟩

theorem isPlainlyWritten_of_mem_fieldsText {fields : List (String × Tree)}
    (regular : AreFields fields) (indent : Nat) :
    ∀ c ∈ fieldsText indent fields, isPlainlyWritten c = true :=
  match regular with
  | .single isKey regular =>
    isPlainlyWritten_of_mem_field isKey (isPlainlyWritten_of_mem_valueText regular indent)
      (List.forall_mem_nil _)
  | .cons isKey regular others =>
    isPlainlyWritten_of_mem_field isKey (isPlainlyWritten_of_mem_valueText regular indent)
      (isPlainlyWritten_of_mem_fieldsText others indent)

end

end Tree

theorem Token.ofText_fieldsText {fields : List (String × Tree)} (regular : Tree.AreFields fields) :
    Token.ofText (Tree.fieldsText 0 fields)
      = some ((Tree.record fields).tokens ++ [.streamEnd]) := by
  have written := Tree.isPlainlyWritten_of_mem_fieldsText regular 0
  have allowed : (Tree.fieldsText 0 fields).all isAllowed = true :=
    List.all_eq_true.2 fun c mem => isAllowed_of_isPlainlyWritten (written c mem)
  simp [Token.ofText, allowed, normalizeBreaks_eq_self written, Progress.scan_fieldsText regular]

end ClassWeaver.Yaml
