import ClassWeaver.Proofs.Yaml.Scalars

set_option autoImplicit false

/-!
The tokens of a document that has been laid out. Its records open and close where the indentation
changes, and the items of a list stand below the name of their field.

Main statement: `scan_fieldsText`.
-/

namespace ClassWeaver.Yaml

open ScalarWriting

namespace Tree

mutual

/-- Documents whose structure shows in their text: records have fields, and the items of lists are
records. -/
inductive IsRegular : Tree → Prop where
  | text (content : String) : IsRegular (.text content)
  | number (value : Nat) : IsRegular (.number value)
  | sequence {items : List Tree} (records : AreRecords items) : IsRegular (.sequence items)
  | record {fields : List (String × Tree)} (regular : AreFields fields) : IsRegular (.record fields)

inductive AreRecords : List Tree → Prop where
  | nil : AreRecords []
  | cons {fields : List (String × Tree)} {items : List Tree} (regular : AreFields fields)
      (others : AreRecords items) : AreRecords (.record fields :: items)

inductive AreFields : List (String × Tree) → Prop where
  | single {name : String} {value : Tree} (isKey : Progress.IsKey name.toList)
      (regular : IsRegular value) : AreFields [(name, value)]
  | cons {name : String} {value : Tree} {fields : List (String × Tree)}
      (isKey : Progress.IsKey name.toList) (regular : IsRegular value) (others : AreFields fields) :
      AreFields ((name, value) :: fields)

end

mutual

def tokens : Tree → List Token
  | .text content => [.scalar (styleOf content.toList == .plain) content]
  | .number value => [.scalar true (String.ofList (Nat.toDigits 10 value))]
  | .sequence [] => [.flowSequenceStart, .flowSequenceEnd]
  | .sequence items => itemTokens items
  | .record fields => .blockMappingStart :: (fieldTokens fields ++ [.blockEnd])

def itemTokens : List Tree → List Token
  | [] => []
  | item :: items => .blockEntry :: (item.tokens ++ itemTokens items)

def fieldTokens : List (String × Tree) → List Token
  | [] => []
  | (name, value) :: fields =>
    .key :: .scalar true name :: .value :: (value.tokens ++ fieldTokens fields)

end

theorem atGap_valueText (indent : Nat) (value : Tree) (rest : List Char) :
    atGap (valueText indent value ++ rest) = true := by
  have afterSpace (text : List Char) : atGap (endLine (' ' :: text) ++ rest) = true := by
    unfold endLine
    split <;> rfl
  match value with
  | .text content => exact afterSpace _
  | .number value => exact afterSpace _
  | .sequence [] => rfl
  | .sequence (item :: items) => rfl
  | .record fields => rfl

end Tree

namespace Progress

open ClassWeaver.Yaml.Tree

/-- Whatever resumes after a text at a column does so with certain tokens in front of it, and within
certain structures as far as they do not end there. -/
def Reaches (progress : Progress) (text : List Char) (column : Nat) (tokens : List Token)
    (indents : List Nat) : Prop :=
  ∀ rest, Resumes rest → ∃ position : Position, position.column = column ∧
    scan 0 progress (text ++ (List.replicate column ' ' ++ rest))
      = scan 0 ((block position tokens indents true).unroll (column + 1)) rest

variable {position : Position} {tokens : List Token} {indents : List Nat}

theorem Reaches.of_scan (position : Position) {progress : Progress} {text : List Char}
    {column : Nat} (ends : (position.after (text ++ List.replicate column ' ')).column = column)
    (scanned : ∀ rest, Resumes rest → scan 0 progress (text ++ (List.replicate column ' ' ++ rest))
      = scan 0 (block (position.after (text ++ List.replicate column ' ')) tokens indents true)
          rest) :
    Reaches progress text column tokens indents := by
  intro rest resumes
  refine ⟨_, ends, (scanned rest resumes).trans ?_⟩
  rw [scan_unroll resumes, ends]

theorem Reaches.closes {progress : Progress} {text : List Char} {column indent : Nat}
    (reaches : Reaches progress text column tokens (indent :: indents)) (lt : column < indent) :
    Reaches progress text column (tokens ++ [Token.blockEnd]) indents := by
  intro rest resumes
  obtain ⟨position, ends, scanned⟩ := reaches rest resumes
  exact ⟨position, ends, by rw [scanned, unroll_of_lt lt]⟩

theorem Reaches.append {progress progress' : Progress} {text : List Char} {column : Nat}
    (reaches : Reaches progress' text column tokens indents) (front : List Char)
    (passes : ∀ rest, scan 0 progress (front ++ (text ++ rest)) = scan 0 progress' (text ++ rest)) :
    Reaches progress (front ++ text) column tokens indents := by
  intro rest resumes
  obtain ⟨position, ends, scanned⟩ := reaches rest resumes
  exact ⟨position, ends, by rw [List.append_assoc, passes, scanned]⟩

theorem Reaches.trans {progress : Progress} {text text' : List Char} {column column' : Nat}
    {tokens' : List Token} {indents' : List Nat}
    (reaches : Reaches progress text column tokens indents)
    (stay : ∀ indent ∈ indents.head?, indent ≤ column)
    (resumes : ∀ rest, Resumes (text' ++ rest))
    (next : ∀ position : Position, position.column = column →
      Reaches (block position tokens indents true) text' column' tokens' indents') :
    Reaches progress (text ++ (List.replicate column ' ' ++ text')) column' tokens' indents' := by
  intro rest resumesRest
  obtain ⟨position, ends, scanned⟩ := reaches _ (resumes (List.replicate column' ' ' ++ rest))
  rw [unroll_of_le stay] at scanned
  obtain ⟨position', ends', scanned'⟩ := next position ends rest resumesRest
  exact ⟨position', ends', by simpa using scanned.trans scanned'⟩

theorem scan_newLine (keyAllowed : Bool) (count : Nat) (rest : List Char) :
    scan 0 (block position tokens indents keyAllowed) ('\n' :: List.replicate count ' ' ++ rest)
      = scan 0 (block ((position.pass '\n').after (List.replicate count ' ')) tokens indents true)
          rest :=
  (scan_lineBreak _).trans (scan_spaces _ count rest)

theorem column_newLine (position : Position) (count : Nat) :
    ((position.pass '\n').after (List.replicate count ' ')).column = count := by
  rw [Position.column_after_spaces]
  exact Nat.zero_add count

theorem column_endLine (position : Position) (text : List Char) (count : Nat) :
    (position.after (endLine text ++ List.replicate count ' ')).column = count := by
  rw [Position.after_append, Position.column_after_spaces, Position.column_after_endLine,
    Nat.zero_add]

theorem reaches_text (content : String) {indent count : Nat} (lt : indent < position.column)
    (le : count ≤ indent) :
    Reaches (block position tokens (indent :: indents) false) (valueText indent (.text content))
      count (tokens ++ (Tree.text content).tokens) (indent :: indents) := by
  refine .of_scan position (column_endLine position _ count) fun rest resumes => ?_
  simpa [valueText, Tree.tokens] using scan_text lt le resumes content.toList

theorem reaches_number (value : Nat) {indent count : Nat} (lt : indent < position.column)
    (le : count ≤ indent) :
    Reaches (block position tokens (indent :: indents) false) (valueText indent (.number value))
      count (tokens ++ (Tree.number value).tokens) (indent :: indents) := by
  refine .of_scan position (column_endLine position _ count) fun rest resumes => ?_
  simpa [valueText, Tree.tokens] using scan_number lt le resumes value

theorem reaches_emptyList {indent count : Nat} (lt : indent < position.column) :
    Reaches (block position tokens (indent :: indents) false) (valueText indent (.sequence []))
      count (tokens ++ (Tree.sequence []).tokens) (indent :: indents) := by
  have text : valueText indent (.sequence []) = [' ', '[', ']', '\n'] := rfl
  have column : (position.pass ' ').column = position.column + 1 := rfl
  rw [text]
  refine .of_scan position ?_ fun rest resumes => ?_
  · rw [Position.after_append, Position.column_after_spaces]
    exact Nat.zero_add count
  · calc _ = scan 0 (block (position.pass ' ') tokens (indent :: indents) false)
          ('[' :: ']' :: '\n' :: (List.replicate count ' ' ++ rest)) := scan_space _
      _ = _ := scan_emptyList (by simp [column]; omega) _
      _ = _ := scan_spaces _ count rest
      _ = _ := by simp [Tree.tokens]

theorem itemsText_eq {items : List Tree} (ne_nil : items ≠ []) (indent : Nat) :
    itemsText indent items = List.replicate indent ' ' ++ (itemsText indent items).drop indent := by
  cases items with
  | nil => exact absurd rfl ne_nil
  | cons item items => cases item <;> simp [itemsText, pad]

theorem fieldsText_eq {fields : List (String × Tree)} (ne_nil : fields ≠ []) (indent : Nat) :
    fieldsText indent fields
      = List.replicate indent ' ' ++ (fieldsText indent fields).drop indent := by
  cases fields with
  | nil => exact absurd rfl ne_nil
  | cons field fields => simp [fieldsText, pad]

theorem ne_nil_of_areFields {fields : List (String × Tree)} (regular : AreFields fields) :
    fields ≠ [] := by
  cases regular <;> simp

theorem resumes_fields {fields : List (String × Tree)} (regular : AreFields fields) (indent : Nat)
    (rest : List Char) : Resumes ((fieldsText indent fields).drop indent ++ rest) := by
  cases regular with
  | single isKey | cons isKey =>
    simpa [fieldsText, pad] using resumes_of_fitsPlain isKey.fits isKey.ne_nil _

theorem resumes_items {item : Tree} {items : List Tree} (indent : Nat) (rest : List Char) :
    Resumes ((itemsText indent (item :: items)).drop indent ++ rest) := by
  intro c first
  obtain rfl : '-' = c := by cases item <;> simpa [itemsText, pad] using first
  decide

theorem keyIndents_eq {column : Nat} {indents : List Nat}
    (le : ∀ indent ∈ indents.head?, indent ≤ column) :
    ∃ outer, keyIndents column indents = column :: outer := by
  cases indents with
  | nil => exact ⟨[], rfl⟩
  | cons indent outer =>
    by_cases lt : indent < column
    · exact ⟨indent :: outer, by simp [keyIndents, lt]⟩
    · have same : indent = column := Nat.le_antisymm (le indent rfl) (Nat.le_of_not_lt lt)
      exact ⟨outer, by simp [keyIndents, same]⟩

theorem Reaches.key {name : String} (isKey : IsKey name.toList)
    (le : ∀ indent ∈ indents.head?, indent ≤ position.column) {text : List Char}
    (gap : ∀ rest, atGap (text ++ rest) = true) {column : Nat} {tokens' : List Token}
    {indents' : List Nat}
    (reaches : ∀ position' : Position, position.column < position'.column →
      Reaches (block position' (tokens ++ opening position.column indents
        ++ [Token.key, .scalar true name, .value]) (keyIndents position.column indents) false)
        text column tokens' indents') :
    Reaches (block position tokens indents true) (name.toList ++ ':' :: text) column tokens'
      indents' := by
  have isLater : position.column < (position.after (name.toList ++ [':'])).column := by
    rw [Position.after_append, Position.after_of_noBreak (of_fitsPlain isKey.fits).1.noBreak]
    simp only [Position.after_cons, Position.after_nil, Position.pass, isBreak, Char.reduceBEq,
      Bool.or_self, Bool.false_eq_true, if_false]
    omega
  have passed : Reaches (block position tokens indents true) (name.toList ++ [':'] ++ text) column
      tokens' indents' :=
    (reaches _ isLater).append (name.toList ++ [':']) fun rest => by
      simpa using scan_key isKey le (gap rest)
  simpa using passed

theorem Reaches.record {progress : Progress} {text : List Char} {column indent count : Nat}
    {fields : List (String × Tree)} (lt : indent < column) (le : count ≤ indent)
    (reaches : Reaches progress text count
      (tokens ++ opening column (indent :: indents) ++ fieldTokens fields)
      (keyIndents column (indent :: indents))) :
    Reaches progress text count (tokens ++ (Tree.record fields).tokens) (indent :: indents) := by
  have opened : opening column (indent :: indents) = [.blockMappingStart] := by simp [opening, lt]
  have inside : keyIndents column (indent :: indents) = column :: indent :: indents := by
    simp [keyIndents, lt]
  rw [opened, inside] at reaches
  simpa [Tree.tokens] using reaches.closes (Nat.lt_of_le_of_lt le lt)

theorem Reaches.fields {progress : Progress} {text : List Char} {column count : Nat}
    {fields : List (String × Tree)}
    (reaches : Reaches progress text count
      (tokens ++ opening column (column :: indents) ++ fieldTokens fields)
      (keyIndents column (column :: indents))) :
    Reaches progress text count (tokens ++ fieldTokens fields) (column :: indents) := by
  have opened : opening column (column :: indents) = [] := by simp [opening]
  have inside : keyIndents column (column :: indents) = column :: indents := by simp [keyIndents]
  rwa [opened, inside, List.append_nil] at reaches

mutual

/-- A value leads to its tokens. -/
theorem reaches_value {value : Tree} (regular : IsRegular value) {position : Position}
    {tokens : List Token} {indents : List Nat} {indent count : Nat}
    (lt : indent < position.column) (le : count ≤ indent) :
    Reaches (block position tokens (indent :: indents) false) (valueText indent value) count
      (tokens ++ value.tokens) (indent :: indents) :=
  match regular with
  | .text content => reaches_text content lt le
  | .number value => reaches_number value lt le
  | @IsRegular.sequence items records => by
    rcases items with _ | ⟨item, items⟩
    · exact reaches_emptyList lt
    · have text : valueText indent (.sequence (item :: items)) = '\n' :: List.replicate indent ' '
          ++ (itemsText indent (item :: items)).drop indent := by
        rw [List.cons_append, ← itemsText_eq (List.cons_ne_nil _ _)]
        rfl
      have column := column_newLine position indent
      rw [text]
      exact (reaches_items records (List.cons_ne_nil _ _) column le).append _
        fun rest => scan_newLine false indent _
  | @IsRegular.record fields regular => by
    have text : valueText indent (.record fields) = '\n' :: List.replicate (indent + 2) ' '
        ++ (fieldsText (indent + 2) fields).drop (indent + 2) := by
      rw [List.cons_append, ← fieldsText_eq (ne_nil_of_areFields regular)]
      rfl
    have column := column_newLine position (indent + 2)
    have stay : ∀ outer ∈ (indent :: indents).head?, outer ≤ indent + 2 := by
      rintro outer ⟨⟩
      omega
    rw [text]
    refine .record (show indent < indent + 2 by omega) le ?_
    exact (reaches_fields regular column (show count ≤ indent + 2 by omega) stay).append _
      fun rest => scan_newLine false (indent + 2) _

theorem reaches_items {items : List Tree} (records : AreRecords items) (ne_nil : items ≠ [])
    {position : Position} {tokens : List Token} {indents : List Nat} {column count : Nat}
    (here : position.column = column) (le : count ≤ column) :
    Reaches (block position tokens (column :: indents) true) ((itemsText column items).drop column)
      count (tokens ++ itemTokens items) (column :: indents) :=
  match records with
  | @AreRecords.cons fields items regular others => by
    have stay : ∀ outer ∈ (column :: indents).head?, outer ≤ column + 2 := by
      rintro outer ⟨⟩
      omega
    have later : (position.after ['-', ' ']).column = column + 2 := by
      simp [Position.pass, isBreak, here]
    have item {count : Nat} (le : count ≤ column) :
        Reaches (block position tokens (column :: indents) true)
          ('-' :: ' ' :: (fieldsText (column + 2) fields).drop (column + 2)) count
          (tokens ++ [Token.blockEntry] ++ (Tree.record fields).tokens) (column :: indents) := by
      refine .record (show column < column + 2 by omega) le ?_
      have le' : count ≤ column + 2 := by omega
      refine (reaches_fields regular later le' stay).append ['-', ' '] fun rest => ?_
      subst here
      exact scan_hyphen position tokens indents _
    rcases items with _ | ⟨next, items⟩
    · simpa [itemsText, itemTokens, pad] using item le
    · have more := (item (Nat.le_refl column)).trans (by simp) (resumes_items column)
        fun position' here => reaches_items others (List.cons_ne_nil next items) here le
      rw [← itemsText_eq (List.cons_ne_nil next items)] at more
      rw [itemsText]
      simpa [itemTokens, pad] using more

theorem reaches_fields {fields : List (String × Tree)} (regular : AreFields fields)
    {position : Position} {tokens : List Token} {indents : List Nat} {column count : Nat}
    (here : position.column = column) (le : count ≤ column)
    (stay : ∀ indent ∈ indents.head?, indent ≤ column) :
    Reaches (block position tokens indents true) ((fieldsText column fields).drop column) count
      (tokens ++ opening column indents ++ fieldTokens fields) (keyIndents column indents) :=
  match regular with
  | @AreFields.single name value isKey regular => by
    subst here
    obtain ⟨outer, inside⟩ := keyIndents_eq stay
    have key : Reaches (block position tokens indents true)
        (name.toList ++ ':' :: valueText position.column value) count _
        (position.column :: outer) :=
      .key isKey stay (atGap_valueText position.column value) fun position' lt => by
        rw [inside]
        exact reaches_value regular lt le
    simpa [fieldsText, fieldTokens, pad, inside] using key
  | @AreFields.cons name value fields isKey regular others => by
    subst here
    obtain ⟨outer, inside⟩ := keyIndents_eq stay
    have gap (rest : List Char) : atGap (valueText position.column value
        ++ fieldsText position.column fields ++ rest) = true := by
      rw [List.append_assoc]
      exact atGap_valueText position.column value _
    have key : Reaches (block position tokens indents true) (name.toList ++ ':' ::
        (valueText position.column value ++ fieldsText position.column fields)) count
        (tokens ++ opening position.column indents ++ [Token.key, .scalar true name, .value]
          ++ value.tokens ++ fieldTokens fields) (position.column :: outer) :=
      .key isKey stay gap fun position' lt => by
        rw [inside, fieldsText_eq (ne_nil_of_areFields others)]
        refine (reaches_value regular lt (Nat.le_refl _)).trans (by simp)
          (resumes_fields others position.column) fun position'' here => ?_
        exact (reaches_fields others here le (by simp)).fields
    simpa [fieldsText, fieldTokens, pad, inside] using key

end

theorem scan_fieldsText {fields : List (String × Tree)} (regular : AreFields fields) :
    start.scan 0 (fieldsText 0 fields)
      = some ((Tree.record fields).tokens ++ [Token.streamEnd]).toArray := by
  have reaches : Reaches (block ⟨0, 0, 0⟩ [] [] true) (fieldsText 0 fields) 0
      ([] ++ opening 0 [] ++ fieldTokens fields) [0] :=
    reaches_fields regular rfl (Nat.le_refl 0) (by simp)
  have begun : start = block ⟨0, 0, 0⟩ [] [] true := rfl
  obtain ⟨position, -, scanned⟩ := reaches [] (by simp [Resumes])
  rw [unroll_of_le (by simp [block])] at scanned
  have text : fieldsText 0 fields ++ (List.replicate 0 ' ' ++ []) = fieldsText 0 fields := by simp
  rw [text] at scanned
  rw [begun, scanned, scan, finish, dropStale_block]
  simp [opening, leaveBlocks, unroll, inFlow, block, closeFrom, dropPlace, allowKey, push,
    Tree.tokens]

end Progress

end ClassWeaver.Yaml
