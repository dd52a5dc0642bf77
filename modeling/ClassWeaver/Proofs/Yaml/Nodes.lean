import ClassWeaver.Proofs.Yaml.Characters
import ClassWeaver.Yaml.Node

set_option autoImplicit false

/-!
The nodes of a document that has been laid out. Records become mappings and lists become sequences;
no node has a name or a tag.

Main statement: `Node.read_documentText`.
-/

namespace ClassWeaver.Yaml

open ScalarWriting (styleOf)

namespace Tree

mutual

def node : Tree → Node
  | .text content => .scalar none (styleOf content.toList == .plain) content
  | .number value => .scalar none true (String.ofList (Nat.toDigits 10 value))
  | .sequence items => .sequence none (itemNodes items)
  | .record fields => .mapping none (entries fields)

def itemNodes : List Tree → List Node
  | [] => []
  | item :: items => item.node :: itemNodes items

def entries : List (String × Tree) → List (Node × Node)
  | [] => []
  | (name, value) :: fields => (.scalar none true name, value.node) :: entries fields

end

end Tree

namespace Node

def Takes {α : Type} (read : Reading α) (tokens rest : List Token) (a : α) : Prop :=
  ∀ input : Input,
    read { input with tokens := tokens ++ rest } = some (a, { input with tokens := rest })

variable {fuel : Nat} {place : Place} {tokens rest : List Token}

theorem Takes.skip {α : Type} {next : Reading α} {a : α} {token : Token}
    (takes : Takes next tokens rest a) :
    Takes (do Node.skip; next) (token :: tokens) rest a :=
  fun input => takes input

theorem Takes.bind {α β : Type} {read : Reading α} {next : α → Reading β} {front : List Token}
    {a : α} {b : β} (takes : Takes read front (tokens ++ rest) a)
    (takes' : Takes (next a) tokens rest b) :
    Takes (read >>= next) (front ++ tokens) rest b := by
  intro input
  change (read _).bind (fun state => next state.1 state.2) = _
  rw [List.append_assoc, takes input]
  exact takes' input

theorem Takes.map {α β : Type} {read : Reading α} (f : α → β) {a : α}
    (takes : Takes read tokens rest a) : Takes (do return f (← read)) tokens rest (f a) := by
  have returns : Takes (pure (f a)) [] rest (f a) := fun _ => rfl
  have bound : Takes (read >>= fun a => pure (f a)) (tokens ++ []) rest (f a) :=
    .bind takes returns
  rwa [List.append_nil] at bound

theorem Takes.then {α : Type} {yes no : Reading α} {a : α} {among : List Token} {token : Token}
    (next : among.contains token = true) (takes : Takes yes (token :: tokens) rest a) :
    Takes (do if ← isNext among then yes else no) (token :: tokens) rest a := by
  intro input
  change (if among.contains token = true then yes else no) _ = _
  rw [if_pos next]
  exact takes input

theorem Takes.else {α : Type} {yes no : Reading α} {a : α} {among : List Token}
    (next : (tokens ++ rest).head?.any among.contains = false) (takes : Takes no tokens rest a) :
    Takes (do if ← isNext among then yes else no) tokens rest a := by
  intro input
  change (if (tokens ++ rest).head?.any among.contains = true then yes else no) _ = _
  rw [next]
  exact takes input

/-- Tokens with which the content of a node begins, where neither a name nor a tag is in front. -/
def beginsContent : Token → Bool
  | .scalar _ _ | .flowSequenceStart | .flowMappingStart | .blockSequenceStart
  | .blockMappingStart | .blockEntry => true
  | _ => false

theorem Takes.node {token : Token} {a : Node} (begins : beginsContent token = true)
    (takes : Takes (content fuel place false none) (token :: tokens) rest a) :
    Takes (node (fuel + 1) place) (token :: tokens) rest a := by
  intro input
  have taken := takes input
  cases token <;> first | exact taken | cases begins

theorem Takes.nodeOrEmpty {token : Token} {a : Node} {ends : List Token}
    (begins : beginsContent token = true) (goesOn : ends.contains token = false)
    (takes : Takes (content fuel place false none) (token :: tokens) rest a) :
    Takes (nodeOrEmpty (fuel + 2) place ends) (token :: tokens) rest a := by
  rw [Node.nodeOrEmpty]
  exact .else goesOn (takes.node begins)

theorem takes_scalar (isPlain : Bool) (text : String) :
    Takes (content (fuel + 1) place false none) [Token.scalar isPlain text] rest
      (.scalar none isPlain text) := by
  intro input
  cases place <;> rfl

theorem takes_emptyList :
    Takes (content (fuel + 2) .blockEntry false none) [Token.flowSequenceStart, .flowSequenceEnd] rest
      (.sequence none []) :=
  fun _ => rfl

theorem Takes.looseSequence {items : List Node}
    (takes : Takes (looseItems fuel) (.blockEntry :: tokens) rest items) :
    Takes (content (fuel + 1) .blockEntry false none) (.blockEntry :: tokens) rest
      (.sequence none items) :=
  fun input => takes.map (Node.sequence none) input

theorem Takes.blockMapping {entries : List (Node × Node)} (outside : place ≠ .flow)
    (takes : Takes (blockEntries fuel) tokens rest entries) :
    Takes (content (fuel + 1) place false none) (.blockMappingStart :: tokens) rest
      (.mapping none entries) := by
  intro input
  have taken := takes.map (Node.mapping none) input
  cases place with
  | flow => exact absurd rfl outside
  | block | blockEntry => exact taken

theorem takes_noItem (ends : rest.head? ≠ some .blockEntry) :
    Takes (looseItems (fuel + 1)) [] rest [] := by
  have noItem : rest.head?.any [Token.blockEntry].contains = false := by
    cases rest with
    | nil => rfl
    | cons token rest => simpa using ends
  rw [looseItems]
  exact .else noItem fun _ => rfl

theorem Takes.looseItem {item : Node} {items : List Node} {token : Token} {front : List Token}
    (begins : beginsContent token = true) (noItem : token ≠ .blockEntry)
    (takes : Takes (content fuel .block false none) (token :: front) (tokens ++ rest) item)
    (others : Takes (looseItems (fuel + 2)) tokens rest items) :
    Takes (looseItems (fuel + 3)) (.blockEntry :: (token :: front ++ tokens)) rest
      (item :: items) := by
  have goesOn : [Token.blockEntry, .key, .value, .blockEnd].contains token = false := by
    cases token <;> first | rfl | exact absurd rfl noItem | cases begins
  rw [looseItems]
  exact .then rfl (.skip ((takes.nodeOrEmpty begins goesOn).bind (others.map (item :: ·))))

theorem takes_blockEnd : Takes (blockEntries (fuel + 1)) [Token.blockEnd] rest [] :=
  fun _ => rfl

theorem Takes.blockEntry {name : String} {node : Node} {entries : List (Node × Node)}
    {front : List Token}
    (begins : ∃ token tail, front = token :: tail ∧ beginsContent token = true)
    (takes : Takes (content fuel .blockEntry false none) front (tokens ++ rest) node)
    (others : Takes (blockEntries (fuel + 3)) tokens rest entries) :
    Takes (blockEntries (fuel + 4)) ([Token.key, .scalar true name, .value] ++ (front ++ tokens)) rest
      ((.scalar none true name, node) :: entries) := by
  obtain ⟨token, tail, rfl, begins⟩ := begins
  have goesOn : [Token.key, .value, .blockEnd].contains token = false := by
    cases token <;> first | rfl | cases begins
  have value : Takes (Node.value (fuel + 3) .blockEntry [Token.key, .value, .blockEnd])
      (.value :: token :: tail) (tokens ++ rest) node := by
    rw [Node.value]
    exact .then rfl (.skip (takes.nodeOrEmpty begins goesOn))
  have key (rest : List Token) : Takes (Node.nodeOrEmpty (fuel + 3) .blockEntry
      [Token.key, .value, .blockEnd]) [Token.scalar true name] rest (.scalar none true name) :=
    (takes_scalar true name).nodeOrEmpty rfl rfl
  rw [blockEntries]
  exact .then rfl (.skip ((key _).bind (value.bind (others.map ((_, node) :: ·)))))

end Node

namespace Tree

open Node (Takes content looseItems blockEntries beginsContent)

theorem exists_tokens (value : Tree) :
    ∃ token tokens, value.tokens = token :: tokens ∧ beginsContent token = true := by
  match value with
  | .text content => exact ⟨_, _, rfl, rfl⟩
  | .number value => exact ⟨_, _, rfl, rfl⟩
  | .sequence [] => exact ⟨_, _, rfl, rfl⟩
  | .sequence (item :: items) => exact ⟨_, _, rfl, rfl⟩
  | .record fields => exact ⟨_, _, rfl, rfl⟩

theorem head?_fieldTokens (fields : List (String × Tree)) (rest : List Token) :
    (fieldTokens fields ++ [Token.blockEnd] ++ rest).head? ≠ some .blockEntry := by
  cases fields <;> simp [fieldTokens]

theorem fieldTokens_cons (name : String) (value : Tree) (fields : List (String × Tree))
    (rest : List Token) : fieldTokens ((name, value) :: fields) ++ rest
      = [Token.key, .scalar true name, .value] ++ (value.tokens ++ (fieldTokens fields ++ rest)) := by
  simp [fieldTokens]

mutual

theorem takes_value {value : Tree} (regular : IsRegular value) {fuel : Nat} {rest : List Token}
    (enough : 3 * value.tokens.length + 2 ≤ fuel) (ends : rest.head? ≠ some .blockEntry) :
    Takes (content fuel .blockEntry false none) value.tokens rest value.node :=
  match regular with
  | .text content => by
    obtain ⟨fuel, rfl⟩ := Nat.exists_eq_add_of_le' (show 1 ≤ fuel by omega)
    exact Node.takes_scalar _ content
  | .number value => by
    obtain ⟨fuel, rfl⟩ := Nat.exists_eq_add_of_le' (show 1 ≤ fuel by omega)
    exact Node.takes_scalar true _
  | @IsRegular.sequence items records => by
    obtain ⟨fuel, rfl⟩ := Nat.exists_eq_add_of_le' (show 2 ≤ fuel by omega)
    rcases items with _ | ⟨item, items⟩
    · exact Node.takes_emptyList
    · exact .looseSequence (takes_items records (by simp [tokens] at enough; omega) ends)
  | .record regular => takes_record regular (by decide) (by omega)
termination_by (fuel, sizeOf value)

theorem takes_record {fields : List (String × Tree)} (regular : AreFields fields) {fuel : Nat}
    {rest : List Token} {place : Node.Place} (outside : place ≠ .flow)
    (enough : 3 * (Tree.record fields).tokens.length ≤ fuel) :
    Takes (content fuel place false none) (Tree.record fields).tokens rest
      (Tree.record fields).node := by
  simp only [tokens, List.length_cons, List.length_append, List.length_nil] at enough
  obtain ⟨fuel, rfl⟩ := Nat.exists_eq_add_of_le' (show 1 ≤ fuel by omega)
  exact .blockMapping outside (takes_fields regular (by omega))
termination_by (fuel, sizeOf fields)

theorem takes_items {items : List Tree} (records : AreRecords items) {fuel : Nat}
    {rest : List Token} (enough : 3 * (itemTokens items).length + 1 ≤ fuel)
    (ends : rest.head? ≠ some .blockEntry) :
    Takes (looseItems fuel) (itemTokens items) rest (itemNodes items) :=
  match records with
  | .nil => by
    obtain ⟨fuel, rfl⟩ := Nat.exists_eq_add_of_le' (show 1 ≤ fuel by omega)
    exact Node.takes_noItem ends
  | .cons regular others => by
    simp only [itemTokens, List.length_cons, List.length_append] at enough
    obtain ⟨fuel, rfl⟩ := Nat.exists_eq_add_of_le' (show 3 ≤ fuel by omega)
    exact .looseItem rfl (by decide) (takes_record regular (by decide) (by omega))
      (takes_items others (by omega) ends)
termination_by (fuel, sizeOf items)

theorem takes_fields {fields : List (String × Tree)} (regular : AreFields fields) {fuel : Nat}
    {rest : List Token} (enough : 3 * (fieldTokens fields).length + 1 ≤ fuel) :
    Takes (blockEntries fuel) (fieldTokens fields ++ [Token.blockEnd]) rest (entries fields) :=
  match regular with
  | @AreFields.single name value isKey regular => by
    simp only [fieldTokens, List.length_cons, List.length_append] at enough
    obtain ⟨fuel, rfl⟩ := Nat.exists_eq_add_of_le' (show 4 ≤ fuel by omega)
    have taken : Takes (content fuel .blockEntry false none) value.tokens
        ([Token.blockEnd] ++ rest) value.node :=
      takes_value regular (by omega) (by simp)
    rw [fieldTokens_cons]
    exact .blockEntry (exists_tokens value) taken Node.takes_blockEnd
  | @AreFields.cons name value fields isKey regular others => by
    simp only [fieldTokens, List.length_cons, List.length_append] at enough
    obtain ⟨fuel, rfl⟩ := Nat.exists_eq_add_of_le' (show 4 ≤ fuel by omega)
    have taken := takes_value regular (show 3 * value.tokens.length + 2 ≤ fuel by omega)
      (head?_fieldTokens fields rest)
    rw [fieldTokens_cons]
    exact .blockEntry (exists_tokens value) taken (takes_fields others (by omega))
termination_by (fuel, sizeOf fields)

end

end Tree

/-- A document that has been laid out is read as the node of its fields. -/
theorem Node.read_documentText {fields : List (String × Tree)} (regular : Tree.AreFields fields) :
    Node.read (Tree.documentText fields).toList = some (Tree.record fields).node := by
  have laidOut : (Tree.documentText fields).toList = Tree.fieldsText 0 fields := by
    simp [Tree.documentText]
  have taken : Takes
      (node (3 * ((Tree.record fields).tokens ++ [Token.streamEnd]).length + 3) .block)
      (Tree.record fields).tokens [Token.streamEnd] (Tree.record fields).node :=
    .node rfl (Tree.takes_record regular (by decide) (by simp; omega))
  have input : ofInput ⟨(Tree.record fields).tokens ++ [Token.streamEnd], #[], []⟩
      = some (Tree.record fields).node := by
    change (node _ .block ⟨_, #[], []⟩).bind _ = _
    rw [taken ⟨[], #[], []⟩]
    rfl
  rw [Node.read, laidOut, Token.ofText_fieldsText regular]
  -- The first token neither ends the document nor belongs to what stands in front of it.
  have first : (Tree.record fields).tokens ++ [Token.streamEnd]
      = .blockMappingStart :: (Tree.fieldTokens fields ++ [Token.blockEnd] ++ [Token.streamEnd]) := rfl
  rw [first] at input ⊢
  simpa [ofTokens, directives] using input

end ClassWeaver.Yaml
