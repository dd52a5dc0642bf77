import ClassWeaver.Proofs.Yaml.Nodes
import ClassWeaver.Yaml.Shape

set_option autoImplicit false

/-!
The shapes of the nodes of a document that has been laid out: every value can be taken as what it
was written as.

Main statements: `Node.optional?_text` and `Node.list?_sequence`; `Node.record?_record`, a record has
its fields.
-/

namespace ClassWeaver.Yaml

open ScalarWriting (styleOf isWordPart)

namespace Tree

def isFieldName (name : String) : Bool :=
  ! name.toList.isEmpty && name.toList.length ≤ 1024 && name.toList.all isWordPart

theorem isKey_of_isFieldName {name : String} (isName : isFieldName name = true) :
    Progress.IsKey name.toList := by
  simp only [isFieldName, Bool.and_eq_true, List.all_eq_true] at isName
  obtain ⟨⟨notEmpty, short⟩, words⟩ := isName
  exact ⟨by simpa using notEmpty, ScalarWriting.fitsPlain_of_isWordPart words,
    by simpa using short⟩

def IsRecord (tree : Tree) : Prop :=
  ∃ fields, tree = .record fields ∧ AreFields fields

theorem IsRecord.isRegular {tree : Tree} (isRecord : tree.IsRecord) : tree.IsRegular := by
  obtain ⟨fields, rfl, regular⟩ := isRecord
  exact .record regular

theorem areFields_of_forall {fields : List (String × Tree)} (ne_nil : fields ≠ [])
    (regular : ∀ field ∈ fields, isFieldName field.1 = true ∧ field.2.IsRegular) :
    AreFields fields := by
  induction fields with
  | nil => exact absurd rfl ne_nil
  | cons field fields ih =>
    obtain ⟨⟨name, value⟩, others⟩ := List.forall_mem_cons.1 regular
    cases fields with
    | nil => exact .single (isKey_of_isFieldName name) value
    | cons next fields =>
      exact .cons (isKey_of_isFieldName name) value (ih (List.cons_ne_nil next fields) others)

theorem isRegular_sequence {α : Type} {list : List α} {tree : α → Tree}
    (records : ∀ a ∈ list, (tree a).IsRecord) : IsRegular (.sequence (list.map tree)) := by
  refine .sequence ?_
  induction list with
  | nil => exact .nil
  | cons a list ih =>
    obtain ⟨⟨fields, isRecord, regular⟩, others⟩ := List.forall_mem_cons.1 records
    rw [List.map_cons, isRecord]
    exact .cons regular (ih others)

end Tree

namespace Node

open ClassWeaver.Yaml.Tree (node)

theorem not_isAbsent_of_styleOf {text : String} (plain : styleOf text.toList = .plain) :
    isAbsent text = false := by
  have notAmbiguous := (ScalarWriting.of_styleOf_plain plain).2
  simp only [Resolution.isAmbiguous, Bool.or_eq_false_iff] at notAmbiguous
  obtain ⟨⟨⟨⟨⟨notEmpty, notNull⟩, -⟩, -⟩, -⟩, -⟩ := notAmbiguous
  simpa [isAbsent] using ⟨by simpa using notEmpty, by simpa using notNull⟩

@[simp] theorem text?_text (content : String) : (Tree.text content).node.text? = some content :=
  rfl

@[simp] theorem optional?_text (content : String) :
    optional? text? (Tree.text content).node = some (some content) := by
  simp only [Tree.node, optional?]
  cases style : styleOf content.toList with
  | plain => simp [not_isAbsent_of_styleOf style, text?]
  | singleQuoted | doubleQuoted | literal => rfl

theorem optional?_record {α : Type} (take : Node → Option α) (fields : List (String × Tree)) :
    optional? take (Tree.record fields).node = (take (Tree.record fields).node).map some :=
  rfl

theorem natural?_number {value : Nat} (lt : value < Nat.pow 2 64) :
    (Tree.number value).node.natural? = some value := by
  rw [Tree.node, natural?, String.toList_ofList, Resolution.natural?_toDigits, Option.filter_some,
    if_pos (decide_eq_true lt)]

theorem natural?_number_eq_none {value : Nat} (long : ¬ value < Nat.pow 2 64) :
    (Tree.number value).node.natural? = none := by
  rw [Tree.node, natural?, String.toList_ofList, Resolution.natural?_toDigits, Option.filter_some,
    if_neg (by simpa using long)]

theorem choice?_text {α : Type} (choices : List (String × α)) (content : String) :
    choice? choices (Tree.text content).node = choices.lookup content :=
  rfl

theorem list?_sequence {α β : Type} {take : Node → Option β} {list : List α} {tree : α → Tree}
    {result : α → β} (taken : ∀ a ∈ list, take (tree a).node = some (result a)) :
    list? take (Tree.sequence (list.map tree)).node = some (list.map result) := by
  have items : (Tree.itemNodes (list.map tree)).mapM take = some (list.map result) := by
    induction list with
    | nil => rfl
    | cons a list ih =>
      obtain ⟨first, others⟩ := List.forall_mem_cons.1 taken
      simp [Tree.itemNodes, first, ih others]
  exact items

theorem list?_sequence_eq_none {α β : Type} {take : Node → Option β} {list : List α}
    {tree : α → Tree} {a : α} (found : a ∈ list) (refused : take (tree a).node = none) :
    list? take (Tree.sequence (list.map tree)).node = none := by
  have items : (Tree.itemNodes (list.map tree)).mapM take = none := by
    induction list with
    | nil => cases found
    | cons first list ih =>
      rcases List.mem_cons.1 found with rfl | later
      · simp [Tree.itemNodes, refused]
      · simp [Tree.itemNodes, ih later]
  exact items

@[simp] theorem record?_record (fields : List (String × Tree)) :
    (Tree.record fields).node.record? = some (fields.map (Prod.map id Tree.node)) := by
  rw [Tree.node, record?]
  induction fields with
  | nil => rfl
  | cons field fields ih =>
    rw [Tree.entries, List.mapM_cons, ih]
    rfl

end Node

end ClassWeaver.Yaml
