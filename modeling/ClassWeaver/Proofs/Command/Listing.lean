import ClassWeaver.Command.Run
import ClassWeaver.FileTree.Disk
import ClassWeaver.Proofs.Fragment.Lossless
import ClassWeaver.Proofs.Regeneration.Running

set_option autoImplicit false

/-!
What the listing of a file says. Main statement: a file that can be read is listed, in memory and on a
disk, with a row for each fragment that is neither a gap nor empty, and the row has the line on which
the text of the fragment begins in the file.
-/

namespace ClassWeaver

open Fragment (charsOf)

def Fragment.isShown (fragment : Fragment) : Bool :=
  fragment.key ≠ .gap && ! fragment.text.isEmpty

def lineAt (text : List Char) (offset : Nat) : Nat :=
  1 + (text.take offset).count '\n'

def Fragment.row (fragment : Fragment) (line : Nat) : String :=
  lineColumn line ++ "  " ++ fragment.key.written

namespace Fragment.Store

/-- The offset at which the text of a fragment begins: behind the texts in front of it. -/
def offset (store : Store) (position : Nat) : Nat :=
  (charsOf (store.fragments.take position)).length

variable {store : Store} {fragment : Fragment} {position : Nat}

theorem text_at_offset (found : (fragment, position) ∈ store.fragments.zipIdx) :
    ((charsOf store.fragments).drop (store.offset position)).take fragment.text.toList.length =
      fragment.text.toList := by
  obtain ⟨inside, same⟩ := List.mem_zipIdx' found
  have whole : charsOf store.fragments = charsOf (store.fragments.take position)
      ++ (store.fragments[position].text.toList ++ charsOf (store.fragments.drop (position + 1))) := by
    rw [← Fragment.charsOf_cons, ← Fragment.charsOf_append, ← List.drop_eq_getElem_cons inside,
      List.take_append_drop]
  rw [same, whole, offset, List.drop_left, List.take_left]

theorem lineAt_offset (store : Store) (position : Nat) :
    lineAt (charsOf store.fragments) (store.offset position) =
      1 + (charsOf (store.fragments.take position)).count '\n' := by
  have whole : charsOf store.fragments =
      charsOf (store.fragments.take position) ++ charsOf (store.fragments.drop position) := by
    rw [← Fragment.charsOf_append, List.take_append_drop]
  rw [lineAt, whole, offset, List.take_left]

/-- The induction is on the fragments that are still to be listed; the line counts the breaks in those
in front of them. -/
private theorem go_eq (before rest : List Fragment) :
    rows.go (1 + (charsOf before).count '\n') rest =
      ((rest.zipIdx before.length).filter (·.1.isShown)).map fun entry =>
        entry.1.row (1 + (charsOf ((before ++ rest).take entry.2)).count '\n') := by
  induction rest generalizing before with
  | nil => rfl
  | cons fragment rest ih =>
    have later := ih (before ++ [fragment])
    rw [Fragment.charsOf_append, List.count_append, Fragment.charsOf_cons, Fragment.charsOf_nil,
      List.append_nil, ← Nat.add_assoc, List.length_append, List.length_singleton, List.append_assoc,
      List.singleton_append] at later
    have here : (before ++ fragment :: rest).take before.length = before := List.take_left
    have hidden : (decide (fragment.key = .gap) || fragment.text.isEmpty) = ! fragment.isShown := by
      simp [isShown]
    rw [rows.go, later, List.zipIdx_cons, List.filter_cons, hidden]
    dsimp only
    cases shown : fragment.isShown with
    | false => rfl
    | true =>
      rw [if_neg (by decide), if_pos rfl, List.map_cons, here]
      rfl

theorem rows_eq (store : Store) :
    store.rows = (store.fragments.zipIdx.filter (·.1.isShown)).map fun entry =>
      entry.1.row (lineAt (charsOf store.fragments) (store.offset entry.2)) := by
  simp only [lineAt_offset]
  exact go_eq [] store.fragments

end Fragment.Store

namespace Disk

theorem run_holds (disk : Disk) (path : FilePath) :
    (Files.holds path : StateM Disk Bool).run disk = pure (disk.holds path, disk) :=
  rfl

theorem run_readText (disk : Disk) (path : FilePath) :
    (Files.readText path : StateM Disk (Except String String)).run disk =
      pure ((disk.readText path).mapError (·.message), disk) :=
  rfl

theorem holds_of_readText {disk : Disk} {path : FilePath} {text : String}
    (read : disk.readText path = .ok text) : disk.holds path = true := by
  obtain ⟨entry, found, -⟩ := exists_of_bind_eq_ok read
  rw [holds, found]
  rfl

end Disk

namespace Command

open Fragment (Store)

theorem run_runFragments {σ : Type} [Files (StateM σ)] {path : FilePath} {state after last : σ}
    {source : String} (there : (Files.holds path : StateM σ Bool).run state = pure (true, after))
    (read : (Files.readText path : StateM σ (Except String String)).run after =
      pure (.ok source, last)) :
    (runFragments path : StateM σ (Except CommandError String)).run state =
      pure (.ok ("\n".intercalate (Store.parse source).rows), last) := by
  rw [runFragments, StateT.run_bind, there, pure_bind]
  dsimp only
  rw [if_pos rfl, StateT.run_bind, read, pure_bind]
  rfl

/-- A file that can be read is listed with the fragments of its text that are neither gaps nor empty, in
their order, each with the line on which its text begins: one more than the line breaks in front of its
offset, at which its text is. -/
theorem runFragments_lists (source : String) :
    (∀ fragment position, (fragment, position) ∈ (Store.parse source).fragments.zipIdx →
      (source.toList.drop ((Store.parse source).offset position)).take fragment.text.toList.length =
        fragment.text.toList) ∧
    let store := Store.parse source
    let rows := (store.fragments.zipIdx.filter (·.1.isShown)).map fun (fragment, position) =>
      fragment.row (lineAt source.toList (store.offset position))
    (∀ (tree : MemoryTree) (path : FilePath), tree.readText path = .ok source →
      (runFragments path : StateM MemoryTree (Except CommandError String)).run tree =
        pure (.ok ("\n".intercalate rows), tree)) ∧
    ∀ (disk : Disk) (path : FilePath), disk.readText path = .ok source →
      (runFragments path : StateM Disk (Except CommandError String)).run disk =
        pure (.ok ("\n".intercalate rows), disk) := by
  refine ⟨fun fragment position found => ?offsets, ?_⟩
  case offsets =>
    rw [← Fragment.charsOf_parse source]
    exact Store.text_at_offset found
  intro store rows
  have listed : store.rows = rows := by
    rw [Store.rows_eq, Fragment.charsOf_parse]
  refine ⟨fun tree path read => ?memory, fun disk path read => ?disk⟩
  case memory =>
    have there : (Files.holds path : StateM MemoryTree Bool).run tree = pure (true, tree) := by
      rw [MemoryTree.run_holds, MemoryTree.holds_of_find? (MemoryTree.find?_of_readText read)]
    rw [← listed]
    exact run_runFragments there (by rw [MemoryTree.run_readText, read])
  case disk =>
    have there : (Files.holds path : StateM Disk Bool).run disk = pure (true, disk) := by
      rw [Disk.run_holds, Disk.holds_of_readText read]
    rw [← listed]
    exact run_runFragments there (by rw [Disk.run_readText, read]; rfl)

/-- A small class is listed in the same way in memory and on a disk, and its field stands where the
listing says. -/
theorem runFragments_lists_class :
    let source := "package p;\n\npublic class A\n\x7b\n   int x;\n\n   void run() \x7b\x7d\n\x7d\n"
    let shown := "    1  package\n    3  class\n    5  attribute:x\n    7  method:run()\n    8  classEnd"
    let tree := MemoryTree.empty.put ⟨"A.java"⟩ source
    let disk := (Disk.ofWorking "w").put ["w", "A.java"] (.file source.toUTF8)
    tree.readText ⟨"A.java"⟩ = .ok source ∧ disk.readText ⟨"A.java"⟩ = .ok source ∧
      (runFragments ⟨"A.java"⟩ : StateM MemoryTree (Except CommandError String)).run tree =
        pure (.ok shown, tree) ∧
      (runFragments ⟨"A.java"⟩ : StateM Disk (Except CommandError String)).run disk =
        pure (.ok shown, disk) ∧
      (source.toList.drop 32).take "int x;".toList.length = "int x;".toList := by
  intro source shown tree disk
  have inMemory : tree.readText ⟨"A.java"⟩ = .ok source := by decide
  have onDisk : disk.readText ⟨"A.java"⟩ = .ok source := by decide
  obtain ⟨offsets, memory, other⟩ := runFragments_lists source
  let answer {σ : Type} (state : σ) (text : String) : Id (Except CommandError String × σ) :=
    pure (.ok text, state)
  have inside : (⟨.attributeOf "x", "int x;"⟩, 5) ∈ (Store.parse source).fragments.zipIdx := by
    decide +kernel
  have place : (Store.parse source).offset 5 = 32 := by decide +kernel
  have field := offsets _ _ inside
  rw [place] at field
  refine ⟨inMemory, onDisk, (memory tree _ inMemory).trans (congrArg (answer tree) ?_),
    (other disk _ onDisk).trans (congrArg (answer disk) ?_), field⟩ <;> decide +kernel

end Command

end ClassWeaver
