import ClassWeaver.FileTree.Memory
import ClassWeaver.Proofs.FilePath

set_option autoImplicit false

/-!
Files in memory, looked at from one path. Main statement: changing a file leaves what is seen at
another path as it is, unless the file lies below that path.
-/

namespace ClassWeaver.MemoryTree

variable {tree : MemoryTree} {path other : FilePath}

theorem find?_congr (tree : MemoryTree) (same : path.same other = true) :
    tree.find? path = tree.find? other := by
  have alike : (fun file : FilePath × String => file.1.same path) =
      fun file => file.1.same other :=
    funext fun file => FilePath.same_congr same file.1
  rw [find?, find?, alike]

theorem holds_congr (tree : MemoryTree) (same : path.same other = true) :
    tree.holds path = tree.holds other := by
  have alike : (fun file : FilePath × String => file.1.same path || file.1.isBelow path) =
      fun file => file.1.same other || file.1.isBelow other :=
    funext fun file => by rw [FilePath.same_congr same, FilePath.isBelow_congr same]
  rw [holds, holds, alike]

theorem find?_erase (tree : MemoryTree) (path other : FilePath) :
    (tree.erase path).find? other = if path.same other then none else tree.find? other := by
  rw [find?, find?, erase, List.find?_filter]
  by_cases same : path.same other = true
  · have gone : (tree.files.find? fun file => ! file.1.same path && file.1.same other) = none := by
      refine List.find?_eq_none.mpr fun file _ => ?_
      rw [FilePath.same_congr same]
      cases file.1.same other <;> decide
    simp [same, gone]
  · have kept : (fun file : FilePath × String => ! file.1.same path && file.1.same other) =
        fun file => file.1.same other := by
      funext file
      cases hit : file.1.same other with
      | false => rw [Bool.and_false]
      | true =>
        have apart : file.1.same path = false := by
          refine Bool.eq_false_iff.mpr fun found => same ?_
          exact FilePath.same_trans (FilePath.same_symm found) hit
        rw [apart]
        rfl
    simp [same, kept]

/-- Says that there is nothing below a path. -/
def IsClearBelow (tree : MemoryTree) (path : FilePath) : Prop :=
  ∀ file ∈ tree.files, file.1.isBelow path = false

theorem isSome_find? : (tree.find? path).isSome = tree.files.any fun file => file.1.same path := by
  rw [find?, Option.isSome_map, Bool.eq_iff_iff, List.find?_isSome, List.any_eq_true]

theorem holds_of_find? {text : String} (found : tree.find? path = some text) :
    tree.holds path = true := by
  have here : (tree.find? path).isSome = true := by rw [found]; rfl
  rw [isSome_find?, List.any_eq_true] at here
  obtain ⟨file, inside, same⟩ := here
  refine List.any_eq_true.mpr ⟨file, inside, ?_⟩
  dsimp only
  rw [same, Bool.true_or]

theorem find?_of_not_holds (gone : tree.holds path = false) : tree.find? path = none := by
  cases found : tree.find? path with
  | none => rfl
  | some text =>
    rw [holds_of_find? found] at gone
    cases gone

theorem holds_of_isBelow (found : tree.find? other ≠ none) (below : other.isBelow path = true) :
    tree.holds path = true := by
  rw [← Option.isSome_iff_ne_none, isSome_find?, List.any_eq_true] at found
  obtain ⟨file, inside, same⟩ := found
  refine List.any_eq_true.mpr ⟨file, inside, ?_⟩
  dsimp only
  rw [FilePath.isBelow_congr_left same, below, Bool.or_true]

theorem isClearBelow_of_not_holds (gone : tree.holds path = false) : tree.IsClearBelow path := by
  intro file inside
  have apart := List.any_eq_false.mp gone file inside
  exact (Bool.or_eq_false_iff.mp (Bool.eq_false_iff.mpr apart)).2

theorem IsClearBelow.congr (clear : tree.IsClearBelow path) (same : path.same other = true) :
    tree.IsClearBelow other := by
  intro file inside
  rw [← FilePath.isBelow_congr same]
  exact clear file inside

theorem holds_of_isClearBelow (clear : tree.IsClearBelow path) :
    tree.holds path = (tree.find? path).isSome := by
  rw [isSome_find?, holds, Bool.eq_iff_iff, List.any_eq_true, List.any_eq_true]
  refine exists_congr fun file => and_congr_right fun inside => ?_
  dsimp only
  rw [clear file inside, Bool.or_false]

private theorem any_putInto {p : FilePath → Bool}
    (stable : ∀ a b : FilePath, a.same b = true → p a = p b) (text : String)
    (files : List (FilePath × String)) :
    (putInto path text files).any (fun file => p file.1) =
      (p path || files.any fun file => p file.1) := by
  induction files with
  | nil => rfl
  | cons file rest ih =>
    obtain ⟨known, old⟩ := file
    unfold putInto
    split
    · next same =>
      rw [List.any_cons, List.any_cons, stable known path same]
      cases p path <;> rfl
    · split
      · rfl
      · rw [List.any_cons, List.any_cons, ih]
        exact Bool.or_left_comm _ _ _

theorem holds_put (tree : MemoryTree) (path other : FilePath) (text : String) :
    (tree.put path text).holds other =
      (path.same other || path.isBelow other || tree.holds other) := by
  refine any_putInto (p := fun known => known.same other || known.isBelow other) ?_ text tree.files
  intro a b same
  rw [FilePath.same_congr_left same, FilePath.isBelow_congr_left same]

theorem holds_erase_of_apart (apart : path.same other = false)
    (beside : path.isBelow other = false) : (tree.erase path).holds other = tree.holds other := by
  rw [holds, holds, erase, List.any_filter]
  refine List.any_congr rfl fun file => ?_
  dsimp only
  cases same : file.1.same path with
  | false => rw [Bool.not_false, Bool.true_and]
  | true =>
    rw [FilePath.same_congr_left same, FilePath.isBelow_congr_left same, apart, beside]
    rfl

theorem IsClearBelow.put (clear : tree.IsClearBelow other) (text : String)
    (beside : path.isBelow other = false) : (tree.put path text).IsClearBelow other := by
  have none : ((putInto path text tree.files).any fun file => file.1.isBelow other) = false := by
    rw [any_putInto (fun a b same => FilePath.isBelow_congr_left same other), beside,
      Bool.false_or, List.any_eq_false]
    exact fun file inside => Bool.eq_false_iff.mp (clear file inside)
  intro file inside
  exact Bool.eq_false_iff.mpr (List.any_eq_false.mp none file inside)

theorem IsClearBelow.erase (clear : tree.IsClearBelow other) (path : FilePath) :
    (tree.erase path).IsClearBelow other :=
  fun file inside => clear file (List.mem_filter.mp inside).1

/-- Two trees show the same at a path: the same text, something or nothing there, and the same
operations denied. -/
structure LooksAlike (a b : MemoryTree) (path : FilePath) : Prop where
  text : a.find? path = b.find? path
  held : a.holds path = b.holds path
  denied : ∀ access, a.denied.contains (access, path.text) = b.denied.contains (access, path.text)

theorem LooksAlike.refl (tree : MemoryTree) (path : FilePath) : tree.LooksAlike tree path :=
  ⟨rfl, rfl, fun _ => rfl⟩

theorem looksAlike_put (tree : MemoryTree) (text : String) (apart : path.same other = false)
    (beside : path.isBelow other = false) : (tree.put path text).LooksAlike tree other where
  text := by rw [find?_put, apart]; rfl
  held := by rw [holds_put, apart, beside]; rfl
  denied := fun _ => rfl

theorem looksAlike_erase (tree : MemoryTree) (apart : path.same other = false)
    (beside : path.isBelow other = false) : (tree.erase path).LooksAlike tree other where
  text := by rw [find?_erase, apart]; rfl
  held := holds_erase_of_apart apart beside
  denied := fun _ => rfl

theorem LooksAlike.readText {a b : MemoryTree} (alike : a.LooksAlike b path) :
    a.readText path = b.readText path := by
  rw [MemoryTree.readText, MemoryTree.readText, unlessDenied, unlessDenied, alike.text,
    alike.denied]

end ClassWeaver.MemoryTree
