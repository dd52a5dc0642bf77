import ClassWeaver.Proofs.Regeneration.Accounting

set_option autoImplicit false

/-!
Files do not disturb each other. Main statement: what becomes of a file depends on the snapshot and
on what is seen at the path of the file only.
-/

namespace ClassWeaver

namespace MemoryTree

variable {a b tree : MemoryTree} {kind : FileKind} {catalog : Catalog} {current : Model}
  {path : FilePath} {task : Task}

section Isolation

theorem snapshot?_congr (alike : (a.readText path).toOption = (b.readText path).toOption) :
    a.snapshot? path = b.snapshot? path := by
  rw [snapshot?, snapshot?, alike]

variable (snapshots : a.loaded kind current = b.loaded kind current)

include snapshots

theorem previous_congr : a.previous kind current = b.previous kind current := by
  rw [previous, previous, comparison, comparison, snapshots]

theorem tasks_congr : a.tasks kind current = b.tasks kind current := by
  rw [tasks, tasks, previous_congr snapshots]

theorem result_congr (alike : a.LooksAlike b task.path) :
    a.result kind catalog current task = b.result kind catalog current task := by
  rw [result, result, alike.opened, previous_congr snapshots]

theorem outcome_congr (alike : a.LooksAlike b task.path) :
    a.outcome kind catalog current task = b.outcome kind catalog current task := by
  rw [outcome, outcome, result_congr snapshots alike]
  exact (alike.settle _).1

theorem isolated_of_loaded_eq
    (here : kind.IsClassPath (a.loaded kind current) current path)
    (alike : ∀ other : FilePath, other.same path = true → a.LooksAlike b other) :
    (a.regenerated kind catalog current).2.find? path =
        (b.regenerated kind catalog current).2.find? path ∧
      ∀ entry : Outcome, entry.path.same path = true →
        (entry ∈ (a.regenerated kind catalog current).1.entries ↔
          entry ∈ (b.regenerated kind catalog current).1.entries) := by
  have together : a.tasks kind current = b.tasks kind current := tasks_congr snapshots
  constructor
  · obtain ⟨task, found, same⟩ := exists_mem_tasks here
    have there := alike task.path same
    rw [← find?_congr _ same, ← find?_congr (regenerated b kind catalog current).2 same,
      find?_regenerated found, find?_regenerated (together ▸ found), result_congr snapshots there]
    exact (there.settle _).2
  · intro entry same
    have file : entry.path.same (kind.snapshotPath current) = false := by
      rw [FilePath.same_congr_left same]
      exact here.not_same_snapshotPath
    rw [mem_entries_regenerated file, mem_entries_regenerated file, ← together]
    refine and_congr_left fun _ => exists_congr fun task => and_congr_right fun found => ?_
    constructor
    · rintro rfl
      have meets := FilePath.same_trans (FilePath.same_symm (same_path_outcome found)) same
      exact (outcome_congr snapshots (alike task.path meets)).symm
    · rintro rfl
      have there : (b.outcome kind catalog current task).path.same task.path = true :=
        same_path_outcome (together ▸ found)
      have meets := FilePath.same_trans (FilePath.same_symm there) same
      exact outcome_congr snapshots (alike task.path meets)

end Isolation

end MemoryTree

end ClassWeaver
