import ClassWeaver.Proofs.Regeneration.Running

set_option autoImplicit false

/-!
What a run tells about itself. Main statement: a report accounts for every file, lists none twice,
and says the truth about each of them.
-/

namespace ClassWeaver

namespace MemoryTree

variable {before : MemoryTree} {kind : FileKind} {catalog : Catalog} {current : Model}
  {path : FilePath} {task : Task}

/-- Says that a file need not be listed: it does not exist, and what its task makes of it has no
body and has to go. -/
def IsExempt (before : MemoryTree) (kind : FileKind) (catalog : Catalog) (current : Model)
    (path : FilePath) : Prop :=
  before.holds path = false ∧
    ∃ task ∈ before.tasks kind current, task.path.same path = true ∧
      ∃ draft,
        task.carryOut kind catalog (before.previous kind current) current .new = .ok draft ∧
          draft.purge = true ∧ draft.store.isBodyEmpty = true

/-- What a report says about the files before and after a run. -/
structure Accounts (kind : FileKind) (catalog : Catalog) (current : Model)
    (before : MemoryTree) (report : Report) (after : MemoryTree) : Prop where
  /-- No file is listed twice. -/
  once : report.entries.Pairwise fun a b => a.path.same b.path = false
  /-- The file of every class of the last model and of the current one is listed unless exempt. -/
  listed : ∀ path, kind.IsClassPath (before.loaded kind current) current path →
    ((∃ entry ∈ report.entries, entry.path.same path = true) ↔
      ¬ before.IsExempt kind catalog current path)
  written : ∀ path ∈ report.written,
    ∃ text, after.find? path = some text ∧ before.find? path ≠ some text
  unchanged : ∀ path ∈ report.unchanged, after.find? path = before.find? path
  deleted : ∀ path ∈ report.deleted, before.find? path ≠ none ∧ after.find? path = none
  failed : ∀ failure ∈ report.failures, after.find? failure.path = before.find? failure.path
  /-- Files that are not listed stay what they are. -/
  others : ∀ path, path.same (kind.snapshotPath current) = false →
    (∀ entry ∈ report.entries, entry.path.same path = false) →
      after.find? path = before.find? path
  saved : report.snapshotSaved = true ↔ report.failures = []
  /-- The snapshot is that of the current model if it was saved, and the old one otherwise. -/
  snapshot : after.find? (kind.snapshotPath current) =
    if report.snapshotSaved then some (Snapshot.encode current)
    else before.find? (kind.snapshotPath current)

private theorem find?_snapshotPath {middle : MemoryTree}
    (settled : Settled before middle (before.tasks kind current)
      (before.result kind catalog current)) :
    middle.find? (kind.snapshotPath current) = before.find? (kind.snapshotPath current) :=
  settled.beside _ fun _ found => (isClassPath_of_mem_tasks found).not_same_snapshotPath

private theorem exists_of_mem_entries {entry : Outcome}
    (listed : entry ∈ (before.regenerated kind catalog current).1.entries) :
    (∃ task ∈ before.tasks kind current, before.outcome kind catalog current task = entry) ∨
      ∃ message, entry = .failed ⟨kind.snapshotPath current, message⟩ := by
  obtain ⟨middle, settled, completed⟩ := before.exists_regenerated kind catalog current
  rcases completed.entries_eq with same | ⟨message, more⟩
  · rw [same, mem_entries_fileReport] at listed
    exact .inl listed.1
  · rw [more, List.mem_append, List.mem_singleton, mem_entries_fileReport] at listed
    exact listed.imp (·.1) fun snapshot => ⟨message, snapshot⟩

private theorem exists_fate_of_mem_entries {entry : Outcome}
    (listed : entry ∈ (before.regenerated kind catalog current).1.entries)
    (file : ∀ message, entry ≠ .failed ⟨kind.snapshotPath current, message⟩) :
    ∃ task ∈ before.tasks kind current, ∃ after,
      Fate before task.path (before.result kind catalog current task) entry after ∧
        (before.regenerated kind catalog current).2.find? task.path = after.find? task.path := by
  rcases exists_of_mem_entries listed with ⟨task, found, rfl⟩ | ⟨message, snapshot⟩
  · exact ⟨task, found, exists_fate catalog found⟩
  · exact absurd snapshot (file message)

private theorem exists_of_mem_written
    (found : path ∈ (before.regenerated kind catalog current).1.written) :
    ∃ text, (before.regenerated kind catalog current).2.find? path = some text ∧
      before.find? path ≠ some text := by
  obtain ⟨task, -, after, fate, here⟩ := exists_fate_of_mem_entries
    (Report.mem_entries.mpr (.inl ⟨path, found, rfl⟩)) (fun _ => nofun)
  generalize made : before.result kind catalog current task = drafted at fate
  cases fate with
  | @written draft other =>
    refine ⟨draft.store.render, ?_, ?_⟩
    · rw [here, find?_put, FilePath.same_refl]
      rfl
    · rcases find?_of_result made with known | gone
      · rw [known]
        exact fun same => other (Option.some.inj same).symm
      · rw [find?_of_not_holds gone]
        nofun

private theorem find?_of_mem_unchanged
    (found : path ∈ (before.regenerated kind catalog current).1.unchanged) :
    (before.regenerated kind catalog current).2.find? path = before.find? path := by
  obtain ⟨task, -, after, fate, here⟩ := exists_fate_of_mem_entries
    (Report.mem_entries.mpr (.inr (.inl ⟨path, found, rfl⟩))) (fun _ => nofun)
  generalize before.result kind catalog current task = drafted at fate
  cases fate with
  | unchanged => exact here

private theorem find?_of_mem_deleted
    (found : path ∈ (before.regenerated kind catalog current).1.deleted) :
    before.find? path ≠ none ∧
      (before.regenerated kind catalog current).2.find? path = none := by
  obtain ⟨task, -, after, fate, here⟩ := exists_fate_of_mem_entries
    (Report.mem_entries.mpr (.inr (.inr (.inl ⟨path, found, rfl⟩)))) (fun _ => nofun)
  generalize made : before.result kind catalog current task = drafted at fate
  cases fate with
  | deleted _ there =>
    refine ⟨?_, ?_⟩
    · rcases find?_of_result made with known | gone
      · rw [known]
        nofun
      · rw [gone] at there
        cases there
    · rw [here, find?_erase, FilePath.same_refl]
      rfl

private theorem find?_of_mem_failures {failure : Failure}
    (found : failure ∈ (before.regenerated kind catalog current).1.failures)
    (file : failure.path.same (kind.snapshotPath current) = false) :
    (before.regenerated kind catalog current).2.find? failure.path = before.find? failure.path := by
  have other (message : String) :
      Outcome.failed failure ≠ .failed ⟨kind.snapshotPath current, message⟩ := by
    intro snapshot
    rw [Outcome.failed.inj snapshot, FilePath.same_refl] at file
    cases file
  obtain ⟨task, inside, after, fate, here⟩ := exists_fate_of_mem_entries
    (Report.mem_entries.mpr (.inr (.inr (.inr ⟨failure, found, rfl⟩)))) other
  have same : failure.path.same task.path = true :=
    fate.same_path fun _ => same_of_result_eq_error inside
  rw [find?_congr _ same, find?_congr before same, here]
  generalize before.result kind catalog current task = drafted at fate
  cases fate with
  | hindered | denied => rfl

private theorem pairwise_fileReport (before : MemoryTree) (kind : FileKind) (catalog : Catalog)
    (current : Model) :
    (before.fileReport kind catalog current).entries.Pairwise
      fun a b => a.path.same b.path = false := by
  have symmetric {a b : Outcome} (apart : a.path.same b.path = false) :
      b.path.same a.path = false := by
    rwa [FilePath.same_comm]
  rw [fileReport, (Report.entries_ofOutcomes_perm _ _).pairwise_iff symmetric]
  refine List.Pairwise.filter _ (List.pairwise_map.mpr ?_)
  refine (Task.pairwise_all _ _ _).imp_of_mem fun {a b} inA inB apart => ?_
  rw [FilePath.same_congr_left (same_path_outcome inA), FilePath.same_congr (same_path_outcome inB)]
  exact apart.1

private theorem pairwise_entries (before : MemoryTree) (kind : FileKind) (catalog : Catalog)
    (current : Model) :
    (before.regenerated kind catalog current).1.entries.Pairwise
      fun a b => a.path.same b.path = false := by
  obtain ⟨middle, -, completed⟩ := before.exists_regenerated kind catalog current
  rcases completed.entries_eq with same | ⟨message, more⟩
  · rw [same]
    exact pairwise_fileReport before kind catalog current
  · rw [more, List.pairwise_append]
    refine ⟨pairwise_fileReport before kind catalog current, List.pairwise_singleton _ _, ?_⟩
    intro entry listed snapshot last
    obtain ⟨⟨task, found, rfl⟩, -⟩ := mem_entries_fileReport.mp listed
    rw [List.mem_singleton.mp last]
    exact path_outcome_not_same_snapshotPath found

private theorem isExempt_iff (found : task ∈ before.tasks kind current)
    (same : task.path.same path = true) :
    before.IsExempt kind catalog current path ↔
      (before.outcome kind catalog current task).isListed = false := by
  rw [isListed_outcome_eq_false, IsExempt, ← holds_congr before same]
  refine and_congr_right fun _ => ?_
  constructor
  · rintro ⟨other, inside, same', draft, done, purge, bare⟩
    have one : other = task :=
      Task.eq_of_same inside found (FilePath.same_trans same' (FilePath.same_symm same))
    subst one
    exact ⟨draft, done, Bool.and_eq_true_iff.mpr ⟨purge, bare⟩⟩
  · rintro ⟨draft, done, dispensable⟩
    obtain ⟨purge, bare⟩ := Bool.and_eq_true_iff.mp dispensable
    exact ⟨task, found, same, draft, done, purge, bare⟩

private theorem exists_mem_entries_iff
    (here : kind.IsClassPath (before.loaded kind current) current path) :
    (∃ entry ∈ (before.regenerated kind catalog current).1.entries, entry.path.same path = true) ↔
      ¬ before.IsExempt kind catalog current path := by
  obtain ⟨task, found, same⟩ := exists_mem_tasks here
  rw [isExempt_iff found same, Bool.not_eq_false]
  constructor
  · rintro ⟨entry, listed, there⟩
    have file : entry.path.same (kind.snapshotPath current) = false := by
      rw [FilePath.same_congr_left there]
      exact here.not_same_snapshotPath
    obtain ⟨⟨other, inside, rfl⟩, shown⟩ := (mem_entries_regenerated file).mp listed
    have meets : other.path.same task.path = true :=
      FilePath.same_trans (FilePath.same_symm (same_path_outcome inside))
        (FilePath.same_trans there (FilePath.same_symm same))
    rwa [← Task.eq_of_same inside found meets]
  · intro shown
    exact ⟨before.outcome kind catalog current task,
      (mem_entries_regenerated (path_outcome_not_same_snapshotPath found)).mpr
        ⟨⟨task, found, rfl⟩, shown⟩,
      FilePath.same_trans (same_path_outcome found) same⟩

private theorem find?_of_not_listed (file : path.same (kind.snapshotPath current) = false)
    (unlisted : ∀ entry ∈ (before.regenerated kind catalog current).1.entries,
      entry.path.same path = false) :
    (before.regenerated kind catalog current).2.find? path = before.find? path := by
  by_cases other : ∀ task ∈ before.tasks kind current, task.path.same path = false
  · exact find?_regenerated_beside file other
  · simp only [not_forall, Bool.not_eq_false] at other
    obtain ⟨task, found, same⟩ := other
    obtain ⟨after, fate, here⟩ := exists_fate catalog found
    have silent : (before.outcome kind catalog current task).isListed = false := by
      refine Bool.eq_false_iff.mpr fun shown => ?_
      have apart := unlisted _ ((mem_entries_regenerated
        (path_outcome_not_same_snapshotPath found)).mpr ⟨⟨task, found, rfl⟩, shown⟩)
      rw [FilePath.same_trans (same_path_outcome found) same] at apart
      cases apart
    rw [← find?_congr _ same, ← find?_congr before same, here]
    generalize before.result kind catalog current task = drafted at fate
    generalize before.outcome kind catalog current task = outcome at fate silent
    cases fate with
    | absent => rfl
    | hindered | denied | deleted | unchanged | written => cases silent

private theorem snapshotSaved_iff :
    (before.regenerated kind catalog current).1.snapshotSaved = true ↔
      (before.regenerated kind catalog current).1.failures = [] := by
  obtain ⟨middle, -, completed⟩ := before.exists_regenerated kind catalog current
  generalize (before.regenerated kind catalog current).1 = report at completed
  generalize (before.regenerated kind catalog current).2 = after at completed
  cases completed with
  | kept failed => exact ⟨nofun, fun clean => absurd clean failed⟩
  | refused => exact ⟨nofun, fun clean => absurd clean (by simp)⟩
  | saved clean => exact ⟨fun _ => clean, fun _ => rfl⟩

private theorem find?_snapshotPath_regenerated :
    (before.regenerated kind catalog current).2.find? (kind.snapshotPath current) =
      if (before.regenerated kind catalog current).1.snapshotSaved then
        some (Snapshot.encode current)
      else before.find? (kind.snapshotPath current) := by
  obtain ⟨middle, settled, completed⟩ := before.exists_regenerated kind catalog current
  rw [← find?_snapshotPath settled]
  generalize (before.regenerated kind catalog current).1 = report at completed
  generalize (before.regenerated kind catalog current).2 = after at completed
  cases completed with
  | kept | refused => rfl
  | saved => rw [find?_put, FilePath.same_refl]

theorem isClassPath_of_mem_deleted
    (found : path ∈ (before.regenerated kind catalog current).1.deleted) :
    kind.IsClassPath (before.loaded kind current) current path := by
  rcases exists_of_mem_entries (Report.mem_entries.mpr (.inr (.inr (.inl ⟨path, found, rfl⟩)))) with
    ⟨task, inside, outcome⟩ | ⟨message, snapshot⟩
  · have same : (before.outcome kind catalog current task).path.same task.path = true :=
      same_path_outcome inside
    rw [outcome] at same
    exact (isClassPath_of_mem_tasks inside).of_same (FilePath.same_symm same)
  · cases snapshot

/-- A run accounts for every file and for the snapshot, whatever is in the files, whatever the
templates are and whatever is denied. -/
theorem accounts_regenerated (before : MemoryTree) (kind : FileKind) (catalog : Catalog)
    (current : Model) :
    Accounts kind catalog current before (before.regenerated kind catalog current).1
      (before.regenerated kind catalog current).2 where
  once := pairwise_entries before kind catalog current
  listed := fun _ => exists_mem_entries_iff
  written := fun _ => exists_of_mem_written
  unchanged := fun _ => find?_of_mem_unchanged
  deleted := fun _ => find?_of_mem_deleted
  failed := by
    intro failure found
    by_cases file : failure.path.same (kind.snapshotPath current) = true
    · have unsaved : (before.regenerated kind catalog current).1.snapshotSaved = false := by
        refine Bool.eq_false_iff.mpr fun saved => ?_
        rw [snapshotSaved_iff.mp saved] at found
        cases found
      rw [find?_congr _ file, find?_congr before file, find?_snapshotPath_regenerated, unsaved,
        if_neg Bool.false_ne_true]
    · exact find?_of_mem_failures found (Bool.eq_false_iff.mpr file)
  others := fun _ => find?_of_not_listed
  saved := snapshotSaved_iff
  snapshot := find?_snapshotPath_regenerated

theorem Accounts.exists_mem_deleted {report : Report} {after : MemoryTree}
    (accounts : Accounts kind catalog current before report after)
    (file : path.same (kind.snapshotPath current) = false) (there : before.find? path ≠ none)
    (gone : after.find? path = none) : ∃ other ∈ report.deleted, other.same path = true := by
  have changed : after.find? path ≠ before.find? path := gone ▸ there.symm
  have moved {other : FilePath} (same : other.same path = true) :
      after.find? other ≠ before.find? other := by
    rwa [find?_congr after same, find?_congr before same]
  by_cases listed : ∃ entry ∈ report.entries, entry.path.same path = true
  · obtain ⟨entry, inside, same⟩ := listed
    rcases Report.mem_entries.mp inside with ⟨other, one, rfl⟩ | ⟨other, one, rfl⟩ |
      ⟨other, one, rfl⟩ | ⟨failure, one, rfl⟩
    · obtain ⟨text, found, -⟩ := accounts.written other one
      have nothing := (find?_congr after same).trans gone
      rw [Outcome.path, found] at nothing
      cases nothing
    · exact absurd (accounts.unchanged other one) (moved same)
    · exact ⟨other, one, same⟩
    · exact absurd (accounts.failed failure one) (moved same)
  · refine absurd (accounts.others path file fun entry inside => ?_) changed
    exact Bool.eq_false_iff.mpr fun same => listed ⟨entry, inside, same⟩

end MemoryTree

end ClassWeaver
