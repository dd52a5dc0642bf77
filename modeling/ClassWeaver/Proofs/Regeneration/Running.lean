import ClassWeaver.Proofs.Regeneration.Finishing
import ClassWeaver.Proofs.Regeneration.Report

set_option autoImplicit false

/-!
A whole run on files in memory. Main statement: a run finishes each file as if it were the only one,
and then saves the snapshot if nothing failed.
-/

namespace ClassWeaver

namespace MemoryTree

variable {tree : MemoryTree} {path : FilePath}

theorem find?_of_readText {text : String} (read : tree.readText path = .ok text) :
    tree.find? path = some text := by
  rw [readText, unlessDenied] at read
  split at read
  · cases read
  · split at read
    · next found => rw [found, Except.ok.inj read]
    · cases read

/-- The model of the snapshot at a path, if there is one that can be read. -/
def snapshot? (tree : MemoryTree) (path : FilePath) : Option Model :=
  (tree.readText path).toOption.bind fun text => (Snapshot.decode text).toOption

theorem exists_of_snapshot? {old : Model} (known : tree.snapshot? path = some old) :
    ∃ text, tree.readText path = .ok text ∧ Snapshot.decode text = .ok old := by
  obtain ⟨text, read, decoded⟩ := Option.bind_eq_some_iff.mp known
  cases shown : tree.readText path with
  | error cause =>
    rw [shown] at read
    cases read
  | ok content =>
    rw [shown] at read
    rw [← Option.some.inj read] at decoded
    cases taken : Snapshot.decode content with
    | error cause =>
      rw [taken] at decoded
      cases decoded
    | ok model =>
      rw [taken] at decoded
      exact ⟨content, rfl, taken.trans (congrArg Except.ok (Option.some.inj decoded))⟩

theorem readText_of_find? {text : String}
    (granted : tree.denied.contains (.read, path.text) = false)
    (found : tree.find? path = some text) : tree.readText path = .ok text := by
  rw [readText, unlessDenied, granted, found]
  rfl

theorem run_load (tree : MemoryTree) (path : FilePath) :
    (Snapshot.load path : StateM MemoryTree (Option Model)).run tree =
      pure (tree.snapshot? path, tree) := by
  rw [Snapshot.load, StateT.run_bind, run_holds, pure_bind, snapshot?]
  dsimp only
  cases read : tree.readText path with
  | ok text =>
    rw [holds_of_find? (find?_of_readText read), if_pos rfl, StateT.run_bind, run_readText,
      pure_bind, read]
    rfl
  | error cause =>
    split
    · rw [StateT.run_bind, run_readText, pure_bind, read]
      rfl
    · rfl

/-- The report and the files after a run. -/
def regenerated (tree : MemoryTree) (kind : FileKind) (catalog : Catalog) (current : Model) :
    Report × MemoryTree :=
  (regenerate kind catalog current : StateM MemoryTree Report).run tree

/-- What can come of seeing to the snapshot after a run: the report, and the files after that. -/
inductive Completed (path : FilePath) (current : Model) (report : Report) (tree : MemoryTree) :
    Report → MemoryTree → Prop
  | kept (failed : report.failures ≠ []) : Completed path current report tree report tree
  | refused (clean : report.failures = []) (message : String)
    (denied : tree.denied.contains (.write, path.text) = true) :
    Completed path current report tree
      { report with failures := report.failures ++ [⟨path, message⟩] } tree
  | saved (clean : report.failures = []) :
    Completed path current report tree { report with snapshotSaved := true }
      (tree.put path (Snapshot.encode current))

variable {current : Model} {report done : Report} {after : MemoryTree} {other : FilePath}

theorem Completed.find?_beside (completed : Completed path current report tree done after)
    (apart : other.same path = false) : after.find? other = tree.find? other := by
  cases completed with
  | kept | refused => rfl
  | saved =>
    rw [find?_put, FilePath.same_comm, apart]
    rfl

theorem Completed.denied_eq (completed : Completed path current report tree done after) :
    after.denied = tree.denied := by
  cases completed <;> rfl

theorem Completed.deleted_eq (completed : Completed path current report tree done after) :
    done.deleted = report.deleted := by
  cases completed <;> rfl

theorem Completed.marked_eq (completed : Completed path current report tree done after) :
    done.marked = report.marked := by
  cases completed <;> rfl

theorem Completed.entries_eq (completed : Completed path current report tree done after) :
    done.entries = report.entries ∨
      ∃ message, done.entries = report.entries ++ [.failed ⟨path, message⟩] := by
  cases completed with
  | kept | saved => exact .inl rfl
  | refused _ message =>
    refine .inr ⟨message, ?_⟩
    simp only [Report.entries, List.map_append, List.map_cons, List.map_nil, List.append_assoc]

theorem run_complete (path : FilePath) (current : Model) (report : Report) (tree : MemoryTree) :
    (report.complete path current : StateM MemoryTree Report).run tree =
      if report.failures.isEmpty then
        if tree.denied.contains (.write, path.text) then
          ({ report with
              failures := report.failures ++ [⟨path, (Error.file path "write denied").message⟩] }, tree)
        else ({ report with snapshotSaved := true }, tree.put path (Snapshot.encode current))
      else (report, tree) := by
  rw [Report.complete]
  split
  · rw [Snapshot.save, StateT.run_bind, StateT.run_bind, run_writeText]
    cases tree.denied.contains (Access.write, path.text) <;> rfl
  · rfl

theorem completed_complete (path : FilePath) (current : Model) (report : Report)
    (tree : MemoryTree) :
    Completed path current report tree
      ((report.complete path current : StateM MemoryTree Report).run tree).1
      ((report.complete path current : StateM MemoryTree Report).run tree).2 := by
  rw [run_complete]
  split
  · next clean =>
    have clean : report.failures = [] := List.isEmpty_iff.mp clean
    split
    · next denied => exact .refused clean _ denied
    · exact .saved clean
  · next failed => exact .kept fun clean => failed (List.isEmpty_iff.mpr clean)

section Run

variable (tree : MemoryTree) (kind : FileKind) (catalog : Catalog) (current : Model)

/-- The model of the last run. -/
def loaded : Option Model :=
  tree.snapshot? (kind.snapshotPath current)

def comparison : Option (Model × List MarkedElement) :=
  (tree.loaded kind current).map (Marking.mark · current)

def previous : Option Model :=
  (tree.comparison kind current).map (·.1)

def tasks : List Task :=
  Task.all kind (tree.previous kind current) current

def result (task : Task) : Except Obstacle Draft :=
  (tree.opened task.path).bind (task.carryOut kind catalog (tree.previous kind current) current)

def outcome (task : Task) : Outcome :=
  (tree.settle task.path (tree.result kind catalog current task)).1

def fileReport : Report :=
  .ofOutcomes ((tree.comparison kind current).elim [] (·.2))
    ((tree.tasks kind current).map (tree.outcome kind catalog current))

/-- A run finishes each file as if it were the only one, and then sees to the snapshot. -/
theorem exists_regenerated :
    ∃ middle, Settled tree middle (tree.tasks kind current) (tree.result kind catalog current) ∧
      Completed (kind.snapshotPath current) current (tree.fileReport kind catalog current) middle
        (tree.regenerated kind catalog current).1 (tree.regenerated kind catalog current).2 := by
  obtain ⟨middle, settled, run⟩ := exists_settled
    (Task.pairwise_all kind (tree.previous kind current) current)
    (tree.result kind catalog current) tree
  have whole : tree.regenerated kind catalog current =
      ((tree.fileReport kind catalog current).complete (kind.snapshotPath current) current :
        StateM MemoryTree Report).run middle := by
    rw [regenerated, regenerate]
    dsimp only
    rw [StateT.run_bind, run_load, pure_bind]
    dsimp only
    have compared : (tree.snapshot? (kind.snapshotPath current)).map (Marking.mark · current) =
        tree.comparison kind current := rfl
    have flagged : (tree.comparison kind current).map (·.1) = tree.previous kind current := rfl
    rw [compared, flagged, StateT.run_bind, run_openAll tree _ fun task opened =>
      opened.bind (task.carryOut kind catalog (tree.previous kind current) current), pure_bind]
    dsimp only
    rw [StateT.run_bind]
    exact congrArg (· >>= _) run
  rw [whole]
  exact ⟨middle, settled, completed_complete _ current _ middle⟩

variable {tree kind catalog current} {task : Task}

theorem previous_of_loaded {old : Model} (known : tree.loaded kind current = some old) :
    tree.previous kind current = some (Marking.mark old current).1 := by
  rw [previous, comparison, known]
  rfl

theorem isClassPath_previous :
    kind.IsClassPath (tree.previous kind current) current path ↔
      kind.IsClassPath (tree.loaded kind current) current path := by
  rw [previous, comparison]
  cases tree.loaded kind current with
  | none => exact Iff.rfl
  | some old => exact FileKind.isClassPath_mark

theorem isClassPath_of_mem_tasks (found : task ∈ tree.tasks kind current) :
    kind.IsClassPath (tree.loaded kind current) current task.path :=
  isClassPath_previous.mp (Task.isSound_of_mem_all found).path

theorem exists_mem_tasks
    (here : kind.IsClassPath (tree.loaded kind current) current path) :
    ∃ task ∈ tree.tasks kind current, task.path.same path = true :=
  Task.exists_mem_all (isClassPath_previous.mpr here)

theorem find?_of_opened {draft : Draft} (done : tree.opened path = .ok draft) :
    tree.find? path = some draft.initial ∨ tree.holds path = false := by
  rw [opened] at done
  split at done
  · split at done
    · next source read =>
      rw [← Except.ok.inj done]
      exact .inl (find?_of_readText read)
    · cases done
  · next gone => exact .inr (Bool.eq_false_iff.mpr gone)

theorem path_of_opened_eq_error {obstacle : Obstacle}
    (failed : tree.opened path = .error obstacle) : obstacle.path = path := by
  rw [opened] at failed
  split at failed
  · split at failed
    · cases failed
    · rw [← Except.error.inj failed]
  · cases failed

theorem same_of_result_eq_error (found : task ∈ tree.tasks kind current) {obstacle : Obstacle}
    (failed : tree.result kind catalog current task = .error obstacle) :
    obstacle.path.same task.path = true := by
  rcases of_bind_eq_error failed with closed | ⟨draft, -, stuck⟩
  · rw [path_of_opened_eq_error closed]
    exact FilePath.same_refl _
  · exact (Task.isSound_of_mem_all found).same_of_carryOut_eq_error stuck

theorem same_path_outcome (found : task ∈ tree.tasks kind current) :
    (tree.outcome kind catalog current task).path.same task.path = true := by
  exact (fate_settle tree task.path _).same_path fun _ => same_of_result_eq_error found

theorem path_outcome_not_same_snapshotPath (found : task ∈ tree.tasks kind current) :
    (tree.outcome kind catalog current task).path.same (kind.snapshotPath current) = false := by
  rw [FilePath.same_congr_left (same_path_outcome found)]
  exact (isClassPath_of_mem_tasks found).not_same_snapshotPath

theorem isListed_outcome_eq_false :
    (tree.outcome kind catalog current task).isListed = false ↔
      tree.holds task.path = false ∧ ∃ draft,
        task.carryOut kind catalog (tree.previous kind current) current .new = .ok draft ∧
          draft.isDispensable = true := by
  constructor
  · intro unlisted
    have fate := fate_settle tree task.path (tree.result kind catalog current task)
    rw [outcome] at unlisted
    generalize made : tree.result kind catalog current task = drafted at fate unlisted
    generalize (tree.settle task.path drafted).1 = outcome at fate unlisted
    generalize (tree.settle task.path drafted).2 = after at fate
    cases fate with
    | hindered | denied | deleted | unchanged | written => cases unlisted
    | absent dispensable gone =>
      rw [result, opened, gone] at made
      exact ⟨gone, _, made, dispensable⟩
  · rintro ⟨gone, draft, done, dispensable⟩
    have made : tree.result kind catalog current task = .ok draft := by
      rw [result, opened, gone]
      exact done
    rw [outcome, made, settle, dispensable, gone]
    rfl

theorem find?_of_result {draft : Draft} (done : tree.result kind catalog current task = .ok draft) :
    tree.find? task.path = some draft.initial ∨ tree.holds task.path = false := by
  obtain ⟨first, opened, carried⟩ := exists_of_bind_eq_ok done
  rw [Task.initial_carryOut carried]
  exact find?_of_opened opened

theorem find?_regenerated (found : task ∈ tree.tasks kind current) :
    (tree.regenerated kind catalog current).2.find? task.path =
      (tree.settle task.path (tree.result kind catalog current task)).2.find? task.path := by
  obtain ⟨middle, settled, completed⟩ := tree.exists_regenerated kind catalog current
  rw [← settled.inside task found]
  exact completed.find?_beside (isClassPath_of_mem_tasks found).not_same_snapshotPath

theorem denied_regenerated (tree : MemoryTree) (kind : FileKind) (catalog : Catalog)
    (current : Model) : (tree.regenerated kind catalog current).2.denied = tree.denied := by
  obtain ⟨middle, settled, completed⟩ := tree.exists_regenerated kind catalog current
  exact completed.denied_eq.trans settled.denied

theorem marked_regenerated (tree : MemoryTree) (kind : FileKind) (catalog : Catalog)
    (current : Model) :
    (tree.regenerated kind catalog current).1.marked = (tree.comparison kind current).elim [] (·.2) := by
  obtain ⟨middle, settled, completed⟩ := tree.exists_regenerated kind catalog current
  exact completed.marked_eq

theorem exists_fate (catalog : Catalog) (found : task ∈ tree.tasks kind current) :
    ∃ after, Fate tree task.path (tree.result kind catalog current task)
        (tree.outcome kind catalog current task) after ∧
      (tree.regenerated kind catalog current).2.find? task.path = after.find? task.path :=
  ⟨_, fate_settle tree task.path _, find?_regenerated found⟩

theorem find?_regenerated_beside (apart : path.same (kind.snapshotPath current) = false)
    (other : ∀ task ∈ tree.tasks kind current, task.path.same path = false) :
    (tree.regenerated kind catalog current).2.find? path = tree.find? path := by
  obtain ⟨middle, settled, completed⟩ := tree.exists_regenerated kind catalog current
  rw [← settled.beside path other]
  exact completed.find?_beside apart

theorem mem_entries_fileReport {entry : Outcome} :
    entry ∈ (tree.fileReport kind catalog current).entries ↔
      (∃ task ∈ tree.tasks kind current, tree.outcome kind catalog current task = entry) ∧
        entry.isListed = true := by
  rw [fileReport, Report.mem_entries_ofOutcomes, List.mem_map]

theorem mem_failures_fileReport {failure : Failure} :
    failure ∈ (tree.fileReport kind catalog current).failures ↔
      ∃ task ∈ tree.tasks kind current,
        tree.outcome kind catalog current task = .failed failure := by
  rw [← Report.failed_mem_entries, mem_entries_fileReport]
  exact and_iff_left rfl

theorem mem_entries_regenerated {entry : Outcome}
    (apart : entry.path.same (kind.snapshotPath current) = false) :
    entry ∈ (tree.regenerated kind catalog current).1.entries ↔
      (∃ task ∈ tree.tasks kind current, tree.outcome kind catalog current task = entry) ∧
        entry.isListed = true := by
  obtain ⟨middle, settled, completed⟩ := tree.exists_regenerated kind catalog current
  rw [← mem_entries_fileReport]
  rcases completed.entries_eq with same | ⟨message, more⟩
  · rw [same]
  · rw [more, List.mem_append, List.mem_singleton]
    refine or_iff_left fun snapshot => ?_
    rw [snapshot, Outcome.path, FilePath.same_refl] at apart
    cases apart

theorem deleted_regenerated :
    (tree.regenerated kind catalog current).1.deleted =
      (tree.fileReport kind catalog current).deleted := by
  obtain ⟨middle, settled, completed⟩ := tree.exists_regenerated kind catalog current
  exact completed.deleted_eq

theorem failures_regenerated
    (granted : tree.denied.contains (.write, (kind.snapshotPath current).text) = false) :
    (tree.regenerated kind catalog current).1.failures =
      (tree.fileReport kind catalog current).failures := by
  obtain ⟨middle, settled, completed⟩ := tree.exists_regenerated kind catalog current
  generalize (tree.regenerated kind catalog current).1 = report at completed
  generalize (tree.regenerated kind catalog current).2 = after at completed
  cases completed with
  | kept | saved => rfl
  | refused _ _ denied =>
    rw [settled.denied, granted] at denied
    cases denied

end Run

section Evaluation

variable {tree : MemoryTree} {kind : FileKind} {catalog : Catalog} {current : Model}
  {previous : Option Model}

/-- What becomes of the file of a task, and the files after that, if the last run's model with its
flags is already known. -/
def settled (tree : MemoryTree) (kind : FileKind) (catalog : Catalog) (previous : Option Model)
    (current : Model) (task : Task) : Outcome × MemoryTree :=
  tree.settle task.path ((tree.opened task.path).bind (task.carryOut kind catalog previous current))

/-- The report on the files of a run, without the elements that were out of date. -/
def reportOf (tree : MemoryTree) (kind : FileKind) (catalog : Catalog) (previous : Option Model)
    (current : Model) : Report :=
  .ofOutcomes [] ((Task.all kind previous current).map fun task =>
    (tree.settled kind catalog previous current task).1)

def textAfter (tree : MemoryTree) (kind : FileKind) (catalog : Catalog) (previous : Option Model)
    (current : Model) (path : FilePath) : Option String :=
  match (Task.all kind previous current).find? (·.path.same path) with
  | none => tree.find? path
  | some task => (tree.settled kind catalog previous current task).2.find? path

variable (known : tree.previous kind current = previous)

include known

theorem deleted_regenerated_eq : (tree.regenerated kind catalog current).1.deleted =
    (tree.reportOf kind catalog previous current).deleted := by
  subst known
  exact deleted_regenerated

theorem failures_regenerated_eq
    (granted : tree.denied.contains (.write, (kind.snapshotPath current).text) = false) :
    (tree.regenerated kind catalog current).1.failures =
      (tree.reportOf kind catalog previous current).failures := by
  subst known
  exact failures_regenerated granted

theorem find?_regenerated_eq (apart : path.same (kind.snapshotPath current) = false) :
    (tree.regenerated kind catalog current).2.find? path =
      tree.textAfter kind catalog previous current path := by
  subst known
  rw [textAfter]
  cases found : (Task.all kind (tree.previous kind current) current).find? (·.path.same path) with
  | none =>
    refine find?_regenerated_beside apart fun task inside => ?_
    exact Bool.eq_false_iff.mpr (List.find?_eq_none.mp found task inside)
  | some task =>
    have same := List.find?_some found
    dsimp only at same ⊢
    rw [← find?_congr _ same, ← find?_congr _ same]
    exact find?_regenerated (List.mem_of_find?_eq_some found)

end Evaluation

end MemoryTree

end ClassWeaver
