import ClassWeaver.Proofs.Model.Snapshot
import ClassWeaver.Proofs.Regeneration.Isolation

set_option autoImplicit false

/-!
The run after one that failed. A run that failed only because something was denied is made up for by
the next one, as far as no file of a class lies below that of another one: what failed is brought to
what it would have been. The snapshot is saved then exactly if nothing lies below a file that the
first run has deleted, since what is left there keeps the file from being opened.
-/

namespace ClassWeaver

namespace MemoryTree

variable {tree : MemoryTree} {kind : FileKind} {catalog : Catalog} {current old : Model}
  {path : FilePath} {task : Task}

section Allowed

/-- The files with nothing denied. -/
def allowed (tree : MemoryTree) : MemoryTree :=
  { tree with denied := [] }

theorem find?_allowed (tree : MemoryTree) (path : FilePath) :
    tree.allowed.find? path = tree.find? path :=
  rfl

theorem readText_allowed (tree : MemoryTree) (path : FilePath) :
    (tree.allowed.readText path).toOption = tree.find? path := by
  rw [readText, unlessDenied, find?_allowed]
  cases tree.find? path <;> rfl

theorem snapshot?_allowed (loaded : tree.snapshot? path = some old) :
    tree.allowed.snapshot? path = some old := by
  obtain ⟨text, read, decoded⟩ := exists_of_snapshot? loaded
  rw [snapshot?, readText_allowed, find?_of_readText read, Option.bind_some, decoded]
  rfl

theorem loaded_of_find?
    (granted : tree.denied.contains (.read, (kind.snapshotPath current).text) = false)
    (short : old.HasWordIndices)
    (found : tree.find? (kind.snapshotPath current) = some (Snapshot.encode old)) :
    tree.loaded kind current = some old.unmarked := by
  rw [loaded, snapshot?, readText_of_find? granted found, Except.toOption, Option.bind_some,
    Snapshot.decode_encode short]
  rfl

theorem loaded_allowed (short : old.HasWordIndices)
    (found : tree.find? (kind.snapshotPath current) = some (Snapshot.encode old)) :
    tree.allowed.loaded kind current = some old.unmarked :=
  loaded_of_find? rfl short ((find?_allowed _ _).trans found)

theorem loaded_put
    (granted : tree.denied.contains (.read, (kind.snapshotPath current).text) = false)
    (short : old.HasWordIndices) :
    (tree.put (kind.snapshotPath current) (Snapshot.encode old)).loaded kind current =
      some old.unmarked := by
  refine loaded_of_find? granted short ?_
  rw [find?_put, FilePath.same_refl]
  rfl

theorem isClassPath_allowed
    (here : kind.IsClassPath (tree.loaded kind current) current path) :
    kind.IsClassPath (tree.allowed.loaded kind current) current path := by
  obtain ⟨model, owner, known | rfl, found, same⟩ := here
  · exact ⟨model, owner, .inl (snapshot?_allowed known), found, same⟩
  · exact ⟨model, owner, .inr rfl, found, same⟩

theorem exists_opened_allowed_iff :
    (∃ draft, tree.allowed.opened path = .ok draft) ↔
      tree.holds path = (tree.find? path).isSome := by
  have there : tree.allowed.holds path = tree.holds path := rfl
  rw [opened, there]
  cases held : tree.holds path with
  | false =>
    rw [find?_of_not_holds held]
    exact ⟨fun _ => rfl, fun _ => ⟨.new, rfl⟩⟩
  | true =>
    rw [if_pos rfl, ← readText_allowed]
    cases tree.allowed.readText path with
    | ok source => exact ⟨fun _ => rfl, fun _ => ⟨.ofSource source, rfl⟩⟩
    | error cause =>
      constructor
      · rintro ⟨draft, done⟩
        cases done
      · intro there
        cases there

theorem not_failed_settle_allowed (tree : MemoryTree) (path : FilePath) (draft : Draft)
    (failure : Failure) : (tree.allowed.settle path (.ok draft)).1 ≠ .failed failure := by
  have granted (access : Access) (done : Outcome) (after : MemoryTree) :
      tree.allowed.permitted access path done after = (done, after) := rfl
  intro failed
  rw [settle] at failed
  split at failed
  · split at failed
    · rw [granted] at failed
      cases failed
    · cases failed
  · split at failed
    · cases failed
    · rw [granted] at failed
      cases failed

theorem exists_result_of_failures_eq_nil
    (clean : (tree.regenerated kind catalog current).1.failures = [])
    (found : task ∈ tree.tasks kind current) :
    ∃ draft, tree.result kind catalog current task = .ok draft := by
  cases made : tree.result kind catalog current task with
  | ok draft => exact ⟨draft, rfl⟩
  | error obstacle =>
    have failed : tree.outcome kind catalog current task =
        .failed ⟨obstacle.path, obstacle.cause.message⟩ := by
      rw [outcome, made]
      rfl
    have listed : Outcome.failed ⟨obstacle.path, obstacle.cause.message⟩ ∈
        (tree.regenerated kind catalog current).1.entries := by
      rw [← failed]
      exact (mem_entries_regenerated (path_outcome_not_same_snapshotPath found)).mpr
        ⟨⟨task, found, rfl⟩, by rw [failed]; rfl⟩
    rw [Report.failed_mem_entries, clean] at listed
    cases listed

theorem snapshotSaved_allowed
    (done : ∀ task ∈ tree.allowed.tasks kind current,
      ∃ draft, tree.allowed.result kind catalog current task = .ok draft) :
    (tree.allowed.regenerated kind catalog current).1.snapshotSaved = true := by
  refine (accounts_regenerated _ kind catalog current).saved.mpr ?_
  rw [failures_regenerated rfl]
  refine List.eq_nil_iff_forall_not_mem.mpr fun failure listed => ?_
  obtain ⟨task, found, failed⟩ := mem_failures_fileReport.mp listed
  obtain ⟨draft, made⟩ := done task found
  rw [outcome, made] at failed
  exact not_failed_settle_allowed tree task.path draft failure failed

theorem holds_of_failures_eq_nil
    (clean : (tree.allowed.regenerated kind catalog current).1.failures = [])
    (here : kind.IsClassPath (tree.allowed.loaded kind current) current path) :
    tree.holds path = (tree.find? path).isSome := by
  obtain ⟨task, found, same⟩ := exists_mem_tasks here
  obtain ⟨draft, made⟩ := exists_result_of_failures_eq_nil clean found
  obtain ⟨first, opened, -⟩ := exists_of_bind_eq_ok made
  rw [← holds_congr tree same, ← find?_congr tree same]
  exact exists_opened_allowed_iff.mp ⟨first, opened⟩

theorem find?_regenerated_of_folder (here : kind.IsClassPath (tree.loaded kind current) current path)
    (held : tree.holds path = true) (missing : tree.find? path = none) :
    (tree.regenerated kind catalog current).2.find? path = none := by
  obtain ⟨task, found, same⟩ := exists_mem_tasks here
  rw [← holds_congr tree same] at held
  rw [← find?_congr tree same] at missing
  rw [← find?_congr _ same, find?_regenerated found]
  cases made : tree.result kind catalog current task with
  | error obstacle => exact missing
  | ok draft =>
    rcases find?_of_result made with there | gone
    · rw [missing] at there
      cases there
    · rw [held] at gone
      cases gone

end Allowed

section Failed

variable (failed : (tree.regenerated kind catalog current).1.failures ≠ [])

include failed

theorem settled_of_failures :
    Settled tree (tree.regenerated kind catalog current).2 (tree.tasks kind current)
      (tree.result kind catalog current) := by
  obtain ⟨middle, settled, completed⟩ := tree.exists_regenerated kind catalog current
  generalize (tree.regenerated kind catalog current).1 = report at completed failed
  generalize (tree.regenerated kind catalog current).2 = after at completed ⊢
  cases completed with
  | kept | refused => exact settled
  | saved clean => exact absurd clean failed

theorem find?_regenerated_of_failures
    (beside : ∀ task ∈ tree.tasks kind current, task.path.same path = false) :
    (tree.regenerated kind catalog current).2.find? path = tree.find? path :=
  (settled_of_failures failed).beside path beside

theorem isClearBelow_regenerated
    (beside : ∀ task ∈ tree.tasks kind current, task.path.isBelow path = false)
    (clear : tree.IsClearBelow path) :
    (tree.regenerated kind catalog current).2.IsClearBelow path :=
  (settled_of_failures failed).clear path beside clear

theorem loaded_of_failures :
    (tree.regenerated kind catalog current).2.allowed.loaded kind current =
      tree.allowed.loaded kind current := by
  have kept := find?_regenerated_of_failures failed fun _ found =>
    (isClassPath_of_mem_tasks found).not_same_snapshotPath
  rw [loaded, loaded, snapshot?, snapshot?, readText_allowed, readText_allowed, kept]

end Failed

section Again

variable (flat : kind.IsFlat (tree.allowed.loaded kind current) current)
  (clean : (tree.allowed.regenerated kind catalog current).1.failures = [])
  (failed : (tree.regenerated kind catalog current).1.failures ≠ [])

include flat failed

theorem isClearBelow_again
    (here : kind.IsClassPath (tree.allowed.loaded kind current) current path)
    (clear : tree.IsClearBelow path) :
    (tree.regenerated kind catalog current).2.IsClearBelow path :=
  isClearBelow_regenerated failed
    (fun _ found => flat _ _ (isClassPath_allowed (isClassPath_of_mem_tasks found)) here) clear

theorem holds_of_mem_deleted
    (gone : path ∈ (tree.regenerated kind catalog current).1.deleted)
    (full : ¬ tree.IsClearBelow path) :
    (tree.regenerated kind catalog current).2.holds path = true := by
  have here := isClassPath_allowed (isClassPath_of_mem_deleted gone)
  simp only [IsClearBelow, not_forall, Bool.not_eq_false] at full
  obtain ⟨file, inside, below⟩ := full
  have there : tree.find? file.1 ≠ none := by
    rw [← Option.isSome_iff_ne_none, isSome_find?, List.any_eq_true]
    exact ⟨file, inside, FilePath.same_refl _⟩
  -- no task has its file below another one, so the run leaves what is there alone
  have beside : ∀ task ∈ tree.tasks kind current, task.path.same file.1 = false := by
    refine fun task found => Bool.eq_false_iff.mpr fun same => ?_
    have apart := flat _ _ (isClassPath_allowed (isClassPath_of_mem_tasks found)) here
    rw [FilePath.isBelow_congr_left same, below] at apart
    cases apart
  have still := (find?_regenerated_of_failures failed beside).trans_ne there
  exact holds_of_isBelow still below

include clean

theorem holds_again_of_missing
    (here : kind.IsClassPath (tree.allowed.loaded kind current) current path)
    (missing : tree.find? path = none) :
    (tree.regenerated kind catalog current).2.holds path =
      ((tree.regenerated kind catalog current).2.find? path).isSome := by
  have empty : tree.holds path = false := by
    rw [holds_of_failures_eq_nil clean here, missing]
    rfl
  exact holds_of_isClearBelow
    (isClearBelow_again flat failed here (isClearBelow_of_not_holds empty))

/-- The file of a class that failed in the first run is in the end what it would have been. -/
theorem find?_again {failure : Failure}
    (listed : failure ∈ (tree.regenerated kind catalog current).1.failures)
    (file : failure.path.same (kind.snapshotPath current) = false) :
    ((tree.regenerated kind catalog current).2.allowed.regenerated kind catalog current).2.find?
        failure.path =
      (tree.allowed.regenerated kind catalog current).2.find? failure.path := by
  have unchanged := (accounts_regenerated tree kind catalog current).failed failure listed
  have file : (Outcome.failed failure).path.same (kind.snapshotPath current) = false := file
  obtain ⟨⟨task, found, outcome⟩, -⟩ :=
    (mem_entries_regenerated file).mp (Report.failed_mem_entries.mpr listed)
  have meets : (tree.outcome kind catalog current task).path.same task.path = true :=
    same_path_outcome found
  rw [outcome] at meets
  have here := isClassPath_allowed
    ((isClassPath_of_mem_tasks found).of_same (FilePath.same_symm meets))
  have loaded := loaded_of_failures failed
  refine (isolated_of_loaded_eq loaded (loaded ▸ here) fun other same => ?_).1
  have hereToo := here.of_same (FilePath.same_symm same)
  have text : (tree.regenerated kind catalog current).2.find? other = tree.find? other := by
    rw [find?_congr _ same, find?_congr tree same]
    exact unchanged
  refine ⟨text, ?_, fun _ => rfl⟩
  cases there : tree.find? other with
  | some source => exact (holds_of_find? (text.trans there)).trans (holds_of_find? there).symm
  | none =>
    have held := holds_again_of_missing flat clean failed hereToo there
    rw [text] at held
    exact held.trans (holds_of_failures_eq_nil clean hereToo).symm

/-- The run after a failure finds no folder in the place of a file if nothing lies below the files
that the first run has deleted. -/
theorem holds_again
    (clear : ∀ gone ∈ (tree.regenerated kind catalog current).1.deleted, tree.IsClearBelow gone)
    (here : kind.IsClassPath (tree.allowed.loaded kind current) current path) :
    (tree.regenerated kind catalog current).2.holds path =
      ((tree.regenerated kind catalog current).2.find? path).isSome := by
  cases after : (tree.regenerated kind catalog current).2.find? path with
  | some source => exact holds_of_find? after
  | none =>
    rw [← after]
    by_cases missing : tree.find? path = none
    · exact holds_again_of_missing flat clean failed here missing
    · obtain ⟨gone, listed, same⟩ :=
        (accounts_regenerated tree kind catalog current).exists_mem_deleted
          here.not_same_snapshotPath missing after
      exact holds_of_isClearBelow
        (isClearBelow_again flat failed here ((clear gone listed).congr same))

/-- The run after a failure succeeds exactly if nothing lies below the files that the first run has
deleted. -/
theorem snapshotSaved_again_iff :
    ((tree.regenerated kind catalog current).2.allowed.regenerated kind catalog
        current).1.snapshotSaved = true ↔
      ∀ gone ∈ (tree.regenerated kind catalog current).1.deleted, tree.IsClearBelow gone := by
  have loaded := loaded_of_failures failed
  constructor
  · intro saved gone listed
    by_contra full
    have here := isClassPath_allowed (isClassPath_of_mem_deleted listed)
    have held := holds_of_failures_eq_nil
      ((accounts_regenerated _ kind catalog current).saved.mp saved) (loaded ▸ here)
    have away := ((accounts_regenerated tree kind catalog current).deleted gone listed).2
    rw [holds_of_mem_deleted flat failed listed full, away] at held
    cases held
  · intro clear
    have together : (tree.regenerated kind catalog current).2.allowed.tasks kind current =
        tree.allowed.tasks kind current := tasks_congr loaded
    refine snapshotSaved_allowed fun task found => ?_
    rw [together] at found
    obtain ⟨draft, made⟩ := exists_result_of_failures_eq_nil clean found
    obtain ⟨first, -, carried⟩ := exists_of_bind_eq_ok made
    obtain ⟨second, opened⟩ := exists_opened_allowed_iff.mpr
      (holds_again flat clean failed clear (isClassPath_of_mem_tasks found))
    obtain ⟨last, done⟩ := Task.exists_carryOut_eq_ok carried second
    refine ⟨last, ?_⟩
    rw [result, opened, previous_congr loaded]
    exact done

end Again

/-- Files do not disturb each other. First, what becomes of the file of a class, and what is listed
of it, depends on the snapshot that can be read and on what is seen at the path of the file: its
text, whether anything is there, and which operations are denied.

Second, if a run fails and would not have failed with nothing denied, and no file of a class lies
below that of another one, then the next run with nothing denied brings each file that failed to what
a first run without failures would have made of it. The snapshot is saved by then, and is what it
would have been, exactly if nothing lay below a file that the first run has deleted.

Third, no file lies below another one if there was no snapshot, or the one of a model with simple
names for the same folder. -/
theorem regenerated_isolated_and_retried (kind : FileKind) (catalog : Catalog)
    {definition : ModelDefinition} {current : Model} (built : definition.build = .ok current) :
    (∀ (a b : MemoryTree) (path : FilePath),
      (a.readText (kind.snapshotPath current)).toOption =
        (b.readText (kind.snapshotPath current)).toOption →
      kind.IsClassPath (a.loaded kind current) current path →
      (∀ other : FilePath, other.same path = true → a.LooksAlike b other) →
        (a.regenerated kind catalog current).2.find? path =
          (b.regenerated kind catalog current).2.find? path ∧
        ∀ entry : Outcome, entry.path.same path = true →
          (entry ∈ (a.regenerated kind catalog current).1.entries ↔
            entry ∈ (b.regenerated kind catalog current).1.entries)) ∧
    (∀ tree : MemoryTree,
      let first := tree.regenerated kind catalog current
      let ideal := tree.allowed.regenerated kind catalog current
      let again := first.2.allowed.regenerated kind catalog current
      kind.IsFlat (tree.allowed.loaded kind current) current →
      ideal.1.failures = [] → first.1.failures ≠ [] →
        (∀ failure ∈ first.1.failures, failure.path.same (kind.snapshotPath current) = false →
          again.2.find? failure.path = ideal.2.find? failure.path) ∧
        (again.1.snapshotSaved = true ↔ ∀ gone ∈ first.1.deleted, tree.IsClearBelow gone) ∧
        (again.1.snapshotSaved = true →
          again.2.find? (kind.snapshotPath current) =
            ideal.2.find? (kind.snapshotPath current))) ∧
    ∀ previous : Option Model,
      (∀ old, previous = some old →
        (kind.folder old).same (kind.folder current) = true ∧ old.HasSimpleNames) →
      kind.IsFlat previous current := by
  refine ⟨?isolated, ?retried, ?flat⟩
  case isolated =>
    intro a b path readable here alike
    exact isolated_of_loaded_eq (snapshot?_congr readable) here alike
  case retried =>
    intro tree first ideal again flat clean failed
    refine ⟨fun failure => find?_again flat clean failed, snapshotSaved_again_iff flat clean failed,
      fun saved => ?_⟩
    have saved' := (accounts_regenerated tree.allowed kind catalog current).saved.mpr clean
    rw [(accounts_regenerated _ kind catalog current).snapshot,
      (accounts_regenerated tree.allowed kind catalog current).snapshot, saved, saved', if_pos rfl,
      if_pos rfl]
  case flat =>
    intro previous together
    exact FileKind.isFlat_of_same_folder (ModelDefinition.hasSimpleNames_build built) together

private def loneDefinition (name : String) : ModelDefinition :=
  ⟨"p", Model.standardSourceFolder, none, none, [⟨name, none, [], []⟩], []⟩

private def loneModel (name : String) : Model :=
  { Model.ofPackage "p" Model.standardSourceFolder with classes := [ModelClass.ofName name] }

private def sourceFile (name : String) : FilePath :=
  ⟨"src/main/java/p/" ++ name ++ ".java"⟩

private def lockedTree : MemoryTree :=
  ⟨[], [(.write, "src/main/java/p/A.java")]⟩

/-- The file of a class is generated beside other files as it is without them, and a denied write is
made up for by the next run. -/
theorem denied_write_is_made_up_for :
    (empty.regenerated .classFile .standard (loneModel "A")).2.find? (sourceFile "A") =
        ((empty.put ⟨"notes.txt"⟩ "").regenerated .classFile .standard (loneModel "A")).2.find?
          (sourceFile "A") ∧
      let locked := lockedTree.regenerated .classFile .standard (loneModel "A")
      let again := locked.2.allowed.regenerated .classFile .standard (loneModel "A")
      locked.1.failures.map (·.path) = [sourceFile "A"] ∧
        again.2.find? (sourceFile "A") =
          (lockedTree.allowed.regenerated .classFile .standard (loneModel "A")).2.find?
            (sourceFile "A") ∧
        again.1.snapshotSaved = true := by
  have built : (loneDefinition "A").build = .ok (loneModel "A") := by decide
  obtain ⟨isolated, retried, flat⟩ := regenerated_isolated_and_retried .classFile .standard built
  have listed : (lockedTree.regenerated .classFile .standard (loneModel "A")).1.failures.map
      (·.path) = [sourceFile "A"] := by
    decide +kernel
  have failed : (lockedTree.regenerated .classFile .standard (loneModel "A")).1.failures ≠ [] := by
    intro clean
    rw [clean] at listed
    cases listed
  have missing : lockedTree.allowed.loaded .classFile (loneModel "A") = none := by decide
  obtain ⟨files, saved, -⟩ := retried lockedTree
    (flat _ fun old loaded => by rw [missing] at loaded; cases loaded) (by decide) failed
  refine ⟨(isolated _ _ (sourceFile "A") (by decide +kernel) ?_ ?_).1, listed, ?_,
    saved.mpr fun gone _ => nofun⟩
  · exact ⟨loneModel "A", .ofName "A", .inr rfl, List.mem_singleton_self _, by decide +kernel⟩
  · intro other same
    refine ⟨?_, ?_, fun _ => rfl⟩
    · rw [find?_congr _ same, find?_congr (empty.put _ _) same]
      decide
    · rw [holds_congr _ same, holds_congr (empty.put _ _) same]
      decide
  · obtain ⟨failure, inside, same⟩ := List.mem_map.mp (listed ▸ List.mem_singleton_self _)
    rw [← same]
    exact files failure inside (by rw [same]; decide +kernel)

/-- The file of class A with another one below it, the snapshot of A, and a file of class B that must
not be written. -/
private def crowdedTree : MemoryTree :=
  (((MemoryTree.mk [] [(.write, "src/main/java/p/B.java")]).put (sourceFile "A")
      "package p;\n\npublic class A\n\x7b\n\n\x7d\n").put ⟨"src/main/java/p/A.java/x"⟩ "").put
    (FileKind.classFile.snapshotPath (loneModel "B")) (Snapshot.encode (loneModel "A"))

private theorem hasWordIndices_loneModel (name : String) : (loneModel name).HasWordIndices := by
  simp [Model.HasWordIndices, loneModel, ModelClass.ofName]

private theorem loaded_crowdedTree :
    crowdedTree.loaded .classFile (loneModel "B") = some (loneModel "A") :=
  loaded_put (by decide) (hasWordIndices_loneModel "A")

private def keptClass : ModelClass :=
  { ModelClass.ofName "B" with methods := [⟨"void f()", "", false⟩] }

private def pairDefinition : ModelDefinition :=
  ⟨"p", Model.standardSourceFolder, none, none,
    [⟨"A", none, [], []⟩, ⟨"B", none, [], [⟨"void f()", ""⟩]⟩], []⟩

private def pairModel : Model :=
  { Model.ofPackage "p" Model.standardSourceFolder with
    classes := [ModelClass.ofName "A", keptClass] }

private def innerModel : Model :=
  { Model.ofPackage "p" "src/main/java/p/A.java" with classes := [keptClass] }

private def nestedTree : MemoryTree :=
  (MemoryTree.mk [] [(.write, "src/main/java/p/A.java")]).put
    (FileKind.classFile.snapshotPath pairModel) (Snapshot.encode innerModel)

private theorem loaded_nestedTree :
    nestedTree.loaded .classFile pairModel = some innerModel :=
  loaded_put (by decide) <| by
    simp [Model.HasWordIndices, innerModel, keptClass, ModelClass.ofName]

private theorem evaluated_crowdedTree :
    let previous := some (Marking.mark (loneModel "A") (loneModel "B")).1
    (crowdedTree.reportOf .classFile .standard previous (loneModel "B") =
        ⟨[], [], [sourceFile "A"], [⟨sourceFile "B",
          "filesystem error at src/main/java/p/B.java: write denied"⟩], [], false⟩ ∧
      (crowdedTree.allowed.reportOf .classFile .standard previous (loneModel "B")).failures = []) ∧
    crowdedTree.denied.contains (.write, (FileKind.classFile.snapshotPath (loneModel "B")).text) =
        false ∧
      (crowdedTree.files.any fun file => file.1.isBelow (sourceFile "A")) = true := by
  decide +kernel

private theorem isFlat_crowdedTree :
    FileKind.classFile.IsFlat (crowdedTree.allowed.loaded .classFile (loneModel "B"))
      (loneModel "B") := by
  have simple {name : String} (done : (loneDefinition name).build = .ok (loneModel name)) :
      (loneModel name).HasSimpleNames := ModelDefinition.hasSimpleNames_build done
  refine FileKind.isFlat_of_same_folder (simple (by decide)) fun old last => ?_
  obtain rfl := Option.some.inj ((snapshot?_allowed loaded_crowdedTree).symm.trans last)
  exact ⟨FilePath.same_refl _, simple (by decide)⟩

private theorem crowded_run_fails_again :
    let first := crowdedTree.regenerated .classFile .standard (loneModel "B")
    let ideal := crowdedTree.allowed.regenerated .classFile .standard (loneModel "B")
    let again := first.2.allowed.regenerated .classFile .standard (loneModel "B")
    ideal.1.failures = [] ∧ first.1.failures.map (·.path) = [sourceFile "B"] ∧
      again.1.snapshotSaved = false := by
  obtain ⟨⟨report, idealReport⟩, granted, crowded⟩ := evaluated_crowdedTree
  have previous := previous_of_loaded loaded_crowdedTree
  have clean : (crowdedTree.allowed.regenerated .classFile .standard (loneModel "B")).1.failures =
      [] := by
    rw [failures_regenerated_eq (previous_of_loaded (snapshot?_allowed loaded_crowdedTree)) rfl]
    exact idealReport
  have listed : (crowdedTree.regenerated .classFile .standard (loneModel "B")).1.failures =
      [⟨sourceFile "B", "filesystem error at src/main/java/p/B.java: write denied"⟩] := by
    rw [failures_regenerated_eq previous granted, report]
  have deleted : sourceFile "A" ∈
      (crowdedTree.regenerated .classFile .standard (loneModel "B")).1.deleted := by
    rw [deleted_regenerated_eq previous, report]
    exact List.mem_singleton_self _
  refine ⟨clean, by rw [listed]; rfl, Bool.eq_false_iff.mpr fun saved => ?_⟩
  have failed : (crowdedTree.regenerated .classFile .standard (loneModel "B")).1.failures ≠ [] := by
    rw [listed]
    exact List.cons_ne_nil _ _
  obtain ⟨file, inside, below⟩ := List.any_eq_true.mp crowded
  have clear := (snapshotSaved_again_iff isFlat_crowdedTree clean failed).mp saved _ deleted file
    inside
  rw [below] at clear
  cases clear

private theorem evaluated_nestedTree :
    let previous := some (Marking.mark innerModel pairModel).1
    let inner := FileKind.classFile.path innerModel keptClass
    ((nestedTree.allowed.reportOf .classFile .standard previous pairModel).failures = [] ∧
      nestedTree.allowed.textAfter .classFile .standard previous pairModel (sourceFile "A") ≠ none ∧
      (nestedTree.reportOf .classFile .standard previous pairModel).failures.map (·.path) =
        [sourceFile "A"] ∧
      nestedTree.textAfter .classFile .standard previous pairModel (sourceFile "A") = none ∧
      nestedTree.textAfter .classFile .standard previous pairModel inner ≠ none) ∧
    nestedTree.denied.contains (.write, (FileKind.classFile.snapshotPath pairModel).text) = false ∧
      inner.isBelow (sourceFile "A") = true ∧
      FileKind.classFile.path pairModel (.ofName "A") = sourceFile "A" := by
  decide +kernel

private theorem nested_run_fails_again :
    let first := nestedTree.regenerated .classFile .standard pairModel
    let ideal := nestedTree.allowed.regenerated .classFile .standard pairModel
    let again := first.2.allowed.regenerated .classFile .standard pairModel
    ideal.1.failures = [] ∧ first.1.failures.map (·.path) = [sourceFile "A"] ∧
      ideal.2.find? (sourceFile "A") ≠ none ∧ again.2.find? (sourceFile "A") = none := by
  obtain ⟨⟨clean, written, failed, missing, filled⟩, granted, inside, place⟩ := evaluated_nestedTree
  have previous := previous_of_loaded loaded_nestedTree
  have previous' := previous_of_loaded (snapshot?_allowed loaded_nestedTree)
  have apart : (sourceFile "A").same (FileKind.classFile.snapshotPath pairModel) = false := by
    rw [← place]
    exact FileKind.path_not_same_snapshotPath .classFile pairModel pairModel _
  refine ⟨?_, ?_, ?_, find?_regenerated_of_folder ?_ ?_ ?_⟩
  · rw [failures_regenerated_eq previous' rfl]
    exact clean
  · rw [failures_regenerated_eq previous granted]
    exact failed
  · rw [find?_regenerated_eq previous' apart]
    exact written
  · exact ⟨pairModel, .ofName "A", .inr rfl, List.mem_cons_self, by
      rw [place]
      exact FilePath.same_refl _⟩
  · refine holds_of_isBelow ?_ inside
    rw [find?_allowed,
      find?_regenerated_eq previous (FileKind.path_not_same_snapshotPath .classFile _ _ _)]
    exact filled
  · rw [find?_allowed, find?_regenerated_eq previous apart]
    exact missing

/-- Folders in the place of files are not made up for by the next run, neither one that a deleted file
leaves behind nor one that is made by a snapshot of another folder. -/
theorem denied_write_is_not_made_up_for :
    ((loneDefinition "B").build = .ok (loneModel "B") ∧
      let first := crowdedTree.regenerated .classFile .standard (loneModel "B")
      let ideal := crowdedTree.allowed.regenerated .classFile .standard (loneModel "B")
      let again := first.2.allowed.regenerated .classFile .standard (loneModel "B")
      ideal.1.failures = [] ∧ first.1.failures.map (·.path) = [sourceFile "B"] ∧
        again.1.snapshotSaved = false) ∧
    pairDefinition.build = .ok pairModel ∧
      let first := nestedTree.regenerated .classFile .standard pairModel
      let ideal := nestedTree.allowed.regenerated .classFile .standard pairModel
      let again := first.2.allowed.regenerated .classFile .standard pairModel
      ideal.1.failures = [] ∧ first.1.failures.map (·.path) = [sourceFile "A"] ∧
        ideal.2.find? (sourceFile "A") ≠ none ∧ again.2.find? (sourceFile "A") = none :=
  ⟨⟨by decide, crowded_run_fails_again⟩, by decide, nested_run_fails_again⟩

end MemoryTree

end ClassWeaver
