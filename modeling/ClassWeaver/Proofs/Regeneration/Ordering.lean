import ClassWeaver.Proofs.Model.Ordering
import ClassWeaver.Proofs.Regeneration.Running
import Mathlib.Data.List.Perm.Basic

set_option autoImplicit false

/-!
Runs on models that differ in the order of their classes only. The work of a run is found by the
names and the paths of the classes, and the tasks are sorted by their paths, so a run does the same
for both models up to the saving of the snapshot.

Main statements: `regenerateFiles_reordered`, on any files the two runs are one program up to the
snapshot; `ModelDefinition.order_of_classes_is_free`.
-/

namespace ClassWeaver

/-! ### Tasks -/

namespace Task

variable {p q : FilePath} {f g : Task → Task}

private theorem atPath_pair (apart : p.same q = false) (keptF : ∀ task, (f task).path = task.path)
    (keptG : ∀ task, (g task).path = task.path) (rest : List Task)
    (laterF : atPath p f rest = f ⟨p, [], []⟩ :: rest)
    (laterG : atPath q g rest = g ⟨q, [], []⟩ :: rest) :
    atPath p f (g ⟨q, [], []⟩ :: rest) = atPath q g (f ⟨p, [], []⟩ :: rest) := by
  have apart' : q.same p = false := by rwa [FilePath.same_comm]
  rw [atPath, atPath, keptF, keptG, apart, apart', laterF, laterG]
  cases early : p.precedes q with
  | true => rw [FilePath.not_precedes_of_precedes early]; rfl
  | false => rw [FilePath.precedes_of_not_precedes apart early]; rfl

private theorem atPath_behind (apart : p.same q = false) (keptG : ∀ task, (g task).path = task.path)
    (late : p.precedes q = false) (rest : List Task) :
    atPath p f (g ⟨q, [], []⟩ :: rest) = g ⟨q, [], []⟩ :: atPath p f rest := by
  rw [atPath, keptG, FilePath.same_comm, apart, late]
  rfl

theorem atPath_of_same {task : Task} (here : task.path.same p = true) (rest : List Task) :
    atPath p f (task :: rest) = f task :: rest := by
  rw [atPath, if_pos here]

theorem atPath_of_precedes {task : Task} (other : task.path.same p = false)
    (front : p.precedes task.path = true) (rest : List Task) :
    atPath p f (task :: rest) = f ⟨p, [], []⟩ :: task :: rest := by
  rw [atPath, other, front]
  rfl

theorem atPath_of_not_precedes {task : Task} (other : task.path.same p = false)
    (late : p.precedes task.path = false) (rest : List Task) :
    atPath p f (task :: rest) = task :: atPath p f rest := by
  rw [atPath, other, late]
  rfl

private theorem atPath_comm_of_same (apart : p.same q = false)
    (keptF : ∀ task, (f task).path = task.path) (keptG : ∀ task, (g task).path = task.path)
    {task : Task} (here : task.path.same p = true) (rest : List Task) :
    atPath p f (atPath q g (task :: rest)) = atPath q g (atPath p f (task :: rest)) := by
  have other : task.path.same q = false := by rwa [FilePath.same_congr_left here]
  have other' : (f task).path.same q = false := by rwa [keptF]
  rw [atPath_of_same here]
  cases front : q.precedes task.path with
  | true =>
    have late : p.precedes q = false := by
      rw [← FilePath.precedes_congr_left here]
      exact FilePath.not_precedes_of_precedes front
    have front' : q.precedes (f task).path = true := by rwa [keptF]
    rw [atPath_of_precedes other front, atPath_behind apart keptG late, atPath_of_same here,
      atPath_of_precedes other' front']
  | false =>
    have late' : q.precedes (f task).path = false := by rwa [keptF]
    rw [atPath_of_not_precedes other front, atPath_of_same here,
      atPath_of_not_precedes other' late']

private theorem atPath_comm_of_precedes (apart : p.same q = false)
    (keptF : ∀ task, (f task).path = task.path) {task : Task}
    (otherP : task.path.same p = false) (otherQ : task.path.same q = false)
    (front : p.precedes task.path = true) (late : q.precedes task.path = false)
    (rest : List Task) :
    atPath p f (atPath q g (task :: rest)) = atPath q g (atPath p f (task :: rest)) := by
  have behind : q.precedes p = false := by
    refine Bool.eq_false_iff.mpr fun early => ?_
    rw [FilePath.precedes_trans early front] at late
    cases late
  rw [atPath_of_not_precedes otherQ late, atPath_of_precedes otherP front,
    atPath_of_precedes otherP front, atPath_behind (by rwa [FilePath.same_comm]) keptF behind,
    atPath_of_not_precedes otherQ late]

theorem atPath_comm (apart : p.same q = false) (keptF : ∀ task, (f task).path = task.path)
    (keptG : ∀ task, (g task).path = task.path) (tasks : List Task) :
    atPath p f (atPath q g tasks) = atPath q g (atPath p f tasks) := by
  have apart' : q.same p = false := by rwa [FilePath.same_comm]
  induction tasks with
  | nil => exact atPath_pair apart keptF keptG [] rfl rfl
  | cons task rest ih =>
    cases hereP : task.path.same p with
    | true => exact atPath_comm_of_same apart keptF keptG hereP rest
    | false =>
      cases hereQ : task.path.same q with
      | true => exact (atPath_comm_of_same apart' keptG keptF hereQ rest).symm
      | false =>
        -- neither path has its task here: what counts is which of them come in front of it
        cases frontP : p.precedes task.path with
        | true =>
          cases frontQ : q.precedes task.path with
          | true =>
            have laterP := @atPath_of_precedes p f task hereP frontP rest
            have laterQ := @atPath_of_precedes q g task hereQ frontQ rest
            rw [laterQ, laterP]
            exact atPath_pair apart keptF keptG (task :: rest) laterP laterQ
          | false => exact atPath_comm_of_precedes apart keptF hereP hereQ frontP frontQ rest
        | false =>
          cases frontQ : q.precedes task.path with
          | true =>
            exact (atPath_comm_of_precedes apart' keptG hereQ hereP frontQ frontP rest).symm
          | false =>
            rw [atPath_of_not_precedes hereQ frontQ, atPath_of_not_precedes hereP frontP, ih,
              atPath_of_not_precedes hereP frontP, atPath_of_not_precedes hereQ frontQ]

theorem addAll_of_perm {place : ModelClass → FilePath} {change : ModelClass → Task → Task}
    (kept : ∀ owner task, (change owner task).path = task.path) {owners others : List ModelClass}
    (reordered : owners.Perm others)
    (apart : ∀ a ∈ owners, ∀ b ∈ owners, a ≠ b → (place a).same (place b) = false)
    (tasks : List Task) : addAll place change owners tasks = addAll place change others tasks := by
  refine reordered.foldl_eq' (fun a foundA b foundB tasks => ?_) tasks
  by_cases same : a = b
  · rw [same]
  · exact (atPath_comm (apart a foundA b foundB same) (kept a) (kept b) tasks).symm

end Task

/-! ### Runs -/

section Reordered

variable {a b : Model}

namespace Model.IsReordering

variable (reordered : a.IsReordering b)

include reordered

theorem packageFolder_eq : b.packageFolder = a.packageFolder := by
  rw [packageFolder, packageFolder, reordered.sourceFolder_eq, reordered.package_eq]

theorem snapshotPath_eq (kind : FileKind) : kind.snapshotPath b = kind.snapshotPath a := by
  rw [FileKind.snapshotPath, FileKind.snapshotPath, reordered.packageFolder_eq]

theorem path_eq (kind : FileKind) : kind.path b = kind.path a := by
  funext owner
  unfold FileKind.path
  rw [reordered.packageFolder_eq]

variable (distinct : a.HasDistinctClasses)

include distinct

theorem mark_eq (previous : Model) : Marking.mark previous b = Marking.mark previous a := by
  unfold Marking.mark Marking.stalePlaces Marking.compareClass
  unfold Marking.changedPlaces Marking.roleChanged Marking.matching? Marking.counterpartName
  rw [reordered.class?_eq distinct, reordered.otherRole?_eq distinct]

theorem updates_eq (kind : FileKind) : kind.updates b = kind.updates a := by
  funext owner
  cases kind with
  | classFile =>
    unfold FileKind.updates ClassFile.updates ClassFile.roleUpdates ClassFile.linkedRoleUpdates
    rw [reordered.package_eq, reordered.role?_eq distinct]
  | tableFile =>
    unfold FileKind.updates TableFile.updates TableFile.imports
    rw [reordered.package_eq]

theorem carryOut_eq (kind : FileKind) (catalog : Catalog) (previous : Option Model) (task : Task) :
    task.carryOut kind catalog previous b = task.carryOut kind catalog previous a := by
  have generate : Draft.generate kind catalog b = Draft.generate kind catalog a := by
    funext draft owner
    rw [Draft.generate, Draft.generate, FileKind.generate, FileKind.generate,
      reordered.updates_eq distinct, reordered.path_eq]
  funext draft
  rw [Task.carryOut_eq, Task.carryOut_eq, generate]

theorem tasks_eq (simple : a.HasSimpleNames) (kind : FileKind) (previous : Option Model) :
    Task.all kind previous b = Task.all kind previous a := by
  rw [Task.all_eq_addAll, Task.all_eq_addAll, reordered.path_eq]
  refine (Task.addAll_of_perm Task.path_withCurrent reordered.classes ?_ _).symm
  exact fun _ found _ found' apart => kind.path_not_same simple distinct found found' apart

end Model.IsReordering

end Reordered

section Programs

variable {m : Type → Type} [Monad m] [Files m]

def regenerateFiles (kind : FileKind) (catalog : Catalog) (current : Model) : m Report := do
  let marking := (← Snapshot.load (kind.snapshotPath current)).map (Marking.mark · current)
  let previous := marking.map (·.1)
  let tasks := Task.all kind previous current
  let results ← tasks.mapM fun task => do
    let opened ← Draft.open? task.path
    return (task, opened.bind (task.carryOut kind catalog previous current))
  let outcomes ← results.mapM fun (task, result) => task.finish result
  return .ofOutcomes (marking.elim [] (·.2)) outcomes

theorem regenerate_eq [LawfulMonad m] (kind : FileKind) (catalog : Catalog) (current : Model) :
    (regenerate kind catalog current : m Report) = regenerateFiles kind catalog current >>=
      fun report => report.complete (kind.snapshotPath current) current := by
  simp only [regenerate, regenerateFiles, bind_assoc, pure_bind]

/-- On any files the runs on two models that differ in the order of their classes are one program up
to the snapshot. -/
theorem regenerateFiles_reordered {a b : Model} (reordered : a.IsReordering b)
    (distinct : a.HasDistinctClasses) (simple : a.HasSimpleNames) (kind : FileKind)
    (catalog : Catalog) :
    (regenerateFiles kind catalog b : m Report) = regenerateFiles kind catalog a := by
  have marks : (Marking.mark · b) = (Marking.mark · a) := funext (reordered.mark_eq distinct)
  unfold regenerateFiles
  rw [reordered.snapshotPath_eq, marks]
  simp only [reordered.tasks_eq distinct simple, reordered.carryOut_eq distinct]

end Programs

/-- Says that two file trees are the same but for the snapshots of two models at a path. -/
structure MemoryTree.AreSameUpTo (path : FilePath) (a b : Model) (first second : MemoryTree) :
    Prop where
  beside : ∀ other, path.same other = false → first.find? other = second.find? other
  snapshot : first.find? path = second.find? path ∨
    first.find? path = some (Snapshot.encode a) ∧ second.find? path = some (Snapshot.encode b)

/-- Runs on two models that differ in the order of their classes report the same and leave the same
files but for the order in the snapshot. -/
theorem Model.IsReordering.regenerated {a b : Model} (reordered : a.IsReordering b)
    (distinct : a.HasDistinctClasses) (simple : a.HasSimpleNames) (tree : MemoryTree)
    (kind : FileKind) (catalog : Catalog) :
    (tree.regenerated kind catalog a).1 = (tree.regenerated kind catalog b).1 ∧
      MemoryTree.AreSameUpTo (kind.snapshotPath a) a b (tree.regenerated kind catalog a).2
        (tree.regenerated kind catalog b).2 := by
  rw [MemoryTree.regenerated, MemoryTree.regenerated, regenerate_eq, regenerate_eq,
    regenerateFiles_reordered reordered distinct simple, reordered.snapshotPath_eq,
    StateT.run_bind, StateT.run_bind]
  obtain ⟨report, middle⟩ :=
    (regenerateFiles kind catalog a : StateM MemoryTree Report).run tree
  change
    ((report.complete (kind.snapshotPath a) a : StateM MemoryTree Report).run middle).1 =
        ((report.complete (kind.snapshotPath a) b : StateM MemoryTree Report).run middle).1 ∧
      MemoryTree.AreSameUpTo (kind.snapshotPath a) a b
        ((report.complete (kind.snapshotPath a) a : StateM MemoryTree Report).run middle).2
        ((report.complete (kind.snapshotPath a) b : StateM MemoryTree Report).run middle).2
  rw [MemoryTree.run_complete, MemoryTree.run_complete]
  split
  · split
    · exact ⟨rfl, fun _ _ => rfl, .inl rfl⟩
    · refine ⟨rfl, fun other apart => ?_, .inr ⟨?_, ?_⟩⟩
      · rw [MemoryTree.find?_put, MemoryTree.find?_put, apart]
        rfl
      · rw [MemoryTree.find?_put, FilePath.same_refl, if_pos rfl]
      · rw [MemoryTree.find?_put, FilePath.same_refl, if_pos rfl]
  · exact ⟨rfl, fun _ _ => rfl, .inl rfl⟩

/-- The order of the class entries of a definition with distinct names makes no difference: every
reordering of it builds if it builds, the models are reorderings of each other, and runs on them
report the same and leave the same files but for the order of the classes in the snapshot. -/
theorem ModelDefinition.order_of_classes_is_free {a b : ModelDefinition}
    (reordered : a.IsReordering b) (distinct : (a.classes.map (·.name)).Nodup) :
    ((∃ model, a.build = .ok model) ↔ ∃ model, b.build = .ok model) ∧
      ∀ m n, a.build = .ok m → b.build = .ok n →
        m.IsReordering n ∧ ∀ (tree : MemoryTree) (kind : FileKind) (catalog : Catalog),
          (tree.regenerated kind catalog m).1 = (tree.regenerated kind catalog n).1 ∧
            kind.snapshotPath m = kind.snapshotPath n ∧
            MemoryTree.AreSameUpTo (kind.snapshotPath m) m n (tree.regenerated kind catalog m).2
              (tree.regenerated kind catalog n).2 := by
  have distinct' : (b.classes.map (·.name)).Nodup :=
    (reordered.classes.map _).nodup_iff.mp distinct
  refine ⟨⟨?_, ?_⟩, fun m n built built' => ?_⟩
  · rintro ⟨model, built⟩
    obtain ⟨other, built', -⟩ := reordered.exists_build distinct built
    exact ⟨other, built'⟩
  · rintro ⟨model, built⟩
    obtain ⟨other, built', -⟩ := reordered.symm.exists_build distinct' built
    exact ⟨other, built'⟩
  · obtain ⟨other, same, alike⟩ := reordered.exists_build distinct built
    obtain rfl : other = n := Except.ok.inj (same.symm.trans built')
    refine ⟨alike, fun tree kind catalog => ?_⟩
    obtain ⟨reports, files⟩ := alike.regenerated (isConsistent_build built).distinct
      (hasSimpleNames_build built) tree kind catalog
    exact ⟨reports, (alike.snapshotPath_eq kind).symm, files⟩

private def zoo : ModelDefinition :=
  ⟨"zoo", "src", none, none,
    [⟨"Animal", none, [⟨"name", "String", none, none⟩], []⟩, ⟨"Dog", some "Animal", [], []⟩],
    [⟨"Dog", "owner", .one, "Animal", some "pets", .many⟩]⟩

private def reversedZoo : ModelDefinition :=
  { zoo with classes := zoo.classes.reverse }

/-- The two orders give two models, on which all runs report the same. -/
theorem ModelDefinition.reversed_zoo_is_the_same : ∃ m n,
    zoo.build = .ok m ∧ reversedZoo.build = .ok n ∧ m ≠ n ∧
      ∀ (tree : MemoryTree) (kind : FileKind) (catalog : Catalog),
        (tree.regenerated kind catalog m).1 = (tree.regenerated kind catalog n).1 := by
  have reordered : zoo.IsReordering reversedZoo := ⟨rfl, (List.reverse_perm _).symm⟩
  have distinct : (zoo.classes.map (·.name)).Nodup := by decide
  obtain ⟨same, alike⟩ := order_of_classes_is_free reordered distinct
  have names : zoo.build.map (fun m => m.classes.map (·.name)) = .ok ["Animal", "Dog"] := by
    decide
  have names' : reversedZoo.build.map (fun m => m.classes.map (·.name)) =
      .ok ["Dog", "Animal"] := by
    decide
  cases built : zoo.build with
  | error cause =>
    rw [built] at names
    cases names
  | ok m =>
    obtain ⟨n, built'⟩ := same.mp ⟨m, built⟩
    rw [built] at names
    rw [built'] at names'
    refine ⟨m, n, rfl, built', fun equal => ?_, fun tree kind catalog =>
      ((alike m n built built').2 tree kind catalog).1⟩
    rw [equal] at names
    exact absurd ((Except.ok.inj names).symm.trans (Except.ok.inj names')) (by decide)

end ClassWeaver
