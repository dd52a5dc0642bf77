import ClassWeaver.Proofs.FileTree.Memory
import ClassWeaver.Proofs.Regeneration.Tasks
import ClassWeaver.Regeneration.Run

set_option autoImplicit false

/-!
Opening and finishing files in memory. Main statements: what becomes of a file depends on what is
seen at its path, and finishing one file after the other gives each of them what finishing it alone
would have given.
-/

namespace ClassWeaver

namespace MemoryTree

variable {tree after : MemoryTree} {path other : FilePath} {draft : Draft}
  {result : Except Obstacle Draft} {outcome : Outcome}

section Operations

theorem run_readText (tree : MemoryTree) (path : FilePath) :
    (Files.readText path : StateM MemoryTree (Except String String)).run tree =
      pure (tree.readText path, tree) :=
  rfl

theorem run_holds (tree : MemoryTree) (path : FilePath) :
    (Files.holds path : StateM MemoryTree Bool).run tree = pure (tree.holds path, tree) :=
  rfl

theorem run_attempt (change : MemoryTree → Except String MemoryTree) (tree : MemoryTree) :
    (attempt change : StateM MemoryTree (Except String Unit)).run tree =
      match change tree with
      | .ok after => pure (.ok (), after)
      | .error cause => pure (.error cause, tree) := by
  rw [attempt, StateT.run_bind, StateT.run_get, pure_bind]
  dsimp only
  cases change tree <;> rfl

theorem run_writeText (tree : MemoryTree) (path : FilePath) (text : String) :
    (Files.writeText path text : StateM MemoryTree (Except String Unit)).run tree =
      if tree.denied.contains (Access.write, path.text) then pure (.error "write denied", tree)
      else pure (.ok (), tree.put path text) := by
  refine (run_attempt _ tree).trans ?_
  rw [writeText, unlessDenied]
  cases tree.denied.contains (Access.write, path.text) <;> rfl

theorem run_remove (tree : MemoryTree) (path : FilePath) :
    (Files.remove path : StateM MemoryTree (Except String Unit)).run tree =
      if tree.denied.contains (Access.remove, path.text) then pure (.error "remove denied", tree)
      else pure (.ok (), tree.erase path) := by
  refine (run_attempt _ tree).trans ?_
  rw [remove, unlessDenied]
  cases tree.denied.contains (Access.remove, path.text) <;> rfl

end Operations

def opened (tree : MemoryTree) (path : FilePath) : Except Obstacle Draft :=
  if tree.holds path then
    match tree.readText path with
    | .ok source => .ok (.ofSource source)
    | .error cause => .error ⟨path, .file path cause⟩
  else .ok .new

theorem run_open? (tree : MemoryTree) (path : FilePath) :
    (Draft.open? path : StateM MemoryTree (Except Obstacle Draft)).run tree =
      pure (tree.opened path, tree) := by
  rw [Draft.open?, StateT.run_bind, run_holds, pure_bind, opened]
  dsimp only
  split
  · rw [StateT.run_bind, run_readText, pure_bind]
    dsimp only
    cases tree.readText path <;> rfl
  · rfl

def permitted (tree : MemoryTree) (access : Access) (path : FilePath) (done : Outcome)
    (after : MemoryTree) : Outcome × MemoryTree :=
  if tree.denied.contains (access, path.text) then
    (.failed ⟨path, (Error.file path (access.text ++ " denied")).message⟩, tree)
  else (done, after)

def settle (tree : MemoryTree) (path : FilePath) : Except Obstacle Draft → Outcome × MemoryTree
  | .error obstacle => (.failed ⟨obstacle.path, obstacle.cause.message⟩, tree)
  | .ok draft =>
    if draft.isDispensable then
      if tree.holds path then tree.permitted .remove path (.deleted path) (tree.erase path)
      else (.absent path, tree)
    else if draft.store.render == draft.initial then (.unchanged path, tree)
    else tree.permitted .write path (.written path) (tree.put path draft.store.render)

theorem run_finish (tree : MemoryTree) (task : Task) (result : Except Obstacle Draft) :
    (task.finish result : StateM MemoryTree Outcome).run tree =
      pure (tree.settle task.path result) := by
  cases result with
  | error obstacle => rfl
  | ok draft =>
    rw [Task.finish, Draft.finish, settle]
    split
    · rw [Draft.discard, StateT.run_bind, run_holds, pure_bind]
      dsimp only
      split
      · rw [StateT.run_bind, run_remove, permitted]
        cases tree.denied.contains (Access.remove, task.path.text) <;> rfl
      · rfl
    · dsimp only
      split
      · rfl
      · rw [StateT.run_bind, run_writeText, permitted]
        cases tree.denied.contains (Access.write, task.path.text) <;> rfl

/-- What can become of a file that is finished: the outcome, and the files after that. -/
inductive Fate (tree : MemoryTree) (path : FilePath) :
    Except Obstacle Draft → Outcome → MemoryTree → Prop
  | hindered (obstacle : Obstacle) :
    Fate tree path (.error obstacle) (.failed ⟨obstacle.path, obstacle.cause.message⟩) tree
  | denied (draft : Draft) (message : String) :
    Fate tree path (.ok draft) (.failed ⟨path, message⟩) tree
  | deleted {draft : Draft} (dispensable : draft.isDispensable = true)
    (there : tree.holds path = true) : Fate tree path (.ok draft) (.deleted path) (tree.erase path)
  | absent {draft : Draft} (dispensable : draft.isDispensable = true)
    (gone : tree.holds path = false) : Fate tree path (.ok draft) (.absent path) tree
  | unchanged (draft : Draft) : Fate tree path (.ok draft) (.unchanged path) tree
  | written {draft : Draft} (other : draft.store.render ≠ draft.initial) :
    Fate tree path (.ok draft) (.written path) (tree.put path draft.store.render)

theorem fate_settle (tree : MemoryTree) (path : FilePath) (result : Except Obstacle Draft) :
    Fate tree path result (tree.settle path result).1 (tree.settle path result).2 := by
  cases result with
  | error obstacle => exact .hindered obstacle
  | ok draft =>
    rw [settle]
    split
    · next dispensable =>
      split
      · next there =>
        rw [permitted]
        split
        · exact .denied draft _
        · exact .deleted dispensable there
      · next gone => exact .absent dispensable (Bool.eq_false_iff.mpr gone)
    · split
      · exact .unchanged draft
      · next other =>
        rw [permitted]
        split
        · exact .denied draft _
        · exact .written fun same => other (beq_iff_eq.mpr same)

theorem LooksAlike.opened {a b : MemoryTree} (alike : a.LooksAlike b path) :
    a.opened path = b.opened path := by
  rw [MemoryTree.opened, MemoryTree.opened, alike.held, alike.readText]

theorem LooksAlike.settle {a b : MemoryTree} (alike : a.LooksAlike b path)
    (result : Except Obstacle Draft) :
    (a.settle path result).1 = (b.settle path result).1 ∧
      (a.settle path result).2.find? path = (b.settle path result).2.find? path := by
  have erased : (a.erase path).find? path = (b.erase path).find? path := by
    rw [find?_erase, find?_erase, FilePath.same_refl]
    rfl
  have put (text : String) : (a.put path text).find? path = (b.put path text).find? path := by
    rw [find?_put, find?_put, FilePath.same_refl]
    rfl
  have permitted (access : Access) (done : Outcome) {after after' : MemoryTree}
      (same : after.find? path = after'.find? path) :
      (a.permitted access path done after).1 = (b.permitted access path done after').1 ∧
        (a.permitted access path done after).2.find? path =
          (b.permitted access path done after').2.find? path := by
    rw [MemoryTree.permitted, MemoryTree.permitted, alike.denied]
    split
    · exact ⟨rfl, alike.text⟩
    · exact ⟨rfl, same⟩
  cases result with
  | error obstacle => exact ⟨rfl, alike.text⟩
  | ok draft =>
    rw [MemoryTree.settle, MemoryTree.settle, alike.held]
    split
    · split
      · exact permitted .remove _ erased
      · exact ⟨rfl, alike.text⟩
    · split
      · exact ⟨rfl, alike.text⟩
      · exact permitted .write _ (put _)

theorem Fate.same_path (fate : Fate tree path result outcome after)
    (here : ∀ obstacle, result = .error obstacle → obstacle.path.same path = true) :
    outcome.path.same path = true := by
  cases fate with
  | hindered obstacle => exact here obstacle rfl
  | denied | deleted | absent | unchanged | written => exact FilePath.same_refl path

theorem Fate.looksAlike (fate : Fate tree path result outcome after)
    (apart : path.same other = false) (beside : path.isBelow other = false) :
    after.LooksAlike tree other := by
  cases fate with
  | hindered | denied | absent | unchanged => exact .refl tree other
  | deleted => exact looksAlike_erase tree apart beside
  | written => exact looksAlike_put tree _ apart beside

theorem Fate.find?_beside (fate : Fate tree path result outcome after)
    (apart : path.same other = false) : after.find? other = tree.find? other := by
  cases fate with
  | hindered | denied | absent | unchanged => rfl
  | deleted =>
    rw [find?_erase, apart]
    rfl
  | written =>
    rw [find?_put, apart]
    rfl

theorem Fate.isClearBelow (fate : Fate tree path result outcome after)
    (beside : path.isBelow other = false) (clear : tree.IsClearBelow other) :
    after.IsClearBelow other := by
  cases fate with
  | hindered | denied | absent | unchanged => exact clear
  | deleted => exact clear.erase path
  | written => exact clear.put _ beside

theorem Fate.denied_eq (fate : Fate tree path result outcome after) :
    after.denied = tree.denied := by
  cases fate <;> rfl

/-- The files before and after the tasks of a list were finished one after the other: each file is
as if its task had been the only one. -/
structure Settled (before after : MemoryTree) (tasks : List Task)
    (results : Task → Except Obstacle Draft) : Prop where
  inside : ∀ task ∈ tasks,
    after.find? task.path = (before.settle task.path (results task)).2.find? task.path
  beside : ∀ path, (∀ task ∈ tasks, task.path.same path = false) →
    after.find? path = before.find? path
  clear : ∀ path, (∀ task ∈ tasks, task.path.isBelow path = false) →
    before.IsClearBelow path → after.IsClearBelow path
  denied : after.denied = before.denied

theorem Settled.nil (tree : MemoryTree) (results : Task → Except Obstacle Draft) :
    Settled tree tree [] results :=
  ⟨nofun, fun _ _ => rfl, fun _ _ clear => clear, rfl⟩

theorem Settled.cons {tree : MemoryTree} {task : Task} {tasks : List Task}
    {results : Task → Except Obstacle Draft} (first : ∀ later ∈ tasks, task.Before later)
    (rest : Settled (tree.settle task.path (results task)).2 after tasks results) :
    Settled tree after (task :: tasks) results where
  inside := by
    intro entry found
    rcases List.mem_cons.mp found with rfl | found
    · exact rest.beside entry.path fun later inside => (first later inside).not_same
    · have before := first entry found
      have alike := (fate_settle tree task.path (results task)).looksAlike before.1
        before.not_isBelow
      rw [rest.inside entry found]
      exact (alike.settle _).2
  beside := by
    intro path apart
    rw [rest.beside path fun later inside => apart later (List.mem_cons_of_mem _ inside)]
    exact (fate_settle tree task.path (results task)).find?_beside (apart task List.mem_cons_self)
  clear := by
    intro path apart clear
    refine rest.clear path (fun later inside => apart later (List.mem_cons_of_mem _ inside)) ?_
    exact (fate_settle tree task.path (results task)).isClearBelow
      (apart task List.mem_cons_self) clear
  denied := rest.denied.trans (fate_settle tree task.path (results task)).denied_eq

/-- Finishing tasks in the order of their paths gives every file what finishing it alone gives. -/
theorem exists_settled {tasks : List Task} (sorted : tasks.Pairwise Task.Before)
    (results : Task → Except Obstacle Draft) (tree : MemoryTree) :
    ∃ after, Settled tree after tasks results ∧
      StateT.run (m := Id) ((tasks.map fun task => (task, results task)).mapM
        fun entry => entry.1.finish entry.2) tree =
          pure (tasks.map fun task => (tree.settle task.path (results task)).1, after) := by
  induction tasks generalizing tree with
  | nil => exact ⟨tree, .nil tree results, rfl⟩
  | cons task tasks ih =>
    obtain ⟨first, later⟩ := List.pairwise_cons.mp sorted
    obtain ⟨after, rest, run⟩ := ih later (tree.settle task.path (results task)).2
    refine ⟨after, rest.cons first, ?_⟩
    have outcomes : (tasks.map fun entry =>
        ((tree.settle task.path (results task)).2.settle entry.path (results entry)).1) =
          tasks.map fun entry => (tree.settle entry.path (results entry)).1 := by
      refine List.map_congr_left fun entry found => ?_
      have before := first entry found
      exact (((fate_settle tree task.path (results task)).looksAlike before.1
        before.not_isBelow).settle _).1
    rw [List.map_cons, List.mapM_cons, StateT.run_bind, run_finish, pure_bind]
    dsimp only
    rw [StateT.run_bind, run, pure_bind, outcomes]
    rfl

theorem run_openAll (tree : MemoryTree) (tasks : List Task)
    (work : Task → Except Obstacle Draft → Except Obstacle Draft) :
    StateT.run (m := Id) (tasks.mapM fun task => do
        let opened ← Draft.open? task.path
        return (task, work task opened)) tree =
      pure (tasks.map fun task => (task, work task (tree.opened task.path)), tree) := by
  induction tasks with
  | nil => rfl
  | cons task tasks ih =>
    rw [List.mapM_cons, StateT.run_bind, StateT.run_bind, run_open?, pure_bind]
    dsimp only
    rw [StateT.run_pure, pure_bind]
    dsimp only
    rw [StateT.run_bind, ih, pure_bind]
    rfl

end MemoryTree

end ClassWeaver
