import ClassWeaver.Proofs.Generation.Placement
import ClassWeaver.Proofs.Steps
import ClassWeaver.Regeneration.Draft
import Mathlib.Data.List.Pairwise

set_option autoImplicit false

/-!
The tasks of a run. Main statements: every file of the two models has one task, the tasks are in the
order of their paths, and a task fails only at its own path and whatever the file holds.
-/

namespace ClassWeaver.Task

variable {path : FilePath} {change : Task → Task} {tasks : List Task} {task a b : Task}

/-- Says that a task comes before another one: their files are not the same, and that of the other
one does not precede. -/
def Before (a b : Task) : Prop :=
  a.path.same b.path = false ∧ b.path.precedes a.path = false

theorem Before.not_isBelow (before : a.Before b) : a.path.isBelow b.path = false := by
  refine Bool.eq_false_iff.mpr fun below => ?_
  have early := before.2
  rw [FilePath.precedes_of_isBelow below] at early
  cases early

theorem Before.not_same (before : a.Before b) : b.path.same a.path = false := by
  rw [FilePath.same_comm]
  exact before.1

theorem mem_atPath (found : task ∈ atPath path change tasks) :
    task ∈ tasks ∨ ∃ old, old.path.same path = true ∧ (old ∈ tasks ∨ old = ⟨path, [], []⟩) ∧
      task = change old := by
  have fresh : FilePath.same (Task.mk path [] []).path path = true := FilePath.same_refl path
  induction tasks with
  | nil => exact .inr ⟨_, fresh, .inr rfl, List.mem_singleton.mp found⟩
  | cons first rest ih =>
    rw [atPath] at found
    split at found
    · next same =>
      rcases List.mem_cons.mp found with rfl | later
      · exact .inr ⟨first, same, .inl List.mem_cons_self, rfl⟩
      · exact .inl (List.mem_cons_of_mem _ later)
    · split at found
      · rcases List.mem_cons.mp found with rfl | kept
        · exact .inr ⟨_, fresh, .inr rfl, rfl⟩
        · exact .inl kept
      · rcases List.mem_cons.mp found with rfl | later
        · exact .inl List.mem_cons_self
        · rcases ih later with kept | ⟨old, same, origin, equal⟩
          · exact .inl (List.mem_cons_of_mem _ kept)
          · exact .inr ⟨old, same, origin.imp_left (List.mem_cons_of_mem _), equal⟩

section Kept

variable (kept : ∀ task, (change task).path = task.path)

include kept

theorem exists_same_mem_atPath (path : FilePath) (tasks : List Task) :
    ∃ task ∈ atPath path change tasks, task.path.same path = true := by
  have fresh : (change ⟨path, [], []⟩).path.same path = true := by
    rw [kept]
    exact FilePath.same_refl path
  induction tasks with
  | nil => exact ⟨_, List.mem_singleton_self _, fresh⟩
  | cons first rest ih =>
    rw [atPath]
    split
    · next same => exact ⟨_, List.mem_cons_self, by rwa [kept]⟩
    · split
      · exact ⟨_, List.mem_cons_self, fresh⟩
      · obtain ⟨task, inside, same⟩ := ih
        exact ⟨task, List.mem_cons_of_mem _ inside, same⟩

theorem exists_path_mem_atPath (found : task ∈ tasks) :
    ∃ after ∈ atPath path change tasks, after.path = task.path := by
  induction tasks with
  | nil => cases found
  | cons first rest ih =>
    rw [atPath]
    split
    · rcases List.mem_cons.mp found with rfl | later
      · exact ⟨_, List.mem_cons_self, kept task⟩
      · exact ⟨task, List.mem_cons_of_mem _ later, rfl⟩
    · split
      · exact ⟨task, List.mem_cons_of_mem _ found, rfl⟩
      · rcases List.mem_cons.mp found with rfl | later
        · exact ⟨task, List.mem_cons_self, rfl⟩
        · obtain ⟨after, inside, same⟩ := ih later
          exact ⟨after, List.mem_cons_of_mem _ inside, same⟩

theorem pairwise_atPath (sorted : tasks.Pairwise Before) :
    (atPath path change tasks).Pairwise Before := by
  induction tasks with
  | nil => exact List.pairwise_singleton _ _
  | cons first rest ih =>
    obtain ⟨ahead, later⟩ := List.pairwise_cons.mp sorted
    rw [atPath]
    split
    · refine List.pairwise_cons.mpr ⟨fun task found => ?_, later⟩
      rw [Before, kept]
      exact ahead task found
    · next apart =>
      have apart : first.path.same path = false := Bool.eq_false_iff.mpr apart
      split
      · next front =>
        -- what follows the first task cannot be at the path or in front of it
        have notAhead {task : Task} (found : task ∈ rest) (early : task.path.precedes path = true) :
            False := by
          have wrong := FilePath.precedes_trans early front
          rw [(ahead task found).2] at wrong
          cases wrong
        refine List.pairwise_cons.mpr ⟨fun task found => ?_, sorted⟩
        rw [Before, kept]
        dsimp only
        rcases List.mem_cons.mp found with rfl | found
        · refine ⟨by rwa [FilePath.same_comm], Bool.eq_false_iff.mpr fun early => ?_⟩
          have wrong := FilePath.precedes_trans early front
          rw [FilePath.precedes_irrefl] at wrong
          cases wrong
        · refine ⟨Bool.eq_false_iff.mpr fun same => ?_, Bool.eq_false_iff.mpr (notAhead found)⟩
          have wrong := (ahead task found).2
          rw [← FilePath.precedes_congr_left same, front] at wrong
          cases wrong
      · next notFront =>
        refine List.pairwise_cons.mpr ⟨fun task found => ?_, ih later⟩
        rcases mem_atPath found with inside | ⟨old, same, -, rfl⟩
        · exact ahead task inside
        · rw [Before, kept, FilePath.same_congr same, FilePath.precedes_congr_left same]
          exact ⟨apart, Bool.eq_false_iff.mpr notFront⟩

end Kept

section Adding

variable (place : ModelClass → FilePath) {change : ModelClass → Task → Task}

def addAll (place : ModelClass → FilePath) (change : ModelClass → Task → Task)
    (owners : List ModelClass) (tasks : List Task) : List Task :=
  owners.foldl (fun tasks owner => atPath (place owner) (change owner) tasks) tasks

def withPrevious (owner : ModelClass) (task : Task) : Task :=
  { task with previous := task.previous ++ [owner] }

def withCurrent (owner : ModelClass) (task : Task) : Task :=
  { task with current := task.current ++ [owner] }

theorem path_withPrevious (owner : ModelClass) (task : Task) :
    (withPrevious owner task).path = task.path :=
  rfl

theorem path_withCurrent (owner : ModelClass) (task : Task) :
    (withCurrent owner task).path = task.path :=
  rfl

theorem all_eq_addAll (kind : FileKind) (previous : Option Model) (current : Model) :
    all kind previous current =
      addAll (kind.path current) withCurrent current.classes
        (previous.elim [] fun model => addAll (kind.path model) withPrevious model.classes []) :=
  rfl

theorem addAll_keeps {keeps : Task → Prop} {owners : List ModelClass}
    (each : ∀ owner ∈ owners, ∀ task, task.path.same (place owner) = true →
      keeps task ∨ task = ⟨place owner, [], []⟩ → keeps (change owner task))
    (before : ∀ task ∈ tasks, keeps task) :
    ∀ task ∈ addAll place change owners tasks, keeps task := by
  induction owners generalizing tasks with
  | nil => exact before
  | cons owner rest ih =>
    refine ih (fun later found => each later (List.mem_cons_of_mem owner found)) ?_
    intro task found
    rcases mem_atPath found with inside | ⟨old, same, origin, rfl⟩
    · exact before task inside
    · exact each owner List.mem_cons_self old same (origin.imp_left (before old))

variable (kept : ∀ owner task, (change owner task).path = task.path)

include kept

theorem pairwise_addAll (owners : List ModelClass) (sorted : tasks.Pairwise Before) :
    (addAll place change owners tasks).Pairwise Before := by
  induction owners generalizing tasks with
  | nil => exact sorted
  | cons owner rest ih => exact ih (pairwise_atPath (kept owner) sorted)

theorem exists_path_mem_addAll (owners : List ModelClass) (found : task ∈ tasks) :
    ∃ after ∈ addAll place change owners tasks, after.path = task.path := by
  induction owners generalizing tasks task with
  | nil => exact ⟨task, found, rfl⟩
  | cons owner rest ih =>
    obtain ⟨next, inside, same⟩ := exists_path_mem_atPath (kept owner) found
    obtain ⟨after, there, same'⟩ := ih inside
    exact ⟨after, there, same'.trans same⟩

theorem exists_same_mem_addAll {owners : List ModelClass} {owner : ModelClass}
    (found : owner ∈ owners) (tasks : List Task) :
    ∃ task ∈ addAll place change owners tasks, task.path.same (place owner) = true := by
  induction owners generalizing tasks with
  | nil => cases found
  | cons first rest ih =>
    rcases List.mem_cons.mp found with rfl | later
    · obtain ⟨task, inside, same⟩ := exists_same_mem_atPath (kept owner) (place owner) tasks
      obtain ⟨after, there, path⟩ := exists_path_mem_addAll place kept rest inside
      exact ⟨after, there, path ▸ same⟩
    · exact ih later _

end Adding

section Run

variable {kind : FileKind} {catalog : Catalog} {previous : Option Model} {current : Model}

theorem pairwise_all (kind : FileKind) (previous : Option Model) (current : Model) :
    (all kind previous current).Pairwise Before := by
  rw [all_eq_addAll]
  refine pairwise_addAll _ path_withCurrent _ ?_
  cases previous with
  | none => exact .nil
  | some model => exact pairwise_addAll _ path_withPrevious _ .nil

theorem eq_of_same (here : a ∈ all kind previous current) (there : b ∈ all kind previous current)
    (same : a.path.same b.path = true) : a = b := by
  have symmetric : Std.Symm fun a b : Task => a.path.same b.path = false :=
    ⟨fun a b apart => by rwa [FilePath.same_comm]⟩
  have apart : (all kind previous current).Pairwise fun a b => a.path.same b.path = false :=
    (pairwise_all kind previous current).imp fun before => before.1
  by_contra differ
  rw [apart.forall here there differ] at same
  cases same

theorem exists_mem_all (here : kind.IsClassPath previous current path) :
    ∃ task ∈ all kind previous current, task.path.same path = true := by
  obtain ⟨model, owner, known, found, same⟩ := here
  rw [all_eq_addAll]
  rcases known with rfl | rfl
  · obtain ⟨task, inside, there⟩ :=
      exists_same_mem_addAll (kind.path model) path_withPrevious found []
    obtain ⟨after, last, equal⟩ :=
      exists_path_mem_addAll (kind.path current) path_withCurrent current.classes inside
    exact ⟨after, last, equal ▸ FilePath.same_trans there same⟩
  · obtain ⟨task, inside, there⟩ :=
      exists_same_mem_addAll (kind.path model) path_withCurrent found _
    exact ⟨task, inside, FilePath.same_trans there same⟩

/-- The path of a task is that of a class, and all its classes have their files there. -/
structure IsSound (kind : FileKind) (previous : Option Model) (current : Model) (task : Task) :
    Prop where
  path : kind.IsClassPath previous current task.path
  previous : ∀ model, previous = some model → ∀ owner ∈ task.previous,
    (kind.path model owner).same task.path = true
  current : ∀ owner ∈ task.current, (kind.path current owner).same task.path = true

theorem isSound_of_path {owner : ModelClass} {model : Model}
    (known : previous = some model ∨ model = current) (found : owner ∈ model.classes) :
    IsSound kind previous current ⟨kind.path model owner, [], []⟩ where
  path := ⟨model, owner, known, found, FilePath.same_refl _⟩
  previous := fun _ _ _ inside => nomatch inside
  current := fun _ inside => nomatch inside

theorem IsSound.withPrevious {owner : ModelClass} {model : Model}
    (sound : task.IsSound kind (some model) current)
    (same : task.path.same (kind.path model owner) = true) :
    (task.withPrevious owner).IsSound kind (some model) current where
  path := sound.path
  previous := by
    intro other known last found
    rcases List.mem_append.mp found with inside | added
    · exact sound.previous other known last inside
    · rw [List.mem_singleton.mp added, ← Option.some.inj known]
      exact FilePath.same_symm same
  current := sound.current

theorem IsSound.withCurrent {owner : ModelClass} (sound : task.IsSound kind previous current)
    (same : task.path.same (kind.path current owner) = true) :
    (task.withCurrent owner).IsSound kind previous current where
  path := sound.path
  previous := sound.previous
  current := by
    intro last found
    rcases List.mem_append.mp found with inside | added
    · exact sound.current last inside
    · rw [List.mem_singleton.mp added]
      exact FilePath.same_symm same

theorem isSound_of_mem_all (found : task ∈ all kind previous current) :
    task.IsSound kind previous current := by
  rw [all_eq_addAll] at found
  refine addAll_keeps _ ?_ ?_ task found
  · rintro owner inside task same (sound | rfl)
    · exact sound.withCurrent same
    · exact (isSound_of_path (.inr rfl) inside).withCurrent same
  · cases previous with
    | none => exact fun task found => nomatch found
    | some model =>
      refine addAll_keeps _ ?_ (fun task found => nomatch found)
      rintro owner inside task same (sound | rfl)
      · exact sound.withPrevious same
      · exact (isSound_of_path (.inl rfl) inside).withPrevious same

end Run

section Classes

theorem find?_atPath (kept : ∀ task, (change task).path = task.path)
    (sorted : tasks.Pairwise Before) (path other : FilePath) :
    (atPath path change tasks).find? (·.path.same other) =
      if path.same other then some (change ((tasks.find? (·.path.same path)).getD ⟨path, [], []⟩))
      else tasks.find? (·.path.same other) := by
  induction tasks with
  | nil =>
    rw [atPath, List.find?_cons, kept]
    dsimp only
    cases path.same other <;> rfl
  | cons first rest ih =>
    obtain ⟨ahead, later⟩ := List.pairwise_cons.mp sorted
    rw [atPath]
    split
    · next same =>
      rw [List.find?_cons, List.find?_cons_of_pos (by exact same), List.find?_cons, kept,
        FilePath.same_congr_left same]
      cases path.same other <;> rfl
    · next apart =>
      have apart : first.path.same path = false := Bool.eq_false_iff.mpr apart
      split
      · next front =>
        -- no task is at the path, since all others come after the first one
        have missing : (first :: rest).find? (·.path.same path) = none := by
          refine List.find?_eq_none.mpr fun task found same => ?_
          rcases List.mem_cons.mp found with rfl | found
          · rw [apart] at same
            cases same
          · have wrong := (ahead task found).2
            rw [FilePath.precedes_congr_left same, front] at wrong
            cases wrong
        rw [missing, List.find?_cons, kept]
        dsimp only
        cases path.same other <;> rfl
      · rw [List.find?_cons, List.find?_cons_of_neg (by simp [apart]), ih later,
          List.find?_cons]
        cases here : first.path.same other with
        | false => rfl
        | true =>
          have elsewhere : path.same other = false := by
            refine Bool.eq_false_iff.mpr fun same => ?_
            rw [FilePath.same_trans here (FilePath.same_symm same)] at apart
            cases apart
          rw [elsewhere]
          rfl

/-- The classes of one of the two models that a list of tasks has at a path. -/
def classesAt (read : Task → List ModelClass) (tasks : List Task) (path : FilePath) :
    List ModelClass :=
  ((tasks.find? (·.path.same path)).map read).getD []

section Adding

variable (place : ModelClass → FilePath) {change : ModelClass → Task → Task}
  {read : Task → List ModelClass} (kept : ∀ owner task, (change owner task).path = task.path)
  (path : FilePath)

include kept

theorem classesAt_atPath (fresh : ∀ path, read ⟨path, [], []⟩ = []) (owner : ModelClass)
    {more : List ModelClass} (added : ∀ task, read (change owner task) = read task ++ more)
    (sorted : tasks.Pairwise Before) :
    classesAt read (atPath (place owner) (change owner) tasks) path =
      classesAt read tasks path ++ if (place owner).same path then more else [] := by
  rw [classesAt, find?_atPath (kept owner) sorted, classesAt]
  split
  · next same =>
    have alike : (fun task : Task => task.path.same (place owner)) =
        fun task => task.path.same path :=
      funext fun task => FilePath.same_congr same task.path
    rw [alike, Option.map_some, Option.getD_some, added]
    cases tasks.find? fun task => task.path.same path with
    | none =>
      rw [Option.getD_none, fresh]
      rfl
    | some task => rfl
  · rw [List.append_nil]

theorem classesAt_addAll (fresh : ∀ path, read ⟨path, [], []⟩ = [])
    (added : ∀ owner task, read (change owner task) = read task ++ [owner])
    (owners : List ModelClass) (sorted : tasks.Pairwise Before) :
    classesAt read (addAll place change owners tasks) path =
      classesAt read tasks path ++ owners.filter fun owner => (place owner).same path := by
  induction owners generalizing tasks with
  | nil => rw [List.filter_nil, List.append_nil, addAll, List.foldl_nil]
  | cons owner rest ih =>
    have sorted' : (atPath (place owner) (change owner) tasks).Pairwise Before :=
      pairwise_atPath (kept owner) sorted
    rw [addAll, List.foldl_cons, ← addAll, ih sorted',
      classesAt_atPath place kept path fresh owner (added owner) sorted, List.append_assoc,
      List.filter_cons]
    split <;> rfl

theorem classesAt_addAll_of_kept (fresh : ∀ path, read ⟨path, [], []⟩ = [])
    (others : ∀ owner task, read (change owner task) = read task) (owners : List ModelClass)
    (sorted : tasks.Pairwise Before) :
    classesAt read (addAll place change owners tasks) path = classesAt read tasks path := by
  induction owners generalizing tasks with
  | nil => rw [addAll, List.foldl_nil]
  | cons owner rest ih =>
    have sorted' : (atPath (place owner) (change owner) tasks).Pairwise Before :=
      pairwise_atPath (kept owner) sorted
    have nothing (task : Task) : read (change owner task) = read task ++ [] := by
      rw [others, List.append_nil]
    rw [addAll, List.foldl_cons, ← addAll, ih sorted',
      classesAt_atPath place kept path fresh owner nothing sorted, ite_self, List.append_nil]

end Adding

variable {kind : FileKind} {previous : Option Model} {current model : Model}

theorem classesAt_of_mem_all (read : Task → List ModelClass)
    (found : task ∈ all kind previous current) :
    classesAt read (all kind previous current) task.path = read task := by
  have here : (all kind previous current).find? (·.path.same task.path) = some task := by
    cases known : (all kind previous current).find? (·.path.same task.path) with
    | none => exact absurd (FilePath.same_refl task.path) (List.find?_eq_none.mp known task found)
    | some other =>
      have same : other.path.same task.path = true := by simpa using List.find?_some known
      rw [eq_of_same (List.mem_of_find?_eq_some known) found same]
  rw [classesAt, here]
  rfl

theorem previous_of_mem_all (found : task ∈ all kind (some model) current) :
    task.previous = model.classes.filter fun owner => (kind.path model owner).same task.path := by
  have sorted : (addAll (kind.path model) withPrevious model.classes []).Pairwise Before :=
    pairwise_addAll _ path_withPrevious _ .nil
  rw [← classesAt_of_mem_all (·.previous) found, all_eq_addAll, Option.elim_some,
    classesAt_addAll_of_kept _ path_withCurrent _ (fun _ => rfl) (fun _ _ => rfl) _ sorted,
    classesAt_addAll _ path_withPrevious _ (fun _ => rfl) (fun _ _ => rfl) _ .nil]
  rfl

theorem previous_of_mem_all_none (found : task ∈ all kind none current) : task.previous = [] := by
  rw [← classesAt_of_mem_all (·.previous) found, all_eq_addAll, Option.elim_none,
    classesAt_addAll_of_kept _ path_withCurrent _ (fun _ => rfl) (fun _ _ => rfl) _ .nil]
  rfl

theorem current_of_mem_all (found : task ∈ all kind previous current) :
    task.current =
      current.classes.filter fun owner => (kind.path current owner).same task.path := by
  rw [← classesAt_of_mem_all (·.current) found, all_eq_addAll]
  cases previous with
  | none =>
    rw [Option.elim_none,
      classesAt_addAll _ path_withCurrent _ (fun _ => rfl) (fun _ _ => rfl) _ .nil]
    rfl
  | some model =>
    have sorted : (addAll (kind.path model) withPrevious model.classes []).Pairwise Before :=
      pairwise_addAll _ path_withPrevious _ .nil
    rw [Option.elim_some,
      classesAt_addAll _ path_withCurrent _ (fun _ => rfl) (fun _ _ => rfl) _ sorted,
      classesAt_addAll_of_kept _ path_withPrevious _ (fun _ => rfl) (fun _ _ => rfl) _ .nil]
    rfl

end Classes

end ClassWeaver.Task

namespace ClassWeaver

section Failing

variable {kind : FileKind} {catalog : Catalog} {previous : Option Model} {current model : Model}
  {draft : Draft} {owner : ModelClass} {obstacle : Obstacle}

theorem Update.applyAll_snd (catalog : Catalog) (updates : List Update) (a b : Fragment.Store) :
    (applyAll catalog updates a).2 = (applyAll catalog updates b).2 := by
  induction updates generalizing a b with
  | nil => rfl
  | cons update rest ih =>
    rw [applyAll, applyAll]
    cases update.text catalog with
    | error error => rfl
    | ok text => exact ih _ _

namespace Draft

theorem generate_eq (kind : FileKind) (catalog : Catalog) (model : Model) (draft : Draft)
    (owner : ModelClass) :
    draft.generate kind catalog model owner =
      match (kind.generate catalog model owner draft.store).2 with
      | .ok _ => .ok { draft with store := (kind.generate catalog model owner draft.store).1 }
      | .error cause => .error ⟨kind.path model owner, cause⟩ := by
  rw [generate]
  split
  · next done => rw [done]
  · next failed => rw [failed]

theorem path_of_generate_eq_error
    (failed : draft.generate kind catalog model owner = .error obstacle) :
    obstacle.path = kind.path model owner := by
  rw [generate_eq] at failed
  split at failed
  · cases failed
  · rw [← Except.error.inj failed]

theorem exists_generate_eq_ok {after : Draft}
    (done : draft.generate kind catalog model owner = .ok after) (other : Draft) :
    ∃ there, other.generate kind catalog model owner = .ok there := by
  rw [generate_eq, FileKind.generate,
    Update.applyAll_snd catalog (kind.updates model owner) draft.store other.store] at done
  rw [generate_eq, FileKind.generate]
  split at done
  · exact ⟨_, rfl⟩
  · cases done

theorem initial_generate {after : Draft}
    (done : draft.generate kind catalog model owner = .ok after) :
    after.initial = draft.initial := by
  rw [generate_eq] at done
  split at done
  · rw [← Except.ok.inj done]
  · cases done

theorem initial_purgeStale {after : Draft}
    (done : draft.purgeStale kind catalog model owner = .ok after) :
    after.initial = draft.initial := by
  cases generated : draft.generate kind catalog model owner with
  | ok middle =>
    rw [purgeStale, generated] at done
    rw [← Except.ok.inj done, ← initial_generate generated]
  | error cause =>
    rw [purgeStale, generated] at done
    cases done

theorem path_of_purgeStale_eq_error
    (failed : draft.purgeStale kind catalog model owner = .error obstacle) :
    obstacle.path = kind.path model owner := by
  rw [purgeStale] at failed
  cases generated : draft.generate kind catalog model owner with
  | ok after =>
    rw [generated] at failed
    cases failed
  | error cause =>
    rw [generated] at failed
    rw [← Except.error.inj failed, path_of_generate_eq_error generated]

theorem exists_purgeStale_eq_ok {after : Draft}
    (done : draft.purgeStale kind catalog model owner = .ok after) (other : Draft) :
    ∃ there, other.purgeStale kind catalog model owner = .ok there := by
  cases generated : draft.generate kind catalog model owner with
  | ok middle =>
    obtain ⟨there, same⟩ := exists_generate_eq_ok generated other
    rw [purgeStale, same]
    exact ⟨_, rfl⟩
  | error cause =>
    rw [purgeStale, generated] at done
    cases done

end Draft

namespace Task

variable {task : Task}

def purged (kind : FileKind) (catalog : Catalog) (previous : Option Model) (task : Task)
    (draft : Draft) : Except Obstacle Draft :=
  previous.elim (.ok draft) fun model =>
    task.previous.foldlM (Draft.purgeStale kind catalog model) draft

theorem carryOut_eq (kind : FileKind) (catalog : Catalog) (previous : Option Model)
    (current : Model) (task : Task) (draft : Draft) :
    task.carryOut kind catalog previous current draft =
      task.purged kind catalog previous draft >>= fun draft =>
        task.current.foldlM (Draft.generate kind catalog current)
          (if task.previous.isEmpty then draft else draft.reread) := by
  cases previous <;> rfl

theorem IsSound.same_of_carryOut_eq_error (sound : task.IsSound kind previous current)
    (failed : task.carryOut kind catalog previous current draft = .error obstacle) :
    obstacle.path.same task.path = true := by
  rw [carryOut_eq] at failed
  rcases of_bind_eq_error failed with before | ⟨draft, -, after⟩
  · cases previous with
    | none => cases before
    | some model =>
      obtain ⟨owner, inside, _, here⟩ := exists_of_foldlM_eq_error before
      rw [Draft.path_of_purgeStale_eq_error here]
      exact sound.previous model rfl owner inside
  · obtain ⟨owner, inside, _, here⟩ := exists_of_foldlM_eq_error after
    rw [Draft.path_of_generate_eq_error here]
    exact sound.current owner inside

theorem initial_carryOut {after : Draft}
    (done : task.carryOut kind catalog previous current draft = .ok after) :
    after.initial = draft.initial := by
  rw [carryOut_eq] at done
  obtain ⟨middle, before, generated⟩ := exists_of_bind_eq_ok done
  have first : middle.initial = draft.initial := by
    cases previous with
    | none => rw [← Except.ok.inj before]
    | some model =>
      exact foldlM_keeps (fun there => there.initial = draft.initial)
        (fun _ _ _ _ stepped kept => (Draft.initial_purgeStale stepped).trans kept) before rfl
  have start : (if task.previous.isEmpty then middle else middle.reread).initial =
      draft.initial := by
    split <;> exact first
  exact foldlM_keeps (fun there => there.initial = draft.initial)
    (fun _ _ _ _ stepped kept => (Draft.initial_generate stepped).trans kept) generated start

theorem exists_purged_eq_ok {after : Draft}
    (done : task.purged kind catalog previous draft = .ok after) (other : Draft) :
    ∃ there, task.purged kind catalog previous other = .ok there := by
  cases previous with
  | none => exact ⟨other, rfl⟩
  | some model =>
    have anyway (owner : ModelClass) (draft after other : Draft)
        (done : draft.purgeStale kind catalog model owner = .ok after) :
        ∃ there, other.purgeStale kind catalog model owner = .ok there :=
      Draft.exists_purgeStale_eq_ok done other
    exact exists_foldlM_eq_ok anyway done other

theorem exists_carryOut_eq_ok {after : Draft}
    (done : task.carryOut kind catalog previous current draft = .ok after) (other : Draft) :
    ∃ there, task.carryOut kind catalog previous current other = .ok there := by
  rw [carryOut_eq] at done
  obtain ⟨_, before, generated⟩ := exists_of_bind_eq_ok done
  obtain ⟨there, here⟩ := exists_purged_eq_ok before other
  have anyway (owner : ModelClass) (draft after other : Draft)
      (done : draft.generate kind catalog current owner = .ok after) :
      ∃ there, other.generate kind catalog current owner = .ok there :=
    Draft.exists_generate_eq_ok done other
  obtain ⟨last, complete⟩ := exists_foldlM_eq_ok anyway generated
    (if task.previous.isEmpty then there else there.reread)
  refine ⟨last, ?_⟩
  rw [carryOut_eq, here]
  exact complete

end Task

end Failing

end ClassWeaver
