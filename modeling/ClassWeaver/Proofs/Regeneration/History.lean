import ClassWeaver.Proofs.Regeneration.Succession

set_option autoImplicit false

/-!
Runs one after the other, of models in one folder. Main statements: after every run the files are
those of a run of the last model into an empty folder, apart from the order of their members and
from imports, and there are no other ones; what is imported is what some model of the history
imports.
-/

namespace ClassWeaver

open Fragment (Layout Store)
open Marking (flaggedClass)

namespace FileKind

variable {kind : FileKind} {listed : String → Prop} {model : Model} {owner : ModelClass}

/-- What runs leave as the file of a class: a file that reflects it, or none if a new one had no
members. -/
def Leaves (kind : FileKind) (listed : String → Prop) (model : Model) (owner : ModelClass)
    (file : Option String) : Prop :=
  match file with
  | some text => ∃ layout, kind.Reflects listed model owner layout ∧ text = layout.toStore.render
  | none => (kind.layout model owner).members = []

end FileKind

namespace MemoryTree

variable {tree : MemoryTree} {path : FilePath}

section Allowed

variable (allowed : tree.denied = [])
include allowed

theorem allowed_eq : tree.allowed = tree := by
  rw [MemoryTree.allowed, ← allowed]

theorem readText_of_allowed (path : FilePath) : (tree.readText path).toOption = tree.find? path := by
  rw [← readText_allowed tree path, allowed_eq allowed]

theorem opened_of_allowed (clear : tree.IsClearBelow path) :
    tree.opened path = .ok ((tree.find? path).elim .new .ofSource) := by
  have read := readText_of_allowed allowed path
  rw [opened, holds_of_isClearBelow clear]
  cases found : tree.find? path with
  | none => rfl
  | some text =>
    rw [found] at read
    cases shown : tree.readText path with
    | error cause =>
      rw [shown] at read
      cases read
    | ok content =>
      rw [shown] at read
      rw [← Option.some.inj read]
      rfl

theorem find?_settle {draft : Draft} (begun : draft.initial = (tree.find? path).getD "")
    (filled : draft.isDispensable = false → draft.store.render ≠ "") :
    (tree.settle path (.ok draft)).2.find? path =
      if draft.isDispensable then none else some draft.store.render := by
  have granted (access : Access) (done : Outcome) (after : MemoryTree) :
      tree.permitted access path done after = (done, after) := by
    rw [permitted, allowed]
    rfl
  rw [settle]
  split
  · split
    · rw [granted, find?_erase, FilePath.same_refl]
      rfl
    · next gone => exact find?_of_not_holds (Bool.eq_false_iff.mpr gone)
  · next needed =>
    split
    · next same =>
      have equal : draft.store.render = draft.initial := by simpa using same
      cases found : tree.find? path with
      | none =>
        rw [found] at begun
        exact absurd (equal.trans begun) (filled (Bool.eq_false_iff.mpr needed))
      | some text =>
        rw [found] at begun
        rw [equal, begun]
        rfl
    · rw [granted, find?_put, FilePath.same_refl]
      rfl

end Allowed

/-- Says that files are what runs left of which the last one, if there was one, was that of a model:
nothing is denied, the snapshot is that of the model, each class has its file, and there are no
other ones. -/
structure IsLeft (kind : FileKind) (listed : String → Prop) (last : Option Model)
    (tree : MemoryTree) : Prop where
  allowed : tree.denied = []
  snapshot : ∀ old ∈ last, tree.find? (kind.snapshotPath old) = some (Snapshot.encode old)
  files : ∀ old ∈ last, ∀ owner ∈ old.classes,
    kind.Leaves listed old owner (tree.find? (kind.path old owner))
  only : ∀ path, tree.find? path ≠ none → ∃ old ∈ last,
    (kind.snapshotPath old).same path = true ∨
      ∃ owner ∈ old.classes, (kind.path old owner).same path = true

theorem isLeft_empty (kind : FileKind) (listed : String → Prop) :
    empty.IsLeft kind listed none :=
  ⟨rfl, nofun, nofun, fun _ found => absurd rfl found⟩

namespace IsLeft

variable {kind : FileKind} {listed : String → Prop} {last : Option Model} {current : Model}
  (left : tree.IsLeft kind listed last) (follows : Follows kind listed last current)
include left follows

theorem loaded_eq : tree.loaded kind current = last := by
  rw [loaded, snapshot?, readText_of_allowed left.allowed]
  cases last with
  | none =>
    have nothing : tree.find? (kind.snapshotPath current) = none := by
      by_contra found
      obtain ⟨old, isLast, -⟩ := left.only _ found
      cases isLast
    rw [nothing]
    rfl
  | some old =>
    have before := follows.before old rfl
    rw [← follows.snapshotPath_eq rfl, left.snapshot old rfl, Option.bind_some,
      Snapshot.decode_encode before.short, before.isConsistent.unmarked_eq]
    rfl

theorem previous_eq : tree.previous kind current = flaggedModel? last current := by
  rw [previous, comparison, left.loaded_eq follows, flaggedModel?, Option.map_map]
  rfl

variable {task : Task} {name : String} (isOf : task.IsOf kind last current name)
include isOf

theorem isClearBelow : tree.IsClearBelow task.path := by
  intro file found
  have there : tree.find? file.1 ≠ none := by
    rw [← Option.isSome_iff_ne_none, isSome_find?, List.any_eq_true]
    exact ⟨file, found, FilePath.same_refl _⟩
  obtain ⟨old, isLast, held⟩ := left.only file.1 there
  have here := isOf.path (.ofName name) rfl
  rw [← FilePath.isBelow_congr here]
  rcases held with same | ⟨owner, inside, same⟩
  · rw [← FilePath.isBelow_congr_left same, follows.snapshotPath_eq isLast]
    exact kind.snapshotPath_not_isBelow isOf.simple
  · rw [← FilePath.isBelow_congr_left same, follows.path_eq isLast]
    exact kind.path_not_isBelow ((follows.before old isLast).hasSimpleNames owner inside) isOf.simple

theorem exists_class {text : String} (found : tree.find? task.path = some text) :
    ∃ old ∈ last, ∃ owner, old.class? name = some owner ∧
      ∃ layout, kind.Reflects listed old owner layout ∧ text = layout.toStore.render := by
  have here := isOf.path (.ofName name) rfl
  obtain ⟨old, isLast, held⟩ := left.only task.path (by simp [found])
  have before := follows.before old isLast
  refine ⟨old, isLast, ?_⟩
  rcases held with same | ⟨owner, inside, same⟩
  · have apart := kind.path_not_same_snapshotPath current old (.ofName name)
    rw [FilePath.same_congr_left here, FilePath.same_comm, same] at apart
    cases apart
  · have meets := FilePath.same_trans same (FilePath.same_symm here)
    rw [follows.path_eq isLast, kind.same_path_iff (before.hasSimpleNames owner inside) isOf.simple]
      at meets
    have named : owner.name = name := meets
    have leaves := left.files old isLast owner inside
    rw [find?_congr tree same, found] at leaves
    exact ⟨owner, named ▸ Model.class?_of_mem before.isConsistent.distinct inside, leaves⟩

theorem exists_opened : ∃ draft, tree.opened task.path = .ok draft ∧
    draft.initial = (tree.find? task.path).getD "" ∧ draft.purge = false ∧
    Task.Finds kind listed last name draft.store := by
  refine ⟨_, opened_of_allowed left.allowed (left.isClearBelow follows isOf), ?_⟩
  cases found : tree.find? task.path with
  | none => exact ⟨rfl, rfl, .inl rfl⟩
  | some text =>
    obtain ⟨old, isLast, owner, known, layout, reflects, rfl⟩ :=
      left.exists_class follows isOf found
    exact ⟨rfl, rfl, .inr ⟨old, isLast, owner, known, .inr ⟨layout, reflects, rfl⟩⟩⟩

end IsLeft

section Step

variable {kind : FileKind} {listed : String → Prop} {last : Option Model} {current : Model}
  (left : tree.IsLeft kind listed last) (follows : Follows kind listed last current)
include left follows

theorem IsLeft.exists_isOf {task : Task} (found : task ∈ tree.tasks kind current) :
    ∃ name, task.IsOf kind last current name := by
  rw [tasks, left.previous_eq follows] at found
  exact Task.exists_isOf follows found

theorem IsLeft.exists_task {owner : ModelClass} (found : owner ∈ current.classes) :
    ∃ task ∈ tree.tasks kind current, task.path.same (kind.path current owner) = true ∧
      task.IsOf kind last current owner.name := by
  have here : kind.IsClassPath (tree.loaded kind current) current (kind.path current owner) :=
    ⟨current, owner, .inr rfl, found, FilePath.same_refl _⟩
  obtain ⟨task, inside, same⟩ := exists_mem_tasks here
  obtain ⟨name, isOf⟩ := left.exists_isOf follows inside
  have meets := FilePath.same_trans (isOf.path (.ofName name) rfl) same
  have named : name = owner.name :=
    (kind.same_path_iff isOf.simple (follows.now.hasSimpleNames owner found)).mp meets
  exact ⟨task, inside, same, named ▸ isOf⟩

theorem IsLeft.exists_result {task : Task} {name : String} (isOf : task.IsOf kind last current name) :
    ∃ first after, first.purge = false ∧ tree.result kind Catalog.standard current task = .ok after ∧
      after.initial = (tree.find? task.path).getD "" ∧
      Task.Makes kind listed last current name first after := by
  obtain ⟨first, opened, begun, stays, finds⟩ := left.exists_opened follows isOf
  obtain ⟨after, done, makes⟩ := isOf.exists_makes follows finds
  have made : tree.result kind Catalog.standard current task = .ok after := by
    rw [result, opened, left.previous_eq follows]
    exact done
  exact ⟨first, after, stays, made, (Task.initial_carryOut done).trans begun, makes⟩

theorem IsLeft.exists_find?_regenerated {owner : ModelClass} (found : owner ∈ current.classes) :
    ∃ layout, ∃ gone : Bool, kind.Reflects listed current owner layout ∧
      (gone = true → layout.toStore.isBodyEmpty = true) ∧ (last = none → gone = false) ∧
      (tree.regenerated kind Catalog.standard current).2.find? (kind.path current owner) =
        if gone then none else some layout.toStore.render := by
  obtain ⟨task, inside, same, isOf⟩ := left.exists_task follows found
  obtain ⟨first, after, stays, made, begun, makes⟩ := left.exists_result follows isOf
  obtain ⟨layout, reflects, store⟩ :=
    makes.kept owner (Model.class?_of_mem follows.now.isConsistent.distinct found)
  refine ⟨layout, after.isDispensable, reflects, fun gone => ?_, fun new => ?_, ?_⟩
  · rw [Draft.isDispensable, Bool.and_eq_true, store] at gone
    exact gone.2
  · rw [Draft.isDispensable, makes.first new, stays, Bool.false_and]
  · rw [← find?_congr _ same, find?_regenerated inside, made,
      find?_settle left.allowed begun fun _ => store ▸ layout.render_ne, store]

theorem IsLeft.leaves_regenerated {owner : ModelClass} (found : owner ∈ current.classes) :
    kind.Leaves listed current owner
      ((tree.regenerated kind Catalog.standard current).2.find? (kind.path current owner)) := by
  obtain ⟨layout, gone, reflects, empty, -, there⟩ := left.exists_find?_regenerated follows found
  rw [there]
  split
  · next must =>
    exact reflects.members_eq_nil (follows.now.isOrdinary_of_mem follows.imports found) (empty must)
  · exact ⟨layout, reflects, rfl⟩

theorem IsLeft.only_regenerated {path : FilePath}
    (found : (tree.regenerated kind Catalog.standard current).2.find? path ≠ none) :
    (kind.snapshotPath current).same path = true ∨
      ∃ owner ∈ current.classes, (kind.path current owner).same path = true := by
  by_cases snapshot : path.same (kind.snapshotPath current) = true
  · exact .inl (FilePath.same_symm snapshot)
  refine .inr ?_
  by_cases reached : ∃ task ∈ tree.tasks kind current, task.path.same path = true
  · obtain ⟨task, inside, same⟩ := reached
    obtain ⟨name, isOf⟩ := left.exists_isOf follows inside
    obtain ⟨first, after, -, made, begun, makes⟩ := left.exists_result follows isOf
    cases known : current.class? name with
    | none =>
      have gone := makes.gone known
      rw [← find?_congr _ same, find?_regenerated inside, made,
        find?_settle left.allowed begun (by simp [gone]), if_pos gone] at found
      exact absurd rfl found
    | some owner =>
      obtain ⟨there, named⟩ := Model.name_of_class? known
      exact ⟨owner, there, FilePath.same_trans (isOf.path owner named) same⟩
  · rw [find?_regenerated_beside (Bool.eq_false_iff.mpr snapshot) fun task inside =>
      Bool.eq_false_iff.mpr fun same => reached ⟨task, inside, same⟩] at found
    obtain ⟨old, isLast, held⟩ := left.only path found
    rcases held with same | ⟨owner, inside, same⟩
    · exact absurd (FilePath.same_symm (follows.snapshotPath_eq isLast ▸ same)) snapshot
    · have here : kind.IsClassPath (tree.loaded kind current) current path :=
        ⟨old, owner, .inl ((left.loaded_eq follows).trans isLast), inside, same⟩
      exact absurd (exists_mem_tasks here) reached

theorem IsLeft.regenerated :
    (tree.regenerated kind Catalog.standard current).1.isSuccess = true ∧
      (tree.regenerated kind Catalog.standard current).2.IsLeft kind listed (some current) := by
  have accounts := accounts_regenerated tree kind Catalog.standard current
  have saved : (tree.regenerated kind Catalog.standard current).1.snapshotSaved = true := by
    have done := @snapshotSaved_allowed tree kind Catalog.standard current
    rw [allowed_eq left.allowed] at done
    refine done fun task found => ?_
    obtain ⟨name, isOf⟩ := left.exists_isOf follows found
    obtain ⟨first, after, -, made, -⟩ := left.exists_result follows isOf
    exact ⟨after, made⟩
  have snapshot := accounts.snapshot
  rw [saved, if_pos rfl] at snapshot
  refine ⟨by rw [Report.isSuccess, accounts.saved.mp saved, saved]; rfl, ?_, ?_, ?_, ?_⟩
  · exact (denied_regenerated tree kind Catalog.standard current).trans left.allowed
  · rintro _ ⟨⟩
    exact snapshot
  · rintro _ ⟨⟩ owner found
    exact left.leaves_regenerated follows found
  · exact fun path found => ⟨current, rfl, left.only_regenerated follows found⟩

end Step

theorem exists_file_regenerated {kind : FileKind} {listed : String → Prop} {current : Model}
    {owner : ModelClass} (left : tree.IsLeft kind listed none)
    (follows : Follows kind listed none current) (found : owner ∈ current.classes) :
    (tree.regenerated kind Catalog.standard current).2.find? (kind.path current owner) ≠ none := by
  obtain ⟨layout, gone, -, -, stays, there⟩ := left.exists_find?_regenerated follows found
  rw [there, stays rfl]
  nofun

def runs (kind : FileKind) (catalog : Catalog) (tree : MemoryTree) (models : List Model) :
    MemoryTree :=
  models.foldl (fun tree current => (tree.regenerated kind catalog current).2) tree

section History

variable {kind : FileKind} {listed : String → Prop} {models : List Model}
  (ordinary : ∀ model ∈ models, model.IsOrdinary kind)
  (together : ∀ a ∈ models, ∀ b ∈ models, a.package = b.package ∧ a.sourceFolder = b.sourceFolder)
include ordinary together

/-- What runs leave that start with nothing. -/
theorem isLeft_runs (imports : ∀ model ∈ models, model.ImportsOnly kind listed) :
    (runs kind Catalog.standard empty models).IsLeft kind listed models.getLast? := by
  induction models using List.reverseRecOn with
  | nil => exact isLeft_empty kind listed
  | append_singleton before current ih =>
    have earlier {model : Model} (found : model ∈ before) : model ∈ before ++ [current] :=
      List.mem_append_left _ found
    have here : current ∈ before ++ [current] := List.mem_append_right _ (List.mem_singleton_self _)
    have left := ih (fun model found => ordinary model (earlier found))
      (fun a foundA b foundB => together a (earlier foundA) b (earlier foundB))
      fun model found => imports model (earlier found)
    have among {old : Model} (isLast : old ∈ before.getLast?) : old ∈ before ++ [current] :=
      earlier (List.mem_of_mem_getLast? isLast)
    have follows : Follows kind listed before.getLast? current :=
      ⟨ordinary current here, imports current here, fun old isLast => ordinary old (among isLast),
        fun old isLast => imports old (among isLast),
        fun old isLast => (together old (among isLast) current here).1,
        fun old isLast => (together old (among isLast) current here).2⟩
    rw [List.getLast?_concat, runs, List.foldl_append]
    exact (left.regenerated follows).2

variable {last : Model} (isLast : last ∈ models.getLast?)
include isLast

/-- Files do not show which models there were before the last one: there is one for each class of
the last model that has members, with what a new one declares and has as members, and there are no
other files. -/
theorem files_runs :
    (∀ owner ∈ last.classes, ∃ fresh,
        kind.generate Catalog.standard last owner .empty = (fresh, .ok ()) ∧
        (fresh.isBodyEmpty = false → (runs kind Catalog.standard empty models).find?
          (kind.path last owner) ≠ none) ∧
        ∀ text ∈ (runs kind Catalog.standard empty models).find? (kind.path last owner),
          (Store.parse text).get? .classDecl = fresh.get? .classDecl ∧
            (Store.parse text).members.Perm fresh.members) ∧
      ∀ path, (runs kind Catalog.standard empty models).find? path ≠ none →
        (kind.snapshotPath last).same path = true ∨
          ∃ owner ∈ last.classes, (kind.path last owner).same path = true := by
  have all : ∀ model ∈ models, model.ImportsOnly kind fun _ => True :=
    fun _ _ _ _ _ _ => trivial
  have left := isLeft_runs ordinary together all
  constructor
  · intro owner found
    have inside := List.mem_of_mem_getLast? isLast
    have usual := (ordinary last inside).isOrdinary_of_mem (all last inside) found
    have leaves := left.files last isLast owner found
    refine ⟨_, FileKind.generate_empty usual.qualified usual.printable, fun filled none => ?_,
      fun text there => ?_⟩
    · rw [none] at leaves
      have sound := (kind.reflects_layout usual).isSound usual
      rw [Layout.isBodyEmpty_toStore sound, List.isEmpty_iff.mpr leaves] at filled
      cases filled
    · rw [show find? _ _ = some text from there] at leaves
      obtain ⟨layout, reflects, rfl⟩ := leaves
      exact reflects.parse_agrees usual
  · intro path there
    obtain ⟨old, same, held⟩ := left.only path there
    obtain rfl := Option.some.inj (isLast.symm.trans same)
    exact held

/-- What the file of a class of the last model imports is what the file of some class of some model
of the history imports. -/
theorem imports_runs {owner : ModelClass} (found : owner ∈ last.classes) {text name : String}
    (there : text ∈ (runs kind Catalog.standard empty models).find? (kind.path last owner))
    (imported : .importOf name ∈ (Store.parse text).keys) :
    ∃ model ∈ models, ∃ other ∈ model.classes, name ∈ kind.importNames model other := by
  have all : ∀ model ∈ models, model.ImportsOnly kind fun name =>
      ∃ model ∈ models, ∃ other ∈ model.classes, name ∈ kind.importNames model other :=
    fun model inside other known name named => ⟨model, inside, other, known, named⟩
  have inside := List.mem_of_mem_getLast? isLast
  have leaves := (isLeft_runs ordinary together all).files last isLast owner found
  rw [show find? _ _ = some text from there] at leaves
  obtain ⟨layout, reflects, rfl⟩ := leaves
  exact reflects.listed_of_mem_keys_parse
    ((ordinary last inside).isOrdinary_of_mem (all last inside) found) imported

end History

theorem exists_class_of_mem_imports {model : Model} (consistent : model.IsConsistent)
    {owner : ModelClass} (found : owner ∈ model.classes) {name : String}
    (imported : name ∈ FileKind.tableFile.importNames model owner) :
    name ∈ ["java.util.ArrayList", "java.util.LinkedHashMap", "java.util.LinkedHashSet"] ∨
      ∃ other ∈ model.classes, name = model.package ++ "." ++ other.name := by
  simp only [FileKind.importNames, TableFile.imports, List.mem_append, List.mem_filterMap] at imported
  rcases imported with fixed | ⟨⟨title, role⟩, named, linked⟩
  · rcases List.mem_append.mp (show name ∈ [_, _, _] ++ [_] from fixed) with library | own
    · exact .inl library
    · exact .inr ⟨owner, found, List.mem_singleton.mp own⟩
  · obtain ⟨place, has, rfl⟩ := Option.map_eq_some_iff.mp linked
    obtain ⟨index, at_index⟩ :=
      List.mem_iff_getElem?.mp (ModelClass.mem_roles_of_mem_namedRoles named).1
    obtain ⟨partner, counterpart, same, there, -⟩ := consistent.exists_counterpart found at_index
    obtain rfl := Option.some.inj (has.symm.trans same)
    obtain ⟨other, known, -⟩ := Option.bind_eq_some_iff.mp there
    obtain ⟨present, sameName⟩ := Model.name_of_class? known
    exact .inr ⟨other, present, by rw [sameName]⟩

theorem table_imports_runs {models : List Model}
    (ordinary : ∀ model ∈ models, model.IsOrdinary .tableFile)
    (together : ∀ a ∈ models, ∀ b ∈ models, a.package = b.package ∧ a.sourceFolder = b.sourceFolder)
    {last : Model} (isLast : last ∈ models.getLast?) {owner : ModelClass}
    (found : owner ∈ last.classes) {text name : String}
    (there : text ∈
      (runs .tableFile Catalog.standard empty models).find? (FileKind.tableFile.path last owner))
    (imported : .importOf name ∈ (Store.parse text).keys) :
    name ∈ ["java.util.ArrayList", "java.util.LinkedHashMap", "java.util.LinkedHashSet"] ∨
      ∃ model ∈ models, ∃ other ∈ model.classes, name = last.package ++ "." ++ other.name := by
  obtain ⟨model, inside, other, known, named⟩ :=
    imports_runs ordinary together isLast found there imported
  rw [(together last (List.mem_of_mem_getLast? isLast) model inside).1]
  exact (exists_class_of_mem_imports (ordinary model inside).isConsistent known named).imp_right
    fun ⟨partner, present, same⟩ => ⟨model, inside, partner, present, same⟩

end MemoryTree

end ClassWeaver
