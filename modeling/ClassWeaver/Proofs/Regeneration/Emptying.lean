import ClassWeaver.Proofs.Generation.Emptying
import ClassWeaver.Proofs.Regeneration.Retrying

set_option autoImplicit false

/-!
Classes that have lost their members, from run to run. Main statements: a run does not write the file of
a class without members if the file is gone and the last run knew the class, and the file stays gone in
all runs after that.
-/

namespace ClassWeaver

open Fragment (Store)

namespace Draft

variable {model : Model} {draft : Draft}

theorem generate_standard (kind : FileKind) (model : Model) (draft : Draft) (owner : ModelClass) :
    draft.generate kind Catalog.standard model owner =
      .ok { draft with store := (kind.generate Catalog.standard model owner draft.store).1 } := by
  rw [generate_eq, FileKind.generate_standard]

theorem exists_foldlM_generate {owners : List ModelClass}
    (empty : ∀ owner ∈ owners, owner.isEmpty = true) (purge : draft.purge = true)
    (hollow : draft.store.IsHollow) :
    ∃ after, owners.foldlM (generate .classFile Catalog.standard model) draft = .ok after ∧
      after.isDispensable = true := by
  induction owners generalizing draft with
  | nil => exact ⟨draft, rfl, by rw [isDispensable, purge, hollow.isBodyEmpty]; rfl⟩
  | cons owner rest ih =>
    obtain ⟨here, later⟩ := List.forall_mem_cons.mp empty
    rw [List.foldlM_cons, bind_of_eq_ok (generate_standard .classFile model draft owner)]
    exact ih later purge (FileKind.isHollow_generate here hollow)

theorem purgeStale_new {owner : ModelClass} (spent : owner.IsSpent) :
    new.purgeStale .classFile Catalog.standard model owner =
      .ok ⟨(FileKind.classFile.generate Catalog.standard model owner .empty).1, "", false, true⟩ := by
  have purge : (owner.modified || owner.isEmpty) = true := by
    rcases spent.self with modified | empty
    · rw [modified, Bool.true_or]
    · rw [empty, Bool.or_true]
  rw [purgeStale, generate_standard, Except.map, new]
  simp [purge]

end Draft

/-- The work on a file that does not exist makes one that has to go, if nothing is generated any more
for the class that had its file there, and the classes that have their files there have no members. -/
theorem Task.exists_carryOut_new {task : Task} {previous current : Model} {owner : ModelClass}
    (alone : task.previous = [owner]) (spent : owner.IsSpent) (braceless : owner.IsBraceless)
    (named : '\x7b' ∉ owner.name.toList) (packaged : '\x7b' ∉ previous.package.toList)
    (empty : ∀ owner ∈ task.current, owner.isEmpty = true) :
    ∃ draft, task.carryOut .classFile Catalog.standard (some previous) current .new = .ok draft ∧
      draft.isDispensable = true := by
  have purged : task.purged .classFile Catalog.standard (some previous) .new =
      .ok ⟨(FileKind.classFile.generate Catalog.standard previous owner .empty).1, "", false, true⟩ := by
    rw [Task.purged, alone, Option.elim_some, List.foldlM_cons,
      bind_of_eq_ok (Draft.purgeStale_new spent)]
    rfl
  rw [carryOut_eq, bind_of_eq_ok purged, alone]
  exact Draft.exists_foldlM_generate empty rfl
    (FileKind.isHollow_reread spent braceless named packaged)

namespace Model

variable {model a b : Model} {path : FilePath} {name : String}

/-- Says that the file at a path is that of one class of the model only, which has a given name, and
that no text that is generated outside of its members has an opening brace. -/
structure HasBracelessFile (model : Model) (path : FilePath) (name : String) : Prop where
  package : '\x7b' ∉ model.package.toList
  owner : ∃ owner, owner.name = name ∧ owner.IsBraceless ∧
    (model.classes.filter fun other => (FileKind.classFile.path model other).same path) = [owner]

theorem HasBracelessFile.congr (braceless : a.HasBracelessFile path name)
    (alike : Marking.SameNames a b)
    (each : ∀ owner ∈ b.classes, ∃ old ∈ a.classes, owner.unmarked = old.unmarked) :
    b.HasBracelessFile path name where
  package := alike.package ▸ braceless.package
  owner := by
    obtain ⟨owner, rfl, free, alone⟩ := braceless.owner
    -- a class has its file where its name says
    have named (model : Model) :
        (model.classes.filter fun other => (FileKind.classFile.path model other).same path).map
            (·.name) =
          (model.classes.map (·.name)).filter fun name =>
            ((FileKind.classFile.folder model).join (name ++ ".java")).same path := by
      rw [List.filter_map]
      rfl
    have folder : FileKind.classFile.folder b = FileKind.classFile.folder a := by
      rw [FileKind.folder, FileKind.folder, packageFolder, packageFolder, alike.package,
        alike.sourceFolder]
    have names := named b
    rw [folder, ← alike.classes, ← named a, alone, List.map_singleton,
      List.map_eq_singleton_iff] at names
    obtain ⟨other, alone', same⟩ := names
    obtain ⟨inside, place⟩ := List.mem_filter.mp (alone' ▸ List.mem_singleton_self other)
    obtain ⟨old, there, equal⟩ := each other inside
    refine ⟨other, same, ?_, alone'⟩
    have here : old ∈ [owner] := by
      rw [← alone, List.mem_filter]
      have moved : FileKind.classFile.path a old = FileKind.classFile.path b other := by
        rw [FileKind.path_eq_join, FileKind.path_eq_join, folder, FileKind.fileName,
          FileKind.fileName, ModelClass.name_congr equal]
      exact ⟨there, by rwa [moved]⟩
    rw [List.mem_singleton.mp here] at equal
    exact free.congr equal

/-- Says that a model can be built and has a class of a name without members, whose file is at a path. -/
structure HasEmptyClass (model : Model) (path : FilePath) (name : String) : Prop where
  built : ∃ definition : ModelDefinition, definition.build = .ok model
  owner : ∃ owner ∈ model.classes, owner.name = name ∧ owner.isEmpty = true ∧
    (FileKind.classFile.path model owner).same path = true

theorem filter_path {definition : ModelDefinition} (built : definition.build = .ok model)
    {owner : ModelClass} (found : owner ∈ model.classes)
    (here : (FileKind.classFile.path model owner).same path = true) :
    (model.classes.filter fun other => (FileKind.classFile.path model other).same path) =
      [owner] := by
  have distinct := (ModelDefinition.isConsistent_build built).distinct
  have simple := ModelDefinition.hasSimpleNames_build built
  rw [FileKind.filter_path .classFile simple distinct (simple owner found) here,
    class?_of_mem distinct found]
  rfl

theorem hasBracelessFile_of_build {definition : ModelDefinition}
    (built : definition.build = .ok model) {owner : ModelClass} (found : owner ∈ model.classes)
    (here : (FileKind.classFile.path model owner).same path = true)
    (collections : ∀ role ∈ owner.roles, role.name.isSome = true → role.isMany = true →
      '\x7b' ∉ role.collection.toList) : model.HasBracelessFile path owner.name where
  package :=
    Name.brace_notMem_of_isQualified (ModelDefinition.hasGoodHeads_build built).package
  owner := by
    have simple := (ModelDefinition.hasGoodHeads_build built).superclasses owner found
    exact ⟨owner, rfl,
      ⟨fun parent extended => Name.brace_notMem_of_isSimple (simple parent extended), collections⟩,
      filter_path built found here⟩

namespace HasEmptyClass

theorem hasBracelessFile (blank : model.HasEmptyClass path name) :
    model.HasBracelessFile path name := by
  obtain ⟨definition, built⟩ := blank.built
  obtain ⟨owner, found, rfl, empty, here⟩ := blank.owner
  refine hasBracelessFile_of_build built found here fun role inside named => ?_
  rw [(ModelClass.isEmpty_iff.mp empty).2.1 role inside] at named
  cases named

theorem components_path (blank : model.HasEmptyClass path name) :
    path.components =
      (FileKind.classFile.folder model).components ++ [.named (name ++ ".java")] := by
  obtain ⟨definition, built⟩ := blank.built
  obtain ⟨owner, found, rfl, -, here⟩ := blank.owner
  rw [← FilePath.same_iff_components.mp here, FileKind.components_path .classFile model
    (ModelDefinition.hasSimpleNames_build built owner found)]
  rfl

theorem same_snapshotPath (first : a.HasEmptyClass path name) (second : b.HasEmptyClass path name) :
    (FileKind.classFile.snapshotPath a).same (FileKind.classFile.snapshotPath b) = true := by
  have folders : (FileKind.classFile.folder a).components =
      (FileKind.classFile.folder b).components :=
    List.append_cancel_right (first.components_path.symm.trans second.components_path)
  have place (model : Model) : (FileKind.classFile.snapshotPath model).components =
      (FileKind.classFile.folder model).components ++ [.named "classModel.yaml"] :=
    FilePath.components_join _ (by decide) (by decide)
  rw [FilePath.same_iff_components, place, place, folders]

end HasEmptyClass

end Model

namespace MemoryTree

variable {tree : MemoryTree} {current old : Model} {path : FilePath} {name : String}

theorem find?_regenerated_of_isDispensable {kind : FileKind} {catalog : Catalog} {task : Task}
    {draft : Draft} (inside : task ∈ tree.tasks kind current)
    (done : task.carryOut kind catalog (tree.previous kind current) current .new = .ok draft)
    (dispensable : draft.isDispensable = true) (gone : tree.find? task.path = none) :
    (tree.regenerated kind catalog current).2.find? task.path = none := by
  rw [find?_regenerated inside]
  cases opened : tree.opened task.path with
  | error obstacle =>
    have failed : tree.result kind catalog current task = .error obstacle := by
      rw [result, opened]
      rfl
    rw [failed]
    exact gone
  | ok first =>
    have missing : tree.holds task.path = false := by
      rcases find?_of_opened opened with there | missing
      · rw [gone] at there
        cases there
      · exact missing
    have made : tree.result kind catalog current task = .ok draft := by
      rw [result, MemoryTree.opened, missing]
      exact done
    rw [made, settle, dispensable, missing]
    exact gone

theorem exists_task_of_hasEmptyClass (blank : current.HasEmptyClass path name)
    (loaded : tree.loaded .classFile current = some old)
    (braceless : old.HasBracelessFile path name) :
    ∃ task ∈ tree.tasks .classFile current, task.path.same path = true ∧ ∃ draft,
      task.carryOut .classFile Catalog.standard (tree.previous .classFile current) current .new =
        .ok draft ∧ draft.isDispensable = true := by
  obtain ⟨definition, built⟩ := blank.built
  obtain ⟨now, found, rfl, empty, here⟩ := blank.owner
  have previous := previous_of_loaded loaded
  have reached : FileKind.classFile.IsClassPath (tree.loaded .classFile current) current path :=
    ⟨current, now, .inr rfl, found, here⟩
  obtain ⟨task, inside, same⟩ := exists_mem_tasks reached
  have whole : task ∈ Task.all .classFile (some (Marking.mark old current).1) current :=
    previous ▸ inside
  have meets (model : Model) :
      (model.classes.filter fun other => (FileKind.classFile.path model other).same task.path) =
        model.classes.filter fun other => (FileKind.classFile.path model other).same path :=
    List.filter_congr fun _ _ => FilePath.same_congr same _
  have flagged : (Marking.mark old current).1.HasBracelessFile path now.name :=
    braceless.congr (Marking.sameNames_mark old current).symm fun _ => Marking.exists_unmarked_mark
  obtain ⟨owner, named, free, alone⟩ := flagged.owner
  have before : task.previous = [owner] := by
    rw [Task.previous_of_mem_all whole, meets, alone]
  have after : ∀ other ∈ task.current, other.isEmpty = true := by
    rw [Task.current_of_mem_all whole, meets, Model.filter_path built found here]
    exact List.forall_mem_singleton.mpr empty
  have spent : owner.IsSpent := by
    refine Marking.isSpent_mark (List.mem_of_mem_filter (alone ▸ List.mem_singleton_self owner)) ?_
      empty
    rw [named]
    exact Model.class?_of_mem (ModelDefinition.isConsistent_build built).distinct found
  have bare : '\x7b' ∉ owner.name.toList := by
    rw [named]
    exact Name.brace_notMem_of_isSimple (ModelDefinition.hasSimpleNames_build built now found)
  rw [previous]
  exact ⟨task, inside, same, Task.exists_carryOut_new before spent free bare flagged.package after⟩

/-- A run does not write the file of a class without members that the last run knew and whose file is
gone. -/
theorem find?_regenerated_of_hasEmptyClass (blank : current.HasEmptyClass path name)
    (loaded : tree.loaded .classFile current = some old)
    (braceless : old.HasBracelessFile path name) (gone : tree.find? path = none) :
    (tree.regenerated .classFile Catalog.standard current).2.find? path = none := by
  obtain ⟨task, inside, same, draft, done, dispensable⟩ :=
    exists_task_of_hasEmptyClass blank loaded braceless
  rw [← find?_congr _ same]
  exact find?_regenerated_of_isDispensable inside done dispensable
    ((find?_congr tree same).trans gone)

/-- Runs one after the other of models that have a class of a name without members, whose file is at a
path. Each run finds the snapshot of the last one and can read it. Between two runs anything may happen
to the files, and to what is denied, but for the file of the class and the snapshot. -/
inductive EmptyRuns (path : FilePath) (name : String) (start : MemoryTree) : MemoryTree → Prop
  | none : EmptyRuns path name start start
  | more {last next : MemoryTree} {current : Model} (before : EmptyRuns path name start last)
    (file : next.find? path = last.find? path)
    (snapshot : next.find? (FileKind.classFile.snapshotPath current) =
      last.find? (FileKind.classFile.snapshotPath current))
    (blank : current.HasEmptyClass path name)
    (readable : next.loaded .classFile current ≠ none) :
    EmptyRuns path name start (next.regenerated .classFile Catalog.standard current).2

/-- Says that there is no file at a path, and that a run that finds a class of a name there without
members knows from the last run that it had its file to itself. -/
structure IsGone (path : FilePath) (name : String) (tree : MemoryTree) : Prop where
  file : tree.find? path = none
  snapshot : ∀ current : Model, current.HasEmptyClass path name → ∀ text old,
    tree.find? (FileKind.classFile.snapshotPath current) = some text →
      Snapshot.decode text = .ok old → old.HasBracelessFile path name

theorem IsGone.regenerated (gone : tree.IsGone path name) (blank : current.HasEmptyClass path name)
    (loaded : tree.loaded .classFile current = some old) :
    IsGone path name (tree.regenerated .classFile Catalog.standard current).2 where
  file := by
    obtain ⟨text, read, decoded⟩ := exists_of_snapshot? loaded
    exact find?_regenerated_of_hasEmptyClass blank loaded
      (gone.snapshot current blank text old (find?_of_readText read) decoded) gone.file
  snapshot := by
    intro other blank' text read there decoded
    rw [find?_congr _ (blank'.same_snapshotPath blank),
      (accounts_regenerated tree .classFile Catalog.standard current).snapshot] at there
    split at there
    · rw [← Option.some.inj there] at decoded
      rw [Snapshot.eq_unmarked_of_decode decoded]
      refine blank.hasBracelessFile.congr ⟨rfl, rfl, ?_⟩ fun owner found => ?_
      · rw [Model.unmarked, List.map_map]
        rfl
      · obtain ⟨old, inside, rfl⟩ := List.mem_map.mp found
        exact ⟨old, inside, old.unmarked_unmarked⟩
    · exact gone.snapshot current blank text read there decoded

theorem IsGone.emptyRuns {later : MemoryTree} (gone : tree.IsGone path name)
    (runs : EmptyRuns path name tree later) : later.IsGone path name := by
  induction runs with
  | none => exact gone
  | @more last next current before file snapshot blank readable ih =>
    obtain ⟨old, loaded⟩ := Option.ne_none_iff_exists'.mp readable
    refine IsGone.regenerated ⟨file.trans ih.file, ?_⟩ blank loaded
    intro other blank' text old' there decoded
    refine ih.snapshot current blank text old' ?_ decoded
    rw [← snapshot, find?_congr next (blank.same_snapshotPath blank'), there]

/-- The file of a class that has lost its members stays away once it is gone: if the model of the last
run had it as the file of the class and of no other one, then neither this run nor any later one writes
it, as long as the class stays without members and the snapshot can be read. In the last model, neither
the name of the package nor that of the superclass nor those of the collections of the class may have an
opening brace. -/
theorem emptied_class_stays_deleted (blank : current.HasEmptyClass path name)
    (loaded : tree.loaded .classFile current = some old)
    (braceless : old.HasBracelessFile path name) (gone : tree.find? path = none) :
    (tree.regenerated .classFile Catalog.standard current).2.find? path = none ∧
      (∀ other ∈ (tree.regenerated .classFile Catalog.standard current).1.written,
        other.same path = false) ∧
      ∀ later, EmptyRuns path name tree later → later.find? path = none := by
  have away := find?_regenerated_of_hasEmptyClass blank loaded braceless gone
  refine ⟨away, fun other listed => ?_, fun later runs => ?_⟩
  · refine Bool.eq_false_iff.mpr fun same => ?_
    obtain ⟨text, there, -⟩ :=
      (accounts_regenerated tree .classFile Catalog.standard current).written other listed
    rw [find?_congr _ same, away] at there
    cases there
  · refine (IsGone.emptyRuns ⟨gone, ?_⟩ runs).file
    intro current' blank' text read there decoded
    obtain ⟨known, shown, taken⟩ := exists_of_snapshot? loaded
    rw [find?_congr tree (blank'.same_snapshotPath blank), find?_of_readText shown] at there
    rw [← Option.some.inj there, taken] at decoded
    rwa [← Except.ok.inj decoded]

private def bareDefinition : ModelDefinition :=
  ⟨"p", Model.standardSourceFolder, none, none, [⟨"A", none, [], []⟩], []⟩

private def bareModel : Model :=
  { Model.ofPackage "p" Model.standardSourceFolder with classes := [ModelClass.ofName "A"] }

private def fullModel : Model :=
  { Model.ofPackage "p" Model.standardSourceFolder with
    classes := [{ ModelClass.ofName "A" with attributes := [⟨"n", "int", none, "POJO", false⟩] }] }

private def bareFile : FilePath :=
  ⟨"src/main/java/p/A.java"⟩

private def fullTree : MemoryTree :=
  empty.put (FileKind.classFile.snapshotPath bareModel) (Snapshot.encode fullModel)

private theorem path_bareModel :
    FileKind.classFile.path bareModel (.ofName "A") = bareFile := by
  decide +kernel

private theorem hasEmptyClass_bareModel : bareModel.HasEmptyClass bareFile "A" where
  built := ⟨bareDefinition, by decide⟩
  owner := by
    refine ⟨.ofName "A", List.mem_singleton_self _, rfl, rfl, ?_⟩
    rw [path_bareModel]
    exact FilePath.same_refl _

private theorem hasBracelessFile_fullModel : fullModel.HasBracelessFile bareFile "A" where
  package := by decide
  owner := by
    refine ⟨_, rfl, ⟨fun parent extended => ?_, fun role found => ?_⟩,
      List.filter_eq_self.mpr (List.forall_mem_singleton.mpr ?_)⟩
    · cases extended
    · cases found
    · rw [← path_bareModel]
      exact FilePath.same_refl _

/-- A class that loses its attribute while its file is gone gets no file, not in the next run
either. -/
theorem emptied_class_stays_deleted_twice :
    let first := fullTree.regenerated .classFile Catalog.standard bareModel
    let second := first.2.allowed.regenerated .classFile Catalog.standard bareModel
    first.2.find? bareFile = none ∧ second.2.find? bareFile = none := by
  have full : fullModel.HasWordIndices := by simp [Model.HasWordIndices, fullModel, ModelClass.ofName]
  have bare : bareModel.HasWordIndices := by simp [Model.HasWordIndices, bareModel, ModelClass.ofName]
  have known : fullTree.find? (FileKind.classFile.snapshotPath bareModel) =
      some (Snapshot.encode fullModel) := by
    rw [fullTree, find?_put, FilePath.same_refl]
    rfl
  have loaded : fullTree.loaded .classFile bareModel = some fullModel := loaded_put rfl full
  have gone : fullTree.find? bareFile = none := by
    rw [fullTree, find?_put, ← path_bareModel, FilePath.same_comm,
      FileKind.path_not_same_snapshotPath]
    rfl
  obtain ⟨away, -, always⟩ := emptied_class_stays_deleted hasEmptyClass_bareModel loaded
    hasBracelessFile_fullModel gone
  refine ⟨away, always _ (.more (.more .none rfl rfl hasEmptyClass_bareModel ?_)
    (find?_allowed _ _) (find?_allowed _ _) hasEmptyClass_bareModel ?_)⟩
  · rw [loaded]
    exact Option.some_ne_none _
  · have kept := (accounts_regenerated fullTree .classFile Catalog.standard bareModel).snapshot
    split at kept
    · rw [loaded_allowed bare kept]
      exact Option.some_ne_none _
    · rw [loaded_allowed full (kept.trans known)]
      exact Option.some_ne_none _

private def bracedModel : Model :=
  { Model.ofPackage "p" Model.standardSourceFolder with
    classes := [{ ModelClass.ofName "A" with superclass := some "B \x7bint y;\x7d" }] }

private def doubledModel : Model :=
  { Model.ofPackage "p" Model.standardSourceFolder with
    classes := [ModelClass.ofName "A", { ModelClass.ofName "A" with superclass := some " " }] }

private def collectingModel : Model :=
  { Model.ofPackage "p" Model.standardSourceFolder with
    classes := [{ ModelClass.ofName "A" with
      roles := [⟨some "r", .many, "L;class Z\x7by;\x7d", "POJO", none, false⟩] }] }

private def packagedModel : Model :=
  { Model.ofPackage "q;\x7by;\x7d.p" "src" with classes := [ModelClass.ofName "A"] }

private def movedDefinition : ModelDefinition :=
  { bareDefinition with sourceFolder := "src/q;\x7by;\x7d" }

private def movedModel : Model :=
  { bareModel with sourceFolder := "src/q;\x7by;\x7d" }

/-- Says that a run on a snapshot alone writes the file of class A, although the class has no members
and the snapshot knows it. -/
structure WritesEmptied (definition : ModelDefinition) (current old : Model) (tree : MemoryTree) :
    Prop where
  built : definition.build = .ok current
  empty : (current.class? "A").any (·.isEmpty) = true
  loaded : tree.loaded .classFile current = some old
  known : (old.class? "A").isSome = true
  folder : (FileKind.classFile.folder old).same (FileKind.classFile.folder current) = true
  gone : tree.holds (FileKind.classFile.path current (.ofName "A")) = false
  written : (tree.regenerated .classFile Catalog.standard current).2.find?
    (FileKind.classFile.path current (.ofName "A")) ≠ none

private def snapshotOnly (current old : Model) : MemoryTree :=
  empty.put (FileKind.classFile.snapshotPath current) (Snapshot.encode old)

private theorem writesEmptied_snapshotOnly {definition : ModelDefinition} {current old : Model}
    (unlinked : (old.classes.all fun owner => owner.roles.all (·.other.isNone)) = true)
    (unflagged : old.unmarked = old) (built : definition.build = .ok current)
    (classes : ((current.class? "A").any (·.isEmpty) && (old.class? "A").isSome) = true)
    (folder : (FileKind.classFile.folder old).same (FileKind.classFile.folder current) = true)
    (text : ((snapshotOnly current old).textAfter .classFile Catalog.standard
      (some (Marking.mark old current).1) current
        (FileKind.classFile.path current (.ofName "A"))).isSome = true) :
    WritesEmptied definition current old (snapshotOnly current old) := by
  have short : old.HasWordIndices := by
    intro owner found role inside place linked
    have alone := List.all_eq_true.mp (List.all_eq_true.mp unlinked owner found) role inside
    rw [Option.isNone_iff_eq_none.mp alone] at linked
    cases linked
  have loaded : (snapshotOnly current old).loaded .classFile current = some old.unmarked :=
    loaded_put rfl short
  rw [unflagged] at loaded
  have apart := FileKind.path_not_same_snapshotPath .classFile current current (.ofName "A")
  refine ⟨built, (Bool.and_eq_true_iff.mp classes).1, loaded, (Bool.and_eq_true_iff.mp classes).2,
    folder, ?_, ?_⟩
  · rw [snapshotOnly, holds_put, FilePath.same_comm, apart,
      FileKind.snapshotPath_not_isBelow .classFile (by decide)]
    rfl
  · rw [find?_regenerated_eq (previous_of_loaded loaded) apart]
    exact Option.isSome_iff_ne_none.mp text

/-- A run may write the file of a class without members, although the last run knew the class and the
file is gone. What stands behind a name with a brace is read as a body of the class, and so is what is
left of a class that was generated over another one. -/
theorem emptied_class_is_written :
    WritesEmptied bareDefinition bareModel bracedModel (snapshotOnly bareModel bracedModel) ∧
      WritesEmptied bareDefinition bareModel doubledModel (snapshotOnly bareModel doubledModel) ∧
      WritesEmptied bareDefinition bareModel collectingModel
        (snapshotOnly bareModel collectingModel) ∧
      WritesEmptied movedDefinition movedModel packagedModel
        (snapshotOnly movedModel packagedModel) := by
  refine ⟨?superclass, ?doubled, ?collection, ?package⟩ <;>
    exact writesEmptied_snapshotOnly (by decide) rfl (by decide) (by decide)
      (by decide +kernel) (by decide +kernel)

end MemoryTree

end ClassWeaver
