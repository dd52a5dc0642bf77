import ClassWeaver.Proofs.Generation.Partners
import ClassWeaver.Proofs.Regeneration.History

set_option autoImplicit false

/-!
Running the same model again. Main statement: after any runs, a second run of the last model
succeeds and changes nothing, if roles of one name agree on how many partners they have.
-/

namespace ClassWeaver

open Fragment (Layout Store)
open Marking (flaggedClass)

namespace FileKind

variable {kind : FileKind} {listed : String → Prop} {model : Model} {owner : ModelClass}

private theorem members_layout_tableFile (ordinary : tableFile.IsOrdinary listed model owner)
    (unflagged : owner.IsUnflagged) : (tableFile.layout model owner).members ≠ [] := by
  intro empty
  have stay : ∀ update ∈ tableFile.updates model owner,
      update.key = ClassFile.plainMethod "toString" → update.remove = false := by
    intro update found same
    rcases mem_updates.mp found with framed | ⟨element, inside, its⟩ | own
    · exact (stays_of_mem_frameUpdates framed).2
    · exact remove_of_mem_elements unflagged inside its
    · simp only [ownUpdates, TableFile.conversionUpdates, List.cons_append, List.mem_cons,
        List.mem_append, List.mem_flatMap, List.not_mem_nil, or_false] at own
      rcases own with rfl | ⟨field, -, its⟩ | rfl | rfl
      · exact unflagged.self
      · simp only [TableFile.fieldUpdates, List.mem_cons, List.not_mem_nil, or_false] at its
        rcases its with rfl | rfl | rfl <;> exact unflagged.self
      · have other : ClassFile.plainMethod "toSet" ≠ ClassFile.plainMethod "toString" := by decide
        exact absurd same other
      · exact unflagged.self
  have last : .ofMember (ClassFile.plainMethod "toString") .tableToText (.record []) owner.modified ∈
      tableFile.updates model owner :=
    List.mem_append_right _ (List.mem_cons_of_mem _ List.mem_cons_self)
  have there := @Store.isSome_get?_upsertAll (ClassFile.plainMethod "toString") rfl .empty
    (tableFile.calls model owner) ⟨_, List.mem_map_of_mem last, rfl⟩ fun call found same => by
      obtain ⟨update, inside, rfl⟩ := List.mem_map.mp found
      exact stay update inside same
  have made := generate_standard tableFile model owner .empty
  rw [generate_empty ordinary.qualified ordinary.printable] at made
  rw [calls, ← (Prod.mk.inj made).1, Layout.get?_eq_none_of_members
    ((tableFile.reflects_layout ordinary).isSound ordinary) empty rfl] at there
  cases there

theorem isEmpty_of_members_layout (consistent : model.IsConsistent)
    (ordinary : kind.IsOrdinary listed model owner) (found : owner ∈ model.classes)
    (empty : (kind.layout model owner).members = []) : owner.isEmpty = true := by
  have unflagged := consistent.unflagged owner found
  have nothing := @Layout.get?_eq_none_of_members _ ((kind.reflects_layout ordinary).isSound ordinary)
    empty
  cases kind with
  | tableFile => exact absurd empty (members_layout_tableFile ordinary unflagged)
  | classFile =>
    have none {name : String} {types : List String} : ¬ model.Offers owner name types := by
      intro offers
      obtain ⟨store, done, there⟩ := offers .empty
      rw [generate_empty ordinary.qualified ordinary.printable] at done
      obtain rfl := (Prod.mk.inj done).1
      rw [nothing rfl] at there
      cases there
    simp only [ModelClass.isEmpty, Bool.and_eq_true, List.isEmpty_iff]
    refine ⟨⟨?_, ?_⟩, ordinary.printable.methods⟩
    · refine List.eq_nil_iff_forall_not_mem.mpr fun property inside => ?_
      have getter : model.Offers owner ("get" ++ Text.capitalize property.name) [] :=
        Model.offers_accessor unflagged (ModelClass.mem_elements_ofAttribute.mpr inside)
          (List.mem_cons_of_mem _ List.mem_cons_self) List.mem_cons_self rfl
      exact none getter
    · refine List.eq_nil_iff_forall_not_mem.mpr ?_
      rintro ⟨name, role⟩ inside
      obtain ⟨index, at_index⟩ :=
        List.mem_iff_getElem?.mp (ModelClass.mem_roles_of_mem_namedRoles inside).1
      obtain ⟨partner, counterpart, linked, -⟩ := consistent.exists_counterpart found at_index
      exact none (Model.offers_roleGetter unflagged inside linked)

end FileKind

section Again

variable {kind : FileKind} {listed : String → Prop} {model : Model} {owner : ModelClass} {task : Task}
  {layout : Layout}
  (isOf : task.IsOf kind (some model) model owner.name) (ordinary : model.IsOrdinary kind)
  (agreeing : model.HasAgreeingNames) (found : owner ∈ model.classes)
include isOf ordinary agreeing found

theorem Task.IsOf.eq_singleton :
    task.previous = [owner] ∧ task.current = [owner] := by
  have consistent := ordinary.isConsistent
  have known := Model.class?_of_mem consistent.distinct found
  rw [isOf.previous, isOf.current, Option.bind_some, known, Option.map_some,
    Marking.flaggedClass_self consistent agreeing found]
  exact ⟨rfl, rfl⟩

variable (imports : model.ImportsOnly kind listed)
include imports

theorem Task.IsOf.carryOut_ofSource (reflects : kind.Reflects listed model owner layout) :
    task.carryOut kind Catalog.standard (some model) model (.ofSource layout.toStore.render) =
      .ok (.ofSource layout.toStore.render) := by
  obtain ⟨before, now⟩ := isOf.eq_singleton ordinary agreeing found
  have usual := ordinary.isOrdinary_of_mem imports found
  have unflagged := ordinary.isConsistent.unflagged owner found
  have read := reflects.parse_render usual
  have stays : kind.generate Catalog.standard model owner (Store.parse layout.toStore.render) =
      (Store.parse layout.toStore.render, .ok ()) := by
    rw [read, usual.generate_toStore reflects.reread.generated.toIsPlain,
      reflects.upsertAll_reread usual unflagged]
  have again := Fragment.render_parse layout.toStore.render
  refine (carryOut_kept before stays now (again.symm ▸ stays)).trans ?_
  simp only [Draft.ofSource, unflagged.self, again]
  simp

theorem Task.IsOf.isDispensable_carryOut_new (empty : (kind.layout model owner).members = []) :
    ∃ after, task.carryOut kind Catalog.standard (some model) model .new = .ok after ∧
      after.isDispensable = true := by
  obtain ⟨before, now⟩ := isOf.eq_singleton ordinary agreeing found
  have usual := ordinary.isOrdinary_of_mem imports found
  have unflagged := ordinary.isConsistent.unflagged owner found
  have reflects := kind.reflects_layout usual
  have first := @FileKind.generate_empty kind model owner usual.qualified usual.printable
  have second : kind.generate Catalog.standard model owner
      (Store.parse (kind.layout model owner).toStore.render) =
        ((kind.layout model owner).reread.toStore, .ok ()) := by
    rw [reflects.parse_render usual, usual.generate_toStore reflects.reread.generated.toIsPlain,
      reflects.upsertAll_reread usual unflagged]
  have nothing : (kind.layout model owner).reread.members = [] := by
    rw [reflects.generated.reread_eq]
    simp [empty]
  have blank := FileKind.isEmpty_of_members_layout ordinary.isConsistent usual found empty
  refine ⟨_, @carryOut_kept kind model task .new _ _ _ _ _ before first now second, ?_⟩
  simp [Draft.isDispensable, Draft.new, blank,
    Layout.isBodyEmpty_toStore (reflects.reread.isSound usual), nothing]

end Again

namespace MemoryTree

variable {tree : MemoryTree} {kind : FileKind} {listed : String → Prop} {model : Model}

/-- Says that a run changed nothing and reports so: it succeeded, no file was written or removed,
nothing was out of date, and each file of a class that is there is listed as unchanged. -/
structure IsIdle (kind : FileKind) (current : Model) (before : MemoryTree) (report : Report)
    (after : MemoryTree) : Prop where
  files : ∀ path, after.find? path = before.find? path
  success : report.isSuccess = true
  written : report.written = []
  deleted : report.deleted = []
  marked : report.marked = []
  unchanged : ∀ owner ∈ current.classes, before.find? (kind.path current owner) ≠ none →
    ∃ path ∈ report.unchanged, path.same (kind.path current owner) = true

section Again

variable (left : tree.IsLeft kind listed (some model)) (ordinary : model.IsOrdinary kind)
  (imports : model.ImportsOnly kind listed) (agreeing : model.HasAgreeingNames)
include left ordinary imports agreeing

theorem IsLeft.previous_again : tree.previous kind model = some model := by
  rw [left.previous_eq (.again ordinary imports), flaggedModel?, Option.map_some,
    (Marking.mark_self_iff ordinary.isConsistent).mpr agreeing]

theorem IsLeft.find?_path_again {owner : ModelClass} (found : owner ∈ model.classes) :
    (tree.regenerated kind Catalog.standard model).2.find? (kind.path model owner) =
      tree.find? (kind.path model owner) := by
  have follows : Follows kind listed (some model) model := .again ordinary imports
  obtain ⟨task, inside, same, isOf⟩ := left.exists_task follows found
  have leaves := left.files model rfl owner found
  have opened := opened_of_allowed left.allowed (left.isClearBelow follows isOf)
  have previous := left.previous_again ordinary imports agreeing
  rw [← find?_congr _ same] at leaves
  rw [← find?_congr _ same, ← find?_congr _ same, find?_regenerated inside]
  cases there : tree.find? task.path with
  | none =>
    rw [there] at leaves opened
    obtain ⟨after, done, gone⟩ :=
      isOf.isDispensable_carryOut_new ordinary agreeing found imports leaves
    have made : tree.result kind Catalog.standard model task = .ok after := by
      rw [result, previous, opened]
      exact done
    have begun : after.initial = (tree.find? task.path).getD "" := by
      rw [there, Task.initial_carryOut done]
      rfl
    rw [made, find?_settle left.allowed begun (by simp [gone]), if_pos gone]
  | some text =>
    rw [there] at leaves opened
    obtain ⟨layout, reflects, rfl⟩ := leaves
    have made : tree.result kind Catalog.standard model task =
        .ok (.ofSource layout.toStore.render) := by
      rw [result, previous, opened]
      exact isOf.carryOut_ofSource ordinary agreeing found imports reflects
    have begun : (Draft.ofSource layout.toStore.render).initial =
        (tree.find? task.path).getD "" := by
      rw [there]
      rfl
    have text := Fragment.render_parse layout.toStore.render
    rw [made, find?_settle left.allowed begun fun _ => text.symm ▸ layout.render_ne]
    exact congrArg some text

theorem IsLeft.find?_again (path : FilePath) :
    (tree.regenerated kind Catalog.standard model).2.find? path = tree.find? path := by
  have after := (left.regenerated (.again ordinary imports)).2
  by_cases snapshot : (kind.snapshotPath model).same path = true
  · rw [← find?_congr _ snapshot, ← find?_congr _ snapshot, after.snapshot model rfl,
      left.snapshot model rfl]
  by_cases known : ∃ owner ∈ model.classes, (kind.path model owner).same path = true
  · obtain ⟨owner, found, same⟩ := known
    rw [← find?_congr _ same, ← find?_congr _ same,
      left.find?_path_again ordinary imports agreeing found]
  · have nothing {tree : MemoryTree} (left : tree.IsLeft kind listed (some model)) :
        tree.find? path = none := by
      by_contra there
      obtain ⟨old, same, held⟩ := left.only path there
      obtain rfl := Option.some.inj same
      exact held.elim snapshot known
    rw [nothing after, nothing left]

/-- A second run changes nothing. -/
theorem IsLeft.isIdle_again : IsIdle kind model tree
    (tree.regenerated kind Catalog.standard model).1
    (tree.regenerated kind Catalog.standard model).2 := by
  have follows : Follows kind listed (some model) model := .again ordinary imports
  have success := (left.regenerated follows).1
  have stays := left.find?_again ordinary imports agreeing
  have accounts := accounts_regenerated tree kind Catalog.standard model
  have written : (tree.regenerated kind Catalog.standard model).1.written = [] := by
    refine List.eq_nil_iff_forall_not_mem.mpr fun path listed => ?_
    obtain ⟨text, after, before⟩ := accounts.written path listed
    exact before ((stays path).symm.trans after)
  have deleted : (tree.regenerated kind Catalog.standard model).1.deleted = [] := by
    refine List.eq_nil_iff_forall_not_mem.mpr fun path listed => ?_
    obtain ⟨before, after⟩ := accounts.deleted path listed
    exact before ((stays path).symm.trans after)
  have failures : (tree.regenerated kind Catalog.standard model).1.failures = [] := by
    rw [Report.isSuccess, Bool.and_eq_true, List.isEmpty_iff] at success
    exact success.1
  refine ⟨stays, success, written, deleted, ?_, fun owner found there => ?_⟩
  · rw [marked_regenerated, comparison, left.loaded_eq follows, Option.map_some,
      (Marking.mark_self_iff ordinary.isConsistent).mpr agreeing]
    rfl
  · have here : kind.IsClassPath (tree.loaded kind model) model (kind.path model owner) :=
      ⟨model, owner, .inr rfl, found, FilePath.same_refl _⟩
    obtain ⟨entry, listed, same⟩ := (accounts.listed _ here).mpr fun exempt =>
      there (find?_of_not_holds exempt.1)
    rw [Report.mem_entries, written, deleted, failures] at listed
    rcases listed with ⟨path, nowhere, -⟩ | ⟨path, unchanged, rfl⟩ | ⟨path, nowhere, -⟩ |
      ⟨failure, nowhere, -⟩
    · cases nowhere
    · exact ⟨path, unchanged, same⟩
    · cases nowhere
    · cases nowhere

end Again

theorem isIdle_runs_again {models : List Model} (ordinary : ∀ model ∈ models, model.IsOrdinary kind)
    (together : ∀ a ∈ models, ∀ b ∈ models, a.package = b.package ∧ a.sourceFolder = b.sourceFolder)
    {last : Model} (isLast : last ∈ models.getLast?) (agreeing : last.HasAgreeingNames) :
    IsIdle kind last (runs kind Catalog.standard empty models)
      ((runs kind Catalog.standard empty models).regenerated kind Catalog.standard last).1
      ((runs kind Catalog.standard empty models).regenerated kind Catalog.standard last).2 := by
  have all : ∀ model ∈ models, model.ImportsOnly kind fun _ => True :=
    fun _ _ _ _ _ _ => trivial
  have inside := List.mem_of_mem_getLast? isLast
  have left := isLeft_runs ordinary together all
  rw [Option.mem_def.mp isLast] at left
  exact left.isIdle_again (ordinary last inside) (all last inside) agreeing

/-- The first run of a model succeeds and leaves a file for each class, which a second run lists as
unchanged without changing anything. -/
theorem regenerated_twice (ordinary : model.IsOrdinary kind) (agreeing : model.HasAgreeingNames)
    {first second : Report} {middle after : MemoryTree}
    (once : empty.regenerated kind Catalog.standard model = (first, middle))
    (again : middle.regenerated kind Catalog.standard model = (second, after)) :
    first.isSuccess = true ∧ IsIdle kind model middle second after ∧
      ∀ owner ∈ model.classes, ∃ path ∈ second.unchanged,
        path.same (kind.path model owner) = true := by
  have all : model.ImportsOnly kind fun _ => True := fun _ _ _ _ => trivial
  have follows : Follows kind (fun _ => True) none model := .first ordinary all
  have nothing := isLeft_empty kind fun _ => True
  have file {owner : ModelClass} (found : owner ∈ model.classes) :=
    exists_file_regenerated nothing follows found
  obtain ⟨success, left⟩ := nothing.regenerated follows
  rw [once] at success left file
  have idle := left.isIdle_again ordinary all agreeing
  rw [again] at idle
  exact ⟨success, idle, fun owner found => idle.unchanged owner found (file found)⟩

private def petDefinition (attributes : List AttributeDefinition) : ModelDefinition :=
  ⟨"p", Model.standardSourceFolder, none, none, [⟨"Pet", none, attributes, []⟩], []⟩

private def petModel (attributes : List Attribute) : Model :=
  { Model.ofPackage "p" Model.standardSourceFolder with
    classes := [⟨"Pet", none, attributes, [], [], false⟩] }

private def petName : Attribute :=
  ⟨"name", "String", none, beanStyle, false⟩

private theorem isOrdinary_petModel {attributes : List Attribute}
    {definitions : List AttributeDefinition}
    (built : (petDefinition definitions).build = .ok (petModel attributes))
    (names : ∀ property ∈ attributes, property = petName) : (petModel attributes).IsOrdinary kind := by
  refine ⟨⟨_, built⟩, fun owner found => ?_, fun owner found => ?_, fun owner found => ?_⟩
  all_goals obtain rfl := List.mem_singleton.mp found
  · have pet : Name.isPlainClass "Pet" = true := by decide
    refine ⟨pet, ?_, fun property inside => ?_, ?_, rfl⟩
    · rintro parent ⟨⟩
    · obtain rfl := names property inside
      refine ⟨by decide, Name.isType_of_isPlain (by decide), ?_⟩
      rintro content ⟨⟩
    · rintro role ⟨⟩
  · intro _ element inside name named
    cases element with
    | ofAttribute property =>
      have known := names property (ModelClass.mem_elements_ofAttribute.mp inside)
      have first := congrArg (fun name => name.map fun name : String => name.toList.head?) named
      simp [Element.propertyName?, known, petName] at first
    | ofRole name role => cases (ModelClass.mem_elements_ofRole.mp inside)
    | ofMethod method => cases (ModelClass.mem_elements_ofMethod.mp inside)
  · rintro role ⟨⟩

theorem isIdle_runs_pets (kind : FileKind) :
    let after := runs kind Catalog.standard empty [petModel [petName], petModel []]
    IsIdle kind (petModel []) after (after.regenerated kind Catalog.standard (petModel [])).1
      (after.regenerated kind Catalog.standard (petModel [])).2 := by
  have named : (petModel [petName]).IsOrdinary kind :=
    @isOrdinary_petModel kind _ [⟨"name", "String", none, some "Bean"⟩] (by decide)
      fun _ => List.mem_singleton.mp
  have nameless : (petModel []).IsOrdinary kind :=
    @isOrdinary_petModel kind _ [] (by decide) fun _ => False.elim ∘ List.not_mem_nil
  refine isIdle_runs_again ?_ ?_ rfl (by decide)
  · exact List.forall_mem_cons.mpr ⟨named, List.forall_mem_singleton.mpr nameless⟩
  · intro a foundA b foundB
    simp only [List.mem_cons, List.not_mem_nil, or_false] at foundA foundB
    rcases foundA with rfl | rfl <;> rcases foundB with rfl | rfl <;> exact ⟨rfl, rfl⟩

end MemoryTree

end ClassWeaver
