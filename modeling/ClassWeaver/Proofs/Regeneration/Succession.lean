import ClassWeaver.Proofs.Generation.Succession
import ClassWeaver.Proofs.Regeneration.Emptying

set_option autoImplicit false

/-!
One file in a run that follows another one. Main statements: a task of a run is that of one class
name, and it makes of the file that the last run left a file that reflects the class of the name in
the current model, or one that has to go if there is none.
-/

namespace ClassWeaver

open Fragment (Layout Store)
open Marking (flaggedClass)

/-- Says that a model can be built, and that the files of its classes are read back as they are
generated. -/
structure Model.IsOrdinary (kind : FileKind) (model : Model) : Prop where
  built : ∃ definition : ModelDefinition, definition.build = .ok model
  plain : ∀ owner ∈ model.classes, owner.IsPlain
  free : ∀ owner ∈ model.classes, kind.IsUnmistakable owner
  short : model.HasWordIndices

/-- Says that the files of a model import only what is listed. -/
def Model.ImportsOnly (kind : FileKind) (listed : String → Prop) (model : Model) : Prop :=
  ∀ owner ∈ model.classes, ∀ name ∈ kind.importNames model owner, listed name

namespace Model.IsOrdinary

variable {kind : FileKind} {listed : String → Prop} {model : Model} {owner : ModelClass}
  (ordinary : model.IsOrdinary kind)
include ordinary

theorem isConsistent : model.IsConsistent := by
  obtain ⟨definition, built⟩ := ordinary.built
  exact ModelDefinition.isConsistent_build built

theorem hasSimpleNames : model.HasSimpleNames := by
  obtain ⟨definition, built⟩ := ordinary.built
  exact ModelDefinition.hasSimpleNames_build built

theorem isOrdinary_of_mem (imports : model.ImportsOnly kind listed) (found : owner ∈ model.classes) :
    kind.IsOrdinary listed model owner where
  qualified := by
    obtain ⟨definition, built⟩ := ordinary.built
    exact (ModelDefinition.hasGoodHeads_build built).package
  printable := ModelClass.isPrintable_of_isConsistent ordinary.isConsistent ordinary.plain found
  free := ordinary.free owner found
  imports := imports owner found

end Model.IsOrdinary

namespace Marking

variable {old current : Model}

theorem hasDistinctClasses_mark (distinct : old.HasDistinctClasses) :
    (mark old current).1.HasDistinctClasses := by
  rw [Model.HasDistinctClasses, (sameNames_mark old current).classes]
  exact distinct

theorem hasSimpleNames_mark (simple : old.HasSimpleNames) :
    (mark old current).1.HasSimpleNames := by
  intro owner found
  obtain ⟨same, inside, alike⟩ := exists_unmarked_mark found
  exact ModelClass.name_congr alike ▸ simple same inside

theorem class?_mark (consistent : old.IsConsistent) (name : String) :
    (mark old current).1.class? name = (old.class? name).map (flaggedClass old current) := by
  rw [Model.class?, classes_mark consistent, List.find?_map]
  rfl

end Marking

/-- Says of the model of the last run, if there was one, and of the current one that both are
ordinary, have their files in one folder and import only what is listed. -/
structure Follows (kind : FileKind) (listed : String → Prop) (last : Option Model) (current : Model) :
    Prop where
  now : current.IsOrdinary kind
  imports : current.ImportsOnly kind listed
  before : ∀ old ∈ last, old.IsOrdinary kind
  imported : ∀ old ∈ last, old.ImportsOnly kind listed
  packages : ∀ old ∈ last, old.package = current.package
  folders : ∀ old ∈ last, old.sourceFolder = current.sourceFolder

namespace Follows

section Itself

variable {kind : FileKind} {listed : String → Prop} {model : Model}
  (ordinary : model.IsOrdinary kind) (imports : model.ImportsOnly kind listed)
include ordinary imports

theorem first : Follows kind listed none model := by
  refine ⟨ordinary, imports, ?_, ?_, ?_, ?_⟩ <;> rintro _ ⟨⟩

theorem again : Follows kind listed (some model) model := by
  refine ⟨ordinary, imports, ?_, ?_, ?_, ?_⟩ <;> rintro _ ⟨⟩
  · exact ordinary
  · exact imports
  · rfl
  · rfl

end Itself

variable {kind : FileKind} {listed : String → Prop} {last : Option Model} {current old : Model}
  (follows : Follows kind listed last current) (isLast : old ∈ last)
include follows isLast

theorem path_eq (owner : ModelClass) : kind.path old owner = kind.path current owner :=
  kind.path_congr (follows.packages old isLast) (follows.folders old isLast) rfl

theorem path_mark (owner : ModelClass) :
    kind.path (Marking.mark old current).1 owner = kind.path current owner := by
  have alike := Marking.sameNames_mark old current
  exact kind.path_congr (alike.package.trans (follows.packages old isLast))
    (alike.sourceFolder.trans (follows.folders old isLast)) rfl

theorem snapshotPath_eq : kind.snapshotPath old = kind.snapshotPath current := by
  rw [FileKind.snapshotPath, FileKind.snapshotPath, Model.packageFolder, Model.packageFolder,
    follows.packages old isLast, follows.folders old isLast]

end Follows

def flaggedModel? (last : Option Model) (current : Model) : Option Model :=
  last.map fun old => (Marking.mark old current).1

namespace Task

variable {kind : FileKind} {listed : String → Prop} {last : Option Model} {current : Model}
  {task : Task} {name : String}

/-- Says that a task is that of the file of a class name, which one of the two models has. -/
structure IsOf (kind : FileKind) (last : Option Model) (current : Model) (name : String)
    (task : Task) : Prop where
  simple : Name.isSimple name = true
  path : ∀ owner : ModelClass, owner.name = name → (kind.path current owner).same task.path = true
  previous : task.previous = (last.bind fun old =>
    (old.class? name).map (flaggedClass old current)).toList
  current : task.current = (current.class? name).toList
  reached : task.previous ≠ [] ∨ task.current ≠ []

theorem exists_isOf (follows : Follows kind listed last current)
    (found : task ∈ all kind (flaggedModel? last current) current) :
    ∃ name, task.IsOf kind last current name := by
  have make (owner : ModelClass) (simple : Name.isSimple owner.name = true)
      (here : (kind.path current owner).same task.path = true)
      (reached : task.previous ≠ [] ∨ task.current ≠ []) :
      task.IsOf kind last current owner.name := by
    refine ⟨simple, fun other named => ?_, ?_, ?_, reached⟩
    · rwa [kind.path_congr rfl rfl named]
    · cases last with
      | none => exact previous_of_mem_all_none found
      | some old =>
        have before := follows.before old rfl
        rw [previous_of_mem_all found, kind.filter_path
          (Marking.hasSimpleNames_mark before.hasSimpleNames)
          (Marking.hasDistinctClasses_mark before.isConsistent.distinct) simple
          (follows.path_mark rfl owner ▸ here), Marking.class?_mark before.isConsistent]
        rfl
    · rw [current_of_mem_all found, kind.filter_path follows.now.hasSimpleNames
        follows.now.isConsistent.distinct simple here]
  obtain ⟨model, owner, known, inside, here⟩ := (isSound_of_mem_all found).path
  rcases known with known | rfl
  · obtain ⟨old, isLast, rfl⟩ := Option.map_eq_some_iff.mp known
    obtain rfl : last = some old := isLast
    have simple := Marking.hasSimpleNames_mark (follows.before old rfl).hasSimpleNames owner inside
    refine ⟨owner.name, make owner simple (follows.path_mark rfl owner ▸ here) (.inl ?_)⟩
    rw [previous_of_mem_all found]
    exact List.ne_nil_of_mem (List.mem_filter.mpr ⟨inside, here⟩)
  · refine ⟨owner.name, make owner (follows.now.hasSimpleNames owner inside) here (.inr ?_)⟩
    rw [current_of_mem_all found]
    exact List.ne_nil_of_mem (List.mem_filter.mpr ⟨inside, here⟩)

end Task

namespace Draft

variable {kind : FileKind} {model : Model} {owner : ModelClass} {draft : Draft} {after : Store}

theorem generate_of_ok
    (done : kind.generate Catalog.standard model owner draft.store = (after, .ok ())) :
    draft.generate kind Catalog.standard model owner = .ok { draft with store := after } := by
  rw [generate, done]

theorem purgeStale_of_ok
    (done : kind.generate Catalog.standard model owner draft.store = (after, .ok ())) :
    draft.purgeStale kind Catalog.standard model owner =
      .ok ⟨after, draft.initial, draft.existed,
        draft.purge || owner.modified || (owner.isEmpty && ! draft.existed)⟩ := by
  rw [purgeStale, generate_of_ok done]
  rfl

end Draft

namespace Task

variable {kind : FileKind} {listed : String → Prop} {last : Option Model} {current : Model}
  {task : Task} {name : String} {draft : Draft}

/-- What a run finds as the file of a class name: the file of the class in the last model, or none.
-/
def Finds (kind : FileKind) (listed : String → Prop) (last : Option Model) (name : String)
    (store : Store) : Prop :=
  store = .empty ∨
    ∃ old ∈ last, ∃ owner, old.class? name = some owner ∧ kind.Opens listed old owner store

section Passes

variable {previous model : Model} {flagged now : ModelClass} {middle after : Store}

theorem carryOut_added (nothing : task.previous = []) (alone : task.current = [now])
    (second : kind.generate Catalog.standard current now draft.store = (after, .ok ()))
    (previous : Option Model) :
    task.carryOut kind Catalog.standard previous current draft =
      .ok { draft with store := after } := by
  have purged : task.purged kind Catalog.standard previous draft = .ok draft := by
    rw [purged, nothing]
    cases previous <;> rfl
  rw [carryOut_eq, bind_of_eq_ok purged, nothing, alone, List.foldlM_cons]
  exact bind_of_eq_ok (Draft.generate_of_ok second) _

variable (once : task.previous = [flagged])
  (first : kind.generate Catalog.standard previous flagged draft.store = (middle, .ok ()))
include once first

private theorem purged_of_ok : task.purged kind Catalog.standard (some previous) draft =
    .ok ⟨middle, draft.initial, draft.existed,
      draft.purge || flagged.modified || (flagged.isEmpty && ! draft.existed)⟩ := by
  rw [purged, once, Option.elim_some, List.foldlM_cons,
    bind_of_eq_ok (Draft.purgeStale_of_ok first)]
  rfl

theorem carryOut_removed (nothing : task.current = []) :
    task.carryOut kind Catalog.standard (some previous) current draft =
      .ok ⟨Store.parse middle.render, draft.initial, draft.existed,
        draft.purge || flagged.modified || (flagged.isEmpty && ! draft.existed)⟩ := by
  rw [carryOut_eq, bind_of_eq_ok (purged_of_ok once first), once, nothing]
  rfl

theorem carryOut_kept (alone : task.current = [now])
    (second : kind.generate Catalog.standard current now (Store.parse middle.render) =
      (after, .ok ())) :
    task.carryOut kind Catalog.standard (some previous) current draft =
      .ok ⟨after, draft.initial, draft.existed,
        draft.purge || flagged.modified || (flagged.isEmpty && ! draft.existed)⟩ := by
  rw [carryOut_eq, bind_of_eq_ok (purged_of_ok once first), once, alone, List.foldlM_cons]
  exact bind_of_eq_ok (@Draft.generate_of_ok _ _ _ (Draft.reread ⟨middle, _, _, _⟩) _ second) _

end Passes

/-- Says that a draft is what has to become of the file of a class name: it reflects the class of
the name in the current model, or has to go if there is none. Without a last model no file has to
go. -/
structure Makes (kind : FileKind) (listed : String → Prop) (last : Option Model) (current : Model)
    (name : String) (draft after : Draft) : Prop where
  kept : ∀ now, current.class? name = some now →
    ∃ layout, kind.Reflects listed current now layout ∧ after.store = layout.toStore
  gone : current.class? name = none → after.isDispensable = true
  first : last = none → after.purge = draft.purge

private theorem IsOf.exists_makes_added (isOf : task.IsOf kind last current name)
    (follows : Follows kind listed last current) (finds : Finds kind listed last name draft.store)
    (was : (last.bind fun old => (old.class? name).map (flaggedClass old current)) = none) :
    ∃ after, task.carryOut kind Catalog.standard (flaggedModel? last current) current draft =
        .ok after ∧ Makes kind listed last current name draft after := by
  obtain ⟨-, -, before, now, reached⟩ := isOf
  rw [was, Option.toList_none] at before
  cases known : current.class? name with
  | none => simp [before, now, known] at reached
  | some owner =>
    rw [known, Option.toList_some] at now
    have ordinary := follows.now.isOrdinary_of_mem follows.imports (Model.name_of_class? known).1
    have absent : draft.store = .empty := by
      rcases finds with absent | ⟨old, isLast, owner, there, -⟩
      · exact absent
      · have gone := Option.bind_eq_none_iff.mp was old isLast
        rw [there] at gone
        cases gone
    have second : kind.generate Catalog.standard current owner draft.store =
        ((kind.layout current owner).toStore, .ok ()) := by
      rw [absent]
      exact FileKind.generate_empty ordinary.qualified ordinary.printable
    refine ⟨_, carryOut_added before now second _, ?_, ?_, fun _ => rfl⟩
    · rintro _ found
      obtain rfl := Option.some.inj (known.symm.trans found)
      exact ⟨_, kind.reflects_layout ordinary, rfl⟩
    · intro nothing
      rw [known] at nothing
      cases nothing

section Known

variable {old : Model} {owner : ModelClass} (isOf : task.IsOf kind (some old) current name)
  (follows : Follows kind listed (some old) current)
  (opens : kind.Opens listed old owner draft.store) (known : old.class? name = some owner)
include isOf follows opens known

private theorem IsOf.exists_makes_gone (still : current.class? name = none) :
    ∃ after, task.carryOut kind Catalog.standard (flaggedModel? (some old) current) current draft =
        .ok after ∧ Makes kind listed (some old) current name draft after := by
  obtain ⟨-, -, before, now, -⟩ := isOf
  obtain ⟨inside, named⟩ := Model.name_of_class? known
  rw [Option.bind_some, known, Option.map_some, Option.toList_some,
    Marking.flaggedClass_of_gone (named ▸ still)] at before
  rw [still, Option.toList_none] at now
  have ordinary := (follows.before old rfl).isOrdinary_of_mem (follows.imported old rfl) inside
  obtain ⟨middle, first, empty⟩ :=
    opens.exists_generate_gone ordinary (Marking.unmarked_mark old current)
  refine ⟨_, carryOut_removed before first now, ?_, fun _ => ?_, nofun⟩
  · intro now found
    rw [still] at found
    cases found
  · simp [Draft.isDispensable, empty, ModelClass.markAll]

private theorem IsOf.exists_makes_kept {same : ModelClass} (still : current.class? name = some same) :
    ∃ after, task.carryOut kind Catalog.standard (flaggedModel? (some old) current) current draft =
        .ok after ∧ Makes kind listed (some old) current name draft after := by
  obtain ⟨-, -, before, now, -⟩ := isOf
  obtain ⟨inside, named⟩ := Model.name_of_class? known
  rw [Option.bind_some, known, Option.map_some, Option.toList_some] at before
  rw [still, Option.toList_some] at now
  have ordinary := (follows.before old rfl).isOrdinary_of_mem (follows.imported old rfl) inside
  have alike := Marking.unmarked_flaggedClass old current owner
  have found : flaggedClass old current owner ∈ (Marking.mark old current).1.classes := by
    rw [Marking.classes_mark (follows.before old rfl).isConsistent]
    exact List.mem_map_of_mem inside
  obtain ⟨middle, layout, first, second, reflects⟩ := opens.exists_generate_succession found
    ((ModelClass.name_congr alike).trans named ▸ still)
    ((Marking.sameNames_mark old current).package.trans (follows.packages old rfl))
    (follows.now.isOrdinary_of_mem follows.imports (Model.name_of_class? still).1) ordinary alike
  refine ⟨_, carryOut_kept before first now second, ?_, ?_, nofun⟩
  · intro _ found
    obtain rfl := Option.some.inj (still.symm.trans found)
    exact ⟨layout, reflects, rfl⟩
  · intro nothing
    rw [still] at nothing
    cases nothing

end Known

/-- What a task makes of the file of a class name, if the last run left a file that reflects the
class of the name, or none. -/
theorem IsOf.exists_makes (isOf : task.IsOf kind last current name)
    (follows : Follows kind listed last current) (finds : Finds kind listed last name draft.store) :
    ∃ after, task.carryOut kind Catalog.standard (flaggedModel? last current) current draft =
        .ok after ∧ Makes kind listed last current name draft after := by
  cases was : last.bind fun old => (old.class? name).map (flaggedClass old current) with
  | none => exact isOf.exists_makes_added follows finds was
  | some flagged =>
    obtain ⟨old, isLast, there⟩ := Option.bind_eq_some_iff.mp was
    obtain ⟨owner, known, rfl⟩ := Option.map_eq_some_iff.mp there
    obtain rfl : last = some old := isLast
    have opens : kind.Opens listed old owner draft.store := by
      rcases finds with absent | ⟨other, isLast, same, there, opens⟩
      · exact .inl absent
      · obtain rfl := Option.some.inj isLast
        obtain rfl := Option.some.inj (known.symm.trans there)
        exact opens
    cases still : current.class? name with
    | none => exact isOf.exists_makes_gone follows opens known still
    | some now => exact isOf.exists_makes_kept follows opens known still

end Task

end ClassWeaver
