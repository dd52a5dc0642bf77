import ClassWeaver.Proofs.Fragment.Protection
import ClassWeaver.Proofs.Regeneration.Succession

set_option autoImplicit false

/-!
Hand-written code from run to run. Main statement: a run keeps the file of a class that has hand-written
code in its body, whatever has become of the class in the model.
-/

namespace ClassWeaver

open Fragment (HasHandWritten Store Upsert)
open Marking (flaggedClass)

namespace FileKind

variable {kind : FileKind} {catalog : Catalog} {model later : Model} {owner a b : ModelClass}
  {store : Store}

/-- Says that a file has the declarations of a class, so that declaring the class once more changes
nothing. -/
def IsFramed (kind : FileKind) (catalog : Catalog) (model : Model) (owner : ModelClass)
    (store : Store) : Prop :=
  ∀ update ∈ kind.frameUpdates model owner, store.Agrees (update.call catalog)

instance : Decidable (kind.IsFramed catalog model owner store) :=
  inferInstanceAs (Decidable (∀ update ∈ kind.frameUpdates model owner, _))

theorem IsFramed.upsertAll_eq (framed : kind.IsFramed catalog model owner store) :
    store.upsertAll ((kind.frameUpdates model owner).map (Update.call catalog)) = store :=
  Store.upsertAll_eq_self (List.forall_mem_map.mpr framed)

theorem IsFramed.congr (framed : kind.IsFramed catalog model a store)
    (packages : later.package = model.package) (alike : b.unmarked = a.unmarked) :
    kind.IsFramed catalog later b store := by
  rw [IsFramed, frameUpdates_congr packages alike]
  exact framed

end FileKind

namespace Draft

variable {kind : FileKind} {catalog : Catalog} {model : Model} {owner : ModelClass}
  {draft after : Draft}

theorem eq_of_generate_eq_ok (done : draft.generate kind catalog model owner = .ok after) :
    after = { draft with
      store := draft.store.upsertAll ((kind.updates model owner).map (Update.call catalog)) } := by
  rw [generate] at done
  split at done
  · next store generated =>
    rw [← Except.ok.inj done, Update.applyAll_eq_upsertAll generated]
  · cases done

theorem exists_calls_of_foldlM {owners : List ModelClass}
    (done : owners.foldlM (generate kind catalog model) draft = .ok after) :
    after.purge = draft.purge ∧ ∃ calls, after.store = draft.store.upsertAll calls ∧
      ∀ call ∈ calls, call.SparesFrame := by
  refine foldlM_keeps (fun there => there.purge = draft.purge ∧ ∃ calls,
    there.store = draft.store.upsertAll calls ∧ ∀ call ∈ calls, call.SparesFrame) ?_ done
    ⟨rfl, [], rfl, List.forall_mem_nil _⟩
  rintro owner - first next stepped ⟨purge, calls, store, sparing⟩
  rw [eq_of_generate_eq_ok stepped]
  refine ⟨purge, calls ++ (kind.updates model owner).map (Update.call catalog), ?_, ?_⟩
  · rw [Store.upsertAll_append, ← store]
  · refine List.forall_mem_append.mpr ⟨sparing, List.forall_mem_map.mpr fun update found => ?_⟩
    exact FileKind.sparesFrame_call catalog found

theorem exists_calls_of_purgeStale (framed : kind.IsFramed catalog model owner draft.store)
    (existed : draft.existed = true)
    (done : draft.purgeStale kind catalog model owner = .ok after) :
    after.purge = (draft.purge || owner.modified) ∧ ∃ purge : List Update,
      after.store = draft.store.upsertAll (purge.map (Update.call catalog)) ∧
      ∀ update ∈ purge, update ∈ kind.updates model owner ∧ update.key.isMember = true := by
  obtain ⟨members, whole, inside⟩ := FileKind.exists_members kind model owner
  rw [purgeStale] at done
  cases generated : draft.generate kind catalog model owner with
  | error cause =>
    rw [generated] at done
    cases done
  | ok middle =>
    rw [generated] at done
    rw [← Except.ok.inj done, eq_of_generate_eq_ok generated]
    refine ⟨by simp [existed], members, ?_, fun update found => ⟨?_, inside update found⟩⟩
    · rw [whole, List.map_append, Store.upsertAll_append, framed.upsertAll_eq]
    · rw [whole]
      exact List.mem_append_right _ found

end Draft

namespace Task

variable {kind : FileKind} {catalog : Catalog} {current : Model} {task : Task} {text : String}
  {draft : Draft}

theorem isDispensable_carryOut_of_nil {previous : Option Model} (nothing : task.previous = [])
    (done : task.carryOut kind catalog previous current (.ofSource text) = .ok draft) :
    draft.isDispensable = false := by
  have purged : task.purged kind catalog previous (.ofSource text) = .ok (.ofSource text) := by
    rw [purged, nothing]
    cases previous <;> rfl
  rw [carryOut_eq, bind_of_eq_ok purged, nothing] at done
  obtain ⟨purge, -⟩ := Draft.exists_calls_of_foldlM done
  rw [Draft.isDispensable, purge]
  rfl

theorem isDispensable_carryOut_of_hasHandWritten {previous : Model} {owner : ModelClass}
    (alone : task.previous = [owner]) (spent : owner.modified = true → owner.IsSpent)
    (framed : kind.IsFramed catalog previous owner (Store.parse text))
    (written : HasHandWritten (Store.parse text).classBody)
    (done : task.carryOut kind catalog (some previous) current (.ofSource text) = .ok draft) :
    draft.isDispensable = false := by
  rw [carryOut_eq, purged, alone] at done
  obtain ⟨middle, first, second⟩ := exists_of_bind_eq_ok done
  obtain ⟨next, stepped, last⟩ := exists_of_bind_eq_ok first
  obtain rfl : next = middle := Except.ok.inj last
  obtain ⟨flag, purge, store, removed⟩ := Draft.exists_calls_of_purgeStale framed rfl stepped
  obtain ⟨same, calls, generated, sparing⟩ := Draft.exists_calls_of_foldlM second
  cases modified : owner.modified with
  | false =>
    have kept : draft.purge = false := by
      rw [same]
      change next.purge = false
      rw [flag, modified]
      rfl
    rw [Draft.isDispensable, kept, Bool.false_and]
  | true =>
    have body : draft.store.isBodyEmpty = false := by
      rw [generated]
      change ((Store.parse next.store.render).upsertAll calls).isBodyEmpty = false
      rw [store]
      refine Store.isBodyEmpty_eq_false_of_hasHandWritten written ?_ fun call found frame => ?_
      · refine List.forall_mem_map.mpr fun update found => ?_
        obtain ⟨inside, member⟩ := removed update found
        exact ⟨member, FileKind.remove_of_modified (spent modified) modified inside member⟩
      · refine (sparing call found).2 ?_
        rcases frame with same | same <;> rw [same] <;> rfl
    rw [Draft.isDispensable, body, Bool.and_false]

end Task

namespace Model

variable {old current : Model} {kind : FileKind} {catalog : Catalog} {path : FilePath} {text : String}

/-- Says that a model can be built and that a text has the declarations of its classes, as far as they
have their files at a path. -/
structure Declares (model : Model) (kind : FileKind) (catalog : Catalog) (path : FilePath)
    (text : String) : Prop where
  built : ∃ definition : ModelDefinition, definition.build = .ok model
  framed : ∀ owner ∈ model.classes, (kind.path model owner).same path = true →
    kind.IsFramed catalog model owner (Store.parse text)

theorem Declares.exists_previous {task : Task} (declares : old.Declares kind catalog path text)
    (same : task.path.same path = true)
    (found : task ∈ Task.all kind (some (Marking.mark old current).1) current) :
    task.previous = [] ∨ ∃ owner, task.previous = [owner] ∧
      (owner.modified = true → owner.IsSpent) ∧
      kind.IsFramed catalog (Marking.mark old current).1 owner (Store.parse text) := by
  obtain ⟨definition, built⟩ := declares.built
  have consistent := ModelDefinition.isConsistent_build built
  have alike := Marking.sameNames_mark old current
  have place (owner : ModelClass) :
      kind.path (Marking.mark old current).1 (flaggedClass old current owner) = kind.path old owner :=
    kind.path_congr alike.package alike.sourceFolder rfl
  have before : task.previous = (old.classes.filter fun owner =>
      (kind.path old owner).same path).map (flaggedClass old current) := by
    rw [Task.previous_of_mem_all found, Marking.classes_mark consistent, List.filter_map]
    congr 1
    refine List.filter_congr fun owner _ => ?_
    rw [Function.comp_apply, place, FilePath.same_congr same]
  cases here : old.classes.filter fun owner => (kind.path old owner).same path with
  | nil => exact .inl (by rw [before, here]; rfl)
  | cons owner rest =>
    obtain ⟨inside, there⟩ := List.mem_filter.mp (here ▸ List.mem_cons_self)
    have simple := ModelDefinition.hasSimpleNames_build built
    rw [kind.filter_path simple consistent.distinct (simple owner inside) there,
      class?_of_mem consistent.distinct inside] at before
    refine .inr ⟨flaggedClass old current owner, before, fun modified => ?_, ?_⟩
    · exact Marking.isSpent_flaggedClass consistent inside modified
    · exact (declares.framed owner inside there).congr alike.package
        (Marking.unmarked_flaggedClass old current owner)

end Model

namespace MemoryTree

variable {tree : MemoryTree} {kind : FileKind} {catalog : Catalog} {current : Model} {path : FilePath}
  {text : String} {task : Task}

section

variable (declares : ∀ old, tree.loaded kind current = some old → old.Declares kind catalog path text)
  (there : tree.find? path = some text) (written : HasHandWritten (Store.parse text).classBody)
include declares there written

/-- What the task of a file with hand-written code in its class makes of it does not have to go. -/
theorem isDispensable_result {draft : Draft} (inside : task ∈ tree.tasks kind current)
    (same : task.path.same path = true)
    (made : tree.result kind catalog current task = .ok draft) : draft.isDispensable = false := by
  obtain ⟨first, opened, done⟩ := exists_of_bind_eq_ok made
  have known : tree.find? task.path = some text := (find?_congr tree same).trans there
  obtain rfl : first = .ofSource text := by
    rw [MemoryTree.opened, holds_of_find? known, if_pos rfl] at opened
    split at opened
    · next source read =>
      obtain rfl : source = text := Option.some.inj ((find?_of_readText read).symm.trans known)
      exact (Except.ok.inj opened).symm
    · cases opened
  have whole : task ∈ Task.all kind (tree.previous kind current) current := inside
  rw [MemoryTree.previous, comparison] at done whole
  cases last : tree.loaded kind current with
  | none =>
    rw [last, Option.map_none] at whole
    exact Task.isDispensable_carryOut_of_nil (Task.previous_of_mem_all_none whole) done
  | some old =>
    rw [last, Option.map_some] at done whole
    rcases (declares old last).exists_previous same whole with
      nothing | ⟨owner, alone, spent, framed⟩
    · exact Task.isDispensable_carryOut_of_nil nothing done
    · exact Task.isDispensable_carryOut_of_hasHandWritten alone spent framed written done

/-- A run keeps a file with hand-written code in the body of its class, whatever the current model is and
whatever is denied, and does not list it as deleted. If there is a snapshot, then it has to be that of a
model that can be built, and the file must have the declarations of its class as they are generated for
that model. -/
theorem hand_written_class_stays :
    (∃ after, (tree.regenerated kind catalog current).2.find? path = some after) ∧
      ∀ other ∈ (tree.regenerated kind catalog current).1.deleted, other.same path = false := by
  have stays : ∃ after, (tree.regenerated kind catalog current).2.find? path = some after := by
    by_cases snapshot : path.same (kind.snapshotPath current) = true
    · rw [find?_congr _ snapshot, (accounts_regenerated tree kind catalog current).snapshot]
      split
      · exact ⟨_, rfl⟩
      · exact ⟨text, (find?_congr tree snapshot).symm.trans there⟩
    by_cases beside : ∀ task ∈ tree.tasks kind current, task.path.same path = false
    · exact ⟨text, (find?_regenerated_beside (Bool.eq_false_iff.mpr snapshot) beside).trans there⟩
    simp only [not_forall, Bool.not_eq_false] at beside
    obtain ⟨task, inside, same⟩ := beside
    have known : tree.find? task.path = some text := (find?_congr tree same).trans there
    rw [← find?_congr _ same, find?_regenerated inside]
    have fate := fate_settle tree task.path (tree.result kind catalog current task)
    generalize made : tree.result kind catalog current task = drafted at fate
    generalize (tree.settle task.path drafted).1 = outcome at fate
    generalize (tree.settle task.path drafted).2 = after at fate
    cases fate with
    | hindered | denied | absent | unchanged => exact ⟨text, known⟩
    | deleted dispensable =>
      rw [isDispensable_result declares there written inside same made] at dispensable
      cases dispensable
    | @written draft =>
      refine ⟨draft.store.render, ?_⟩
      rw [find?_put, FilePath.same_refl]
      rfl
  refine ⟨stays, fun other listed => Bool.eq_false_iff.mpr fun same => ?_⟩
  obtain ⟨after, left⟩ := stays
  have gone := ((accounts_regenerated tree kind catalog current).deleted other listed).2
  rw [find?_congr _ same, left] at gone
  cases gone

end

private def noteDefinition : ModelDefinition :=
  ⟨"p", Model.standardSourceFolder, none, none, [⟨"A", none, [⟨"n", "int", none, "POJO"⟩], []⟩], []⟩

private def noteModel : Model :=
  { Model.ofPackage "p" Model.standardSourceFolder with
    classes := [{ ModelClass.ofName "A" with attributes := [⟨"n", "int", none, "POJO", false⟩] }] }

private def noteText : String :=
  "package p;\n\nimport java.util.Objects;\n\npublic class A implements Cloneable\n\x7b\n"
    ++ "   private int n;\n\n   // to do\n\x7d\n"

private def noteFile : FilePath :=
  ⟨"src/main/java/p/A.java"⟩

private def noteTree : MemoryTree :=
  (empty.put noteFile noteText).put (FileKind.classFile.snapshotPath noteModel)
    (Snapshot.encode noteModel)

theorem class_with_a_note_stays :
    ∃ after, (noteTree.regenerated .classFile Catalog.standard
      (Model.ofPackage "p" Model.standardSourceFolder)).2.find? noteFile = some after := by
  have short : noteModel.HasWordIndices := by
    simp [Model.HasWordIndices, noteModel, ModelClass.ofName]
  have loaded : noteTree.loaded .classFile (Model.ofPackage "p" Model.standardSourceFolder) =
      some noteModel := loaded_put rfl short
  refine (@hand_written_class_stays _ _ Catalog.standard _ noteFile noteText ?_ (by decide +kernel)
    (by decide +kernel)).1
  rintro old last
  obtain rfl := Option.some.inj (loaded.symm.trans last)
  exact ⟨⟨noteDefinition, by decide +kernel⟩, by decide +kernel⟩

end MemoryTree

end ClassWeaver
