import ClassWeaver.Proofs.Fragment.Arrangement
import ClassWeaver.Proofs.Generation.Declarations

set_option autoImplicit false

/-!
Where generation puts things. Main statement: in every store that grows from nothing by the generation of
files everything is at its place, and calls that take nothing of the frame away keep it there.
-/

namespace ClassWeaver

open Fragment (Key Store Upsert)

namespace Update

theorem applyAll_eq_upsertAll {catalog : Catalog} {updates : List Update} {store after : Store}
    (done : applyAll catalog updates store = (after, .ok ())) :
    after = store.upsertAll (updates.map (call catalog)) := by
  induction updates generalizing store with
  | nil => exact (Prod.mk.inj done).1.symm
  | cons update rest ih =>
    rw [applyAll] at done
    split at done
    · cases done
    · next text printed =>
      rw [List.map_cons, call_of_text printed]
      exact ih done

end Update

namespace FileKind

variable {kind : FileKind} {catalog : Catalog} {model : Model} {owner : ModelClass} {store : Store}

theorem sparesFrame_call (catalog : Catalog) {update : Update}
    (found : update ∈ kind.updates model owner) : (update.call catalog).SparesFrame := by
  rcases mem_updates.mp found with framed | ⟨element, inside, its⟩ | own
  · exact ⟨(stays_of_mem_frameUpdates framed).1, fun _ => (stays_of_mem_frameUpdates framed).2⟩
  · exact Upsert.sparesFrame_of_isMember (Element.isMember_of_mem_updates its)
  · exact Upsert.sparesFrame_of_isMember (isMember_of_mem_ownUpdates own)

theorem isLaidOut_generate (laidOut : store.IsLaidOut) {after : Store}
    (done : kind.generate catalog model owner store = (after, .ok ())) : after.IsLaidOut := by
  rw [Update.applyAll_eq_upsertAll done]
  refine laidOut.upsertAll fun call found => ?_
  obtain ⟨update, inside, rfl⟩ := List.mem_map.mp found
  exact sparesFrame_call catalog inside

theorem isLaidOut_generate_empty {after : Store}
    (done : kind.generate catalog model owner .empty = (after, .ok ())) : after.IsLaidOut := by
  obtain ⟨rest, whole⟩ := exists_updates kind model owner
  rw [Update.applyAll_eq_upsertAll done, whole, List.map_append, Store.upsertAll_append]
  refine Store.IsLaidOut.upsertAll (Store.isLaidOut_frame _ _ _ 2 2 1) fun call found => ?_
  obtain ⟨update, later, rfl⟩ := List.mem_map.mp found
  exact sparesFrame_call catalog (whole ▸ List.mem_append_right _ later)

/-- The stores of files that one generator made from nothing, in one run or more of them, on whatever
models and classes. -/
inductive Grows (kind : FileKind) (catalog : Catalog) : Store → Prop
  | first {model : Model} {owner : ModelClass} {store : Store}
    (done : kind.generate catalog model owner .empty = (store, .ok ())) : Grows kind catalog store
  | again {model : Model} {owner : ModelClass} {store after : Store}
    (grown : Grows kind catalog store)
    (done : kind.generate catalog model owner store = (after, .ok ())) : Grows kind catalog after

theorem Grows.isLaidOut (grown : kind.Grows catalog store) : store.IsLaidOut := by
  induction grown with
  | first done => exact isLaidOut_generate_empty done
  | again _ done laidOut => exact isLaidOut_generate laidOut done

/-- Everything stays at its place under calls that take nothing of the frame away, and it is at its place
in every store that one generator made from nothing. -/
theorem laidOut_kept_and_reached :
    (∀ (store : Store) (calls : List Upsert), store.IsLaidOut → (∀ call ∈ calls, call.SparesFrame) →
      (store.upsertAll calls).IsLaidOut) ∧
    ∀ (kind : FileKind) (catalog : Catalog) (store : Store), kind.Grows catalog store →
      store.IsLaidOut :=
  ⟨fun _ _ laidOut sparing => laidOut.upsertAll sparing, fun _ _ _ grown => grown.isLaidOut⟩

/-- An import and a method come and the import goes again, and the file of a class is made anew after the
class got a superclass. -/
theorem laidOut_of_pet :
    (Store.upsertAll
      ⟨[⟨.package, "package org.zoo;"⟩, ⟨.gap, "\n\n"⟩, ⟨.classDecl, "public class Pet\n\x7b"⟩,
        ⟨.text "text:", "// nothing yet"⟩, ⟨.classEnd, "\x7d"⟩]⟩
      [⟨.importOf "java.util.List", "import java.util.List;", 1, false⟩,
        ⟨.methodOf "feed()", "   public void feed() \x7b\x7d", 2, false⟩,
        ⟨.importOf "java.util.List", "", 1, true⟩]).IsLaidOut ∧
    ∃ first second : Store,
      classFile.generate Catalog.standard (.ofPackage "org.zoo" "src") ⟨"Pet", none, [], [], [], false⟩
        .empty = (first, .ok ()) ∧
      classFile.generate Catalog.standard (.ofPackage "org.zoo" "src")
        ⟨"Pet", some "Animal", [], [], [], true⟩ first = (second, .ok ()) ∧ second.IsLaidOut := by
  constructor
  · refine laidOut_kept_and_reached.1 _ _ ?_ ?_
    · exact @Key.AreLaidOut.framed _ [] [] [.text "text:"] [] (by simp) (by simp)
        (by simp [Key.isIndexed]) (by simp) rfl
    · simp [Upsert.SparesFrame, Key.isIndexed, Key.isFrame]
  · obtain ⟨first, done⟩ : ∃ first, classFile.generate Catalog.standard (.ofPackage "org.zoo" "src")
        ⟨"Pet", none, [], [], [], false⟩ .empty = (first, .ok ()) := ⟨_, generate_standard ..⟩
    obtain ⟨second, again⟩ : ∃ second, classFile.generate Catalog.standard
        (.ofPackage "org.zoo" "src") ⟨"Pet", some "Animal", [], [], [], true⟩ first =
          (second, .ok ()) := ⟨_, generate_standard ..⟩
    exact ⟨first, second, done, again,
      laidOut_kept_and_reached.2 .classFile Catalog.standard second (.again (.first done) again)⟩

end FileKind

end ClassWeaver
