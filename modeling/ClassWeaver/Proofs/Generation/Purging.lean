import ClassWeaver.Proofs.Fragment.Clearing
import ClassWeaver.Proofs.Generation.Arrangement
import ClassWeaver.Proofs.Generation.Flags
import ClassWeaver.Proofs.Generation.RoundTrip

set_option autoImplicit false

/-!
Classes that are generated and then flagged as a whole. Main statement: generating a class once more after
everything in it was flagged takes out what generating it brought in.
-/

namespace ClassWeaver

open Fragment (Key Store Upsert isProtected)

namespace FileKind

variable {kind : FileKind} {model later : Model} {owner : ModelClass} {store : Store}

private theorem isContent_of_mem_updates {update : Update}
    (found : update ∈ kind.updates model owner) (outside : update.key.isMember = false) :
    update.key.isContent = false := by
  rcases mem_updates.mp found with framed | ⟨element, inside, its⟩ | own
  · rw [frameUpdates_eq, Update.frame, List.mem_append] at framed
    rcases framed with first | imported
    · simp only [List.mem_cons, List.not_mem_nil, or_false] at first
      rcases first with rfl | rfl | rfl <;> rfl
    · obtain ⟨name, -, rfl⟩ := List.mem_map.mp imported
      rfl
  · rw [Element.isMember_of_mem_updates its] at outside
    cases outside
  · rw [isMember_of_mem_ownUpdates own] at outside
    cases outside

/-- A class is generated into a file that has none of its members, and its texts have no mark. -/
structure IsFresh (kind : FileKind) (model : Model) (owner : ModelClass) (store : Store) : Prop where
  absent : ∀ update ∈ kind.updates model owner, update.key.isMember = true →
    store.get? update.key = none
  bare : ∀ update ∈ kind.updates model owner, update.key.isMember = true →
    ∀ text, update.text Catalog.standard = .ok text → isProtected ⟨update.key, text⟩ = false

theorem isFresh_of_isPrintable (qualified : Name.isQualified model.package = true)
    (printable : owner.IsPrintable model)
    (absent : ∀ update ∈ kind.updates model owner, update.key.isMember = true →
      store.get? update.key = none) : kind.IsFresh model owner store where
  absent := absent
  bare := by
    intro update found _ text printed
    have slashless := (isPlain_updates qualified printable update found).call.slashless
    rw [Update.call_of_text printed] at slashless
    exact Fragment.isProtected_of_slash_notMem slashless

private theorem filter_purged (fresh : kind.IsFresh model owner store) :
    ((store.upsertAll (kind.calls model owner)).upsertAll
        (kind.calls later owner.markAll)).fragments.filter (·.key.isContent) =
      store.fragments.filter (·.key.isContent) := by
  rw [← Store.upsertAll_append]
  have updated {model : Model} {owner : ModelClass} {call : Upsert}
      (found : call ∈ kind.calls model owner) :
      ∃ update ∈ kind.updates model owner, update.call Catalog.standard = call :=
    List.mem_map.mp found
  refine Store.filter_upsertAll_append rfl ?_ ?_ ?_ ?_ ?_
  · intro call found outside
    rcases List.mem_append.mp found with one | two
    · obtain ⟨update, inside, rfl⟩ := updated one
      exact isContent_of_mem_updates inside outside
    · obtain ⟨update, inside, rfl⟩ := updated two
      exact isContent_of_mem_updates inside outside
  · intro call found member
    obtain ⟨update, inside, rfl⟩ := updated found
    exact fresh.absent update inside member
  · intro call found member
    obtain ⟨update, inside, rfl⟩ := updated found
    obtain ⟨text, printed⟩ := exists_text inside
    have bare := fresh.bare update inside member text printed
    rwa [Update.call_of_text printed]
  · intro call found member
    obtain ⟨update, inside, rfl⟩ := updated found
    exact remove_of_markAll inside member
  · intro key member
    have same {model : Model} {owner : ModelClass} :
        key ∈ (kind.calls model owner).map (·.key) ↔ key ∈ kind.memberKeys model owner := by
      rw [mem_memberKeys member, calls, List.map_map]
      exact List.mem_map
    rw [same, same, memberKeys_congr kind model later owner.unmarked_markAll]

private theorem heads_generated (kind : FileKind) (model later : Model) (owner other : ModelClass) :
    (((Store.empty.upsertAll (kind.calls model owner)).upsertAll
      (kind.calls later other)).fragments.map (·.key)).filter Key.isHead = [.start, .classDecl] := by
  have sparing (model : Model) (owner : ModelClass) :
      ∀ call ∈ kind.calls model owner, call.SparesFrame := by
    intro call found
    obtain ⟨update, inside, rfl⟩ := List.mem_map.mp found
    exact sparesFrame_call Catalog.standard inside
  obtain ⟨rest, whole⟩ := exists_updates kind model owner
  have framed := sparing model owner
  rw [calls, whole, List.map_append] at framed
  refine Store.heads_upsertAll ?_ (sparing later other)
  rw [calls, whole, List.map_append, Store.upsertAll_append]
  refine Store.heads_upsertAll ?_ fun call found => framed call (List.mem_append_right _ found)
  rw [Update.map_call_frame, Fragment.Layout.framing, Store.upsertAll, Store.upsertAll,
    Store.upsertAll, Store.upsertAll, Store.map_key_upsert_of_isFrame rfl,
    Store.map_key_upsert_of_isFrame rfl, Store.map_key_upsert_of_isFrame rfl]
  rfl

/-- Purging undoes generating. A class is generated into a file that has none of its members, and then
once more after it was flagged with everything in it. Both runs succeed, and besides declarations and gaps
the file has what it had, with its texts and in its order; a new file has no body. -/
theorem generate_purged (fresh : kind.IsFresh model owner store) (later : Model) :
    ∃ first second : Store,
      kind.generate Catalog.standard model owner store = (first, .ok ()) ∧
      kind.generate Catalog.standard later owner.markAll first = (second, .ok ()) ∧
      second.fragments.filter (·.key.isContent) = store.fragments.filter (·.key.isContent) ∧
      (store = .empty → second.isBodyEmpty = true) := by
  have generated (model : Model) (owner : ModelClass) (store : Store) :
      kind.generate Catalog.standard model owner store =
        (store.upsertAll (kind.calls model owner), .ok ()) :=
    generate_standard kind model owner store
  have first := generated model owner store
  have second := generated later owner.markAll (store.upsertAll (kind.calls model owner))
  have left := @filter_purged kind model later owner store fresh
  refine ⟨_, _, first, second, left, ?_⟩
  rintro rfl
  have laidOut := Grows.isLaidOut (.again (.first first) second)
  refine Store.IsHollow.isBodyEmpty (laidOut.areHollow
    (heads_generated kind model later owner owner.markAll) fun key found content => ?_)
  obtain ⟨fragment, inside, rfl⟩ := List.mem_map.mp found
  have listed : fragment ∈ List.filter (·.key.isContent) _ := List.mem_filter.mpr ⟨inside, content⟩
  rw [left] at listed
  obtain rfl : fragment = ⟨.start, ""⟩ := List.mem_singleton.mp listed
  rfl

/-- The members of a class with a bean property come into a file that was written by hand and go again,
and of a new file nothing is left. -/
theorem generate_purged_pet :
    let zoo : Model := .ofPackage "org.zoo" "src"
    let pet : ModelClass := ⟨"Pet", none, [⟨"name", "String", none, beanStyle, false⟩], [], [], false⟩
    let store : Store := ⟨[⟨.start, "// pets\n"⟩, ⟨.classDecl, "public class Pet\n\x7b"⟩,
      ⟨.gap, "\n"⟩, ⟨.methodOf "feed()", "void feed();"⟩, ⟨.text "text:", "// the end"⟩,
      ⟨.classEnd, "\x7d"⟩]⟩
    (∃ first second : Store,
      classFile.generate Catalog.standard zoo pet store = (first, .ok ()) ∧
      classFile.generate Catalog.standard zoo pet.markAll first = (second, .ok ()) ∧
      second.fragments.filter (·.key.isContent) = [⟨.start, "// pets\n"⟩,
        ⟨.methodOf "feed()", "void feed();"⟩, ⟨.text "text:", "// the end"⟩]) ∧
    ∃ first second : Store,
      classFile.generate Catalog.standard zoo pet .empty = (first, .ok ()) ∧
      classFile.generate Catalog.standard zoo pet.markAll first = (second, .ok ()) ∧
      second.isBodyEmpty = true := by
  intro zoo pet store
  have plain : (⟨"name", "String", none, beanStyle, false⟩ : Attribute).IsPlain :=
    ⟨by decide, Name.isType_of_isPlain (by decide), by simp⟩
  have printable : pet.IsPrintable zoo :=
    { name := by decide
      superclass := by simp [pet]
      attributes := by simpa [pet] using plain
      roles := by simp [pet]
      methods := rfl
      partner := by simp [pet]
      counterpart := by simp [pet] }
  have qualified : Name.isQualified zoo.package = true := by decide
  have written : classFile.IsFresh zoo pet store :=
    isFresh_of_isPrintable qualified printable (by decide)
  have empty : classFile.IsFresh zoo pet .empty :=
    isFresh_of_isPrintable qualified printable (by decide)
  constructor
  · obtain ⟨first, second, generated, purged, same, -⟩ := generate_purged written zoo
    exact ⟨first, second, generated, purged, same⟩
  · obtain ⟨first, second, generated, purged, -, body⟩ := generate_purged empty zoo
    exact ⟨first, second, generated, purged, body rfl⟩

end FileKind

end ClassWeaver
