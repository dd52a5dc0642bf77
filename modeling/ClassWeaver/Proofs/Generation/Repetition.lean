import ClassWeaver.Proofs.Fragment.Refreshing
import ClassWeaver.Proofs.Generation.RoundTrip

set_option autoImplicit false

/-!
Files that are generated again. Main statement: if no declaration is mistaken for a constant, then
reading a new file of a class and generating the class into it again changes nothing.
-/

namespace ClassWeaver

namespace FileKind

open Fragment (Layout Store Upsert)

variable {kind : FileKind} {model : Model} {owner : ModelClass}

theorem remove_of_mem_elements (unflagged : owner.IsUnflagged) {element : Element}
    (inside : element ∈ owner.elements) {update : Update}
    (found : update ∈ element.updates kind model owner) : update.remove = false := by
  rw [Element.remove_of_mem_updates found]
  cases element with
  | ofAttribute property =>
    exact unflagged.attributes property (ModelClass.mem_elements_ofAttribute.mp inside)
  | ofRole name role =>
    exact unflagged.roles role
      (ModelClass.mem_roles_of_mem_namedRoles (ModelClass.mem_elements_ofRole.mp inside)).1
  | ofMethod method => exact unflagged.methods method (ModelClass.mem_elements_ofMethod.mp inside)

/-- Says of two updates in their order that the second one does not bring back what the first one
removes. -/
private def KeepsRemoved (update later : Update) : Prop :=
  update.remove = true → later.key ≠ update.key

private theorem pairwise_append {front back : List Update}
    (stay : ∀ update ∈ front, update.remove = false) (distinct : (back.map (·.key)).Nodup) :
    (front ++ back).Pairwise KeepsRemoved := by
  have kept {update : Update} (found : update ∈ front) (later : Update) :
      KeepsRemoved update later := by
    intro removed
    rw [stay update found] at removed
    cases removed
  refine List.pairwise_append.mpr ⟨List.pairwise_of_forall_mem_list fun _ found later _ =>
    kept found later, ?_, fun _ found later _ => kept found later⟩
  exact (List.pairwise_map.mp distinct).imp fun other _ same => other same.symm

private theorem pairwise_updates (kind : FileKind) (model : Model) (unflagged : owner.IsUnflagged) :
    (kind.updates model owner).Pairwise KeepsRemoved := by
  cases kind with
  | classFile =>
    rw [updates_classFile]
    refine pairwise_append (fun update found => ?_) ?_
    · rcases List.mem_append.mp found with framed | its
      · exact (stays_of_mem_frameUpdates framed).2
      · obtain ⟨element, inside, its⟩ := List.mem_flatMap.mp its
        exact remove_of_mem_elements unflagged inside its
    · change ([.attributeOf "listeners",
        ClassFile.methodWith "firePropertyChange" ["String", "Object", "Object"],
        ClassFile.plainMethod "listeners", ClassFile.plainMethod "toString",
        ClassFile.plainMethod "removeYou"] : List Fragment.Key).Nodup
      decide
  | tableFile =>
    rw [updates, TableFile.updates]
    refine pairwise_append (fun update found => ?_) ?_
    · simp only [List.mem_append, List.mem_singleton, List.mem_flatMap, List.mem_map] at found
      rcases found with ((((first | ⟨name, known, rfl⟩) | rfl) | ⟨field, -, its⟩) |
        ⟨property, inside, rfl⟩) | ⟨⟨name, role⟩, inside, its⟩
      · have framed : update ∈ tableFile.frameUpdates model owner := List.mem_append_left _ first
        exact (stays_of_mem_frameUpdates framed).2
      · rfl
      · exact unflagged.self
      · simp only [TableFile.fieldUpdates, List.mem_cons, List.not_mem_nil, or_false] at its
        rcases its with rfl | rfl | rfl <;> exact unflagged.self
      · exact unflagged.attributes property inside
      · exact @remove_of_mem_elements tableFile model _ unflagged (.ofRole name role)
          (ModelClass.mem_elements_ofRole.mpr inside) update its
    · change ([ClassFile.plainMethod "toSet", ClassFile.plainMethod "toString"] :
        List Fragment.Key).Nodup
      decide

theorem removeLast_calls (kind : FileKind) (model : Model) (unflagged : owner.IsUnflagged) :
    Upsert.RemoveLast (kind.calls model owner) :=
  List.pairwise_map.mpr (pairwise_updates kind model unflagged)

/-- A new file of a class without flags stays as it is when it is read and the class is generated into
it again, if no declaration is mistaken for a constant. -/
theorem generate_parse_layout (kind : FileKind) (qualified : Name.isQualified model.package = true)
    (printable : owner.IsPrintable model) (unflagged : owner.IsUnflagged)
    (apart : (kind.layout model owner).members.IsChain Fragment.Entry.isApart) :
    kind.generate Catalog.standard model owner
        (Store.parse (kind.layout model owner).toStore.render) =
      (Store.parse (kind.layout model owner).toStore.render, .ok ()) := by
  have reference := isReference_packageName kind qualified
  have declarable := isDeclarable_typeName kind printable.name
  have plain := @isPlain_layout kind model owner qualified printable
  have readable := @isReadable_layout kind model owner qualified printable
  have generated := @isPlain_calls kind model owner qualified printable
  have again := Layout.isPlain_reread plain readable
  have same : (kind.layout model owner).reread.upsertAll (kind.calls model owner) =
      (kind.layout model owner).reread :=
    Layout.upsertAll_reread declarable (isPlain_bareLayout kind printable) generated
      (removeLast_calls kind model unflagged) readable apart
  rw [Fragment.parse_render reference declarable plain readable, generate_standard]
  change (Store.upsertAll _ (kind.calls model owner), _) = _
  rw [Layout.toStore_upsertAll reference declarable again generated, same]

end FileKind

namespace Model

open Fragment (Store)

/-- Generating a class again changes nothing. With plain names the file that is generated for a class
of a model is read and generated into what it is read as, unless there is an attribute or a role in a
class file whose name begins like that of a constant. -/
theorem IsConsistent.generate_again {model : Model} {owner : ModelClass}
    (consistent : model.IsConsistent) (qualified : Name.isQualified model.package = true)
    (plain : ∀ owner ∈ model.classes, owner.IsPlain) (found : owner ∈ model.classes)
    (kind : FileKind) (free : kind = .classFile → ∀ element ∈ owner.elements, ∀ name,
      element.propertyName? ≠ some ("PROPERTY_" ++ name)) :
    ∃ store, kind.generate Catalog.standard model owner .empty = (store, .ok ()) ∧
      kind.generate Catalog.standard model owner (Store.parse store.render) =
        (Store.parse store.render, .ok ()) := by
  have printable := ModelClass.isPrintable_of_isConsistent consistent plain found
  exact ⟨_, FileKind.generate_empty qualified printable,
    FileKind.generate_parse_layout kind qualified printable (consistent.unflagged owner found)
      (FileKind.isChain_layout qualified printable free)⟩

end Model

end ClassWeaver
