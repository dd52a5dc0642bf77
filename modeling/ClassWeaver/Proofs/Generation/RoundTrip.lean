import ClassWeaver.Proofs.Fragment.Insertion
import ClassWeaver.Proofs.Generation.ClassFile
import ClassWeaver.Proofs.Generation.Declarations
import ClassWeaver.Proofs.Generation.TableFile

set_option autoImplicit false

/-!
Generated files that are read again. Main statements: the file of a class with plain names and no
methods declared by hand is read back under its own keys, unless an attribute stands right in front
of a declaration whose constant it is taken for; files without names of that kind are read back
whole; a member that is put into a file written by hand is found again beside what was there.
-/

namespace ClassWeaver

open Fragment (Layout Store Upsert packageChars declarationChars)

namespace FileKind

variable {kind : FileKind} {model : Model} {owner : ModelClass}

private theorem isReadable_element (printable : owner.IsPrintable model) {element : Element}
    (inside : element ∈ owner.elements) :
    ∀ update ∈ element.updates kind model owner, update.IsReadable := by
  have className := Name.isPlain_of_isPlainClass printable.name
  cases element with
  | ofAttribute property =>
    have plain := printable.attributes property (ModelClass.mem_elements_ofAttribute.mp inside)
    cases kind with
    | classFile => exact ClassFile.isReadable_attributeUpdates className plain
    | tableFile =>
      intro update found
      rw [List.mem_singleton.mp found]
      exact TableFile.isReadable_attributeUpdate className plain.name
  | ofRole name role =>
    obtain ⟨there, plain, named⟩ :=
      printable.of_mem_namedRoles (ModelClass.mem_elements_ofRole.mp inside)
    cases kind with
    | classFile =>
      intro update found
      rw [Element.updates, ClassFile.roleUpdates] at found
      split at found
      · cases found
      · next place linked =>
        have counterpart : Generation.IsQuiet
            (Text.capitalize (((model.role? place).bind (·.name)).getD "")) := by
          cases titled : (model.role? place).bind (·.name) with
          | none => exact Fragment.Source.isSilent_of_isNeutral (by decide)
          | some title =>
            exact Generation.isQuiet_capitalize
              (printable.counterpart role there place linked title titled)
        exact ClassFile.isReadable_linkedRoleUpdates className named
          (printable.partner role there place linked) counterpart plain.collection update found
    | tableFile =>
      exact TableFile.isReadable_roleUpdates className named (printable.partner role there)
  | ofMethod method =>
    rw [ModelClass.mem_elements_ofMethod, printable.methods] at inside
    cases inside

private theorem isReadable_ownUpdates (printable : owner.IsPrintable model) :
    ∀ update ∈ kind.ownUpdates owner, update.IsReadable := by
  have className := Name.isPlain_of_isPlainClass printable.name
  have roles : ∀ entry ∈ owner.namedRoles, Name.isPlain entry.1 = true := fun entry found =>
    (printable.of_mem_namedRoles found).2.2
  have partners : ∀ entry ∈ owner.namedRoles, ∀ place, entry.2.other = some place →
      Name.isPlain place.className = true := fun entry found =>
    printable.partner entry.2 (printable.of_mem_namedRoles found).1
  cases kind with
  | classFile =>
    rw [ownUpdates, List.forall_mem_append, List.forall_mem_cons, List.forall_mem_singleton]
    exact ⟨ClassFile.isReadable_listenerUpdates,
      ClassFile.isReadable_textUpdate fun property found =>
        (printable.attributes property found).name,
      ClassFile.isReadable_removeYouUpdate roles partners⟩
  | tableFile =>
    rw [ownUpdates, List.cons_append, List.forall_mem_cons, List.forall_mem_append]
    refine ⟨TableFile.isReadable_constructorUpdate className, fun update found => ?_,
      TableFile.isReadable_conversionUpdates className⟩
    obtain ⟨field, known, inside⟩ := List.mem_flatMap.mp found
    exact TableFile.isReadable_fieldUpdates className known update inside

theorem isPlain_updates (qualified : Name.isQualified model.package = true)
    (printable : owner.IsPrintable model) :
    ∀ update ∈ kind.updates model owner,
      update.IsPlain (kind.packageName model) (kind.typeName owner.name) := by
  intro update found
  rcases mem_updates.mp found with framed | ⟨element, inside, its⟩ | own
  · rw [frameUpdates_eq, List.mem_append] at framed
    rcases framed with first | imported
    · exact Update.isPlain_frame (isReference_packageName kind qualified)
        (isDeclarable_typeName kind printable.name) (isDeclarable_superclass printable) update first
    · obtain ⟨name, inside, rfl⟩ := List.mem_map.mp imported
      exact Update.isPlain_ofImport (isReference_importNames qualified printable name inside)
  · exact (isReadable_element printable inside update its).isPlain
  · exact (isReadable_ownUpdates printable update own).isPlain

def calls (kind : FileKind) (model : Model) (owner : ModelClass) : List Upsert :=
  (kind.updates model owner).map (Update.call Catalog.standard)

def declaration (kind : FileKind) (owner : ModelClass) : String :=
  String.ofList (declarationChars (kind.typeName owner.name).toList
    ((owner.superclass.map kind.typeName).map String.toList))

/-- A file with nothing but the declarations of its package and its class. -/
def bareLayout (kind : FileKind) (model : Model) (owner : ModelClass) : Layout :=
  .new (String.ofList (packageChars (kind.packageName model).toList)) (kind.declaration owner)

def layout (kind : FileKind) (model : Model) (owner : ModelClass) : Layout :=
  (kind.bareLayout model owner).upsertAll (kind.calls model owner)

theorem isPlain_calls (qualified : Name.isQualified model.package = true)
    (printable : owner.IsPrintable model) :
    ∀ call ∈ kind.calls model owner,
      call.IsPlain (kind.packageName model).toList (kind.typeName owner.name).toList := by
  intro call found
  obtain ⟨update, inside, rfl⟩ := List.mem_map.mp found
  exact (isPlain_updates qualified printable update inside).call

theorem isPlain_bareLayout (kind : FileKind) (printable : owner.IsPrintable model) :
    (kind.bareLayout model owner).IsPlain (kind.packageName model).toList
      (kind.typeName owner.name).toList := by
  refine Layout.isPlain_new fun parent found => ?_
  obtain ⟨name, inside, rfl⟩ := Option.map_eq_some_iff.mp found
  exact isDeclarable_superclass printable name inside

theorem isPlain_layout (qualified : Name.isQualified model.package = true)
    (printable : owner.IsPrintable model) :
    (kind.layout model owner).IsPlain (kind.packageName model).toList
      (kind.typeName owner.name).toList :=
  Layout.isPlain_upsertAll (isDeclarable_typeName kind printable.name)
    (isPlain_bareLayout kind printable) (isPlain_calls qualified printable)

theorem exists_calls (kind : FileKind) (printable : owner.IsPrintable model) :
    ∃ rest, kind.calls model owner =
      Layout.framing (String.ofList (packageChars (kind.packageName model).toList))
        (kind.declaration owner) ++ rest := by
  obtain ⟨rest, whole⟩ := exists_updates kind model owner
  have filled : ∀ parent ∈ owner.superclass.map kind.typeName, parent ≠ "" := by
    rintro parent found rfl
    exact (isDeclarable_superclass printable "" found).filled rfl
  exact ⟨rest.map (Update.call Catalog.standard), by
    rw [calls, whole, List.map_append, Update.map_call_frame, Update.filter_filled filled,
      declaration]⟩

theorem generate_empty (qualified : Name.isQualified model.package = true)
    (printable : owner.IsPrintable model) :
    kind.generate Catalog.standard model owner .empty =
      ((kind.layout model owner).toStore, .ok ()) := by
  obtain ⟨rest, whole⟩ := exists_calls kind printable
  have generated := @isPlain_calls kind model owner qualified printable
  have declarable := isDeclarable_typeName kind printable.name
  have bare := isPlain_bareLayout kind printable
  have framed : (kind.bareLayout model owner).upsertAll (Layout.framing
      (String.ofList (packageChars (kind.packageName model).toList)) (kind.declaration owner)) =
        kind.bareLayout model owner :=
    Layout.upsertAll_framing declarable bare rfl fun call found =>
      generated call (whole ▸ List.mem_append_left rest found)
  have later : ∀ call ∈ rest, call.IsPlain (kind.packageName model).toList
      (kind.typeName owner.name).toList := fun call found =>
    generated call (whole ▸ List.mem_append_right _ found)
  have asked : (kind.updates model owner).map (Update.call Catalog.standard) =
      kind.calls model owner := rfl
  rw [generate_standard, asked, layout, whole, Store.upsertAll_append, Layout.toStore_new,
    Layout.upsertAll_append, framed,
    ← Layout.toStore_upsertAll (isReference_packageName kind qualified) declarable bare later]
  rfl

theorem isReadable_layout (qualified : Name.isQualified model.package = true)
    (printable : owner.IsPrintable model) :
    ∀ entry ∈ (kind.layout model owner).members, entry.IsReadable := by
  refine Layout.isReadable_upsertAll (isDeclarable_typeName kind printable.name)
    (isPlain_bareLayout kind printable) (isPlain_calls qualified printable)
    (fun call found member => ?_) (fun entry found => by cases found)
  obtain ⟨update, inside, rfl⟩ := List.mem_map.mp found
  exact (isPlain_updates qualified printable update inside).reads member

theorem exists_update_of_mem_layout (qualified : Name.isQualified model.package = true)
    (printable : owner.IsPrintable model) {key : Fragment.Key}
    (found : key ∈ Fragment.Entry.keys (kind.layout model owner).members) :
    ∃ update ∈ kind.updates model owner, update.key = key := by
  rcases Layout.mem_keys_upsertAll (isDeclarable_typeName kind printable.name)
    (isPlain_bareLayout kind printable) (isPlain_calls qualified printable) found with old | called
  · cases old
  · rw [calls, List.map_map] at called
    exact List.mem_map.mp called

theorem keys_parse_layout (kind : FileKind) (qualified : Name.isQualified model.package = true)
    (printable : owner.IsPrintable model) :
    (Store.parse (kind.layout model owner).toStore.render).keys.Sublist
        (kind.layout model owner).toStore.keys ∧
      ((Store.parse (kind.layout model owner).toStore.render).keys =
          (kind.layout model owner).toStore.keys ↔
        (kind.layout model owner).members.IsChain Fragment.Entry.isApart) :=
  Layout.keys_parse_render (isReference_packageName kind qualified)
    (isDeclarable_typeName kind printable.name) (isPlain_layout qualified printable)
    (isReadable_layout qualified printable)

private theorem exists_field_of_declared {update : Update} {name : String}
    (found : update ∈ tableFile.updates model owner) (declared : update.key = .attributeOf name) :
    ∃ field ∈ TableFile.fields, field.name = name := by
  rcases mem_updates.mp found with framed | ⟨element, inside, its⟩ | own
  · have outside := isMember_of_mem_frameUpdates framed
    rw [declared] at outside
    cases outside
  · cases element with
    | ofAttribute property =>
      rw [List.mem_singleton.mp its] at declared
      cases declared
    | ofRole label role =>
      rw [Element.updates, TableFile.roleUpdates] at its
      split at its
      · cases its
      · simp only [List.mem_cons, List.not_mem_nil, or_false] at its
        rcases its with rfl | rfl <;> cases declared
    | ofMethod method => cases its
  · simp only [ownUpdates, List.cons_append, List.mem_cons, List.mem_append, List.mem_flatMap]
      at own
    rcases own with rfl | ⟨field, known, inside⟩ | inside
    · cases declared
    · simp only [TableFile.fieldUpdates, List.mem_cons, List.not_mem_nil, or_false] at inside
      rcases inside with rfl | rfl | rfl <;> cases declared
      exact ⟨field, known, rfl⟩
    · simp only [TableFile.conversionUpdates, List.mem_cons, List.not_mem_nil, or_false] at inside
      rcases inside with rfl | rfl <;> cases declared

private theorem exists_element_of_declared {update : Update} {name : String}
    (found : update ∈ classFile.updates model owner) (declared : update.key = .attributeOf name) :
    (∃ element ∈ owner.elements, element.propertyName? = some name) ∨ name = "listeners" := by
  rcases mem_updates.mp found with framed | ⟨element, inside, its⟩ | own
  · have outside := isMember_of_mem_frameUpdates framed
    rw [declared] at outside
    cases outside
  · exact .inl ⟨element, inside, (Element.filter_declared its declared).1⟩
  · refine .inr ?_
    have listed : update ∈ (classFile.ownUpdates owner).filter (·.key == .attributeOf name) :=
      List.mem_filter.mpr ⟨own, by simpa using declared⟩
    rw [filter_ownUpdates_of_declared] at listed
    split at listed
    · assumption
    · cases listed

theorem unmistaken_of_mem_updates {update : Update} (found : update ∈ kind.updates model owner)
    (free : kind = .classFile → ∀ element ∈ owner.elements, ∀ name,
      element.propertyName? ≠ some ("PROPERTY_" ++ name)) (name : String) :
    update.key ≠ .attributeOf ("PROPERTY_" ++ name) := by
  intro declared
  have begins : ("PROPERTY_" ++ name).toList.head? = some 'P' := by
    rw [String.toList_append]
    rfl
  cases kind with
  | classFile =>
    rcases exists_element_of_declared found declared with ⟨element, listed, named⟩ | other
    · exact free rfl element listed name named
    · rw [other] at begins
      exact absurd begins (by decide)
  | tableFile =>
    obtain ⟨field, known, named⟩ := exists_field_of_declared found declared
    have each : ∀ field ∈ TableFile.fields, field.name.toList.head? ≠ some 'P' := by decide
    exact each field known (named ▸ begins)

theorem isChain_layout (qualified : Name.isQualified model.package = true)
    (printable : owner.IsPrintable model)
    (free : kind = .classFile → ∀ element ∈ owner.elements, ∀ name,
      element.propertyName? ≠ some ("PROPERTY_" ++ name)) :
    (kind.layout model owner).members.IsChain Fragment.Entry.isApart := by
  refine List.Pairwise.isChain (List.pairwise_of_forall_mem_list fun first inside other _ => ?_)
  refine Bool.eq_false_iff.mpr fun mistaken => ?_
  obtain ⟨name, constant, -⟩ := Fragment.Entry.isMistaken_iff.mp mistaken
  obtain ⟨update, there, same⟩ :=
    exists_update_of_mem_layout qualified printable (List.mem_map_of_mem inside)
  exact unmistaken_of_mem_updates there free name (same.trans constant)

/-- A generated member that is new in a file written by hand stays apart from what is in the file:
the file is read again with the same fragments, gaps aside, and the member in front of the end of
the class. White space or the class declaration has to stand in front of that end, and no attribute
in front of it may be named like a constant. -/
theorem parse_new_member (qualified : Name.isQualified model.package = true)
    (printable : owner.IsPrintable model) {update : Update} (listed : update ∈ kind.updates model owner)
    (member : update.key.isMember = true) (stays : update.remove = false) {source : String}
    {before after : List Fragment} {ended : Fragment}
    (cut : (Store.parse source).find? .classEnd = some (before, ended, after))
    (closed : ∀ last ∈ before.getLast?, last.key = .gap ∨ last.key = .classDecl)
    (absent : (Store.parse source).get? update.key = none)
    (apart : ∀ last ∈ (before.filter (·.key != .gap)).getLast?, ∀ name,
      last.key ≠ .attributeOf ("PROPERTY_" ++ name)) :
    ∃ text, update.text Catalog.standard = .ok text ∧
      (Store.parse ((Store.parse source).upsert update.key text update.blank
          false).2.render).fragments.filter (·.key != .gap) =
        before.filter (·.key != .gap)
          ++ ⟨update.key, Text.trimmed text⟩ :: ended :: after.filter (·.key != .gap) := by
  obtain ⟨text, printed⟩ := exists_text listed
  have readable := (isPlain_updates qualified printable update listed).reads member
  rw [Update.call_of_text printed] at readable
  have read := Store.parse_upsert_new cut closed member stays absent readable fun last found =>
    Bool.eq_false_iff.mpr fun mistaken => by
      obtain ⟨name, constant, -⟩ := Fragment.Entry.isMistaken_iff.mp mistaken
      exact apart last found name constant
  dsimp only at read
  rw [stays] at read
  exact ⟨text, printed, read⟩

end FileKind

namespace Model

/-- Files are read back under their own keys. With plain names every file of a model is generated,
and what its text is read as has the keys of the file, unless there is an attribute or a role in a
class file whose name begins like that of a constant. -/
theorem IsConsistent.keys_parse_generate {model : Model} {owner : ModelClass}
    (consistent : model.IsConsistent) (qualified : Name.isQualified model.package = true)
    (plain : ∀ owner ∈ model.classes, owner.IsPlain) (found : owner ∈ model.classes)
    (kind : FileKind) (free : kind = .classFile → ∀ element ∈ owner.elements, ∀ name,
      element.propertyName? ≠ some ("PROPERTY_" ++ name)) :
    ∃ store, kind.generate Catalog.standard model owner .empty = (store, .ok ()) ∧
      (Store.parse store.render).keys = store.keys := by
  have printable := ModelClass.isPrintable_of_isConsistent consistent plain found
  exact ⟨_, FileKind.generate_empty qualified printable,
    (FileKind.keys_parse_layout kind qualified printable).2.mpr
      (FileKind.isChain_layout qualified printable free)⟩

end Model

end ClassWeaver
