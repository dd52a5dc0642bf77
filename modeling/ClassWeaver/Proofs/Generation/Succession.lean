import ClassWeaver.Proofs.Fragment.Succession
import ClassWeaver.Proofs.Generation.Arrangement
import ClassWeaver.Proofs.Generation.Flags
import ClassWeaver.Proofs.Generation.Repetition

set_option autoImplicit false

/-!
The file of a class from one model to the next one. A file reflects a class if it declares the class
and has the members and imports of a new file, in any order and perhaps with more imports. Main
statements: a file that reflects a class of the previous model reflects the class of the current
model with its name after the two passes of a run, and a file of a class that is gone has no members
after the first one.
-/

namespace ClassWeaver

open Fragment (Entry Key Layout Store Upsert)
open Fragment.Entry (keys)

namespace FileKind

variable {kind : FileKind} {listed : String → Prop} {model : Model} {owner : ModelClass}
  {layout : Layout}

/-- Says that no attribute or role that is declared in the file of a class has a name that begins
like that of a constant. Tables declare none of them. -/
def IsUnmistakable (kind : FileKind) (owner : ModelClass) : Prop :=
  kind = .classFile → ∀ element ∈ owner.elements, ∀ name,
    element.propertyName? ≠ some ("PROPERTY_" ++ name)

theorem IsUnmistakable.congr {a b : ModelClass} (free : kind.IsUnmistakable a)
    (alike : b.unmarked = a.unmarked) : kind.IsUnmistakable b := by
  intro isClass element inside name named
  obtain ⟨other, there, same⟩ :=
    List.mem_map.mp (ModelClass.elements_congr alike ▸ List.mem_map_of_mem inside)
  refine free isClass other there name ?_
  rw [← Element.propertyName?_unmarked, same, Element.propertyName?_unmarked, named]

theorem packageName_congr (kind : FileKind) {a b : Model} (packages : a.package = b.package) :
    kind.packageName a = kind.packageName b := by
  cases kind <;> simp only [packageName, packages]

theorem frameUpdates_congr {later : Model} {a b : ModelClass}
    (packages : later.package = model.package) (alike : a.unmarked = b.unmarked) :
    kind.frameUpdates later a = kind.frameUpdates model b := by
  have parents : a.superclass = b.superclass := (congrArg ModelClass.superclass alike :)
  rw [frameUpdates_eq, frameUpdates_eq, packageName_congr kind packages,
    importNames_congr kind packages alike, ModelClass.name_congr alike, parents]

/-- Says of a class of a model that its file is read back as it is generated, and that the file
imports only what is listed. -/
structure IsOrdinary (kind : FileKind) (listed : String → Prop) (model : Model)
    (owner : ModelClass) : Prop where
  qualified : Name.isQualified model.package = true
  printable : owner.IsPrintable model
  free : kind.IsUnmistakable owner
  imports : ∀ name ∈ kind.importNames model owner, listed name

namespace IsOrdinary

variable (ordinary : kind.IsOrdinary listed model owner)
include ordinary

theorem congr {later : Model} {other : ModelClass} (models : later.unmarked = model.unmarked)
    (alike : other.unmarked = owner.unmarked) : kind.IsOrdinary listed later other := by
  have packages : later.package = model.package := (congrArg Model.package models :)
  refine ⟨packages ▸ ordinary.qualified, ordinary.printable.congr alike models,
    ordinary.free.congr alike, ?_⟩
  rw [importNames_congr kind packages alike]
  exact ordinary.imports

theorem isReference : Fragment.IsReference (kind.packageName model).toList :=
  isReference_packageName kind ordinary.qualified

theorem isDeclarable : Fragment.IsDeclarable (kind.typeName owner.name).toList :=
  isDeclarable_typeName kind ordinary.printable.name

theorem isGenerated_calls : ∀ call ∈ kind.calls model owner,
    call.IsGenerated (kind.packageName model).toList (kind.typeName owner.name).toList := by
  intro call found
  obtain ⟨update, inside, rfl⟩ := List.mem_map.mp found
  have plain := isPlain_updates ordinary.qualified ordinary.printable update inside
  exact ⟨plain.call, plain.reads, unmistaken_of_mem_updates inside ordinary.free⟩

theorem generate_toStore
    (plain : layout.IsPlain (kind.packageName model).toList (kind.typeName owner.name).toList) :
    kind.generate Catalog.standard model owner layout.toStore =
      ((layout.upsertAll (kind.calls model owner)).toStore, .ok ()) := by
  rw [generate_standard]
  change (Store.upsertAll _ (kind.calls model owner), _) = _
  rw [Layout.toStore_upsertAll ordinary.isReference ordinary.isDeclarable plain
    fun call found => (ordinary.isGenerated_calls call found).toIsPlain]

end IsOrdinary

theorem mem_keys_calls {key : Key} (member : key.isMember = true) :
    key ∈ (kind.calls model owner).map (·.key) ↔ key ∈ kind.memberKeys model owner := by
  rw [mem_memberKeys member, calls, List.map_map, List.mem_map]
  rfl

theorem exists_frameUpdate {call : Upsert} (found : call ∈ kind.calls model owner)
    (outside : call.key.isMember = false) :
    ∃ update ∈ kind.frameUpdates model owner, update.call Catalog.standard = call := by
  obtain ⟨update, inside, rfl⟩ := List.mem_map.mp found
  rcases mem_updates.mp inside with framed | ⟨element, -, its⟩ | own
  · exact ⟨update, framed, rfl⟩
  · exact absurd (Element.isMember_of_mem_updates its) (Bool.eq_false_iff.mp outside)
  · exact absurd (isMember_of_mem_ownUpdates own) (Bool.eq_false_iff.mp outside)

theorem importOf_mem_calls {name : String} :
    .importOf name ∈ (kind.calls model owner).map (·.key) ↔ name ∈ kind.importNames model owner := by
  constructor
  · intro called
    obtain ⟨call, found, key⟩ := List.mem_map.mp called
    obtain ⟨update, framed, rfl⟩ := exists_frameUpdate found (key ▸ rfl)
    rw [frameUpdates_eq, List.mem_append] at framed
    rcases framed with first | imported
    · simp only [Update.frame, List.mem_cons, List.not_mem_nil, or_false] at first
      rcases first with rfl | rfl | rfl <;> cases key
    · obtain ⟨other, listed, rfl⟩ := List.mem_map.mp imported
      cases key
      exact listed
  · intro listed
    have framed : Update.ofImport name ∈ kind.frameUpdates model owner := by
      rw [frameUpdates_eq]
      exact List.mem_append_right _ (List.mem_map_of_mem listed)
    exact List.mem_map.mpr ⟨_, List.mem_map_of_mem (mem_updates.mpr (.inl framed)), rfl⟩

theorem declarationOfAll_calls (printable : owner.IsPrintable model) (declaration : String) :
    Upsert.declarationOfAll (kind.calls model owner) declaration = kind.declaration owner := by
  have filled : ∀ parent ∈ owner.superclass.map kind.typeName, parent ≠ "" := by
    rintro parent found rfl
    exact (isDeclarable_superclass printable "" found).filled rfl
  obtain ⟨rest, whole⟩ := exists_calls kind printable
  refine Upsert.declarationOfAll_eq ?_ (fun call found declares => ?_) declaration
  · rw [whole, List.map_append]
    exact List.mem_append_left _ (List.mem_cons_of_mem _ List.mem_cons_self)
  · obtain ⟨update, framed, rfl⟩ := exists_frameUpdate found (declares ▸ rfl)
    rw [frameUpdates_eq, List.mem_append] at framed
    rcases framed with first | imported
    · have printed : update.call Catalog.standard ∈
          (Update.frame (kind.packageName model) (kind.typeName owner.name)
            (owner.superclass.map kind.typeName)).map (Update.call Catalog.standard) :=
        List.mem_map_of_mem first
      rw [Update.map_call_frame, Update.filter_filled filled] at printed
      simp only [Layout.framing, List.mem_cons, List.not_mem_nil, or_false] at printed
      rcases printed with same | same | same <;> rw [same] at declares ⊢ <;> cases declares
      rfl
    · obtain ⟨name, -, rfl⟩ := List.mem_map.mp imported
      cases declares

/-- Says that a generated file has no members but those of a class, and imports only what is listed.
-/
structure IsWithin (kind : FileKind) (listed : String → Prop) (model : Model) (owner : ModelClass)
    (layout : Layout) : Prop where
  generated : layout.IsGenerated (kind.packageName model).toList (kind.typeName owner.name).toList
  members : ∀ key ∈ keys layout.members, key ∈ kind.memberKeys model owner
  imports : ∀ name, .importOf name ∈ keys layout.imports → listed name

theorem isWithin_bareLayout (kind : FileKind) (printable : owner.IsPrintable model) :
    kind.IsWithin listed model owner (kind.bareLayout model owner) :=
  ⟨⟨isPlain_bareLayout kind printable, nofun, fun _ => List.not_mem_nil⟩, nofun, nofun⟩

/-- Says that a file within a class declares it and has its imports, and that its members are those
of a new file. -/
structure Reflects (kind : FileKind) (listed : String → Prop) (model : Model) (owner : ModelClass)
    (layout : Layout) : Prop extends kind.IsWithin listed model owner layout where
  declared : layout.declaration = kind.declaration owner
  imported : ∀ name ∈ kind.importNames model owner, .importOf name ∈ keys layout.imports
  content : ∀ key, key.isMember = true →
    Entry.content? layout.members key = Upsert.effectOfAll (kind.calls model owner) key none

namespace IsWithin

variable (within : kind.IsWithin listed model owner layout)
include within

theorem congr {later : Model} {other : ModelClass} (packages : later.package = model.package)
    (alike : other.unmarked = owner.unmarked) : kind.IsWithin listed later other layout where
  generated := by
    rw [packageName_congr kind packages, ModelClass.name_congr alike]
    exact within.generated
  members := by
    rw [memberKeys_congr kind model later alike]
    exact within.members
  imports := within.imports

theorem reread : kind.IsWithin listed model owner layout.reread where
  generated := within.generated.reread
  members := by
    rw [within.generated.keys_reread]
    exact within.members
  imports := by
    rw [within.generated.reread_eq]
    exact within.imports

theorem parse_render (ordinary : kind.IsOrdinary listed model owner) :
    Store.parse layout.toStore.render = layout.reread.toStore :=
  Fragment.parse_render ordinary.isReference ordinary.isDeclarable within.generated.toIsPlain
    within.generated.readable

theorem isSound (ordinary : kind.IsOrdinary listed model owner) : layout.IsSound :=
  within.generated.isSound ordinary.isReference ordinary.isDeclarable

theorem listed_of_mem_keys_parse (ordinary : kind.IsOrdinary listed model owner) {name : String}
    (imported : .importOf name ∈ (Store.parse layout.toStore.render).keys) : listed name := by
  rw [within.parse_render ordinary,
    Layout.importOf_mem_keys_toStore (within.reread.isSound ordinary)] at imported
  exact within.reread.imports name imported

theorem upsertAll (ordinary : kind.IsOrdinary listed model owner) :
    kind.IsWithin listed model owner (layout.upsertAll (kind.calls model owner)) where
  generated := within.generated.upsertAll ordinary.isDeclarable ordinary.isGenerated_calls
  members := by
    intro key found
    rcases Layout.mem_keys_upsertAll ordinary.isDeclarable within.generated.toIsPlain
      (fun call inside => (ordinary.isGenerated_calls call inside).toIsPlain) found with old | called
    · exact within.members key old
    · have member := (within.generated.upsertAll ordinary.isDeclarable
        ordinary.isGenerated_calls).memberKeys key found
      exact (mem_keys_calls member).mp called
  imports := fun name found =>
    (Layout.mem_keys_imports_upsertAll.mp found).elim (within.imports name) fun called =>
      ordinary.imports name (importOf_mem_calls.mp called)

theorem content?_upsertAll (ordinary : kind.IsOrdinary listed model owner) {key : Key}
    (member : key.isMember = true) :
    Entry.content? (layout.upsertAll (kind.calls model owner)).members key =
      Upsert.effectOfAll (kind.calls model owner) key (Entry.content? layout.members key) :=
  Layout.content?_upsertAll ordinary.isDeclarable within.generated.toIsPlain
    (fun call inside => (ordinary.isGenerated_calls call inside).toIsPlain) member

theorem declaration_upsertAll (ordinary : kind.IsOrdinary listed model owner) :
    (layout.upsertAll (kind.calls model owner)).declaration = kind.declaration owner := by
  rw [Layout.declaration_upsertAll ordinary.isDeclarable within.generated.toIsPlain
    fun call inside => (ordinary.isGenerated_calls call inside).toIsPlain]
  exact declarationOfAll_calls ordinary.printable _

end IsWithin

theorem reflects_layout (ordinary : kind.IsOrdinary listed model owner) :
    kind.Reflects listed model owner (kind.layout model owner) :=
  have bare := isWithin_bareLayout kind ordinary.printable
  { bare.upsertAll ordinary with
    declared := bare.declaration_upsertAll ordinary
    imported := fun _ found =>
      Layout.mem_keys_imports_upsertAll.mpr (.inr (importOf_mem_calls.mpr found))
    content := fun _ member => bare.content?_upsertAll ordinary member }

namespace Reflects

variable (reflects : kind.Reflects listed model owner layout)
include reflects

theorem reread : kind.Reflects listed model owner layout.reread where
  toIsWithin := reflects.toIsWithin.reread
  declared := by
    rw [reflects.generated.reread_eq]
    exact reflects.declared
  imported := by
    rw [reflects.generated.reread_eq]
    exact reflects.imported
  content := fun key member =>
    (reflects.generated.content?_reread key).trans (reflects.content key member)

theorem perm {other : Layout} (alike : kind.Reflects listed model owner other) :
    (layout.members.map Entry.member).Perm (other.members.map Entry.member) := by
  refine Entry.perm_of_content? reflects.generated.distinctMembers alike.generated.distinctMembers
    fun key => ?_
  cases member : key.isMember with
  | true => rw [reflects.content key member, alike.content key member]
  | false =>
    have none {layout : Layout} (reflects : kind.Reflects listed model owner layout) :
        Entry.content? layout.members key = none := by
      rw [← Option.not_isSome_iff_eq_none, Entry.content?_isSome_iff]
      intro found
      rw [reflects.generated.memberKeys key found] at member
      cases member
    rw [none reflects, none alike]

theorem parse_agrees (ordinary : kind.IsOrdinary listed model owner) :
    (Store.parse layout.toStore.render).get? .classDecl =
        (kind.layout model owner).toStore.get? .classDecl ∧
      (Store.parse layout.toStore.render).members.Perm (kind.layout model owner).toStore.members := by
  have fresh := kind.reflects_layout ordinary
  have sound := fresh.isSound ordinary
  have again := reflects.reread.isSound ordinary
  rw [reflects.parse_render ordinary, Layout.get?_classDecl again, Layout.get?_classDecl sound,
    reflects.reread.declared, fresh.declared, Layout.members_toStore again,
    Layout.members_toStore sound]
  exact ⟨rfl, reflects.reread.perm fresh⟩

theorem members_eq_nil (ordinary : kind.IsOrdinary listed model owner)
    (empty : layout.toStore.isBodyEmpty = true) : (kind.layout model owner).members = [] := by
  rw [Layout.isBodyEmpty_toStore (reflects.isSound ordinary), List.isEmpty_iff] at empty
  have same := reflects.perm (kind.reflects_layout ordinary)
  rw [empty, List.map_nil, List.nil_perm, List.map_eq_nil_iff] at same
  exact same

theorem upsertAll_reread (ordinary : kind.IsOrdinary listed model owner)
    (unflagged : owner.IsUnflagged) :
    layout.reread.upsertAll (kind.calls model owner) = layout.reread :=
  reflects.generated.upsertAll_reread_eq_self ordinary.isDeclarable ordinary.isGenerated_calls
    (removeLast_calls kind model unflagged)
    (fun name called => reflects.imported name (importOf_mem_calls.mp called))
    ((declarationOfAll_calls ordinary.printable _).trans reflects.declared.symm) reflects.content

end Reflects

/-- What is opened as the file of a class: a file that reflects it, or none. -/
def Opens (kind : FileKind) (listed : String → Prop) (model : Model) (owner : ModelClass)
    (store : Store) : Prop :=
  store = .empty ∨
    ∃ layout, kind.Reflects listed model owner layout ∧ store = Store.parse layout.toStore.render

section Passes

variable {later : Model} {flagged : ModelClass} {store : Store} {base : Layout}

theorem Opens.exists_base (opens : kind.Opens listed model owner store)
    (ordinary : kind.IsOrdinary listed model owner) (models : later.unmarked = model.unmarked)
    (alike : flagged.unmarked = owner.unmarked) :
    ∃ base, kind.IsWithin listed later flagged base ∧
      kind.generate Catalog.standard later flagged store =
        ((base.upsertAll (kind.calls later flagged)).toStore, .ok ()) := by
  have again := ordinary.congr models alike
  rcases opens with rfl | ⟨layout, reflects, rfl⟩
  · exact ⟨kind.bareLayout later flagged, isWithin_bareLayout kind again.printable,
      generate_empty again.qualified again.printable⟩
  · have within : kind.IsWithin listed later flagged layout.reread :=
      reflects.toIsWithin.reread.congr (congrArg Model.package models :) alike
    rw [reflects.parse_render ordinary]
    exact ⟨layout.reread, within, again.generate_toStore within.generated.toIsPlain⟩

theorem IsWithin.members_upsertAll_markAll (within : kind.IsWithin listed model owner.markAll base)
    (ordinary : kind.IsOrdinary listed model owner.markAll) :
    (base.upsertAll (kind.calls model owner.markAll)).members = [] := by
  have purged := within.upsertAll ordinary
  have none : ∀ key, key ∉ keys (base.upsertAll (kind.calls model owner.markAll)).members := by
    intro key found
    have member := purged.generated.memberKeys key found
    have called := (mem_keys_calls member).mpr (purged.members key found)
    rw [← Entry.content?_isSome_iff, within.content?_upsertAll ordinary member,
      Upsert.effectOfAll_of_removes called] at found
    · cases found
    · rintro call inside rfl
      obtain ⟨update, known, rfl⟩ := List.mem_map.mp inside
      exact remove_of_markAll known member
  exact List.map_eq_nil_iff.mp (List.eq_nil_iff_forall_not_mem.mpr none)

theorem Opens.exists_generate_gone (opens : kind.Opens listed model owner store)
    (ordinary : kind.IsOrdinary listed model owner) (models : later.unmarked = model.unmarked) :
    ∃ middle, kind.generate Catalog.standard later owner.markAll store = (middle, .ok ()) ∧
      (Store.parse middle.render).isBodyEmpty = true := by
  obtain ⟨base, within, done⟩ := opens.exists_base ordinary models owner.unmarked_markAll
  have again := ordinary.congr models owner.unmarked_markAll
  have purged := within.upsertAll again
  refine ⟨_, done, ?_⟩
  rw [purged.parse_render again, Layout.isBodyEmpty_toStore
    (purged.reread.generated.isSound again.isReference again.isDeclarable),
    purged.generated.reread_eq, within.members_upsertAll_markAll again]
  rfl

section Succession

variable {previous current : Model} {now : ModelClass}
  (found : flagged ∈ (Marking.mark previous current).1.classes)
  (known : current.class? flagged.name = some now)
  (packages : (Marking.mark previous current).1.package = current.package)
  (after : kind.IsOrdinary listed current now)
include found known packages after

/-- A file within a class of the previous model, into which the class is generated with its flags
and then the class of the current model, reflects the latter. -/
theorem IsWithin.reflects_succession
    (within : kind.IsWithin listed (Marking.mark previous current).1 flagged base)
    (before : kind.IsOrdinary listed (Marking.mark previous current).1 flagged) :
    kind.Reflects listed current now
      ((base.upsertAll (kind.calls (Marking.mark previous current).1 flagged)).reread.upsertAll
        (kind.calls current now)) := by
  have purged := (within.upsertAll before).reread
  have generated := within.generated
  have purges := before.isGenerated_calls
  have again := purged.generated
  rw [packageName_congr kind packages, ← (Model.name_of_class? known).2] at generated purges again
  have each := after.isGenerated_calls
  have content : ∀ key, key.isMember = true → Entry.content?
      ((base.upsertAll (kind.calls (Marking.mark previous current).1 flagged)).reread.upsertAll
        (kind.calls current now)).members key =
          Upsert.effectOfAll (kind.calls current now) key none := by
    intro key member
    refine generated.content?_succession after.isDeclarable purges each ?_ ?_ member
    · intro call inside member absent
      obtain ⟨update, addressed, rfl⟩ := List.mem_map.mp inside
      refine ((stale_member_is_removed kind found known).2 update addressed member ?_).1
      exact fun other there same =>
        absent (List.mem_map.mpr ⟨_, List.mem_map_of_mem there, same⟩)
    · intro key there
      exact .inl ((mem_keys_calls (generated.memberKeys key there)).mpr (within.members key there))
  have whole := again.upsertAll after.isDeclarable each
  refine ⟨⟨whole, fun key there => ?_, fun name there => ?_⟩, ?_, fun name there => ?_, content⟩
  · have member := whole.memberKeys key there
    rw [← mem_keys_calls member]
    by_contra absent
    rw [← Entry.content?_isSome_iff, content key member, Upsert.effectOfAll_of_notMem absent] at there
    cases there
  · exact (Layout.mem_keys_imports_upsertAll.mp there).elim (purged.imports name) fun called =>
      after.imports name (importOf_mem_calls.mp called)
  · rw [Layout.declaration_upsertAll after.isDeclarable again.toIsPlain
      fun call inside => (each call inside).toIsPlain]
    exact declarationOfAll_calls after.printable _
  · exact Layout.mem_keys_imports_upsertAll.mpr (.inr (importOf_mem_calls.mpr there))

theorem Opens.exists_generate_succession (opens : kind.Opens listed previous owner store)
    (before : kind.IsOrdinary listed previous owner) (alike : flagged.unmarked = owner.unmarked) :
    ∃ middle layout,
      kind.generate Catalog.standard (Marking.mark previous current).1 flagged store =
        (middle, .ok ()) ∧
      kind.generate Catalog.standard current now (Store.parse middle.render) =
        (layout.toStore, .ok ()) ∧
      kind.Reflects listed current now layout := by
  have models := Marking.unmarked_mark previous current
  have again := before.congr models alike
  obtain ⟨base, within, done⟩ := opens.exists_base before models alike
  have purged := within.upsertAll again
  have plain := purged.reread.generated.toIsPlain
  rw [packageName_congr kind packages, ← (Model.name_of_class? known).2] at plain
  exact ⟨_, _, done, by rw [purged.parse_render again, after.generate_toStore plain],
    within.reflects_succession found known packages after again⟩

end Succession

end Passes

end FileKind

end ClassWeaver
