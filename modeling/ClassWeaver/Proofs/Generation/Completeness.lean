import ClassWeaver.Proofs.Fragment.Lookup
import ClassWeaver.Proofs.Generation.Values
import ClassWeaver.Proofs.Model.Building

set_option autoImplicit false

/-!
What a new file has of the elements of its class. Main statement: an update that shares its key with
no other one leaves its text in the file, and in a class file the declaration of a property shares
its key with nothing but the declaration of the listeners.
-/

namespace ClassWeaver

open Fragment (Key Store Upsert)

namespace Update

/-- What an update asks of the store, for one without a text with an empty one. -/
def call (catalog : Catalog) (update : Update) : Upsert :=
  ⟨update.key, (update.text catalog).toOption.getD "", update.blank, update.remove⟩

theorem call_of_text {catalog : Catalog} {update : Update} {text : String}
    (printed : update.text catalog = .ok text) :
    update.call catalog = ⟨update.key, text, update.blank, update.remove⟩ := by
  rw [call, printed]
  rfl

theorem filter_call (catalog : Catalog) (updates : List Update) (key : Key) :
    (updates.map (call catalog)).filter (·.key == key) =
      (updates.filter (·.key == key)).map (call catalog) :=
  List.filter_map

theorem applyAll_of_texts {catalog : Catalog} {updates : List Update}
    (each : ∀ update ∈ updates, ∃ text, update.text catalog = .ok text) (store : Store) :
    applyAll catalog updates store = (store.upsertAll (updates.map (call catalog)), .ok ()) := by
  induction updates generalizing store with
  | nil => rfl
  | cons update rest ih =>
    obtain ⟨text, here⟩ := each update List.mem_cons_self
    have later := fun other inside => each other (List.mem_cons_of_mem update inside)
    rw [applyAll, here, List.map_cons, call_of_text here, Store.upsertAll]
    exact ih later _

end Update

namespace FileKind

variable {kind : FileKind} {model : Model} {owner : ModelClass} {update : Update}

theorem generate_standard (kind : FileKind) (model : Model) (owner : ModelClass) (store : Store) :
    kind.generate Catalog.standard model owner store =
      (store.upsertAll ((kind.updates model owner).map (Update.call Catalog.standard)), .ok ()) :=
  Update.applyAll_of_texts (fun _ found => exists_text found) store

/-- Says that a file has no other update with the key of this one. -/
def IsSole (kind : FileKind) (model : Model) (owner : ModelClass) (update : Update) : Prop :=
  (kind.updates model owner).filter (·.key == update.key) = [update]

theorem IsSole.exists_get? (sole : kind.IsSole model owner update)
    (indexed : update.key.isIndexed = true) (stays : update.remove = false) :
    ∃ text, update.text Catalog.standard = .ok text ∧
      (kind.generate Catalog.standard model owner .empty).1.get? update.key =
        some ⟨update.key, text⟩ := by
  have inside : update ∈ kind.updates model owner :=
    (List.mem_filter.mp (sole ▸ List.mem_singleton_self update)).1
  obtain ⟨text, here⟩ := exists_text inside
  have alone : ((kind.updates model owner).map (Update.call Catalog.standard)).filter
      (·.key == update.key) = [update.call Catalog.standard] := by
    rw [Update.filter_call, sole, List.map_singleton]
  refine ⟨text, here, ?_⟩
  rw [generate_standard, Store.get?_upsertAll indexed (Store.textsAt_empty indexed) alone stays,
    Update.call_of_text here]

end FileKind

namespace Element

variable {model : Model} {owner : ModelClass} {element : Element} {name : String}

def propertyName? : Element → Option String
  | ofAttribute property => some property.name
  | ofRole name _ => some name
  | ofMethod _ => none

theorem isMember_of_mem_updates {kind : FileKind} {update : Update}
    (found : update ∈ element.updates kind model owner) : update.key.isMember = true := by
  cases element with
  | ofAttribute property =>
    cases kind <;>
      simp only [updates, ClassFile.attributeUpdates, List.mem_cons, List.not_mem_nil, or_false]
        at found
    · rcases found with rfl | rfl | rfl <;> rfl
    · rw [found]
      rfl
  | ofRole name role =>
    cases linked : role.other with
    | none =>
      cases kind <;>
        simp [updates, ClassFile.roleUpdates, TableFile.roleUpdates, linked] at found
    | some place =>
      cases kind <;>
        simp only [updates, ClassFile.roleUpdates, TableFile.roleUpdates, linked,
          ClassFile.linkedRoleUpdates] at found
      · split at found <;> simp only [List.mem_cons, List.not_mem_nil, or_false] at found
        · rcases found with rfl | rfl | rfl | rfl <;> rfl
        · rcases found with rfl | rfl | rfl <;> rfl
      · simp only [List.mem_cons, List.not_mem_nil, or_false] at found
        rcases found with rfl | rfl <;> rfl
  | ofMethod method =>
    cases kind <;> simp only [updates, List.mem_cons, List.not_mem_nil, or_false] at found
    have here : update.key = ClassFile.methodKey owner method := by
      rw [found]
      rfl
    rw [here, ClassFile.methodKey]
    split <;> rfl

def DeclareNothing (updates : List Update) : Prop :=
  ∀ update ∈ updates, ∀ name, update.key ≠ .attributeOf name

theorem exists_declaration (model : Model) (owner : ModelClass) (element : Element) :
    DeclareNothing (element.updates .classFile model owner) ∨
      ∃ name declaration accessors, element.propertyName? = some name ∧
        element.updates .classFile model owner = declaration :: accessors ∧
        declaration.key = .attributeOf name ∧ DeclareNothing accessors := by
  cases element with
  | ofAttribute property =>
    refine .inr ⟨property.name, _, _, rfl, rfl, rfl, ?_⟩
    rw [DeclareNothing, List.forall_mem_cons, List.forall_mem_singleton]
    constructor <;> intro name same <;> cases same
  | ofRole name role =>
    rw [updates, ClassFile.roleUpdates]
    split
    · exact .inl fun _ found => by cases found
    · rw [ClassFile.linkedRoleUpdates]
      split
      · refine .inr ⟨name, _, _, rfl, rfl, rfl, ?_⟩
        rw [DeclareNothing, List.forall_mem_cons, List.forall_mem_cons, List.forall_mem_singleton]
        refine ⟨?_, ?_, ?_⟩ <;> intro name same <;> cases same
      · refine .inr ⟨name, _, _, rfl, rfl, rfl, ?_⟩
        rw [DeclareNothing, List.forall_mem_cons, List.forall_mem_singleton]
        constructor <;> intro name same <;> cases same
  | ofMethod method =>
    refine .inl fun update found name same => ?_
    rw [updates, List.mem_singleton] at found
    subst found
    have here : ClassFile.methodKey owner method = .attributeOf name := same
    rw [ClassFile.methodKey] at here
    split at here <;> cases here

theorem filter_declared {update : Update}
    (found : update ∈ element.updates .classFile model owner)
    (declared : update.key = .attributeOf name) : element.propertyName? = some name ∧
      (element.updates .classFile model owner).filter (·.key == update.key) = [update] := by
  rcases exists_declaration model owner element with
    nothing | ⟨label, declaration, accessors, own, whole, first, others⟩
  · exact absurd declared (nothing update found name)
  · rw [whole] at found ⊢
    rcases List.mem_cons.mp found with rfl | accessor
    · obtain rfl := Fragment.Key.attributeOf.inj (first.symm.trans declared)
      refine ⟨own, ?_⟩
      have apart : accessors.filter (·.key == update.key) = [] :=
        List.filter_eq_nil_iff.mpr fun other inside same =>
          others other inside label ((eq_of_beq same).trans first)
      simp [apart]
    · exact absurd declared (others update accessor name)

end Element

namespace ModelClass

variable {owner : ModelClass}

theorem IsSound.nodup_propertyNames (sound : owner.IsSound) :
    (owner.elements.filterMap Element.propertyName?).Nodup := by
  have whole : owner.elements.filterMap Element.propertyName? =
      owner.attributes.map (·.name) ++ owner.namedRoles.map (·.1) := by
    simp [elements, List.filterMap_append, List.filterMap_map, Function.comp_def,
      Element.propertyName?]
  rw [whole]
  refine List.nodup_append.mpr ⟨sound.attributes, owner.nodup_namedRoles, ?_⟩
  intro name inAttributes other inRoles same
  obtain ⟨property, found, rfl⟩ := List.mem_map.mp inAttributes
  obtain ⟨⟨label, role⟩, inside, rfl⟩ := List.mem_map.mp inRoles
  obtain ⟨there, named⟩ := mem_roles_of_mem_namedRoles inside
  exact sound.apart property found role there (named.trans (congrArg some same.symm))

end ModelClass

namespace FileKind

variable {model : Model} {owner : ModelClass} {element : Element} {update : Update} {name : String}

theorem updates_classFile (model : Model) (owner : ModelClass) :
    classFile.updates model owner = classFile.frameUpdates model owner
      ++ owner.elements.flatMap (·.updates .classFile model owner)
      ++ classFile.ownUpdates owner := by
  have methods : owner.methods.map (ClassFile.methodUpdate owner) =
      owner.methods.flatMap fun method => [ClassFile.methodUpdate owner method] :=
    List.map_eq_flatMap
  simp [updates, ClassFile.updates, frameUpdates, ownUpdates, ModelClass.elements, Element.updates,
    List.flatMap_append, List.flatMap_map, methods]

theorem filter_updates_of_declared (sound : owner.IsSound) (inside : element ∈ owner.elements)
    (found : update ∈ element.updates .classFile model owner)
    (declared : update.key = .attributeOf name) :
    (classFile.updates model owner).filter (·.key == update.key) =
      update :: (classFile.ownUpdates owner).filter (·.key == update.key) := by
  obtain ⟨own, once⟩ := Element.filter_declared found declared
  have framed : (classFile.frameUpdates model owner).filter (·.key == update.key) = [] := by
    refine List.filter_eq_nil_iff.mpr fun other there same => ?_
    have outside := isMember_of_mem_frameUpdates there
    rw [eq_of_beq same, declared] at outside
    cases outside
  -- the other elements have other names
  obtain ⟨front, back, whole⟩ := List.append_of_mem inside
  have distinct := sound.nodup_propertyNames
  rw [whole, List.filterMap_append, List.filterMap_cons_some own, List.nodup_append,
    List.nodup_cons] at distinct
  have apart {other : Element} (there : other ∈ front ∨ other ∈ back) :
      (other.updates .classFile model owner).filter (·.key == update.key) = [] := by
    refine List.filter_eq_nil_iff.mpr fun again its same => ?_
    have named := (Element.filter_declared its ((eq_of_beq same).trans declared)).1
    rcases there with before | after
    · exact distinct.2.2 name (List.mem_filterMap.mpr ⟨other, before, named⟩) name
        List.mem_cons_self rfl
    · exact distinct.2.1.1 (List.mem_filterMap.mpr ⟨other, after, named⟩)
  rw [updates_classFile, List.filter_append, List.filter_append, framed, List.nil_append,
    List.filter_flatMap, whole, List.flatMap_append, List.flatMap_cons,
    List.flatMap_eq_nil_iff.mpr fun other there => apart (.inl there),
    List.flatMap_eq_nil_iff.mpr fun other there => apart (.inr there), List.nil_append,
    List.append_nil, once, List.singleton_append]

theorem filter_ownUpdates_of_declared (owner : ModelClass) (name : String) :
    (classFile.ownUpdates owner).filter (·.key == .attributeOf name) =
      if name = "listeners" then
        [.ofMember (.attributeOf "listeners") .listenersDecl (.record [])
          (owner.modified || ! ClassFile.usesListeners owner)]
      else [] := by
  by_cases same : name = "listeners"
  · simp [ownUpdates, ClassFile.listenerUpdates, ClassFile.textUpdate, ClassFile.removeYouUpdate,
      Update.ofMember, ClassFile.plainMethod, ClassFile.methodWith, Key.ofMethod, same]
  · simp [ownUpdates, ClassFile.listenerUpdates, ClassFile.textUpdate, ClassFile.removeYouUpdate,
      Update.ofMember, ClassFile.plainMethod, ClassFile.methodWith, Key.ofMethod, same,
      Ne.symm same]

theorem isSole_of_declared (sound : owner.IsSound) (inside : element ∈ owner.elements)
    (found : update ∈ element.updates .classFile model owner)
    (declared : update.key = .attributeOf name) (free : name ≠ "listeners") :
    classFile.IsSole model owner update := by
  have whole := filter_updates_of_declared sound inside found declared
  rw [declared, filter_ownUpdates_of_declared, if_neg free, ← declared] at whole
  exact whole

end FileKind

/-- A new class file is complete but for clashes of keys. Every class is generated; of an element
without a flag each member is there with its own text unless another update has its key, and the
declaration of a property is there unless it has the name of the listeners. -/
theorem ModelClass.IsSound.generate_empty {owner : ModelClass} (sound : owner.IsSound)
    (model : Model) :
    ∃ store, FileKind.classFile.generate Catalog.standard model owner .empty = (store, .ok ()) ∧
      ∀ element ∈ owner.elements, element.isFlagged = false →
        ∀ update ∈ element.updates .classFile model owner,
          (FileKind.classFile.IsSole model owner update ∨
            ∃ name, name ≠ "listeners" ∧ update.key = .attributeOf name) →
          ∃ text, update.text Catalog.standard = .ok text ∧
            store.get? update.key = some ⟨update.key, text⟩ := by
  refine ⟨_, FileKind.generate_standard .classFile model owner .empty, ?_⟩
  intro element inside bare update found reason
  have sole : FileKind.classFile.IsSole model owner update := by
    rcases reason with sole | ⟨name, free, declared⟩
    · exact sole
    · exact FileKind.isSole_of_declared sound inside found declared free
  have stays : update.remove = false := (Element.remove_of_mem_updates found).trans bare
  have member := Element.isMember_of_mem_updates found
  have there := sole.exists_get? (Key.isIndexed_of_isMember member) stays
  rwa [FileKind.generate_standard] at there

theorem ModelClass.IsSound.get?_listeners {owner : ModelClass} (sound : owner.IsSound)
    {model : Model} {element : Element} {update : Update} {text : String}
    (quiet : ClassFile.usesListeners owner = false) (inside : element ∈ owner.elements)
    (found : update ∈ element.updates .classFile model owner)
    (declared : update.key = .attributeOf "listeners")
    (printed : update.text Catalog.standard = .ok text)
    (bare : Fragment.isProtected ⟨update.key, text⟩ = false) :
    (FileKind.classFile.generate Catalog.standard model owner .empty).1.get? update.key = none := by
  have indexed : update.key.isIndexed = true := by
    rw [declared]
    rfl
  have whole := @FileKind.filter_updates_of_declared model _ _ _ _ sound inside found declared
  rw [declared, FileKind.filter_ownUpdates_of_declared, if_pos rfl, quiet, Bool.not_false,
    Bool.or_true, ← declared] at whole
  rw [FileKind.generate_standard]
  refine Store.get?_eq_none indexed ?_
  rw [Store.textsAt_upsertAll indexed, Store.textsAt_empty indexed, Update.filter_call, whole,
    List.map_cons, List.map_singleton, Update.call_of_text printed, List.foldl_cons, List.foldl_cons,
    List.foldl_nil]
  by_cases flagged : update.remove = true
  · simp [Upsert.settle, flagged, Update.call, Update.ofMember]
  · simp [Upsert.settle, flagged, Update.call, Update.ofMember, bare]

end ClassWeaver
