import ClassWeaver.Proofs.Fragment.Hollow
import ClassWeaver.Proofs.Generation.Flags

set_option autoImplicit false

/-!
Generating classes that have no members left. Main statements: of such a class a new file gets no
member and is read again without any, and a file without members stays without any when the class is
generated into it.
-/

namespace ClassWeaver

open Fragment (Layout Store Upsert declarationChars importChars packageChars)

namespace ModelClass

/-- No text that is generated outside of the members of a class has an opening brace. -/
structure IsBraceless (owner : ModelClass) : Prop where
  superclass : ∀ parent ∈ owner.superclass, '\x7b' ∉ parent.toList
  collections : ∀ role ∈ owner.roles, role.name.isSome = true → role.isMany = true →
    '\x7b' ∉ role.collection.toList

theorem IsBraceless.congr {a b : ModelClass} (braceless : a.IsBraceless)
    (alike : b.unmarked = a.unmarked) : b.IsBraceless where
  superclass := by
    have same := congrArg ModelClass.superclass alike
    exact same ▸ braceless.superclass
  collections := by
    intro role found named many
    obtain ⟨other, inside, equal⟩ := exists_role_of_alike alike found
    have name : other.name = role.name :=
      (congrArg Role.name equal :)
    have cardinality : other.cardinality = role.cardinality :=
      (congrArg Role.cardinality equal :)
    have collection : other.collection = role.collection :=
      (congrArg Role.collection equal :)
    rw [← collection]
    exact braceless.collections other inside (name ▸ named) (by rwa [Role.isMany, cardinality])

end ModelClass

namespace ClassFile

variable {model : Model} {owner : ModelClass} {update : Update}

theorem remove_of_isSpent (spent : owner.IsSpent)
    (found : update ∈ FileKind.classFile.updates model owner)
    (member : update.key.isMember = true) : update.remove = true := by
  rcases FileKind.mem_updates.mp found with framed | ⟨element, inside, its⟩ | own
  · rw [FileKind.isMember_of_mem_frameUpdates framed] at member
    cases member
  · rw [Element.remove_of_mem_updates its, spent.isFlagged inside]
  · have nothing : owner.modified = true ∨ owner.attributes = [] ∧ owner.namedRoles = [] :=
      spent.self.imp_right fun empty => by
        simp only [ModelClass.isEmpty, Bool.and_eq_true, List.isEmpty_iff] at empty
        exact empty.1
    simp only [FileKind.ownUpdates, listenerUpdates, List.mem_append, List.mem_cons,
      List.not_mem_nil, or_false] at own
    rcases nothing with modified | ⟨attributes, roles⟩
    · rcases own with (rfl | rfl | rfl) | rfl | rfl <;>
        simp [Update.ofMember, textUpdate, removeYouUpdate, modified]
    · rcases own with (rfl | rfl | rfl) | rfl | rfl <;>
        simp [Update.ofMember, textUpdate, removeYouUpdate, usesListeners, attributes, roles]

theorem imports_of_isEmpty (empty : owner.isEmpty = true) : imports owner = [] := by
  simp only [ModelClass.isEmpty, Bool.and_eq_true, List.isEmpty_iff] at empty
  simp [imports, usesListeners, empty, distinct]

theorem brace_notMem_imports (braceless : owner.IsBraceless) {name : String}
    (found : name ∈ imports owner) : '\x7b' ∉ name.toList := by
  have listed := FileKind.mem_of_mem_distinct found
  rw [List.mem_append, List.mem_append, List.mem_flatMap] at listed
  rcases listed with (objects | ⟨entry, inside, imported⟩) | support
  · split at objects
    · cases objects
    · rw [List.mem_singleton.mp objects]
      decide
  · obtain ⟨there, named⟩ := ModelClass.mem_roles_of_mem_namedRoles inside
    change name ∈ roleImports entry.2 at imported
    rw [roleImports] at imported
    split at imported
    · next many =>
      have free := braceless.collections entry.2 there (by rw [named]; rfl) many
      rw [List.mem_append] at imported
      rcases imported with fixed | listed
      · exact (by decide : ∀ name ∈ ["java.util.List", "java.util.Collections"],
          '\x7b' ∉ name.toList) name fixed
      · split at listed
        · cases listed
        · rw [List.mem_singleton.mp listed, String.toList_append, List.mem_append, not_or]
          exact ⟨by decide, free⟩
    · cases imported
  · split at support
    · rw [List.mem_singleton.mp support]
      decide
    · cases support

end ClassFile

namespace FileKind

variable {model : Model} {owner : ModelClass} {store : Store}

def classText (owner : ModelClass) : String :=
  String.ofList (declarationChars owner.name.toList
    ((owner.superclass.filter (! ·.isEmpty)).map String.toList))

def importCalls (names : List String) : List Upsert :=
  names.map fun name => ⟨.importOf name, String.ofList (importChars name.toList), 1, false⟩

theorem exists_map_call (model : Model) (spent : owner.IsSpent) :
    ∃ removed, (classFile.updates model owner).map (Update.call Catalog.standard) =
        Layout.framing (String.ofList (packageChars model.package.toList)) (classText owner)
          ++ (importCalls (ClassFile.imports owner) ++ removed) ∧
      ∀ call ∈ removed, call.remove = true ∧ call.key.isMember = true := by
  obtain ⟨members, whole, inside⟩ := exists_members .classFile model owner
  rw [frameUpdates, List.append_assoc] at whole
  have imported : ((ClassFile.imports owner).map Update.ofImport).map
      (Update.call Catalog.standard) = importCalls (ClassFile.imports owner) := by
    rw [List.map_map]
    exact List.map_congr_left fun name _ => Update.call_of_text (Update.text_ofImport name)
  refine ⟨members.map (Update.call Catalog.standard), ?_, ?_⟩
  · rw [whole, List.map_append, List.map_append, Update.map_call_frame, imported, classText]
  · intro call found
    obtain ⟨update, there, rfl⟩ := List.mem_map.mp found
    refine ⟨@ClassFile.remove_of_isSpent model owner update spent ?_ (inside update there),
      inside update there⟩
    rw [whole]
    exact List.mem_append_right _ (List.mem_append_right _ there)

theorem exists_classText (braceless : owner.IsBraceless) (named : '\x7b' ∉ owner.name.toList) :
    ∃ header, (classText owner).toList = header ++ ['\x7b'] ∧ '\x7b' ∉ header := by
  have text : (classText owner).toList = declarationChars owner.name.toList
      ((owner.superclass.filter (! ·.isEmpty)).map String.toList) := String.toList_ofList
  rw [text]
  unfold declarationChars
  cases known : owner.superclass.filter (! ·.isEmpty) with
  | none =>
    refine ⟨"public class ".toList ++ owner.name.toList ++ ['\n'], by simp, ?_⟩
    simp [named]
  | some parent =>
    have free := braceless.superclass parent (Option.filter_eq_some_iff.mp known).1
    refine ⟨"public class ".toList ++ owner.name.toList ++ (" extends ".toList ++ parent.toList)
      ++ ['\n'], by simp, ?_⟩
    simp [named, free]

theorem isFresh_upsertAll_imports {declaration : String} {names : List String}
    (free : ∀ name ∈ names, '\x7b' ∉ name.toList) (fresh : store.IsFresh declaration) :
    (store.upsertAll (importCalls names)).IsFresh declaration := by
  induction names generalizing store with
  | nil => exact fresh
  | cons name rest ih =>
    obtain ⟨here, later⟩ := List.forall_mem_cons.mp free
    refine ih later (fresh.upsert_import name ?_ 1)
    rw [String.toList_ofList]
    unfold importChars
    simp [here]

theorem isHollow_reread (spent : owner.IsSpent) (braceless : owner.IsBraceless)
    (named : '\x7b' ∉ owner.name.toList) (packaged : '\x7b' ∉ model.package.toList) :
    (Store.parse (classFile.generate Catalog.standard model owner .empty).1.render).IsHollow := by
  obtain ⟨removed, whole, gone⟩ := exists_map_call model spent
  obtain ⟨header, opened, free⟩ := exists_classText braceless named
  have package : '\x7b' ∉ (String.ofList (packageChars model.package.toList)).toList := by
    rw [String.toList_ofList]
    unfold packageChars
    simp [packaged]
  have framed : (Store.empty.upsertAll (Layout.framing
      (String.ofList (packageChars model.package.toList)) (classText owner))).IsFresh
        (classText owner) := Store.isFresh_framing package
  have fresh := isFresh_upsertAll_imports
    (fun name found => ClassFile.brace_notMem_imports braceless found) framed
  rw [generate_standard, whole, Store.upsertAll_append, Store.upsertAll_append,
    fresh.isHollow.upsertAll_removed gone]
  exact fresh.isHollow_reread opened free

/-- A file without members gets none from a class that has none. -/
theorem isHollow_generate (empty : owner.isEmpty = true) (hollow : store.IsHollow) :
    (classFile.generate Catalog.standard model owner store).1.IsHollow := by
  obtain ⟨removed, whole, gone⟩ := exists_map_call model (ModelClass.isSpent_of_isEmpty empty)
  have framed := hollow.upsertAll_framing (String.ofList (packageChars model.package.toList))
    (classText owner)
  have none : importCalls (ClassFile.imports owner) = [] := by
    rw [ClassFile.imports_of_isEmpty empty, importCalls, List.map_nil]
  rw [generate_standard, whole, none, List.nil_append, Store.upsertAll_append,
    framed.upsertAll_removed gone]
  exact framed

end FileKind

end ClassWeaver
