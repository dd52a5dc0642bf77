import ClassWeaver.Proofs.Fragment.Assembly
import ClassWeaver.Proofs.Generation.Completeness
import ClassWeaver.Proofs.Generation.Headers
import ClassWeaver.Proofs.Model.Plain
import ClassWeaver.Proofs.Model.Unchanged

set_option autoImplicit false

/-!
The declarations of generated files: their package, their class and what they import. Main statements:
with plain names in the model the texts of all of them are what a file is expected to declare.
-/

namespace ClassWeaver

open Fragment (IsDeclarable IsReference Key Store Upsert packageChars importChars declarationChars)
open TypeText (isNamePart)

theorem isReference_of_parts {name : String} (filled : name.toList ≠ [])
    (parts : ∀ c ∈ name.toList, isNamePart c = true) : IsReference name.toList where
  filled := filled
  neutral := by
    intro c found
    have part := parts c found
    rw [isNamePart, Bool.or_eq_true, beq_iff_eq] at part
    rcases part with part | rfl
    · exact Name.isNeutral_of_isPart part
    · decide
  visible := fun c found => TypeText.isBlank_of_isNamePart (parts c found)

namespace Update

/-- An update asks the store for something that belongs into the file of a class, and for a member
that is read under its key. -/
structure IsPlain (package name : String) (update : Update) : Prop where
  call : (update.call Catalog.standard).IsPlain package.toList name.toList
  reads : update.key.isMember = true → (update.call Catalog.standard).IsReadable

variable {package name : String} {superclass : Option String} {update : Update}

theorem IsReadable.isPlain (readable : update.IsReadable) : update.IsPlain package name := by
  obtain ⟨text, printed, ⟨leading, chars, shown, reads⟩, bare⟩ := readable.printed
  have member := readable.member
  have whole : text.toList = Generation.indent ++ chars := by
    rw [shown, String.toList_ofList]
  have blank : ∀ c ∈ Generation.indent, Text.isAsciiBlank c = true := by decide
  have other {key : Key} (outside : key.isMember = false) : update.key ≠ key := by
    rintro rfl
    rw [member] at outside
    cases outside
  constructor
  · rw [call_of_text printed]
    exact {
      regular := by
        have regular : (update.key.isMember && update.blank == 2) = true := by
          rw [member, readable.blank]
          rfl
        cases kind : update.key <;> simp_all [Upsert.isRegular, Key.isMember]
      slashless := by
        rw [whole, List.mem_append, not_or]
        exact ⟨by decide, reads.slash_notMem⟩
      packaged := fun same => absurd same (other rfl)
      imported := fun qualified same => absurd same (other rfl)
      declared := fun same => absurd same (other rfl)
      bare := bare }
  · intro _
    rw [call_of_text printed]
    exact ⟨_, _, leading, whole, blank, reads⟩

private theorem isPlain_of_call {text : String} (outside : update.key.isMember = false)
    (printed : update.text Catalog.standard = .ok text)
    (plain : Upsert.IsPlain package.toList name.toList
      ⟨update.key, text, update.blank, update.remove⟩) : update.IsPlain package name where
  call := by rwa [call_of_text printed]
  reads := fun member => by
    rw [member] at outside
    cases outside

theorem text_package (name : String) (blank : Nat) (remove : Bool) :
    (Update.mk .package .package (.record [("packageName", .text name)]) blank remove).text
      Catalog.standard = .ok (String.ofList (packageChars name.toList)) := by
  apply text_of_render
  rw [Template.render]
  simp [Template.Standard.template, Template.Members.package, Template.Value.shown]
  apply String.toList_inj.mp
  unfold packageChars
  simp

theorem text_ofImport (name : String) :
    (ofImport name).text Catalog.standard = .ok (String.ofList (importChars name.toList)) := by
  apply text_of_render
  rw [ofImport, Template.render]
  simp [Template.Standard.template, Template.Members.importLine, Template.Value.shown]
  apply String.toList_inj.mp
  unfold importChars
  simp

theorem text_classDecl (name : String) (superclass : Option String) (blank : Nat) (remove : Bool) :
    (Update.mk .classDecl .classDecl
      (.record [("name", .text name), ("superClass", .ofText? superclass)]) blank remove).text
        Catalog.standard =
      .ok (String.ofList (declarationChars name.toList
        ((superclass.filter (! ·.isEmpty)).map String.toList))) := by
  apply text_of_render
  rw [Template.render]
  cases superclass with
  | none =>
    simp [Template.Standard.template, Template.Members.classDecl, Template.inOrder, Template.line,
      Template.Value.shown, Template.Value.isTruthy, Template.Value.ofText?, List.lookup_cons]
    apply String.toList_inj.mp
    unfold declarationChars
    simp
  | some parent =>
    cases present : parent.isEmpty <;>
      simp [Template.Standard.template, Template.Members.classDecl, Template.inOrder, Template.line,
        Template.Value.shown, Template.Value.isTruthy, Template.Value.ofText?, List.lookup_cons,
        Option.filter, present] <;>
      (apply String.toList_inj.mp
       unfold declarationChars
       simp)

theorem text_classEnd (blank : Nat) (remove : Bool) :
    (Update.mk .classEnd .classEnd (.record []) blank remove).text Catalog.standard = .ok "\x7d" :=
  text_of_render rfl

theorem map_call_frame (package name : String) (superclass : Option String) :
    (frame package name superclass).map (call Catalog.standard) =
      Fragment.Layout.framing (String.ofList (packageChars package.toList))
        (String.ofList (declarationChars name.toList
          ((superclass.filter (! ·.isEmpty)).map String.toList))) := by
  rw [frame, List.map_cons, List.map_cons, List.map_singleton,
    call_of_text (text_package package 2 false),
    call_of_text (text_classDecl name superclass 2 false), call_of_text (text_classEnd 1 false)]
  rfl

theorem filter_filled {superclass : Option String} (filled : ∀ parent ∈ superclass, parent ≠ "") :
    superclass.filter (! ·.isEmpty) = superclass := by
  cases superclass with
  | none => rfl
  | some parent =>
    have present : parent.isEmpty = false := by simpa using filled parent rfl
    simp [Option.filter, present]

theorem isPlain_frame (reference : IsReference package.toList) (declarable : IsDeclarable name.toList)
    (above : ∀ parent ∈ superclass, IsDeclarable parent.toList) :
    ∀ update ∈ frame package name superclass, update.IsPlain package name := by
  have filled : ∀ parent ∈ superclass, parent ≠ "" := by
    rintro parent found rfl
    exact (above "" found).filled rfl
  have parents : ∀ parent ∈ superclass.map String.toList, IsDeclarable parent := by
    intro parent found
    obtain ⟨text, inside, rfl⟩ := Option.map_eq_some_iff.mp found
    exact above text inside
  have declared := text_classDecl name superclass 2 false
  rw [filter_filled filled] at declared
  rw [frame, List.forall_mem_cons, List.forall_mem_cons, List.forall_mem_singleton]
  refine ⟨isPlain_of_call rfl (text_package package 2 false) ?_, isPlain_of_call rfl declared ?_,
    isPlain_of_call rfl (text_classEnd 1 false) ?_⟩
  · exact {
      regular := rfl
      slashless := by
        rw [String.toList_ofList]
        exact Fragment.slash_notMem_package reference
      packaged := fun _ => rfl
      imported := fun _ same => by cases same
      declared := fun same => by cases same
      bare := fun _ same => by cases same }
  · exact {
      regular := rfl
      slashless := by
        rw [String.toList_ofList]
        exact Fragment.slash_notMem_declaration declarable parents
      packaged := fun same => by cases same
      imported := fun _ same => by cases same
      declared := fun _ => ⟨_, parents, rfl⟩
      bare := fun _ same => by cases same }
  · exact {
      regular := rfl
      slashless := by decide
      packaged := fun same => by cases same
      imported := fun _ same => by cases same
      declared := fun same => by cases same
      bare := fun _ same => by cases same }

theorem isPlain_ofImport {qualified : String} (reference : IsReference qualified.toList) :
    (ofImport qualified).IsPlain package name := by
  refine isPlain_of_call rfl (text_ofImport qualified) ?_
  exact {
    regular := rfl
    slashless := by
      rw [String.toList_ofList]
      exact Fragment.slash_notMem_import reference
    packaged := fun same => by cases same
    imported := by
      intro other same
      obtain rfl := Key.importOf.inj same
      exact ⟨reference, rfl⟩
    declared := fun same => by cases same
    bare := fun _ same => by cases same }

end Update

namespace FileKind

def packageName (kind : FileKind) (model : Model) : String :=
  match kind with
  | classFile => model.package
  | tableFile => model.package ++ "." ++ TableFile.folder

def typeName (kind : FileKind) (className : String) : String :=
  match kind with
  | classFile => className
  | tableFile => TableFile.tableName className

def importNames (kind : FileKind) (model : Model) (owner : ModelClass) : List String :=
  match kind with
  | classFile => ClassFile.imports owner
  | tableFile => TableFile.imports model owner

variable {kind : FileKind} {model : Model} {owner : ModelClass}

theorem frameUpdates_eq (kind : FileKind) (model : Model) (owner : ModelClass) :
    kind.frameUpdates model owner =
      Update.frame (kind.packageName model) (kind.typeName owner.name)
          (owner.superclass.map kind.typeName)
        ++ (kind.importNames model owner).map Update.ofImport := by
  cases kind with
  | classFile =>
    have same : owner.superclass.map classFile.typeName = owner.superclass := Option.map_id'
    rw [same]
    rfl
  | tableFile => rfl

theorem stays_of_mem_frameUpdates {update : Update}
    (found : update ∈ kind.frameUpdates model owner) :
    update.key.isIndexed = true ∧ update.remove = false := by
  rw [frameUpdates_eq, Update.frame] at found
  rcases List.mem_append.mp found with first | imported
  · simp only [List.mem_cons, List.not_mem_nil, or_false] at first
    rcases first with rfl | rfl | rfl <;> exact ⟨rfl, rfl⟩
  · obtain ⟨name, -, rfl⟩ := List.mem_map.mp imported
    exact ⟨rfl, rfl⟩

theorem exists_updates (kind : FileKind) (model : Model) (owner : ModelClass) :
    ∃ rest, kind.updates model owner =
      Update.frame (kind.packageName model) (kind.typeName owner.name)
        (owner.superclass.map kind.typeName) ++ rest := by
  cases kind with
  | classFile =>
    have same : owner.superclass.map classFile.typeName = owner.superclass := Option.map_id'
    rw [same]
    simp only [updates, ClassFile.updates, List.append_assoc]
    exact ⟨_, rfl⟩
  | tableFile =>
    simp only [updates, TableFile.updates, List.append_assoc]
    exact ⟨_, rfl⟩

theorem isMember_of_mem_ownUpdates {update : Update} (found : update ∈ kind.ownUpdates owner) :
    update.key.isMember = true := by
  cases kind with
  | classFile =>
    simp only [ownUpdates, ClassFile.listenerUpdates, List.mem_append, List.mem_cons,
      List.not_mem_nil, or_false] at found
    rcases found with (rfl | rfl | rfl) | rfl | rfl <;> rfl
  | tableFile =>
    simp only [ownUpdates, List.mem_append, List.mem_cons, List.mem_flatMap,
      TableFile.conversionUpdates, List.not_mem_nil, or_false] at found
    rcases found with (rfl | ⟨field, -, its⟩) | rfl | rfl
    · rfl
    · simp only [TableFile.fieldUpdates, List.mem_cons, List.not_mem_nil, or_false] at its
      rcases its with rfl | rfl | rfl <;> rfl
    · rfl
    · rfl

theorem exists_members (kind : FileKind) (model : Model) (owner : ModelClass) :
    ∃ members, kind.updates model owner = kind.frameUpdates model owner ++ members ∧
      ∀ update ∈ members, update.key.isMember = true := by
  cases kind with
  | classFile =>
    rw [updates_classFile, List.append_assoc]
    refine ⟨_, rfl, fun update found => ?_⟩
    rcases List.mem_append.mp found with elementwise | own
    · obtain ⟨element, -, its⟩ := List.mem_flatMap.mp elementwise
      exact Element.isMember_of_mem_updates its
    · exact isMember_of_mem_ownUpdates own
  | tableFile =>
    have element (element : Element) {update : Update}
        (its : update ∈ element.updates .tableFile model owner) : update.key.isMember = true :=
      Element.isMember_of_mem_updates its
    have own {update : Update} (its : update ∈ tableFile.ownUpdates owner) :
        update.key.isMember = true := isMember_of_mem_ownUpdates its
    simp only [updates, TableFile.updates, frameUpdates, List.append_assoc]
    refine ⟨_, rfl, fun update found => ?_⟩
    simp only [List.mem_append, List.mem_map, List.mem_flatMap] at found
    rcases found with first | ⟨field, inside, its⟩ | ⟨property, -, rfl⟩ | ⟨entry, -, its⟩ | last
    · exact own (List.mem_append_left _ (List.mem_cons.mpr (.inl (List.mem_singleton.mp first))))
    · exact own (List.mem_append_left _
        (List.mem_cons_of_mem _ (List.mem_flatMap.mpr ⟨field, inside, its⟩)))
    · exact element (.ofAttribute property) (List.mem_singleton_self _)
    · exact element (.ofRole entry.1 entry.2) its
    · exact own (List.mem_append_right _ last)

theorem isReference_packageName (kind : FileKind)
    (qualified : Name.isQualified model.package = true) :
    IsReference (kind.packageName model).toList := by
  have parts := TypeText.isNamePart_of_isQualified qualified
  have fixed : ∀ c ∈ ("." ++ TableFile.folder).toList, isNamePart c = true := by decide
  cases kind with
  | classFile => exact isReference_of_parts (Name.of_isQualified qualified).1 parts
  | tableFile =>
    rw [packageName, String.append_assoc]
    refine isReference_of_parts (by simp [(Name.of_isQualified qualified).1]) fun c found => ?_
    rw [String.toList_append] at found
    exact (List.mem_append.mp found).elim (parts c) (fixed c)

private theorem contains_append {text suffix word : List Char} {last : Char}
    (ends : word.getLast? = some last) (outside : last ∉ suffix)
    (absent : Text.contains text word = false) : Text.contains (text ++ suffix) word = false := by
  rw [← Bool.not_eq_true, Text.contains_iff] at absent ⊢
  rintro ⟨before, after, whole⟩
  rcases List.append_eq_append_iff.mp whole with ⟨rest, same, -⟩ | ⟨rest, same, behind⟩
  · exact absent ⟨before, rest, same.symm⟩
  · cases rest using List.reverseRecOn with
    | nil => exact absent ⟨before, [], by rw [List.append_nil, same, List.append_nil]⟩
    | append_singleton front c _ =>
      -- then the word ends within the suffix
      have final := congrArg List.getLast? same
      rw [List.getLast?_append, ends, ← List.append_assoc, List.getLast?_concat] at final
      obtain rfl : last = c := by simpa using final
      exact outside (by simp [behind])

theorem isDeclarable_typeName (kind : FileKind) {name : String}
    (plain : Name.isPlainClass name = true) :
    IsDeclarable (kind.typeName name).toList := by
  cases kind with
  | classFile => exact Name.isDeclarable_of_isPlainClass plain
  | tableFile =>
    have declarable := Name.isDeclarable_of_isPlainClass plain
    have words : ∀ c ∈ "Table".toList, Text.isWord c = true ∧ Text.isBlank c = false := by
      decide
    rw [typeName, TableFile.tableName, String.toList_append]
    exact {
      filled := by simp
      word := fun c found => (List.mem_append.mp found).elim (declarable.word c) fun back =>
        (words c back).1
      visible := fun c found => (List.mem_append.mp found).elim (declarable.visible c) fun back =>
        (words c back).2
      noClause := @contains_append _ _ _ 's' rfl (by decide) declarable.noClause }

end FileKind

namespace ModelClass

/-- A plain class of a model whose roles lead to classes and roles with plain names. -/
structure IsPrintable (model : Model) (owner : ModelClass) : Prop extends owner.IsPlain where
  partner : ∀ role ∈ owner.roles, ∀ place, role.other = some place →
    Name.isPlain place.className = true
  counterpart : ∀ role ∈ owner.roles, ∀ place, role.other = some place →
    ∀ name, (model.role? place).bind (·.name) = some name → Name.isPlain name = true

variable {model : Model} {owner : ModelClass}

theorem isPrintable_of_isConsistent (consistent : model.IsConsistent)
    (plain : ∀ owner ∈ model.classes, owner.IsPlain) (found : owner ∈ model.classes) :
    owner.IsPrintable model where
  toIsPlain := plain owner found
  partner := by
    intro role inside place linked
    obtain ⟨index, at_index⟩ := List.mem_iff_getElem?.mp inside
    obtain ⟨partner, counterpart, same, there, -⟩ :=
      consistent.exists_counterpart found at_index
    obtain rfl := Option.some.inj (linked.symm.trans same)
    obtain ⟨other, known, -⟩ := Option.bind_eq_some_iff.mp there
    obtain ⟨present, named⟩ := Model.name_of_class? known
    rw [← named]
    exact Name.isPlain_of_isPlainClass (plain other present).name
  counterpart := by
    intro role inside place linked name titled
    obtain ⟨counterpart, there, named⟩ := Option.bind_eq_some_iff.mp titled
    obtain ⟨other, known, at_index⟩ := Option.bind_eq_some_iff.mp there
    exact ((plain other (Model.name_of_class? known).1).roles counterpart
      (List.mem_of_getElem? at_index)).name name named

theorem IsPrintable.of_mem_namedRoles (printable : owner.IsPrintable model) {name : String}
    {role : Role} (found : (name, role) ∈ owner.namedRoles) :
    role ∈ owner.roles ∧ role.IsPlain ∧ Name.isPlain name = true := by
  obtain ⟨inside, named⟩ := mem_roles_of_mem_namedRoles found
  have plain := printable.roles role inside
  exact ⟨inside, plain, plain.name name named⟩

end ModelClass

namespace FileKind

variable {kind : FileKind} {model : Model} {owner : ModelClass}

theorem mem_of_mem_distinct {name : String} {names : List String}
    (found : name ∈ ClassFile.distinct names) : name ∈ names := by
  induction names with
  | nil => cases found
  | cons first rest ih =>
    rw [ClassFile.distinct] at found
    rcases List.mem_cons.mp found with rfl | later
    · exact List.mem_cons_self
    · exact List.mem_cons_of_mem _ (ih (List.mem_filter.mp later).1)

private def fixedImports : List String :=
  ["java.util.Objects", "java.util.List", "java.util.Collections",
    "java.beans.PropertyChangeSupport", "java.util.ArrayList", "java.util.LinkedHashMap",
    "java.util.LinkedHashSet"]

private theorem isReference_fixed {name : String} (known : name ∈ fixedImports) :
    IsReference name.toList := by
  have each : ∀ name ∈ fixedImports,
      name.toList ≠ [] ∧ ∀ c ∈ name.toList, isNamePart c = true := by
    decide
  exact isReference_of_parts (each name known).1 (each name known).2

private theorem isReference_collection {name : String} (dotted : Text.isDotted name = true) :
    IsReference ("java.util." ++ name).toList := by
  have fixed : ∀ c ∈ "java.util.".toList, isNamePart c = true := by decide
  refine isReference_of_parts (by simp) fun c found => ?_
  rw [String.toList_append] at found
  rcases List.mem_append.mp found with front | back
  · exact fixed c front
  · have here := List.all_eq_true.mp dotted c back
    rw [isNamePart, Name.isPart]
    simp only [Bool.or_eq_true] at here ⊢
    tauto

private theorem isReference_class {className : String}
    (qualified : Name.isQualified model.package = true) (plain : Name.isPlain className = true) :
    IsReference (model.package ++ "." ++ className).toList := by
  refine isReference_of_parts (by simp) fun c found => ?_
  rw [String.toList_append, String.toList_append, List.mem_append, List.mem_append] at found
  rcases found with (front | dot) | back
  · exact TypeText.isNamePart_of_isQualified qualified c front
  · rw [List.mem_singleton.mp dot]
    decide
  · rw [isNamePart, Generation.isPart_of_isPlain plain c back, Bool.true_or]

theorem isDeclarable_superclass (printable : owner.IsPrintable model) :
    ∀ parent ∈ owner.superclass.map kind.typeName, IsDeclarable parent.toList := by
  intro parent found
  obtain ⟨superclass, known, rfl⟩ := Option.map_eq_some_iff.mp found
  exact isDeclarable_typeName kind (printable.superclass superclass known)

theorem isReference_importNames (qualified : Name.isQualified model.package = true)
    (printable : owner.IsPrintable model) :
    ∀ name ∈ kind.importNames model owner, IsReference name.toList := by
  intro name found
  cases kind with
  | classFile =>
    have listed := mem_of_mem_distinct found
    rw [List.mem_append, List.mem_append, List.mem_flatMap] at listed
    rcases listed with (objects | ⟨entry, inside, imported⟩) | support
    · split at objects
      · cases objects
      · rw [List.mem_singleton.mp objects]
        exact isReference_fixed (by decide)
    · change name ∈ ClassFile.roleImports entry.2 at imported
      rw [ClassFile.roleImports] at imported
      split at imported
      · rcases List.mem_append.mp imported with fixed | collected
        · have lists : ∀ name ∈ ["java.util.List", "java.util.Collections"],
              name ∈ fixedImports := by
            decide
          exact isReference_fixed (lists name fixed)
        · split at collected
          · cases collected
          · rw [List.mem_singleton.mp collected]
            exact isReference_collection (printable.of_mem_namedRoles inside).2.1.collection
      · cases imported
    · split at support
      · rw [List.mem_singleton.mp support]
        exact isReference_fixed (by decide)
      · cases support
  | tableFile =>
    simp only [importNames, TableFile.imports, List.mem_append, List.mem_cons, List.not_mem_nil,
      or_false, List.mem_filterMap] at found
    rcases found with (rfl | rfl | rfl | rfl) | ⟨entry, inside, imported⟩
    · exact isReference_fixed (by decide)
    · exact isReference_fixed (by decide)
    · exact isReference_fixed (by decide)
    · exact isReference_class qualified (Name.isPlain_of_isPlainClass printable.name)
    · obtain ⟨place, linked, rfl⟩ := Option.map_eq_some_iff.mp imported
      exact isReference_class qualified
        (printable.partner entry.2 (printable.of_mem_namedRoles inside).1 place linked)

end FileKind

end ClassWeaver
