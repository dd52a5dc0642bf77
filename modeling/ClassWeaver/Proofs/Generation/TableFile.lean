import ClassWeaver.Proofs.Generation.ClassFile

set_option autoImplicit false

/-!
The members of table files. Main statement: with plain names every member that is generated for the
table of a class is read back under its key.
-/

namespace ClassWeaver.TableFile

open ClassFile (methodWith plainMethod)
open Fragment.Member (IsMemberName)
open Fragment.Source (IsSilent isSilent_of_isNeutral isSilent_parentheses)
open Generation (IsQuiet isMemberName_accessor isQuiet_of_isPlain isQuiet_capitalize isTypeText_fixed
  isTypeText_of_isPlain)
open TypeText (IsTypeText IsType)

variable {owner : ModelClass} {name : String} {role : Role}

section Names

variable (plain : Name.isPlain name = true)
include plain

theorem isPart_tableName : ∀ c ∈ (tableName name).toList, Name.isPart c = true := by
  have fixed : ∀ c ∈ "Table".toList, Name.isPart c = true := by decide
  intro c found
  rw [tableName, String.toList_append] at found
  exact (List.mem_append.mp found).elim (Generation.isPart_of_isPlain plain c) (fixed c)

omit plain in
private theorem tableName_notMem_structural (name : String) :
    tableName name ∉ TypeText.structural := by
  have each : ∀ word ∈ TypeText.structural, ¬ "Table".toList <:+ word.toList := by decide
  refine fun found => each _ found ?_
  rw [tableName, String.toList_append]
  exact List.suffix_append _ _

theorem isTypeText_tableName : IsTypeText (tableName name).toList := by
  refine TypeText.isTypeText_of_parts ?_ (fun c found => ?_) ?_
  · simp [tableName]
  · rw [TypeText.isNamePart, isPart_tableName plain c found, Bool.true_or]
  · rw [String.ofList_toList]
    exact tableName_notMem_structural name

theorem isMemberName_tableName : IsMemberName (tableName name).toList where
  filled := by simp [tableName]
  parts := isPart_tableName plain
  free := by
    rw [String.ofList_toList]
    exact fun found => tableName_notMem_structural name (List.mem_append_right _ found)

theorem isQuiet_tableName : IsQuiet (tableName name) :=
  Generation.isQuiet_of_isPart (isPart_tableName plain)

end Names

theorem isReadable_constructorUpdate (plain : Name.isPlain owner.name = true) :
    (constructorUpdate owner).IsReadable := by
  have params := Generation.isSound_paramsOf_singleton "start"
    (Generation.isTypeText_variadic plain) (by decide)
  refine Update.isReadable_constructor (isShaped_constructorUpdate (isQuiet_of_isPlain plain))
    (isMemberName_tableName plain) params rfl (Generation.printed_tableConstructor ?_) ?_
  · simp
  · simp [Generation.paramsOf]

theorem isPlain_field {field : Field} (known : field ∈ fields) :
    Name.isPlain field.name = true ∧ IsType field.type.toList ∧ IsQuiet field.initializer := by
  have object : IsType "Object".toList := .named (by decide)
  have text : IsType "String".toList := .named (by decide)
  have number : IsType "Integer".toList := .named (by decide)
  have list {item : List Char} (given : IsType item) :
      IsType ("ArrayList".toList ++ '<' :: (item ++ ['>'])) :=
    .generic (by decide) (.single (.type given))
  have map : IsType ("LinkedHashMap".toList ++ '<' ::
      (("String".toList ++ ',' :: (List.replicate 1 ' ' ++ "Integer".toList)) ++ ['>'])) :=
    .generic (by decide) (.more 1 (.type text) (.single (.type number)))
  -- a new collection is quiet although its initializer has parentheses
  have created {front : List Char} (neutral : ∀ c ∈ front, Fragment.Source.isNeutral c = true) :
      IsSilent (front ++ ['(', ')']) :=
    (isSilent_of_isNeutral neutral).append isSilent_parentheses
  rw [fields, List.mem_cons, List.mem_cons, List.mem_singleton] at known
  rcases known with rfl | rfl | rfl
  · exact ⟨by decide, by simpa using list (list object),
      by simpa [IsQuiet] using @created "new ArrayList<>".toList (by decide)⟩
  · exact ⟨by decide, text, isSilent_of_isNeutral (by decide)⟩
  · exact ⟨by decide, by simpa using map,
      by simpa [IsQuiet] using @created "new LinkedHashMap<>".toList (by decide)⟩

theorem isReadable_fieldUpdates (plain : Name.isPlain owner.name = true) {field : Field}
    (known : field ∈ fields) : ∀ update ∈ fieldUpdates owner field, update.IsReadable := by
  obtain ⟨named, typed, quiet⟩ := isPlain_field known
  have given := TypeText.isTypeText_of_isType typed
  have initialized : ∀ content ∈ some field.initializer, IsQuiet content := by
    simpa using quiet
  have shaped := isShaped_fieldUpdates (isQuiet_tableName plain) (isQuiet_of_isPlain named)
    (isQuiet_capitalize named) (Generation.isQuiet_of_isTypeText given) quiet
  rw [fieldUpdates] at shaped ⊢
  rw [List.forall_mem_cons, List.forall_mem_cons, List.forall_mem_singleton] at shaped ⊢
  obtain ⟨-, getter, setter⟩ := shaped
  refine ⟨Update.isReadable_attributeDecl named given initialized ?_ ?_ ?_,
    Update.isReadable_getter named given getter ?_ ?_,
    Update.isReadable_setter named given (.inr rfl) setter (isTypeText_tableName plain) ?_ ?_ ?_⟩
  all_goals simp [List.lookup_cons, Template.Value.ofText?]

theorem isReadable_attributeUpdate (plain : Name.isPlain owner.name = true) {property : Attribute}
    (named : Name.isPlain property.name = true) : (attributeUpdate owner property).IsReadable := by
  have params := Generation.isSound_paramsOf_singleton "rowName"
    (isTypeText_fixed (by decide : "String..." ∈ _)) (by decide)
  refine Update.isReadable_method
    (isShaped_attributeUpdate (isQuiet_of_isPlain plain) (isQuiet_capitalize named))
    (isMemberName_accessor "expand" (by decide) named) params rfl (isTypeText_tableName plain)
    (Generation.printed_tableExpandAttribute ?_ ?_) rfl
  · simp
  · simp [List.lookup_cons]

theorem isReadable_roleUpdates (plain : Name.isPlain owner.name = true)
    (named : Name.isPlain name = true)
    (partner : ∀ place, role.other = some place → Name.isPlain place.className = true) :
    ∀ update ∈ roleUpdates owner name role, update.IsReadable := by
  have shaped := isShaped_roleUpdates (isQuiet_of_isPlain plain) (isQuiet_capitalize named)
    fun place linked => isQuiet_of_isPlain (partner place linked)
  rw [roleUpdates] at shaped ⊢
  split at shaped
  · intro update found
    cases found
  · next place linked =>
    rw [List.forall_mem_cons, List.forall_mem_singleton] at shaped ⊢
    have other := partner place linked
    have columns := Generation.isSound_paramsOf_singleton "rowName"
      (isTypeText_fixed (by decide : "String..." ∈ _)) (by decide)
    have rows := Generation.isSound_paramsOf_singleton "rowName" (isTypeText_tableName other)
      (by decide)
    refine ⟨Update.isReadable_method shaped.1 (isMemberName_accessor "expand" (by decide) named)
        columns rfl (isTypeText_tableName other) (Generation.printed_tableExpandRole ?_ ?_) rfl,
      Update.isReadable_method shaped.2 (isMemberName_accessor "has" (by decide) named) rows rfl
        (isTypeText_tableName plain) (Generation.printed_tableHasRole ?_ ?_ ?_) ?_⟩
    all_goals simp [List.lookup_cons, Generation.paramsOf]

theorem isReadable_conversionUpdates (plain : Name.isPlain owner.name = true) :
    ∀ update ∈ conversionUpdates owner, update.IsReadable := by
  have shaped := isShaped_conversionUpdates (isQuiet_of_isPlain plain)
  have toSet : IsMemberName "toSet".toList := ⟨by decide, by decide, by decide⟩
  rw [conversionUpdates] at shaped ⊢
  rw [List.forall_mem_cons, List.forall_mem_singleton] at shaped ⊢
  refine ⟨Update.isReadable_plainMethod shaped.1 toSet rfl
      (Generation.isTypeText_collection "LinkedHashSet" (by decide) plain)
      (Generation.printed_tableToSet ?_),
    Update.isReadable_overriding (.inr rfl) shaped.2⟩
  simp

end ClassWeaver.TableFile
