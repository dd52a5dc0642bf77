import ClassWeaver.Generation.ClassFile
import ClassWeaver.Proofs.Signature

set_option autoImplicit false

/-!
Keys of signatures that were read from declarations. A key joins the types of the parameters by commas,
although types have commas of their own. The types can be told from each other nevertheless, since what
is cut off from the text of a parameter leaves the brackets and the commas where they are.

Main statements: `IsRecoverable.eq_of_text_eq`, types that are nowhere cut by their own commas can be
recovered from the text of the signature, and `methodKey_eq_iff`, methods share a fragment exactly if
their signatures are the same.
-/

namespace ClassWeaver

namespace Signature

open TypeText (isLevel)

/-! ### What remains of a parameter -/

theorem depthAfter?_dropFinal (depth : Int) (text : List Char) :
    depthAfter? depth (dropFinal text) = depthAfter? depth text := by
  fun_induction dropFinal text with
  | case1 c rest blank ih =>
    have level : ∀ d ∈ "final".toList ++ [c], isLevel d = true := by
      refine List.forall_mem_append.mpr ⟨by decide, ?_⟩
      exact List.forall_mem_singleton.mpr (isLevel_of_isBlank blank)
    have front := depthAfter?_append_of_isLevel level depth rest
    rw [ih, ← depthAfter?_filter_visible, Text.filter_trimStart, depthAfter?_filter_visible]
    exact front.symm
  | case2 => rfl
  | case3 => rfl

theorem getLast?_dropFinal {text : List Char} (last : text.getLast?.all (! Text.isBlank ·) = true) :
    (dropFinal text).getLast? = text.getLast? := by
  fun_induction dropFinal text with
  | case1 c rest blank ih =>
    cases rest using List.reverseRecOn with
    | nil => simp [blank] at last
    | append_singleton front d _ =>
      have visible : Text.isBlank d = false := by simpa [List.getLast?_cons] using last
      have trimmed : Text.trimStart (front ++ [d]) = Text.trimStart front ++ [d] :=
        Text.trimStart_append_cons visible front []
      rw [ih (by simp [trimmed, visible]), trimmed]
      simp [List.getLast?_cons]
  | case2 => rfl
  | case3 => rfl

theorem withoutBlanks_ne_empty {text : List Char} (some : text ≠ [])
    (last : text.getLast?.all (! Text.isBlank ·) = true) : withoutBlanks text ≠ "" := by
  intro none
  have empty := congrArg String.toList none
  rw [withoutBlanks, String.toList_ofList, String.toList_empty, List.filter_eq_nil_iff] at empty
  cases text using List.reverseRecOn with
  | nil => exact some rfl
  | append_singleton front c _ =>
    have visible : (! Text.isBlank c) = true := by simpa using last
    exact empty c (by simp) visible

section Parameter

variable {param : List Char}

theorem depthAfter?_paramTypeChars (unmarked : '@' ∉ param) :
    depthAfter? 0 (paramTypeChars param).toList = depthAfter? 0 param := by
  have bare : depthAfter? 0 (dropFinal (Text.trim param)) = depthAfter? 0 param := by
    rw [depthAfter?_dropFinal, depthAfter?_trim]
  have named : ∀ c ∈ Text.takeWhileEnd Name.isPart (dropFinal (Text.trim param)), isLevel c = true := by
    intro c found
    rw [Text.takeWhileEnd, List.mem_reverse] at found
    exact isLevel_of_isPart (List.mem_takeWhile_imp found)
  have type : depthAfter? 0 (Text.dropWhileEnd Name.isPart (dropFinal (Text.trim param))) =
      depthAfter? 0 param := by
    rw [← depthAfter?_append_level _ named, Text.dropWhileEnd_append_takeWhileEnd, bare]
  rw [paramTypeChars, Annotations.replaceAll_of_notMem unmarked]
  split
  · rw [withoutBlanks, String.toList_ofList, depthAfter?_filter_visible, bare]
  · rw [withoutBlanks, String.toList_ofList, depthAfter?_filter_visible, depthAfter?_trim, type]

theorem paramTypeChars_ne_empty (unmarked : '@' ∉ param)
    (visible : param.any (! Text.isBlank ·) = true) : paramTypeChars param ≠ "" := by
  have last := Text.getLast?_trim param
  have same := getLast?_dropFinal last
  rw [paramTypeChars, Annotations.replaceAll_of_notMem unmarked]
  split
  · refine withoutBlanks_ne_empty (fun none => ?_) (same ▸ last)
    rw [none, List.getLast?_nil, eq_comm, List.getLast?_eq_none_iff] at same
    exact Text.trim_ne_nil visible same
  · next filled => exact withoutBlanks_ne_empty (by simpa using filled) (Text.getLast?_trim _)

end Parameter

/-! ### Signatures and their texts -/

/-- Says that the name and the types of a signature can be recovered from its text. -/
structure IsRecoverable (signature : Signature) : Prop where
  name : '(' ∉ signature.name.toList
  filled : ∀ type ∈ signature.paramTypes, type ≠ ""
  cut : IsCut (signature.paramTypes.map String.toList)

theorem toList_text (signature : Signature) :
    signature.text.toList = signature.name.toList
      ++ '(' :: ([','].intercalate (signature.paramTypes.map String.toList) ++ [')']) := by
  simp [text]

private theorem eq_of_append_cons_eq {c : Char} {a b rest behind : List Char} (first : c ∉ a)
    (second : c ∉ b) (same : a ++ c :: rest = b ++ c :: behind) : a = b ∧ rest = behind := by
  have front {text : List Char} (absent : c ∉ text) (more : List Char) :
      (text ++ c :: more).takeWhile (· != c) = text := by
    have other : ∀ d ∈ text, (d != c) = true := by
      intro d found
      rw [bne_iff_ne]
      rintro rfl
      exact absent found
    rw [List.takeWhile_append_of_pos other, List.takeWhile_cons_of_neg (by simp), List.append_nil]
  have alike : a = b := by rw [← front first rest, same, front second]
  subst alike
  exact ⟨rfl, (List.cons.inj (List.append_cancel_left same)).2⟩

private theorem eq_of_intercalate_eq {types others : List (List Char)} (cut : IsCut types)
    (cut' : IsCut others) (filled : ∀ type ∈ types, type ≠ []) (filled' : ∀ type ∈ others, type ≠ [])
    (same : [','].intercalate types = [','].intercalate others) : types = others := by
  have nonempty {types : List (List Char)} (some : types ≠ []) (filled : ∀ type ∈ types, type ≠ []) :
      [','].intercalate types ≠ [] := by
    cases types with
    | nil => exact absurd rfl some
    | cons first rest =>
      have here := filled first List.mem_cons_self
      cases rest with
      | nil => simpa using here
      | cons second rest => simp [List.intercalate_cons_cons]
  by_cases none : types = []
  · subst none
    by_contra apart
    exact nonempty (Ne.symm apart) filled' same.symm
  · have some : others ≠ [] := by
      rintro rfl
      exact nonempty none filled same
    rw [← splitCommas_intercalate none cut, same, splitCommas_intercalate some cut']

theorem IsRecoverable.eq_of_text_eq {s t : Signature} (first : s.IsRecoverable)
    (second : t.IsRecoverable) (same : s.text = t.text) : s = t := by
  have whole := congrArg String.toList same
  rw [toList_text, toList_text] at whole
  obtain ⟨name, params⟩ := eq_of_append_cons_eq first.name second.name whole
  have types := eq_of_intercalate_eq first.cut second.cut (by simpa using first.filled)
    (by simpa using second.filled) (List.append_cancel_right params)
  obtain ⟨sName, sTypes⟩ := s
  obtain ⟨tName, tTypes⟩ := t
  rw [mk.injEq]
  exact ⟨String.toList_inj.mp name,
    (List.map_injective_iff.mpr fun _ _ => String.toList_inj.mp) types⟩

/-! ### Signatures of declarations -/

/-- The texts of the parameters of a declaration, without the white space around them. -/
def parameters? (declaration : List Char) : Option (List (List Char)) :=
  match declaration.dropWhile (· != '(') with
  | [] => none
  | _ :: rest => (untilClosed? 0 rest).map splitParams

/-- A declaration without annotations none of whose parameters is blank. -/
structure IsPlainDeclaration (declaration : List Char) : Prop where
  unmarked : '@' ∉ declaration
  visible : ∀ params ∈ parameters? declaration, ∀ param ∈ params,
    param.any (! Text.isBlank ·) = true

theorem isCut_splitParams (params : List Char) : IsCut (splitParams params) := by
  have cut : IsCut ((splitCommas 0 params).map Text.trim) :=
    (isCut_splitCommas params).map fun part _ => depthAfter?_trim 0 part
  rw [splitParams]
  split
  · exact cut.dropLast
  · exact cut

private theorem untilClosed?_subset {inner : Nat} {text params : List Char}
    (closed : untilClosed? inner text = some params) : params ⊆ text := by
  fun_induction untilClosed? inner text generalizing params with
  | case1 => cases closed
  | case2 inner c rest opening ih =>
    obtain ⟨front, here, rfl⟩ := Option.map_eq_some_iff.mp closed
    exact List.cons_subset_cons c (ih here)
  | case3 c rest _ closing =>
    rw [← Option.some.inj closed]
    exact List.nil_subset _
  | case4 c rest _ closing inner ih =>
    obtain ⟨front, here, rfl⟩ := Option.map_eq_some_iff.mp closed
    exact List.cons_subset_cons c (ih here)
  | case5 inner c rest _ _ ih =>
    obtain ⟨front, here, rfl⟩ := Option.map_eq_some_iff.mp closed
    exact List.cons_subset_cons c (ih here)

private theorem subset_of_mem_splitCommas {depth : Int} {text part : List Char}
    (found : part ∈ splitCommas depth text) : part ⊆ text := by
  induction text generalizing depth part with
  | nil => simp [splitCommas] at found; simp [found]
  | cons c text ih =>
    rw [splitCommas] at found
    split at found
    · rcases List.mem_cons.mp found with rfl | later
      · exact List.nil_subset _
      · exact List.Subset.trans (ih later) (List.subset_cons_self c text)
    · cases shown : splitCommas (depth + nesting c) text with
      | nil => exact absurd shown (splitCommas_ne_nil _ _)
      | cons first rest =>
        rw [shown, Text.pushFront] at found
        rcases List.mem_cons.mp found with rfl | later
        · exact List.cons_subset_cons c (ih (shown ▸ List.mem_cons_self))
        · have inside := ih (shown ▸ List.mem_cons_of_mem first later)
          exact List.Subset.trans inside (List.subset_cons_self c text)

private theorem subset_of_mem_splitParams {params param : List Char}
    (found : param ∈ splitParams params) : param ⊆ params := by
  have inside : param ∈ (splitCommas 0 params).map Text.trim := by
    rw [splitParams] at found
    split at found
    · exact List.dropLast_subset _ found
    · exact found
  obtain ⟨part, here, rfl⟩ := List.mem_map.mp inside
  exact List.Subset.trans (Text.trim_isInfix part).subset (subset_of_mem_splitCommas here)

theorem exists_of_ofDeclarationChars? {declaration : List Char} {signature : Signature}
    (read : ofDeclarationChars? declaration = some signature) :
    (∀ c ∈ signature.name.toList, Name.isPart c = true) ∧
      ∃ params, parameters? declaration = some params ∧
        signature.paramTypes = params.map paramTypeChars ∧ IsCut params ∧
          ∀ param ∈ params, param ⊆ declaration := by
  rw [ofDeclarationChars?] at read
  split at read
  · cases read
  · next opening rest shown =>
    dsimp only at read
    split at read
    · cases read
    · obtain ⟨list, closed, rfl⟩ := Option.map_eq_some_iff.mp read
      refine ⟨?_, splitParams list, ?_, rfl, isCut_splitParams list, ?_⟩
      · intro c found
        rw [String.toList_ofList, Text.takeWhileEnd, List.mem_reverse] at found
        exact List.mem_takeWhile_imp found
      · rw [parameters?, shown]
        dsimp only
        rw [closed, Option.map_some]
      · intro param found
        have behind : rest ⊆ declaration := by
          have suffix := List.dropWhile_suffix (l := declaration) (· != '(')
          rw [shown] at suffix
          exact List.Subset.trans (List.subset_cons_self opening rest) suffix.subset
        have listed := List.Subset.trans (subset_of_mem_splitParams found) (untilClosed?_subset closed)
        exact List.Subset.trans listed behind

theorem isRecoverable_of_isPlainDeclaration {declaration : List Char} {signature : Signature}
    (plain : IsPlainDeclaration declaration)
    (read : ofDeclarationChars? declaration = some signature) : signature.IsRecoverable := by
  obtain ⟨parts, params, listed, types, cut, inside⟩ := exists_of_ofDeclarationChars? read
  have unmarked : ∀ param ∈ params, '@' ∉ param := fun param found here =>
    plain.unmarked (inside param found here)
  constructor
  · intro found
    exact absurd (parts _ found) (by decide)
  · rw [types]
    refine List.forall_mem_map.mpr fun param found => ?_
    exact paramTypeChars_ne_empty (unmarked param found) (plain.visible params listed param found)
  · rw [types, List.map_map]
    exact cut.map fun param found => depthAfter?_paramTypeChars (unmarked param found)

end Signature

namespace Method

open Signature (IsPlainDeclaration ofDeclaration?)

/-- Of plain declarations with parameter lists two have one key only if they have one signature, and
the methods with such declarations share a fragment of a class exactly if their signatures match. -/
theorem methodKey_eq_iff {a b : Method} {s t : Signature}
    (plainA : IsPlainDeclaration a.declaration.toList)
    (plainB : IsPlainDeclaration b.declaration.toList)
    (readA : ofDeclaration? a.declaration = some s) (readB : ofDeclaration? b.declaration = some t) :
    (Fragment.Key.ofMethod s = Fragment.Key.ofMethod t → s = t) ∧
      (Fragment.Key.ofConstructor s = Fragment.Key.ofConstructor t → s = t) ∧
        ∀ owner : ModelClass, ClassFile.methodKey owner a = ClassFile.methodKey owner b ↔
          a.sameSignature b = true := by
  have first := Signature.isRecoverable_of_isPlainDeclaration plainA readA
  have second := Signature.isRecoverable_of_isPlainDeclaration plainB readB
  have methods (same : Fragment.Key.ofMethod s = Fragment.Key.ofMethod t) : s = t :=
    first.eq_of_text_eq second (Fragment.Key.methodOf.inj same)
  have constructors (same : Fragment.Key.ofConstructor s = Fragment.Key.ofConstructor t) : s = t :=
    first.eq_of_text_eq second (Fragment.Key.constructorOf.inj same)
  refine ⟨methods, constructors, fun owner => ?_⟩
  have ownA : a.signature = s := by rw [signature, readA, Option.getD_some]
  have ownB : b.signature = t := by rw [signature, readB, Option.getD_some]
  rw [sameSignature, beq_iff_eq, ClassFile.methodKey, ClassFile.methodKey, ownA, ownB]
  constructor
  · intro same
    split at same
    · split at same
      · exact constructors same
      · cases same
    · split at same
      · cases same
      · exact methods same
  · rintro rfl
    rfl

private def puts : List Method := [
  ⟨"public void put(Map<String, A> m, final B b)", "", false⟩,
  ⟨"int put (Map<String,A> x,B y) throws E", "", false⟩,
  ⟨"void put(Map<String, A, B> m)", "", false⟩]

/-- Commas between parameters are told from commas inside of brackets. -/
theorem put_shares_its_fragment :
    ClassFile.methodKey (.ofName "A") puts[0] = ClassFile.methodKey (.ofName "A") puts[1] ∧
      ClassFile.methodKey (.ofName "A") puts[0] ≠ ClassFile.methodKey (.ofName "A") puts[2] := by
  have plain : ∀ method ∈ puts, IsPlainDeclaration method.declaration.toList := by
    have each : ∀ method ∈ puts, '@' ∉ method.declaration.toList ∧
        ∀ params ∈ Signature.parameters? method.declaration.toList, ∀ param ∈ params,
          param.any (! Text.isBlank ·) = true := by decide
    exact fun method found => ⟨(each method found).1, (each method found).2⟩
  have first : ofDeclaration? puts[0].declaration = some ⟨"put", ["Map<String,A>", "B"]⟩ := by decide +kernel
  have second : ofDeclaration? puts[1].declaration = some ⟨"put", ["Map<String,A>", "B"]⟩ := by decide +kernel
  have third : ofDeclaration? puts[2].declaration = some ⟨"put", ["Map<String,A,B>"]⟩ := by decide +kernel
  constructor
  · have same :=
      (methodKey_eq_iff (plain _ (by simp [puts])) (plain _ (by simp [puts])) first second).2.2
    refine (same _).mpr ?_
    rw [sameSignature, signature, signature, first, second]
    decide
  · have same :=
      (methodKey_eq_iff (plain _ (by simp [puts])) (plain _ (by simp [puts])) first third).2.2
    refine fun equal => absurd ((same _).mp equal) ?_
    rw [sameSignature, signature, signature, first, third]
    decide

end Method

end ClassWeaver
