import ClassWeaver.Fragment.Merge
import ClassWeaver.Proofs.Text.Occurrence
import ClassWeaver.Proofs.Text.Words

set_option autoImplicit false

/-!
Merging generated texts. Main statements: a merged class declaration consists of the old text in front
of it, what the new text declares, and the interfaces of the old text; and where nothing was written by
hand, the new text of an attribute and of a class declaration replaces the old one up to the blanks
around it.
-/

namespace ClassWeaver.Fragment

open Text (trim isBlank splitBefore?)

theorem mergeText_of_replaced {key : Key} (noClass : key ≠ .classDecl)
    (noAttribute : ∀ name, key ≠ .attributeOf name) (old new : String) :
    mergeText key old new = Text.trimmed new := by
  unfold mergeText mergeChars Text.trimmed
  split
  · rfl
  · split
    · exact absurd rfl noClass
    · next name => exact absurd rfl (noAttribute name)
    · rfl

/-- Nothing but blanks stands in front of the visibility in the declaration of an attribute. Only an
attribute whose name is not that of a constant may do without it. -/
def IsBareDeclaration (name : String) (text : List Char) : Prop :=
  "public".toList <+: Text.trimStart text ∨
    Text.contains text "public".toList = false ∧ ∀ property, name ≠ "PROPERTY_" ++ property

theorem splitBefore?_public {text : List Char} (front : "public".toList <+: Text.trimStart text) :
    splitBefore? "public".toList text =
      some (text.takeWhile isBlank, Text.trimStart text) := by
  have whole : text.takeWhile isBlank ++ Text.trimStart text = text :=
    List.takeWhile_append_dropWhile
  have other : 'p' ∉ text.takeWhile isBlank := fun found =>
    Bool.false_ne_true (List.mem_takeWhile_imp found)
  have begins : "public".toList = 'p' :: "ublic".toList := by decide
  have cut := Text.splitBefore?_append begins other front
  rwa [whole] at cut

theorem mergeText_attribute {old new name : String} (bareOld : IsBareDeclaration name old.toList)
    (bareNew : IsBareDeclaration name new.toList) :
    mergeText (.attributeOf name) old new = Text.trimmed new := by
  have merged : trim (mergeAttribute old.toList new.toList) = trim new.toList := by
    unfold mergeAttribute
    rcases bareNew with front | ⟨none, -⟩
    · rcases bareOld with frontOld | ⟨noneOld, -⟩
      · rw [splitBefore?_public front, splitBefore?_public frontOld]
        have blank : ∀ c ∈ old.toList.takeWhile isBlank, isBlank c = true := fun c found =>
          List.mem_takeWhile_imp found
        dsimp only
        rw [trim, Text.trimStart_append blank, Text.trimStart, Text.trimStart,
          List.dropWhile_idempotent]
        rfl
      · rw [Text.splitBefore?_eq_none noneOld]
        split
        · simp_all
        · rfl
    · rw [Text.splitBefore?_eq_none none]
  unfold mergeText mergeChars Text.trimmed
  split
  · rfl
  · rw [merged]

theorem IsBareDeclaration.trim {name : String} {text : List Char}
    (bare : IsBareDeclaration name text) : IsBareDeclaration name (trim text) := by
  rcases bare with ⟨rest, whole⟩ | ⟨none, other⟩
  · refine .inl ⟨Text.trimEnd rest, ?_⟩
    have same : Text.trim text = "public".toList ++ Text.trimEnd rest := by
      rw [Text.trim, ← whole]
      simp [Text.trimEnd_cons, Text.isBlank, Text.isAscii]
    rw [same, Text.trimStart_of_filled (by simp [Text.isBlank, Text.isAscii])]
  · refine .inr ⟨?_, other⟩
    rw [← Bool.not_eq_true, Text.contains_iff] at none ⊢
    exact fun found => none (found.trans (Text.trim_isInfix text))

theorem IsBareDeclaration.of_append {name : String} {blanks text : List Char}
    (blank : ∀ c ∈ blanks, isBlank c = true) (bare : IsBareDeclaration name (blanks ++ text)) :
    IsBareDeclaration name text := by
  unfold IsBareDeclaration at bare ⊢
  rw [Text.trimStart_append blank] at bare
  refine bare.imp_right fun ⟨absent, other⟩ => ⟨?_, other⟩
  rw [← Bool.not_eq_true, Text.contains_iff] at absent ⊢
  exact fun found => absent (found.trans (List.suffix_append blanks text).isInfix)

theorem IsBareDeclaration.append {name : String} {text : List Char}
    (bare : IsBareDeclaration ("PROPERTY_" ++ name) text) (rest : List Char) (other : String) :
    IsBareDeclaration other (text ++ rest) := by
  unfold IsBareDeclaration at bare ⊢
  rcases bare with front | ⟨-, none⟩
  · exact .inl (Text.isPrefix_trimStart_append (by decide) front rest)
  · exact absurd rfl (none name)

def declarationChars (name : List Char) (superclass : Option (List Char)) : List Char :=
  "public class ".toList ++ name ++ (superclass.map (" extends ".toList ++ ·)).getD []
    ++ ['\n', '\x7b']

/-- A name that stands in a class declaration as one word and is not mistaken for a clause. -/
structure IsDeclarable (name : List Char) : Prop where
  filled : name ≠ []
  word : ∀ c ∈ name, Text.isWord c = true
  visible : ∀ c ∈ name, isBlank c = false
  noClause : Text.contains name "implements".toList = false

structure IsOneWord (name : List Char) : Prop where
  filled : name ≠ []
  word : ∀ c ∈ name, Text.isWord c = true
  visible : ∀ c ∈ name, isBlank c = false

theorem IsDeclarable.isOneWord {name : List Char} (declarable : IsDeclarable name) :
    IsOneWord name :=
  ⟨declarable.filled, declarable.word, declarable.visible⟩

private theorem blanksAndWord?_blank {isPart : Char → Bool} {name rest : List Char}
    (filled : name ≠ []) (visible : ∀ c ∈ name, isBlank c = false)
    (part : ∀ c ∈ name, isPart c = true) (ends : rest.head?.all (! isPart ·) = true) :
    blanksAndWord? isPart (' ' :: (name ++ rest)) = some ([' '], name, rest) := by
  have front : Text.trimStart (' ' :: (name ++ rest)) = name ++ rest := by
    cases name with
    | nil => exact absurd rfl filled
    | cons c name =>
        have first : isBlank c = false := visible c List.mem_cons_self
        simp [Text.trimStart, first, show isBlank ' ' = true from by decide]
  have stop : rest.takeWhile isPart = [] ∧ rest.dropWhile isPart = rest := by
    cases rest with
    | nil => simp
    | cons c rest =>
        have other : isPart c = false := by simpa using ends
        simp [other]
  have blanks : (' ' :: (name ++ rest)).takeWhile isBlank = [' '] := by
    cases name with
    | nil => exact absurd rfl filled
    | cons c name =>
        have first : isBlank c = false := visible c List.mem_cons_self
        simp [first, show isBlank ' ' = true from by decide]
  unfold blanksAndWord?
  simp [front, List.takeWhile_append_of_pos part, List.dropWhile_append_of_pos part, stop, blanks,
    filled]

private theorem extendsClauseAt?_clause {parent rest : List Char} (filled : parent ≠ [])
    (visible : ∀ c ∈ parent, isBlank c = false) (ends : rest.head?.all isBlank = true) :
    extendsClauseAt? ("extends".toList ++ ' ' :: (parent ++ rest)) =
      some ("extends ".toList ++ parent) := by
  have part : ∀ c ∈ parent, (! isBlank c) = true := fun c inside => by simp [visible c inside]
  have found : blanksAndWord? (! isBlank ·) (' ' :: (parent ++ rest)) = some ([' '], parent, rest) :=
    blanksAndWord?_blank filled visible part (by simpa using ends)
  rw [extendsClauseAt?, Text.dropStart?_append, Option.bind_some, found]
  rfl

theorem extendsClauseAt?_of_ne {c : Char} {rest : List Char} (other : 'e' ≠ c) :
    extendsClauseAt? (c :: rest) = none := by
  have begins : "extends".toList = 'e' :: "xtends".toList := by decide
  have absent : Text.dropStart? "extends".toList (c :: rest) = none := by
    rw [begins, Text.dropStart?, if_neg other]
  rw [extendsClauseAt?, absent, Option.bind_none]

private theorem declaredAt?_class {name rest : List Char} (single : IsOneWord name)
    (ends : rest.head?.all (! Text.isWord ·) = true) :
    declaredAt? ("class".toList ++ ' ' :: (name ++ rest)) =
      some ⟨name, extendsClauseAt? (Text.trimStart rest)⟩ := by
  have found := blanksAndWord?_blank single.filled single.visible single.word ends
  rw [declaredAt?, Text.dropStart?_append, Option.bind_some, found]
  rfl

private theorem declared?_cons {c : Char} {rest : List Char}
    (other : Text.dropStart? "class".toList (c :: rest) = none) :
    declared? (c :: rest) = declared? rest := by
  rw [declared?, declaredAt?, other]
  rfl

theorem declared?_class {name rest : List Char} (single : IsOneWord name)
    (ends : rest.head?.all (! Text.isWord ·) = true) :
    declared? ("public class ".toList ++ name ++ rest) =
      some ⟨name, extendsClauseAt? (Text.trimStart rest)⟩ := by
  have keyword : "class".toList = ['c', 'l', 'a', 's', 's'] := by decide
  have text : "public class ".toList ++ name ++ rest = 'p' :: 'u' :: 'b' :: 'l' :: 'i' :: 'c' :: ' '
      :: ("class".toList ++ ' ' :: (name ++ rest)) := by
    simp only [String.reduceToList, List.cons_append, List.nil_append]
  have found := declaredAt?_class single ends
  rw [text]
  iterate 7 rw [declared?_cons (by simp only [keyword, Text.dropStart?]; rfl)]
  rw [keyword, List.cons_append] at found ⊢
  rw [declared?, found]
  rfl

theorem declared?_declaration {name : List Char} {superclass : Option (List Char)}
    (single : IsOneWord name)
    (above : ∀ parent ∈ superclass, parent ≠ [] ∧ ∀ c ∈ parent, isBlank c = false) :
    declared? (declarationChars name superclass) =
      some ⟨name, superclass.map ("extends ".toList ++ ·)⟩ := by
  cases superclass with
  | none =>
      have whole : declarationChars name none = "public class ".toList ++ name ++ ['\n', '\x7b'] := by
        unfold declarationChars
        simp only [Option.map_none, Option.getD_none, List.append_nil]
      have ends : Text.isWord '\n' = false := by
        rw [Text.isWord_of_isAscii (by decide)]
        decide
      have front : Text.trimStart ['\n', '\x7b'] = ['\x7b'] := by
        simp [Text.trimStart, Text.isBlank, Text.isAscii]
      have none : extendsClauseAt? ['\x7b'] = none := rfl
      rw [whole, declared?_class single (by simp [ends]), front, none]
      rfl
  | some parent =>
      have whole : declarationChars name (some parent) = "public class ".toList ++ name
          ++ ' ' :: ("extends".toList ++ ' ' :: (parent ++ ['\n', '\x7b'])) := by
        unfold declarationChars
        simp only [Option.map_some, Option.getD_some, List.append_assoc, String.reduceToList,
          List.cons_append, List.nil_append]
      have ends : ['\n', '\x7b'].head?.all isBlank = true := by
        simp [Text.isBlank, Text.isAscii]
      obtain ⟨filled, visible⟩ := above parent rfl
      have clause := extendsClauseAt?_clause filled visible ends
      have front : Text.trimStart (' ' :: ("extends".toList ++ ' ' :: (parent ++ ['\n', '\x7b'])))
          = "extends".toList ++ ' ' :: (parent ++ ['\n', '\x7b']) := by
        simp [Text.trimStart, Text.isBlank, Text.isAscii]
      have ends : Text.isWord ' ' = false := by
        rw [Text.isWord_of_isAscii (by decide)]
        decide
      rw [whole, declared?_class single (by simp [ends]), front, clause]
      rfl

theorem isInfix_declaration_iff {name : List Char} {superclass : Option (List Char)} :
    "implements".toList <:+: declarationChars name superclass ↔
      "implements".toList <:+: name ∨ ∃ parent ∈ superclass, "implements".toList <:+: parent := by
  have blank : ' ' ∉ "implements".toList := by decide
  have newline : '\n' ∉ "implements".toList := by decide
  have visibility : ¬ "implements".toList <:+: "public".toList :=
    Text.contains_eq_false_iff.mp (by decide)
  have keyword : ¬ "implements".toList <:+: "class".toList :=
    Text.contains_eq_false_iff.mp (by decide)
  have clause : ¬ "implements".toList <:+: "extends".toList :=
    Text.contains_eq_false_iff.mp (by decide)
  have brace : ¬ "implements".toList <:+: ['\x7b'] :=
    Text.contains_eq_false_iff.mp (by decide)
  cases superclass with
  | none =>
      have whole : declarationChars name none = "public".toList ++ ' ' :: ("class".toList
          ++ ' ' :: (name ++ '\n' :: ['\x7b'])) := by
        unfold declarationChars
        simp only [Option.map_none, Option.getD_none, List.append_nil, String.reduceToList,
          List.cons_append, List.nil_append]
      rw [whole, Text.isInfix_append_cons_iff blank, Text.isInfix_append_cons_iff blank,
        Text.isInfix_append_cons_iff newline]
      simp only [visibility, keyword, brace, false_or, or_false, Option.mem_def, reduceCtorEq,
        false_and, exists_false]
  | some parent =>
      have whole : declarationChars name (some parent) = "public".toList ++ ' ' :: ("class".toList
          ++ ' ' :: (name ++ ' ' :: ("extends".toList ++ ' ' :: (parent ++ '\n' :: ['\x7b'])))) := by
        unfold declarationChars
        simp only [Option.map_some, Option.getD_some, List.append_assoc, String.reduceToList,
          List.cons_append, List.nil_append]
      rw [whole, Text.isInfix_append_cons_iff blank, Text.isInfix_append_cons_iff blank,
        Text.isInfix_append_cons_iff blank, Text.isInfix_append_cons_iff blank,
        Text.isInfix_append_cons_iff newline]
      simp only [visibility, keyword, clause, brace, false_or, or_false, Option.mem_some_iff,
        exists_eq_left']

private theorem noClause_declaration {name : List Char} {superclass : Option (List Char)}
    (declarable : IsDeclarable name) (above : ∀ parent ∈ superclass, IsDeclarable parent) :
    Text.contains (declarationChars name superclass) "implements".toList = false := by
  have absent {text : List Char} (declarable : IsDeclarable text) :
      ¬ "implements".toList <:+: text :=
    Text.contains_eq_false_iff.mp declarable.noClause
  rw [Text.contains_eq_false_iff]
  intro found
  rcases isInfix_declaration_iff.mp found with found | ⟨parent, inside, found⟩
  · exact absent declarable found
  · exact absent (above parent inside) found

section Merged

open Text (ComesFirst)

variable {declared : Declared} {before rest old : List Char}

def Declared.head (declared : Declared) : List Char :=
  "class ".toList ++ declared.name

theorem Declared.head_eq (declared : Declared) :
    declared.head = "class ".toList ++ declared.name := by
  -- the equation that Lean makes of the definition evaluates the literal
  delta Declared.head
  rfl

def Declared.clause (declared : Declared) : List Char :=
  (declared.extendsClause.map (' ' :: ·)).getD []

def Declared.ofNames (name : List Char) (superclass : Option (List Char)) : Declared :=
  ⟨name, superclass.map ("extends ".toList ++ ·)⟩

theorem declarationChars_eq (name : List Char) (superclass : Option (List Char)) :
    declarationChars name superclass = "public ".toList ++ ("class ".toList ++ name
      ++ ((Declared.ofNames name superclass).clause ++ ['\n', '\x7b'])) := by
  unfold declarationChars
  cases superclass <;> simp [Declared.ofNames, Declared.clause]

def interfaces (old : List Char) : List Char :=
  match Text.splitBefore? "implements".toList old with
  | some (_, found) => ' ' :: found
  | none => ['\n', '\x7b']

/-- A class declaration after merging: the old text in front of it, what the new text declares, and
the interfaces of the old text. -/
theorem mergeClassDecl_of_declared {new : List Char} (declares : declared? new = some declared)
    (whole : old = before ++ (declared.head ++ rest)) (comes : ComesFirst declared.head before) :
    mergeClassDecl old new =
      before ++ (declared.head ++ (declared.clause ++ interfaces old)) := by
  have cut := comes.splitBefore? rest
  rw [← whole, declared.head_eq] at cut
  rw [mergeClassDecl, declares]
  dsimp only
  rw [cut]
  change before ++ declared.head ++ declared.clause ++ interfaces old = _
  rw [List.append_assoc, List.append_assoc]

theorem interfaces_of_absent (absent : ¬ "implements".toList <:+: old) :
    interfaces old = ['\n', '\x7b'] := by
  rw [interfaces, Text.splitBefore?_eq_none (Text.contains_eq_false_iff.mpr absent)]

theorem interfaces_of_comesFirst (comes : ComesFirst "implements".toList before)
    (rest : List Char) :
    interfaces (before ++ ("implements".toList ++ rest)) = ' ' :: ("implements".toList ++ rest) := by
  rw [interfaces, comes.splitBefore? rest]

theorem interfaces_eq_iff :
    interfaces old = ['\n', '\x7b'] ↔ ¬ "implements".toList <:+: old := by
  refine ⟨fun shown found => ?_, interfaces_of_absent⟩
  obtain ⟨before, rest, rfl, comes⟩ := Text.exists_comesFirst found
  rw [interfaces_of_comesFirst comes] at shown
  exact absurd (List.cons.inj shown).1 (by decide)

theorem comesFirst_head (declared : Declared) : ComesFirst declared.head "public ".toList := by
  simp [ComesFirst, declared.head_eq, Text.splitBefore?]

end Merged

private theorem isTrim_declaration (name : List Char) (superclass : Option (List Char)) :
    Text.isTrim (declarationChars name superclass) = true := by
  unfold declarationChars Text.isTrim
  rw [List.getLast?_append]
  simp [Text.isBlank, Text.isAscii]

theorem mergeClassDecl_declaration {name : List Char} {before after : Option (List Char)}
    (declarable : IsDeclarable name) (above : ∀ parent ∈ before, IsDeclarable parent)
    (above' : ∀ parent ∈ after, IsDeclarable parent) :
    mergeClassDecl (declarationChars name before) (declarationChars name after) =
      declarationChars name after := by
  have declares := declared?_declaration declarable.isOneWord fun parent inside =>
    ⟨(above' parent inside).filled, (above' parent inside).visible⟩
  have absent := Text.contains_eq_false_iff.mp (noClause_declaration declarable above)
  have merged := mergeClassDecl_of_declared declares (declarationChars_eq name before)
    (comesFirst_head _)
  rw [merged, interfaces_of_absent absent, declarationChars_eq name after]
  rfl

theorem mergeText_declaration {name : List Char} {before after : Option (List Char)}
    (declarable : IsDeclarable name) (above : ∀ parent ∈ before, IsDeclarable parent)
    (above' : ∀ parent ∈ after, IsDeclarable parent) :
    mergeText .classDecl (String.ofList (declarationChars name before))
        (String.ofList (declarationChars name after)) =
      String.ofList (declarationChars name after) := by
  have merged := mergeClassDecl_declaration declarable above above'
  have trimmed := Text.trim_of_isTrim (isTrim_declaration name after)
  unfold mergeText mergeChars
  rw [String.toList_ofList, String.toList_ofList]
  split
  · rw [trimmed]
  · dsimp only
    rw [merged, trimmed]

end ClassWeaver.Fragment
