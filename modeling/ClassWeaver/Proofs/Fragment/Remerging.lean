import ClassWeaver.Proofs.Fragment.Merging
import ClassWeaver.Proofs.Name
import ClassWeaver.Proofs.Text.Occurrence

set_option autoImplicit false

/-!
Merging generated texts into texts with hand-written parts, again and again. Main statements: of an
attribute the text in front of the visibility stays, and of the generated texts the last one counts;
two declarations of a class leave what the last one leaves exactly if nothing in front of the list of
interfaces looks like the beginning of that list; and a generated declaration is replaced as a whole
exactly if its name is one word and none of its names looks like that.
-/

namespace ClassWeaver.Fragment

open Text (ComesFirst isBlank trim trimStart trimEnd)

theorem toList_mergeText (key : Key) (old new : String) :
    (mergeText key old new).toList = mergeChars key old.toList new.toList :=
  String.toList_ofList

section Attribute

variable {name : String} {before rest lead tail : List Char}

theorem comesFirst_visibility {before : List Char} :
    ComesFirst "public".toList before ↔ ¬ "public".toList <:+: before := by
  have begins : "public".toList = 'p' :: "ublic".toList := by decide
  exact Text.comesFirst_iff begins (by decide)

theorem mergeChars_attribute (kept : ComesFirst "public".toList before)
    (cut : ComesFirst "public".toList lead) (bare : '@' ∉ lead ++ ("public".toList ++ tail)) :
    mergeChars (.attributeOf name) (before ++ ("public".toList ++ rest))
        (lead ++ ("public".toList ++ tail)) =
      trimStart before ++ ("public".toList ++ trimEnd tail) := by
  have plain : (lead ++ ("public".toList ++ tail)).contains '@' = false := by
    rwa [← Bool.not_eq_true, List.contains_iff_mem]
  have visible : Text.isTrim "public".toList = true := by
    simp [Text.isTrim, isBlank, Text.isAscii]
  rw [mergeChars, plain, if_neg Bool.false_ne_true, mergeAttribute, cut.splitBefore? tail,
    kept.splitBefore? rest]
  exact Text.trim_append_append visible before tail

theorem mergeText_attribute_mergeText {old first last : String}
    (anchored : "public".toList <:+: old.toList) (anchored₁ : "public".toList <:+: first.toList)
    (anchored₂ : "public".toList <:+: last.toList) (bare₁ : '@' ∉ first.toList)
    (bare₂ : '@' ∉ last.toList) :
    mergeText (.attributeOf name) (mergeText (.attributeOf name) old first) last =
      mergeText (.attributeOf name) old last := by
  obtain ⟨before, rest, whole, kept⟩ := Text.exists_comesFirst anchored
  obtain ⟨lead₁, tail₁, whole₁, cut₁⟩ := Text.exists_comesFirst anchored₁
  obtain ⟨lead₂, tail₂, whole₂, cut₂⟩ := Text.exists_comesFirst anchored₂
  rw [whole₁] at bare₁
  rw [whole₂] at bare₂
  rw [mergeText, toList_mergeText, mergeText, whole, whole₁, whole₂,
    mergeChars_attribute kept cut₁ bare₁, mergeChars_attribute kept.trimStart cut₂ bare₂,
    mergeChars_attribute kept cut₂ bare₂, Text.trimStart_trimStart]

theorem isInfix_mergeText_attribute {old new : String} (anchored : "public".toList <:+: old.toList)
    (anchored' : "public".toList <:+: new.toList) (bare : '@' ∉ new.toList) :
    "public".toList <:+: (mergeText (.attributeOf name) old new).toList := by
  obtain ⟨before, rest, whole, kept⟩ := Text.exists_comesFirst anchored
  obtain ⟨lead, tail, whole', cut⟩ := Text.exists_comesFirst anchored'
  rw [whole'] at bare
  rw [toList_mergeText, whole, whole', mergeChars_attribute kept cut bare]
  exact ⟨trimStart before, trimEnd tail, List.append_assoc _ _ _⟩

theorem exists_mergeText_attribute {old new : String} (anchored : "public".toList <:+: old.toList)
    (anchored' : "public".toList <:+: new.toList) (bare : '@' ∉ new.toList) :
    ∃ before rest lead tail,
      old.toList = before ++ ("public".toList ++ rest) ∧ ¬ "public".toList <:+: before ∧
      new.toList = lead ++ ("public".toList ++ tail) ∧ ¬ "public".toList <:+: lead ∧
      mergeText (.attributeOf name) old new =
        String.ofList (trim (before ++ ("public".toList ++ tail))) := by
  obtain ⟨before, rest, whole, kept⟩ := Text.exists_comesFirst anchored
  obtain ⟨lead, tail, whole', cut⟩ := Text.exists_comesFirst anchored'
  have visible : Text.isTrim "public".toList = true := by
    simp [Text.isTrim, isBlank, Text.isAscii]
  refine ⟨before, rest, lead, tail, whole, comesFirst_visibility.mp kept, whole',
    comesFirst_visibility.mp cut, ?_⟩
  rw [whole'] at bare
  rw [mergeText, whole, whole', mergeChars_attribute kept cut bare, Text.trim_append_append visible]

theorem foldl_mergeText_eq {old : String} (news : List String) (filled : news ≠ [])
    (anchored : "public".toList <:+: old.toList)
    (each : ∀ new ∈ news, "public".toList <:+: new.toList ∧ '@' ∉ new.toList) :
    news.foldl (mergeText (.attributeOf name)) old =
      mergeText (.attributeOf name) old (news.getLast filled) := by
  induction news generalizing old with
  | nil => exact absurd rfl filled
  | cons new news ih =>
    obtain ⟨anchored', bare⟩ := each new List.mem_cons_self
    cases news with
    | nil => rfl
    | cons next news =>
      have later := fun other inside => each other (List.mem_cons_of_mem new inside)
      have more : next :: news ≠ [] := List.cons_ne_nil next news
      obtain ⟨anchored'', bare'⟩ := later _ (List.getLast_mem more)
      rw [List.foldl_cons, ih more (isInfix_mergeText_attribute anchored anchored' bare) later,
        List.getLast_cons more]
      exact mergeText_attribute_mergeText anchored anchored' anchored'' bare bare'

/-- However often an attribute is generated, what was written in front of its visibility stays, and
of the generated texts the last one counts from its visibility on. -/
theorem foldl_mergeText_attribute {old : String} (news : List String) (filled : news ≠ [])
    (anchored : "public".toList <:+: old.toList)
    (each : ∀ new ∈ news, "public".toList <:+: new.toList ∧ '@' ∉ new.toList) :
    news.foldl (mergeText (.attributeOf name)) old =
        mergeText (.attributeOf name) old (news.getLast filled) ∧
      ∃ before rest lead tail,
        old.toList = before ++ ("public".toList ++ rest) ∧ ¬ "public".toList <:+: before ∧
        (news.getLast filled).toList = lead ++ ("public".toList ++ tail) ∧
        ¬ "public".toList <:+: lead ∧
        mergeText (.attributeOf name) old (news.getLast filled) =
          String.ofList (trim (before ++ ("public".toList ++ tail))) := by
  refine ⟨foldl_mergeText_eq news filled anchored each, ?_⟩
  obtain ⟨anchored', bare⟩ := each _ (List.getLast_mem filled)
  exact exists_mergeText_attribute anchored anchored' bare

/-- What was written in front of an attribute stays when its type changes twice. -/
theorem annotation_stays_in_front :
    let old := "@Deprecated // (public API)\n   public short n;"
    let news := ["public int n;", "   /* wide */ public long n;\n"]
    "public".toList <:+: old.toList ∧
      (∀ new ∈ news, "public".toList <:+: new.toList ∧ '@' ∉ new.toList) ∧
      news.foldl (mergeText (.attributeOf "n")) old = "@Deprecated // (public long n;" := by
  have anchored : "public".toList <:+: "@Deprecated // (public API)\n   public short n;".toList :=
    Text.contains_iff.mp (by decide)
  have each : ∀ new ∈ ["public int n;", "   /* wide */ public long n;\n"],
      "public".toList <:+: new.toList ∧ '@' ∉ new.toList := by
    simp only [List.forall_mem_cons]
    exact ⟨⟨Text.contains_iff.mp (by decide), by decide⟩,
      ⟨Text.contains_iff.mp (by decide), by decide⟩, by simp⟩
  refine ⟨anchored, each, ?_⟩
  rw [(foldl_mergeText_attribute _ (by simp) anchored each).1]
  decide

end Attribute

section ClassDeclaration

variable {declared first second : Declared} {before rest old front : List Char}

theorem interfaces_cases (old : List Char) :
    ¬ "implements".toList <:+: old ∧ interfaces old = ['\n', '\x7b'] ∨
      ∃ rest, interfaces old = ' ' :: ("implements".toList ++ rest) := by
  by_cases found : "implements".toList <:+: old
  · obtain ⟨before, rest, rfl, comes⟩ := Text.exists_comesFirst found
    exact .inr ⟨rest, interfaces_of_comesFirst comes rest⟩
  · exact .inl ⟨found, interfaces_of_absent found⟩

theorem trimEnd_append_interfaces (front old : List Char) :
    trimEnd (front ++ interfaces old) = front ++ trimEnd (interfaces old) := by
  obtain ⟨separator, c, rest, shown, filled⟩ : ∃ separator c rest,
      interfaces old = separator :: c :: rest ∧ isBlank c = false := by
    obtain ⟨-, shown⟩ | ⟨rest, shown⟩ := interfaces_cases old
    · exact ⟨_, _, _, shown, by decide⟩
    · exact ⟨_, 'i', "mplements".toList ++ rest, shown, by decide⟩
  have alone := Text.trimEnd_append_cons filled [separator] rest
  have behind := Text.trimEnd_append_cons filled (front ++ [separator]) rest
  rw [List.append_assoc, List.append_assoc] at behind
  rw [shown]
  exact behind.trans (congrArg (front ++ ·) alone.symm)

theorem exists_interfaces_append (found : "implements".toList <:+: front) (tail : List Char) :
    ∃ more, more ≠ [] ∧ interfaces (front ++ tail) = more ++ tail := by
  obtain ⟨before, rest, rfl, comes⟩ := Text.exists_comesFirst found
  refine ⟨' ' :: ("implements".toList ++ rest), List.cons_ne_nil _ _, ?_⟩
  rw [List.append_assoc, List.append_assoc, interfaces_of_comesFirst comes, List.cons_append,
    List.append_assoc]

theorem trimEnd_interfaces_append_iff (front old : List Char) :
    trimEnd (interfaces (front ++ trimEnd (interfaces old))) = trimEnd (interfaces old) ↔
      ¬ "implements".toList <:+: front := by
  constructor
  · intro same found
    obtain ⟨more, filled, shown⟩ := exists_interfaces_append found (trimEnd (interfaces old))
    rw [shown, ← trimEnd_append_interfaces, Text.trimEnd_trimEnd, trimEnd_append_interfaces] at same
    exact filled (List.append_left_eq_self.mp same)
  · intro absent
    obtain ⟨-, shown⟩ | ⟨rest, shown⟩ := interfaces_cases old
    · have newline : '\n' ∉ "implements".toList := by decide
      have brace : ¬ "implements".toList <:+: ['\x7b'] :=
        Text.contains_eq_false_iff.mp (by decide)
      have trimmed : trimEnd ['\n', '\x7b'] = ['\n', '\x7b'] := by decide
      rw [shown, trimmed, interfaces_of_absent, trimmed]
      intro found
      exact (Text.isInfix_of_append_cons newline found).elim absent brace
    · have blank : ' ' ∉ "implements".toList := by decide
      have begins : "implements".toList = 'i' :: "mplements".toList := by decide
      have comes : ComesFirst "implements".toList (front ++ [' ']) :=
        Text.comesFirst_concat begins (by decide) blank absent
      have visible : "implements".toList.getLast?.any (! isBlank ·) = true := by decide
      have trimmed (text : List Char) : trimEnd (' ' :: ("implements".toList ++ text)) =
          ' ' :: ("implements".toList ++ trimEnd text) :=
        Text.trimEnd_append_append visible [' '] text
      rw [shown, trimmed, List.append_cons, interfaces_of_comesFirst comes, trimmed,
        Text.trimEnd_trimEnd]

theorem mergeChars_classDecl {new : List Char} (declares : declared? new = some declared)
    (bare : '@' ∉ new) (whole : old = before ++ (declared.head ++ rest))
    (comes : ComesFirst declared.head before) :
    mergeChars .classDecl old new =
      trimStart before ++ (declared.head ++ declared.clause ++ trimEnd (interfaces old)) := by
  have plain : new.contains '@' = false := by
    rwa [← Bool.not_eq_true, List.contains_iff_mem]
  have begins (rest : List Char) :
      declared.head ++ rest = 'c' :: ("lass ".toList ++ declared.name ++ rest) := by
    simp [Declared.head_eq]
  have start (rest : List Char) :
      trimStart (before ++ (declared.head ++ rest)) = trimStart before ++ (declared.head ++ rest) := by
    rw [begins, Text.trimStart_append_cons (by decide)]
  rw [mergeChars, plain, if_neg Bool.false_ne_true, mergeClassDecl_of_declared declares whole comes,
    trim, start, ← List.append_assoc declared.head,
    ← List.append_assoc (trimStart before), trimEnd_append_interfaces, List.append_assoc]

theorem isInfix_front_iff : "implements".toList <:+: trimStart before ++ (first.head ++ first.clause) ↔
    "implements".toList <:+: before ++ first.head ∨
      ∃ clause ∈ first.extendsClause, "implements".toList <:+: clause := by
  have visible : ∀ c ∈ "implements".toList, isBlank c = false := by decide
  have blank : ' ' ∉ "implements".toList := by decide
  have inFront : "implements".toList <:+: trimStart before ++ first.head ↔
      "implements".toList <:+: before ++ first.head := by
    have whole : before.takeWhile isBlank ++ trimStart before = before :=
      List.takeWhile_append_dropWhile
    have back : trimStart before ++ first.head <:+ before ++ first.head :=
      ⟨before.takeWhile isBlank, by rw [← List.append_assoc, whole]⟩
    exact ⟨fun found => found.trans back.isInfix, Text.isInfix_trimStart_append visible⟩
  cases shown : first.extendsClause with
  | none =>
    rw [Declared.clause, shown, Option.map_none, Option.getD_none, List.append_nil, inFront]
    exact ⟨.inl, fun found => found.resolve_right (by simp)⟩
  | some clause =>
    have whole : trimStart before ++ (first.head ++ first.clause) =
        (trimStart before ++ first.head) ++ ' ' :: clause := by
      simp [Declared.clause, shown]
    rw [whole, Text.isInfix_append_cons_iff blank, inFront]
    simp only [Option.mem_some_iff, exists_eq_left']

theorem mergeChars_mergeChars_iff {new new' : List Char} (declares : declared? new = some first)
    (declares' : declared? new' = some second) (same : second.head = first.head)
    (bare : '@' ∉ new) (bare' : '@' ∉ new') (whole : old = before ++ (first.head ++ rest))
    (comes : ComesFirst first.head before) :
    mergeChars .classDecl (mergeChars .classDecl old new) new' = mergeChars .classDecl old new' ↔
      ¬ "implements".toList <:+: before ++ first.head ∧
        ∀ clause ∈ first.extendsClause, ¬ "implements".toList <:+: clause := by
  have merged := mergeChars_classDecl declares bare whole comes
  have direct := mergeChars_classDecl declares' bare' (same ▸ whole) (same ▸ comes)
  have whole' : mergeChars .classDecl old new = trimStart before ++ (second.head
      ++ (first.clause ++ trimEnd (interfaces old))) := by
    rw [merged, same, List.append_assoc first.head]
  have twice := mergeChars_classDecl declares' bare' whole' (same ▸ comes.trimStart)
  rw [twice, direct, Text.trimStart_trimStart, List.append_right_inj, List.append_right_inj, merged,
    ← List.append_assoc (trimStart before), trimEnd_interfaces_append_iff, isInfix_front_iff]
  simp only [not_or, not_exists, not_and]

end ClassDeclaration

section Named

variable {name : String} {superclass superclass' : Option String}

def declarationText (name : String) (superclass : Option String) : String :=
  String.ofList (declarationChars name.toList (superclass.map String.toList))

structure AreNames (name : String) (superclass : Option String) : Prop where
  simple : Name.isSimple name = true
  above : ∀ parent ∈ superclass, Name.isSimple parent = true

namespace AreNames

variable (names : AreNames name superclass)
include names

theorem visible : ∀ c ∈ name.toList, isBlank c = false :=
  fun c inside => Name.isBlank_of_isPart ((Name.of_isSimple names.simple).2.1 c inside)

theorem isOneWord (word : ∀ c ∈ name.toList, Text.isWord c = true) : IsOneWord name.toList :=
  ⟨(Name.of_isSimple names.simple).1, word, names.visible⟩

theorem visible_superclass : ∀ parent ∈ superclass.map String.toList,
    parent ≠ [] ∧ ∀ c ∈ parent, isBlank c = false := by
  intro text found
  obtain ⟨parent, inside, rfl⟩ := Option.map_eq_some_iff.mp found
  obtain ⟨filled, parts, -⟩ := Name.of_isSimple (names.above parent inside)
  exact ⟨filled, fun c found => Name.isBlank_of_isPart (parts c found)⟩

theorem declared? (word : ∀ c ∈ name.toList, Text.isWord c = true) :
    Fragment.declared? (declarationChars name.toList (superclass.map String.toList)) =
      some (.ofNames name.toList (superclass.map String.toList)) :=
  declared?_declaration (names.isOneWord word) names.visible_superclass

theorem at_notMem : '@' ∉ declarationChars name.toList (superclass.map String.toList) := by
  have free {name : String} (simple : Name.isSimple name = true) : '@' ∉ name.toList :=
    fun found => absurd ((Name.of_isSimple simple).2.1 _ found) (by decide)
  have alone := free names.simple
  unfold declarationChars
  simp only [String.reduceToList, List.cons_append, List.nil_append]
  cases superclass with
  | none => simp [alone]
  | some parent => simp [alone, free (names.above parent rfl)]

end AreNames

/-- Two generated declarations of a class merged into a text with hand-written parts, one after the
other, leave what the second one leaves exactly if `implements` stands neither in the text up to the
name of the class nor in the name of the first superclass. -/
theorem mergeText_declaration_mergeText_iff (names : AreNames name superclass)
    (names' : AreNames name superclass') (word : ∀ c ∈ name.toList, Text.isWord c = true)
    {old : String} {before rest : List Char}
    (cut : Text.splitBefore? ("class ".toList ++ name.toList) old.toList = some (before, rest)) :
    mergeText .classDecl (mergeText .classDecl old (declarationText name superclass))
        (declarationText name superclass') =
        mergeText .classDecl old (declarationText name superclass') ↔
      ¬ "implements".toList <:+: before ++ ("class ".toList ++ name.toList) ∧
        ∀ parent ∈ superclass, ¬ "implements".toList <:+: parent.toList := by
  obtain ⟨rest, -, whole, comes⟩ := Text.exists_of_splitBefore? cut
  have law := mergeChars_mergeChars_iff (names.declared? word) (names'.declared? word) rfl
    names.at_notMem names'.at_notMem whole comes
  have chars (superclass : Option String) : (declarationText name superclass).toList =
      declarationChars name.toList (superclass.map String.toList) := String.toList_ofList
  have keyword : ¬ "implements".toList <:+: "extends".toList :=
    Text.contains_eq_false_iff.mp (by decide)
  have clause (parent : List Char) :
      "implements".toList <:+: "extends ".toList ++ parent ↔ "implements".toList <:+: parent := by
    have blank : ' ' ∉ "implements".toList := by decide
    have apart : "implements".toList <:+: "extends".toList ++ ' ' :: parent ↔ _ :=
      Text.isInfix_append_cons_iff blank
    exact apart.trans (or_iff_right keyword)
  rw [← String.toList_inj, toList_mergeText, toList_mergeText, toList_mergeText, chars, chars]
  refine law.trans (and_congr_right fun _ => ?_)
  cases superclass with
  | none => exact iff_of_true (fun _ found => by cases found) (fun _ found => by cases found)
  | some parent =>
    have there : (Declared.ofNames name.toList (some parent.toList)).extendsClause =
        some ("extends ".toList ++ parent.toList) := rfl
    rw [Option.map_some, there]
    simp only [Option.mem_some_iff, forall_eq', clause]

-- the name of the superclass is taken for the beginning of a list of interfaces
example : mergeText .classDecl "public class A extends Reimplements\n\x7b"
    "public class A extends Reimplements\n\x7b" =
      "public class A extends Reimplements implements\n\x7b" := by
  decide

theorem AreNames.takeWhile_isWord_ne_nil (names : AreNames name superclass)
    (starts : name.toList.head? ≠ some '$') : name.toList.takeWhile Text.isWord ≠ [] := by
  have simple := names.simple
  rw [Name.isSimple] at simple
  cases shown : name.toList with
  | nil => simp [shown] at simple
  | cons c rest =>
    rw [shown] at simple starts
    simp only [Bool.and_eq_true, Name.isStart, Bool.or_eq_true, beq_iff_eq] at simple
    have word : Text.isWord c = true := by
      rcases simple.1.1 with (alphabetic | rfl) | rfl
      · exact Text.isWord_of_isAlphabetic alphabetic
      · decide
      · exact absurd rfl starts
    simp [word]

private theorem exists_tail {front back name : List Char} (whole : front ++ back = name)
    (superclass : Option (List Char)) : ∃ tail, declarationChars name superclass =
      "public ".toList ++ ("class ".toList ++ front ++ (back ++ tail)) := by
  subst whole
  refine ⟨(Declared.ofNames (front ++ back) superclass).clause ++ ['\n', '\x7b'], ?_⟩
  rw [declarationChars_eq]
  simp only [List.append_assoc]

private theorem declared?_broken {front rest : List Char} {d : Char} (single : IsOneWord front)
    (strange : Text.isWord d = false) (visible : isBlank d = false) :
    Fragment.declared? ("public ".toList ++ ("class ".toList ++ front ++ d :: rest)) =
      some ⟨front, none⟩ := by
  have regroup : "public ".toList ++ ("class ".toList ++ front ++ d :: rest) =
      "public class ".toList ++ front ++ d :: rest := by
    have keywords : "public class ".toList = "public ".toList ++ "class ".toList := by decide
    simp only [keywords, List.append_assoc]
  have trimmed : Text.trimStart (d :: rest) = d :: rest :=
    Text.trimStart_of_filled (by simp [visible])
  have other : 'e' ≠ d := by
    rintro rfl
    exact absurd strange (by decide)
  rw [regroup, declared?_class single (by simp [strange]), trimmed, extendsClauseAt?_of_ne other]

theorem AreNames.exists_declared? (names : AreNames name superclass)
    (starts : name.toList.head? ≠ some '$') {c : Char} (found : c ∈ name.toList)
    (apart : Text.isWord c = false) :
    ∃ front d rest, isBlank d = false ∧
      Fragment.declared? (declarationChars name.toList (superclass.map String.toList)) =
        some ⟨front, none⟩ ∧
      ∀ above, ∃ tail, declarationChars name.toList above =
        "public ".toList ++ ("class ".toList ++ front ++ d :: (rest ++ tail)) := by
  have whole : name.toList.takeWhile Text.isWord ++ name.toList.dropWhile Text.isWord = name.toList :=
    List.takeWhile_append_dropWhile
  have ends := List.head?_dropWhile_not Text.isWord name.toList
  cases behind : name.toList.dropWhile Text.isWord with
  | nil =>
    have word := List.dropWhile_eq_nil_iff.mp behind c found
    rw [apart] at word
    cases word
  | cons d rest =>
    rw [behind] at ends whole
    have strange : Text.isWord d = false := by simpa using ends
    have visible : isBlank d = false :=
      names.visible d (whole ▸ List.mem_append_right _ List.mem_cons_self)
    have single : IsOneWord (name.toList.takeWhile Text.isWord) := {
      filled := names.takeWhile_isWord_ne_nil starts
      word := fun e found => List.mem_takeWhile_imp found
      visible := fun e found => names.visible e ((List.takeWhile_sublist _).subset found) }
    refine ⟨_, d, rest, visible, ?_, exists_tail whole⟩
    obtain ⟨tail, shown⟩ := exists_tail whole (superclass.map String.toList)
    rw [shown]
    exact declared?_broken single strange visible

/-- A generated declaration without anything written by hand is replaced by another one of the class
exactly if all characters of the name belong to words and neither the name nor the old superclass
looks like the beginning of a list of interfaces. -/
theorem mergeClassDecl_declaration_iff (names : AreNames name superclass)
    (names' : AreNames name superclass') (starts : name.toList.head? ≠ some '$') :
    mergeClassDecl (declarationChars name.toList (superclass.map String.toList))
        (declarationChars name.toList (superclass'.map String.toList)) =
        declarationChars name.toList (superclass'.map String.toList) ↔
      (∀ c ∈ name.toList, Text.isWord c = true) ∧ ¬ "implements".toList <:+: name.toList ∧
        ∀ parent ∈ superclass, ¬ "implements".toList <:+: parent.toList := by
  have replaced := declarationChars_eq name.toList (superclass'.map String.toList)
  by_cases word : ∀ c ∈ name.toList, Text.isWord c = true
  · have merged := mergeClassDecl_of_declared (names'.declared? word)
      (declarationChars_eq name.toList (superclass.map String.toList)) (comesFirst_head _)
    have looks : "implements".toList <:+:
        declarationChars name.toList (superclass.map String.toList) ↔
          "implements".toList <:+: name.toList ∨
            ∃ parent ∈ superclass, "implements".toList <:+: parent.toList := by
      rw [isInfix_declaration_iff]
      cases superclass <;> simp
    rw [Declared.head_eq, Declared.ofNames] at merged
    rw [merged, and_iff_right word]
    conv =>
      lhs
      rhs
      rw [replaced]
    rw [List.append_right_inj, List.append_right_inj, Declared.ofNames, List.append_right_inj,
      interfaces_eq_iff, looks]
    simp only [not_or, not_exists, not_and]
  · refine iff_of_false (fun same => ?_) fun both => word both.1
    simp only [not_forall, Bool.not_eq_true] at word
    obtain ⟨c, found, apart⟩ := word
    obtain ⟨front, d, rest, visible, declares, cut⟩ := names'.exists_declared? starts found apart
    obtain ⟨tail, old⟩ := cut (superclass.map String.toList)
    obtain ⟨tail', new⟩ := cut (superclass'.map String.toList)
    have merged := mergeClassDecl_of_declared declares old (comesFirst_head _)
    rw [merged, new, Declared.head_eq, List.append_right_inj, List.append_right_inj] at same
    have blank : isBlank ' ' = true ∧ isBlank '\n' = true := by decide
    obtain ⟨-, shown⟩ | ⟨more, shown⟩ :=
      interfaces_cases (declarationChars name.toList (superclass.map String.toList))
    · rw [shown] at same
      obtain ⟨rfl, -⟩ := List.cons.inj same
      exact absurd visible (by simp [blank])
    · rw [shown] at same
      obtain ⟨rfl, -⟩ := List.cons.inj same
      exact absurd visible (by simp [blank])

-- the name is cut at the dollar sign, and the superclass is lost
example : mergeClassDecl "public class A$B\n\x7b".toList "public class A$B extends C\n\x7b".toList =
    "public class A\n\x7b".toList := by
  decide

end Named

end ClassWeaver.Fragment
