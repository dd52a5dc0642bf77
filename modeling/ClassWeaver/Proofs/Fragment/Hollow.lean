import ClassWeaver.Proofs.Fragment.Assembly
import ClassWeaver.Proofs.Fragment.ClassHeader
import ClassWeaver.Proofs.Fragment.Lookup

set_option autoImplicit false

/-!
Files of classes without members. Main statements: a file without members whose class is empty stays
so when its package, its class and the end of it are declared once more, and a text whose only
opening brace is followed by the end of the class is read as such a file.
-/

namespace ClassWeaver.Fragment

namespace Key

/-- Keys that stand outside of the class: all but those of members and of the class itself. -/
def isOuter : Key → Bool
  | classDecl | classEnd | attributeOf _ | methodOf _ | constructorOf _ => false
  | _ => true

theorem isMember_of_isOuter {key : Key} (outer : key.isOuter = true) : key.isMember = false := by
  cases key <;> first | rfl | cases outer

/-- The keys of a file without members whose class, if it declares one, holds nothing but gaps. -/
inductive AreHollow : List Key → Prop
  | bare {front : List Key} (before : ∀ key ∈ front, key.isOuter = true) : AreHollow front
  | framed {front gaps back : List Key} (before : ∀ key ∈ front, key.isOuter = true)
    (inside : ∀ key ∈ gaps, key = .gap) (behind : ∀ key ∈ back, key.isOuter = true) :
    AreHollow (front ++ .classDecl :: (gaps ++ .classEnd :: back))

variable {keys : List Key}

theorem AreHollow.append {front : List Key} (outer : ∀ key ∈ front, key.isOuter = true)
    (hollow : AreHollow keys) : AreHollow (front ++ keys) := by
  cases hollow with
  | bare before => exact .bare (List.forall_mem_append.mpr ⟨outer, before⟩)
  | framed before inside behind =>
    rw [← List.append_assoc]
    exact .framed (List.forall_mem_append.mpr ⟨outer, before⟩) inside behind

theorem AreHollow.not_isMember (hollow : AreHollow keys) {key : Key} (found : key ∈ keys) :
    key.isMember = false := by
  cases hollow with
  | bare before => exact isMember_of_isOuter (before key found)
  | framed before inside behind =>
    simp only [List.mem_append, List.mem_cons] at found
    rcases found with found | rfl | found | rfl | found
    · exact isMember_of_isOuter (before key found)
    · rfl
    · rw [inside key found]
      rfl
    · rfl
    · exact isMember_of_isOuter (behind key found)

def declare (key : Key) (keys : List Key) : List Key :=
  if key ∈ keys then keys else keys ++ [key, .gap]

theorem AreHollow.declare {key : Key} (outer : key.isOuter = true) (hollow : AreHollow keys) :
    AreHollow (declare key keys) := by
  have more : ∀ other ∈ [key, .gap], other.isOuter = true :=
    List.forall_mem_cons.mpr ⟨outer, List.forall_mem_singleton.mpr rfl⟩
  rw [Key.declare]
  split
  · exact hollow
  · cases hollow with
    | bare before => exact .bare (List.forall_mem_append.mpr ⟨before, more⟩)
    | framed before inside behind =>
      rw [List.append_assoc, List.cons_append, List.append_assoc, List.cons_append]
      exact .framed before inside (List.forall_mem_append.mpr ⟨behind, more⟩)

theorem AreHollow.declare_class (hollow : AreHollow keys) :
    AreHollow (Key.declare .classEnd (Key.declare .classDecl keys)) := by
  cases hollow with
  | bare before =>
    have framed : AreHollow (keys ++ Key.classDecl :: ([Key.gap] ++ Key.classEnd :: [Key.gap])) :=
      .framed before (List.forall_mem_singleton.mpr rfl) (List.forall_mem_singleton.mpr rfl)
    have fresh : Key.classDecl ∉ keys := fun found => by cases before _ found
    have unended : Key.classEnd ∉ keys ++ [Key.classDecl, .gap] := by
      rw [List.mem_append, not_or]
      exact ⟨fun found => by (cases before _ found), by decide⟩
    rwa [Key.declare, Key.declare, if_neg fresh, if_neg unended, List.append_assoc]
  | framed before inside behind =>
    rw [Key.declare, Key.declare, if_pos (by simp), if_pos (by simp)]
    exact .framed before inside behind

end Key

open Key (AreHollow)

namespace Store

variable {store : Store} {key : Key}

def IsHollow (store : Store) : Prop :=
  AreHollow (store.fragments.map (·.key))

theorem find?_eq_none_of_notMem (absent : key ∉ store.fragments.map (·.key)) :
    store.find? key = none := by
  rw [find?]
  split
  · exact cut?_eq_none fun fragment found same => absent (List.mem_map.mpr ⟨fragment, found, same⟩)
  · rfl

theorem notMem_of_find?_eq_none (indexed : key.isIndexed = true) (missing : store.find? key = none) :
    key ∉ store.fragments.map (·.key) := by
  intro found
  have nothing := find?_eq_none indexed missing
  obtain ⟨fragment, inside, same⟩ := List.mem_map.mp found
  rw [textsAt, List.map_eq_nil_iff, List.filter_eq_nil_iff] at nothing
  exact nothing fragment inside (by simpa using same)

theorem map_key_upsert (indexed : key.isIndexed = true) (outside : key.isMember = false)
    (other : ∀ name, key ≠ .importOf name) (store : Store) (text : String) (blank : Nat) :
    (store.upsert key text blank false).2.fragments.map (·.key) =
      key.declare (store.fragments.map (·.key)) := by
  rw [upsert, Key.declare]
  cases cut : store.find? key with
  | none =>
    rw [if_neg (notMem_of_find?_eq_none indexed cut)]
    dsimp only
    rw [if_neg Bool.false_ne_true, insert]
    split
    · next name same => exact absurd same (other name)
    · rw [outside, if_neg Bool.false_ne_true]
      dsimp only
      rw [List.map_append]
      rfl
  | some parts =>
    obtain ⟨before, found, after⟩ := parts
    obtain ⟨whole, same⟩ := find?_eq_some cut
    have present : key ∈ store.fragments.map (·.key) :=
      List.mem_map.mpr ⟨found, by simp [whole], same⟩
    rw [if_pos present]
    dsimp only
    split
    · rfl
    · rw [if_neg Bool.false_ne_true, whole, List.map_append, List.map_append, List.map_cons,
        List.map_cons, same]

theorem upsertAll_of_absent {calls : List Upsert}
    (each : ∀ call ∈ calls, call.remove = true ∧ call.key ∉ store.fragments.map (·.key)) :
    store.upsertAll calls = store := by
  induction calls with
  | nil => rfl
  | cons call rest ih =>
    obtain ⟨⟨remove, absent⟩, later⟩ := List.forall_mem_cons.mp each
    rw [upsertAll, upsert, find?_eq_none_of_notMem absent]
    dsimp only
    rw [if_pos remove]
    exact ih later

theorem IsHollow.upsertAll_removed (hollow : store.IsHollow) {calls : List Upsert}
    (each : ∀ call ∈ calls, call.remove = true ∧ call.key.isMember = true) :
    store.upsertAll calls = store := by
  refine upsertAll_of_absent fun call found => ⟨(each call found).1, fun inside => ?_⟩
  have outside := hollow.not_isMember inside
  rw [(each call found).2] at outside
  cases outside

theorem IsHollow.upsertAll_framing (hollow : store.IsHollow) (package declaration : String) :
    (store.upsertAll (Layout.framing package declaration)).IsHollow := by
  rw [Layout.framing, upsertAll, upsertAll, upsertAll, upsertAll, IsHollow]
  dsimp only
  rw [map_key_upsert rfl rfl (by simp), map_key_upsert rfl rfl (by simp),
    map_key_upsert rfl rfl (by simp)]
  exact (hollow.declare rfl).declare_class

/-- The class of a hollow file has no body. -/
theorem IsHollow.isBodyEmpty (hollow : store.IsHollow) : store.isBodyEmpty = true := by
  have absent {key : Key} {fragments : List Fragment} (inner : key.isOuter = false)
      (outer : ∀ other ∈ fragments.map (·.key), other.isOuter = true) :
      ∀ fragment ∈ fragments, fragment.key ≠ key := by
    rintro fragment found rfl
    rw [outer _ (List.mem_map_of_mem found)] at inner
    cases inner
  obtain ⟨fragments⟩ := store
  rw [IsHollow] at hollow
  dsimp only at hollow
  generalize shape : fragments.map (·.key) = keys at hollow
  cases hollow with
  | bare before =>
    have missing : find? ⟨fragments⟩ .classDecl = none :=
      cut?_eq_none (absent rfl (shape ▸ before))
    rw [isBodyEmpty, missing]
  | framed before inside behind =>
    obtain ⟨front, rest, rfl, rfl, opened⟩ := List.map_eq_append_iff.mp shape
    obtain ⟨declaration, rest, rfl, declared, filled⟩ := List.map_eq_cons_iff.mp opened
    obtain ⟨gaps, rest, rfl, rfl, closed⟩ := List.map_eq_append_iff.mp filled
    obtain ⟨last, back, rfl, ended, rfl⟩ := List.map_eq_cons_iff.mp closed
    have blank : ∀ fragment ∈ gaps, fragment.key = .gap := fun fragment found =>
      inside _ (List.mem_map_of_mem found)
    have opening : find? ⟨front ++ declaration :: (gaps ++ last :: back)⟩ .classDecl =
        some (front, declaration, gaps ++ last :: back) :=
      cut?_append_cons (absent rfl before) declared
    have closing : find? ⟨front ++ declaration :: (gaps ++ last :: back)⟩ .classEnd =
        some (front ++ declaration :: gaps, last, back) := by
      have whole : front ++ declaration :: (gaps ++ last :: back) =
          (front ++ declaration :: gaps) ++ last :: back := by simp
      rw [find?, if_pos (by rfl), whole]
      refine cut?_append_cons ?_ ended
      rw [List.forall_mem_append, List.forall_mem_cons]
      refine ⟨absent rfl before, by simp [declared], fun fragment found => ?_⟩
      simp [blank fragment found]
    have size : (front ++ declaration :: gaps).length - (front.length + 1) = gaps.length := by
      rw [List.length_append, List.length_cons]
      omega
    rw [isBodyEmpty, opening, closing]
    dsimp only
    rw [size, List.take_left, List.all_eq_true]
    intro fragment found
    rw [blank fragment found]
    rfl

end Store

/-! ### Reading -/

theorem Lexeme.ofSource_textOf {source : List Char} {before after : List Lexeme}
    (whole : ofSource source = before ++ after) : ofSource (textOf after) = after := by
  induction before generalizing source with
  | nil =>
    rw [List.nil_append] at whole
    rw [← whole, textOf_ofSource]
  | cons first before ih =>
    cases source with
    | nil =>
      rw [ofSource] at whole
      cases whole
    | cons c rest =>
      rw [ofSource, List.cons_append] at whole
      exact ih (List.cons.inj whole).2

namespace Source

open Lexeme (code ofSource textOf)

/-- What stands between the opening brace of a new class and the end of its file. -/
def closing : List Char :=
  "\n\n\x7d\n".toList

/-- Lexemes of a text in which a class without members ends behind every opening brace. -/
structure OpensNothing (lexemes : List Lexeme) : Prop where
  scanned : ofSource (textOf lexemes) = lexemes
  closed : ∀ before after, textOf lexemes = before ++ '\x7b' :: after → after = closing

variable {lexemes before after : List Lexeme}

theorem OpensNothing.of_append (quiet : OpensNothing lexemes) (whole : before ++ after = lexemes) :
    OpensNothing after where
  scanned := Lexeme.ofSource_textOf (whole ▸ quiet.scanned)
  closed := by
    intro front back found
    refine quiet.closed (textOf before ++ front) back ?_
    rw [← whole, Lexeme.textOf_append, found, List.append_assoc]

theorem body_closing : body [] (ofSource closing) =
    [⟨.gap, "\n"⟩, ⟨.classEnd, "\x7d"⟩, ⟨.gap, "\n\n"⟩] := by
  have gap : body [] (ofSource (['\n', '\n'] ++ ['\x7d', '\n'])) =
      body [⟨.gap, "\n\n"⟩] (ofSource ['\x7d', '\n']) :=
    body_gap [] (by simp) (by decide) rfl
  exact gap.trans (body_classEnd _ (by simp) (by decide))

theorem isOuter_statementKey (statement : List Lexeme) :
    (statementKey statement).isOuter = true := by
  rw [statementKey]
  split <;> rfl

theorem areHollow_header (quiet : OpensNothing lexemes) :
    AreHollow ((header lexemes).map (·.key)) := by
  have outer (key : Key) (lexemes : List Lexeme) (free : key.isOuter = true) :
      ∀ other ∈ (fragments key lexemes).map (·.key), other.isOuter = true := by
    rw [fragments]
    split <;> simp [free]
  fun_induction header lexemes with
  | case1 => exact .bare fun _ found => by cases found
  | case2 lexeme rest _ ih =>
    have whole : (lexeme :: blanks rest) ++ afterBlanks rest = lexeme :: rest := by
      rw [List.cons_append, blanks_append_afterBlanks]
    exact (ih (quiet.of_append whole)).append (List.forall_mem_singleton.mpr rfl)
  | case3 lexeme rest _ comments next _ statement ih =>
    have first := append_splitComments (lexeme :: rest)
    have second := blanks_append_afterBlanks comments.2
    have third := append_splitStatement next
    have whole : (comments.1 ++ (blanks comments.2 ++ statement.1)) ++ statement.2 =
        lexeme :: rest := by
      rw [List.append_assoc, List.append_assoc, third, second, first]
    have rest : AreHollow ([statementKey statement.1] ++ (header statement.2).map (·.key)) :=
      (ih (quiet.of_append whole)).append
        (List.forall_mem_singleton.mpr (isOuter_statementKey statement.1))
    rw [List.map_append, List.map_append, List.append_assoc]
    exact (rest.append (outer .gap (blanks comments.2) rfl)).append
      (outer .unclassified comments.1 rfl)
  | case4 lexeme rest => exact .bare (outer .unclassified (lexeme :: rest) rfl)
  | case5 lexeme rest _ comments next _ declaration more cut =>
    have whole := append_of_splitTopLevel? cut
    obtain ⟨front, rfl⟩ := exists_of_splitTopLevel? cut
    have last : textOf more = closing := by
      refine quiet.closed (textOf front) _ ?_
      rw [← whole, Lexeme.textOf_append, Lexeme.textOf_append, List.append_assoc]
      rfl
    rw [← (quiet.of_append whole).scanned, last, body_closing]
    have framed : AreHollow ([] ++ Key.classDecl :: ([Key.gap] ++ Key.classEnd :: [Key.gap])) :=
      .framed (fun _ found => by cases found) (List.forall_mem_singleton.mpr rfl)
        (List.forall_mem_singleton.mpr rfl)
    exact framed

/-- A text in which the only opening brace is followed by the end of a class without members is read
as a hollow file. -/
theorem isHollow_parse {source : String} {front : List Char} (free : '\x7b' ∉ front)
    (whole : source.toList = front ++ '\x7b' :: closing) : (Store.parse source).IsHollow := by
  have quiet : OpensNothing (ofSource source.toList) := by
    refine ⟨by rw [Lexeme.textOf_ofSource], fun before after found => ?_⟩
    rw [Lexeme.textOf_ofSource, whole] at found
    exact ((List.append_cons_inj_of_notMem free (by decide)).mp found).2.2.symm
  have parts := append_opening (ofSource source.toList)
  exact (areHollow_header (quiet.of_append parts)).append (List.forall_mem_singleton.mpr rfl)

end Source

/-! ### Writing -/

/-- Fragments that can stand in front of a class: they have no members and no opening brace. -/
def IsPreamble (front : List Fragment) : Prop :=
  ∀ fragment ∈ front, fragment.key.isOuter = true ∧ '\x7b' ∉ fragment.text.toList

namespace Store

def ending : List Fragment :=
  [⟨.gap, "\n\n"⟩, ⟨.classEnd, "\x7d"⟩, ⟨.gap, "\n"⟩]

/-- A new file of a class without members. -/
def IsFresh (declaration : String) (store : Store) : Prop :=
  ∃ front, IsPreamble front ∧ store.fragments = front ++ ⟨.classDecl, declaration⟩ :: ending

variable {store : Store} {declaration : String}

theorem IsFresh.isHollow (fresh : store.IsFresh declaration) : store.IsHollow := by
  obtain ⟨front, plain, whole⟩ := fresh
  have outer : ∀ key ∈ front.map (·.key), key.isOuter = true := by
    intro key found
    obtain ⟨fragment, inside, rfl⟩ := List.mem_map.mp found
    exact (plain fragment inside).1
  have framed : AreHollow (front.map (·.key)
      ++ Key.classDecl :: ([Key.gap] ++ Key.classEnd :: [Key.gap])) :=
    .framed outer (List.forall_mem_singleton.mpr rfl) (List.forall_mem_singleton.mpr rfl)
  rw [IsHollow, whole, List.map_append]
  exact framed

theorem isFresh_framing {package : String} (free : '\x7b' ∉ package.toList) :
    (empty.upsertAll (Layout.framing package declaration)).IsFresh declaration := by
  refine ⟨[⟨.start, ""⟩, ⟨.package, package⟩, ⟨.gap, "\n\n"⟩], ?_, ?_⟩
  · intro fragment found
    simp only [List.mem_cons, List.not_mem_nil, or_false] at found
    rcases found with rfl | rfl | rfl
    · exact ⟨rfl, by decide⟩
    · exact ⟨rfl, free⟩
    · exact ⟨rfl, by decide⟩
  · rw [Layout.toStore_new]
    rfl

theorem IsFresh.upsert_import (fresh : store.IsFresh declaration) (name : String) {text : String}
    (free : '\x7b' ∉ text.toList) (blank : Nat) :
    (store.upsert (.importOf name) text blank false).2.IsFresh declaration := by
  obtain ⟨front, plain, whole⟩ := fresh
  rw [upsert]
  cases cut : store.find? (.importOf name) with
  | none =>
    have here : store.find? .classDecl = some (front, ⟨.classDecl, declaration⟩, ending) := by
      rw [find?, if_pos (by rfl), whole]
      refine cut?_append_cons (fun fragment found same => ?_) rfl
      have outer := (plain fragment found).1
      rw [same] at outer
      cases outer
    dsimp only
    rw [if_neg Bool.false_ne_true, insert]
    dsimp only
    rw [here]
    dsimp only
    refine ⟨front.dropLast ++ [blankLines blank, ⟨.importOf name, text⟩] ++ front.getLast?.toList,
      ?_, rfl⟩
    intro fragment found
    simp only [List.mem_append, List.mem_cons, List.not_mem_nil, or_false] at found
    rcases found with (kept | rfl | rfl) | last
    · exact plain fragment (List.dropLast_subset _ kept)
    · refine ⟨rfl, ?_⟩
      simp [blankLines]
    · exact ⟨rfl, free⟩
    · exact plain fragment (List.mem_of_getLast? (by simpa using last))
  | some parts =>
    obtain ⟨before, found, after⟩ := parts
    obtain ⟨split, same⟩ := find?_eq_some cut
    dsimp only
    split
    · exact ⟨front, plain, whole⟩
    · have apart : ∀ fragment ∈ ⟨.classDecl, declaration⟩ :: ending,
          fragment.key ≠ .importOf name := by
        simp [ending]
      -- what is found stands in front of the class
      rw [split] at whole
      rcases List.append_eq_append_iff.mp whole with ⟨rest, rfl, tail⟩ | ⟨rest, rfl, tail⟩
      · cases rest with
        | nil =>
          obtain ⟨rfl, -⟩ := List.cons.inj tail
          cases same
        | cons first rest =>
          obtain ⟨rfl, rfl⟩ := List.cons.inj tail
          refine ⟨before ++ ⟨.importOf name, mergeText (.importOf name) found.text text⟩ :: rest,
            ?_, by simp⟩
          obtain ⟨left, right⟩ := List.forall_mem_append.mp plain
          refine List.forall_mem_append.mpr ⟨left, List.forall_mem_cons.mpr
            ⟨⟨rfl, fun brace => free ?_⟩, (List.forall_mem_cons.mp right).2⟩⟩
          rw [mergeText_of_replaced (by simp) (by simp), Text.trimmed, String.toList_ofList] at brace
          exact (Text.trim_isInfix _).subset brace
      · exact absurd same (apart found (tail ▸ List.mem_append_right rest List.mem_cons_self))

/-- The text of a new file is read as a hollow file if nothing but the declaration of the class has
a brace, and that at its end. -/
theorem IsFresh.isHollow_reread (fresh : store.IsFresh declaration) {header : List Char}
    (opened : declaration.toList = header ++ ['\x7b']) (free : '\x7b' ∉ header) :
    (parse store.render).IsHollow := by
  obtain ⟨front, plain, whole⟩ := fresh
  have bare : '\x7b' ∉ charsOf front ++ header := by
    rw [List.mem_append, not_or]
    refine ⟨fun found => ?_, free⟩
    obtain ⟨fragment, inside, brace⟩ := List.mem_flatMap.mp found
    exact (plain fragment inside).2 brace
  refine Source.isHollow_parse bare ?_
  rw [toList_render, whole, charsOf_append, charsOf_cons, opened]
  simp [ending, Source.closing]

end Store

end ClassWeaver.Fragment
