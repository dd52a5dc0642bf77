import ClassWeaver.Proofs.Fragment.Tidiness

set_option autoImplicit false

/-!
The shape of what is read. Main statement: whatever a source text is, its fragments are a start, what
stands in front of a class, the class with its members and the end of the class with at most a gap and
one text behind it; gaps are white space and stand apart, and nothing else begins with white space.
-/

namespace ClassWeaver.Fragment

namespace Key

def isHeading : Key → Bool
  | package | importOf _ | gap | text _ => true
  | _ => false

def isInner : Key → Bool
  | attributeOf _ | methodOf _ | constructorOf _ | gap | text _ => true
  | _ => false

def endings : List (List Key) :=
  [[], [.gap], [.unclassified], [.gap, .unclassified]]

inductive AreBody : List Key → Prop
  | unended {inner : List Key} (inside : ∀ key ∈ inner, key.isInner = true) : AreBody inner
  | ended {inner behind : List Key} (inside : ∀ key ∈ inner, key.isInner = true)
    (few : behind ∈ endings) : AreBody (inner ++ .classEnd :: behind)

inductive AreFile : List Key → Prop
  | classless {front : List Key} (before : ∀ key ∈ front, key.isHeading = true) : AreFile front
  | declared {front body : List Key} (before : ∀ key ∈ front, key.isHeading = true)
    (within : AreBody body) : AreFile (front ++ .classDecl :: body)

variable {keys front back before after : List Key} {key mark : Key}

theorem AreFile.append (heading : ∀ key ∈ front, key.isHeading = true) (file : AreFile keys) :
    AreFile (front ++ keys) := by
  cases file with
  | classless before => exact .classless (List.forall_mem_append.mpr ⟨heading, before⟩)
  | declared before within =>
    rw [← List.append_assoc]
    exact .declared (List.forall_mem_append.mpr ⟨heading, before⟩) within

theorem exists_of_append_eq {α : Type} {front back before after : List α} {mark a : α}
    (whole : front ++ mark :: back = before ++ a :: after) (behind : a ∉ front) (other : a ≠ mark) :
    ∃ between, before = front ++ mark :: between ∧ back = between ++ a :: after := by
  rcases List.append_eq_append_iff.mp whole with ⟨cut, same, rest⟩ | ⟨cut, same, rest⟩
  · cases cut with
    | nil => exact absurd (List.cons.inj rest).1.symm other
    | cons first between =>
      obtain ⟨rfl, inside⟩ := List.cons.inj rest
      exact ⟨between, same, inside⟩
  · cases cut with
    | nil => exact absurd (List.cons.inj rest).1 other
    | cons first others =>
      obtain ⟨rfl, -⟩ := List.cons.inj rest
      exact absurd (same ▸ List.mem_append_right _ List.mem_cons_self) behind

theorem exists_of_eq_append {α : Type} {front back before after : List α} {mark a : α}
    (whole : front ++ mark :: back = before ++ a :: after) (outside : a ∉ back) (other : a ≠ mark) :
    ∃ between, front = before ++ a :: between ∧ after = between ++ mark :: back := by
  rcases List.append_eq_append_iff.mp whole with ⟨cut, -, same⟩ | ⟨cut, rfl, same⟩
  · have found : a ∈ mark :: back := same ▸ List.mem_append_right cut List.mem_cons_self
    exact absurd ((List.mem_cons.mp found).resolve_left other) outside
  · cases cut with
    | nil => exact absurd (List.cons.inj same).1 other
    | cons first between =>
      obtain ⟨rfl, rfl⟩ := List.cons.inj same
      exact ⟨between, rfl, rfl⟩

theorem gap_or_unclassified {behind : List Key} (few : behind ∈ endings) :
    ∀ key ∈ behind, key = .gap ∨ key = .unclassified := by
  have all : ∀ behind ∈ endings, ∀ key ∈ behind, key = .gap ∨ key = .unclassified := by decide
  exact all behind few

theorem classEnd_notMem_of_endings {behind : List Key} (few : behind ∈ endings) :
    Key.classEnd ∉ behind := by
  intro found
  rcases gap_or_unclassified few _ found with same | same <;> cases same

namespace AreBody

theorem isInner_or (body : AreBody keys) : ∀ key ∈ keys, key.isInner = true ∨ key = .classEnd := by
  intro key found
  cases body with
  | unended inside => exact .inl (inside key found)
  | ended inside few =>
    rcases List.mem_append.mp found with found | found
    · exact .inl (inside key found)
    · rcases List.mem_cons.mp found with rfl | found
      · exact .inr rfl
      · rcases gap_or_unclassified few key found with rfl | rfl
        · exact .inl rfl
        · exact .inl rfl

theorem notMem (body : AreBody keys) (outside : key.isInner = false) (other : key ≠ .classEnd) :
    key ∉ keys := by
  intro found
  rcases body.isInner_or key found with inner | same
  · rw [outside] at inner
    cases inner
  · exact other same

theorem count_classEnd_le (body : AreBody keys) : keys.count .classEnd ≤ 1 := by
  cases body with
  | unended inside =>
    have none : Key.classEnd ∉ keys := fun found => nomatch inside _ found
    rw [List.count_eq_zero_of_not_mem none]
    exact Nat.zero_le 1
  | @ended inner behind inside few =>
    have before : Key.classEnd ∉ inner := fun found => nomatch inside _ found
    rw [List.count_append, List.count_cons_self, List.count_eq_zero_of_not_mem before,
      List.count_eq_zero_of_not_mem (classEnd_notMem_of_endings few)]

theorem mem_endings (body : AreBody (before ++ .classEnd :: after)) : after ∈ endings := by
  generalize whole : before ++ Key.classEnd :: after = keys at body
  cases body with
  | unended inside =>
    have inner := inside .classEnd (whole ▸ List.mem_append_right _ List.mem_cons_self)
    cases inner
  | @ended inner behind inside few =>
    have front : Key.classEnd ∉ inner := fun found => nomatch inside _ found
    obtain ⟨-, -, rfl⟩ :=
      (List.append_cons_inj_of_notMem front (classEnd_notMem_of_endings few)).mp whole.symm
    exact few

theorem classEnd_notMem (body : AreBody (before ++ key :: after)) (member : key.isMember = true) :
    Key.classEnd ∉ before := by
  intro found
  obtain ⟨front, between, rfl⟩ := List.append_of_mem found
  rw [List.append_assoc, List.cons_append] at body
  have inside : key ∈ between ++ key :: after := List.mem_append_right _ List.mem_cons_self
  rcases gap_or_unclassified body.mem_endings key inside with rfl | rfl
  · cases member
  · cases member

end AreBody

/-- Says that the keys of a source file stand in order: one start in front, at most one class and one end
of it, the package and the imports in front of the class, and the members inside. -/
structure AreOrdered (keys : List Key) : Prop where
  started : ∃ rest, keys = .start :: rest ∧ .start ∉ rest
  classOnce : keys.count .classDecl ≤ 1
  endOnce : keys.count .classEnd ≤ 1
  heading : ∀ before after, keys = before ++ .classDecl :: after →
    .package ∉ after ∧ ∀ name, .importOf name ∉ after
  members : ∀ before key after, keys = before ++ key :: after → key.isMember = true →
    .classDecl ∈ before ∧ .classEnd ∉ before
  ended : ∀ before after, keys = before ++ .classEnd :: after →
    .classDecl ∈ before ∧ after ∈ endings

theorem notMem_start (heading : ∀ key ∈ front, key.isHeading = true)
    (outside : key.isHeading = false) (other : key ≠ .start) : key ∉ .start :: front := by
  intro found
  rcases List.mem_cons.mp found with same | found
  · exact other same
  · rw [heading key found] at outside
    cases outside

theorem isHeading_of_isMember (member : key.isMember = true) : key.isHeading = false := by
  cases key <;> first | rfl | cases member

theorem AreFile.areOrdered (file : AreFile keys) : AreOrdered (.start :: keys) := by
  cases file with
  | classless before =>
    have absent (key : Key) (outside : key.isHeading = false) (other : key ≠ .start)
        {front back : List Key} (whole : .start :: keys = front ++ key :: back) : False :=
      notMem_start before outside other (whole ▸ List.mem_append_right _ List.mem_cons_self)
    have noClass : Key.classDecl ∉ Key.start :: keys := notMem_start before rfl nofun
    have noEnd : Key.classEnd ∉ Key.start :: keys := notMem_start before rfl nofun
    refine ⟨⟨keys, rfl, fun found => nomatch before _ found⟩, ?_, ?_, ?_, ?_, ?_⟩
    · rw [List.count_eq_zero_of_not_mem noClass]
      exact Nat.zero_le 1
    · rw [List.count_eq_zero_of_not_mem noEnd]
      exact Nat.zero_le 1
    · intro _ _ whole
      exact (absent .classDecl rfl nofun whole).elim
    · intro _ key _ whole member
      exact (absent key (isHeading_of_isMember member) (by rintro rfl; cases member) whole).elim
    · intro _ _ whole
      exact (absent .classEnd rfl nofun whole).elim
  | @declared front body before within =>
    have noClass : Key.classDecl ∉ Key.start :: front := notMem_start before rfl nofun
    have noEnd : Key.classEnd ∉ Key.start :: front := notMem_start before rfl nofun
    have noStart : Key.start ∉ body := within.notMem rfl nofun
    have once : Key.classDecl ∉ body := within.notMem rfl nofun
    rw [← List.cons_append]
    refine ⟨⟨_, rfl, ?_⟩, ?_, ?_, ?_, ?_, ?_⟩
    · intro found
      rcases List.mem_append.mp found with found | found
      · cases before _ found
      · exact noStart ((List.mem_cons.mp found).resolve_left nofun)
    · rw [List.count_append, List.count_cons_self, List.count_eq_zero_of_not_mem noClass,
        List.count_eq_zero_of_not_mem once]
    · have other : Key.classEnd ≠ Key.classDecl := nofun
      rw [List.count_append, List.count_cons_of_ne other.symm, List.count_eq_zero_of_not_mem noEnd,
        Nat.zero_add]
      exact within.count_classEnd_le
    · intro left right whole
      obtain ⟨-, -, rfl⟩ := (List.append_cons_inj_of_notMem noClass once).mp whole
      exact ⟨within.notMem rfl nofun, fun name => within.notMem rfl nofun⟩
    · intro left key right whole member
      have outside : key ∉ Key.start :: front :=
        notMem_start before (isHeading_of_isMember member) (by rintro rfl; cases member)
      obtain ⟨between, rfl, rfl⟩ := exists_of_append_eq whole outside (by rintro rfl; cases member)
      refine ⟨List.mem_append_right _ List.mem_cons_self, fun found => ?_⟩
      rcases List.mem_append.mp found with found | found
      · exact noEnd found
      · exact within.classEnd_notMem member ((List.mem_cons.mp found).resolve_left nofun)
    · intro left right whole
      obtain ⟨between, rfl, rfl⟩ := exists_of_append_eq whole noEnd nofun
      exact ⟨List.mem_append_right _ List.mem_cons_self, within.mem_endings⟩

end Key

namespace Source

open Key (AreBody AreFile)
open Lexeme (stringOf)

variable {lexemes : List Lexeme} {done : List Fragment}

theorem isInner_memberKey (text : List Char) : (Member.key text).isInner = true := by
  rcases Member.isMember_key text with member | unclassified
  · cases shown : Member.key text <;> first | rfl | simp [shown, Key.isMember] at member
  · rw [unclassified]
    rfl

theorem isHeading_statementKey (statement : List Lexeme) :
    (statementKey statement).isHeading = true := by
  rw [statementKey]
  split <;> rfl

theorem keys_mem_endings (rest : List Lexeme) :
    (fragments .gap (blanks rest) ++ fragments .unclassified (afterBlanks rest)).map (·.key) ∈
      Key.endings := by
  rw [fragments, fragments]
  split <;> split <;> simp [Key.endings]

theorem areBody_body (inside : ∀ fragment ∈ done, fragment.key.isInner = true) :
    AreBody ((body done lexemes).reverse.map (·.key)) := by
  have listed {done : List Fragment} (inside : ∀ fragment ∈ done, fragment.key.isInner = true) :
      ∀ key ∈ done.reverse.map (·.key), key.isInner = true := by
    simpa using inside
  fun_induction body done lexemes with
  | case1 done => exact .unended (listed inside)
  | case2 done lexeme rest _ ih => exact ih (List.forall_mem_cons.mpr ⟨rfl, inside⟩)
  | case3 done lexeme rest =>
    have turned (key : Key) (row : List Lexeme) :
        (fragments key row).reverse = fragments key row := by
      rw [fragments]
      split <;> rfl
    have closed := AreBody.ended (listed inside) (keys_mem_endings rest)
    simpa [turned] using closed
  | case4 done lexeme rest _ _ member text ih =>
    exact ih (@forall_mem_pushMember (·.isInner = true) done ⟨Member.key text, String.ofList text⟩
      (isInner_memberKey text) inside)

theorem areFile_header (lexemes : List Lexeme) : AreFile ((header lexemes).map (·.key)) := by
  have heading {key : Key} (free : key.isHeading = true) (row : List Lexeme) :
      ∀ other ∈ (fragments key row).map (·.key), other.isHeading = true := by
    rw [fragments]
    split <;> simp [free]
  fun_induction header lexemes with
  | case1 => exact .classless (List.forall_mem_nil _)
  | case2 lexeme rest _ ih => exact ih.append (List.forall_mem_singleton.mpr rfl)
  | case3 lexeme rest _ comments next _ statement ih =>
    have declared : ∀ key ∈ [statementKey statement.1], key.isHeading = true :=
      List.forall_mem_singleton.mpr (isHeading_statementKey statement.1)
    rw [List.map_append, List.map_append, List.append_assoc]
    exact ((ih.append declared).append (heading rfl (blanks comments.2))).append
      (heading rfl comments.1)
  | case4 lexeme rest => exact .classless (heading rfl (lexeme :: rest))
  | case5 lexeme rest _ comments next _ declaration more _ =>
    have members : AreBody ((body [] more).reverse.map (·.key)) :=
      areBody_body (List.forall_mem_nil _)
    exact @AreFile.declared [] _ (List.forall_mem_nil _) members

end Source

/-- What the fragments of a source file are: a start, and tidy fragments in order. -/
structure Store.IsSourceFile (store : Store) : Prop where
  tidy : ∃ opening rest, store.fragments = ⟨.start, opening⟩ :: rest ∧ AreTidy rest
  ordered : Key.AreOrdered (store.fragments.map (·.key))

/-- Every text is read as a source file, and as the whole of it. -/
theorem Store.isSourceFile_parse (source : String) :
    (Store.parse source).IsSourceFile ∧ (Store.parse source).render = source := by
  have parts := Source.append_opening (Lexeme.ofSource source.toList)
  have faithful :
      ∀ lexeme ∈ (Source.opening (Lexeme.ofSource source.toList)).2, lexeme.IsFaithful := by
    intro lexeme found
    exact Lexeme.isFaithful_of_mem lexeme (parts ▸ List.mem_append_right _ found)
  have tidy := Source.areTidy_header faithful
  have ordered := (Source.areFile_header (Source.opening (Lexeme.ofSource source.toList)).2).areOrdered
  exact ⟨⟨⟨_, _, rfl, tidy⟩, ordered⟩, render_parse source⟩

end ClassWeaver.Fragment
