import ClassWeaver.Proofs.Fragment.Commuting
import ClassWeaver.Proofs.Fragment.Continuation

set_option autoImplicit false

/-!
How fragments begin. Main statement: of what is read of a text a gap is white space, nothing else begins
with white space, and no two gaps stand side by side.
-/

namespace ClassWeaver.Fragment

namespace Lexeme

/-- Says that the text of a lexeme begins with white space just when the lexeme is white space. -/
def IsFaithful (lexeme : Lexeme) : Prop :=
  ∃ c rest, lexeme.text = c :: rest ∧ Text.isAsciiBlank c = lexeme.isBlank

theorem isFaithful_split (c : Char) (rest : List Char) : (split c rest).1.IsFaithful := by
  have whole := append_split c rest
  have shorter := length_split_lt c rest
  cases shown : (split c rest).1.text with
  | nil =>
    rw [shown, List.nil_append] at whole
    rw [whole] at shorter
    exact absurd shorter (Nat.lt_irrefl _)
  | cons first others =>
    rw [shown, List.cons_append] at whole
    obtain ⟨rfl, -⟩ := List.cons.inj whole
    exact ⟨first, others, shown, (isBlank_split first rest).symm⟩

theorem isFaithful_of_mem {source : List Char} :
    ∀ lexeme ∈ ofSource source, lexeme.IsFaithful := by
  fun_induction ofSource source with
  | case1 => exact List.forall_mem_nil _
  | case2 c rest ih => exact List.forall_mem_cons.mpr ⟨isFaithful_split c rest, ih⟩

end Lexeme

open Lexeme (ofSource code stringOf textOf)

/-- Says that a fragment is white space if it is a gap, and begins with something else if not. -/
structure IsTidy (fragment : Fragment) : Prop where
  filled : fragment.text.toList ≠ []
  blank : fragment.key = .gap → ∀ c ∈ fragment.text.toList, Text.isAsciiBlank c = true
  visible : fragment.key ≠ .gap →
    fragment.text.toList.head?.any (! Text.isAsciiBlank ·) = true

theorem isTidy_gap {row : List Lexeme} (some : row ≠ [])
    (blank : ∀ lexeme ∈ row, lexeme.isBlank = true) : IsTidy ⟨.gap, stringOf row⟩ := by
  have shown : ∀ lexeme ∈ row, ∃ c, lexeme = code c ∧ Text.isAsciiBlank c = true := by
    intro lexeme found
    have seen := blank lexeme found
    cases lexeme with
    | code c => exact ⟨c, rfl, seen⟩
    | comment _ => cases seen
    | literal _ => cases seen
  refine ⟨?_, ?_, fun other => absurd rfl other⟩
  · rw [Lexeme.toList_stringOf]
    obtain ⟨lexeme, others, rfl⟩ := List.exists_cons_of_ne_nil some
    obtain ⟨c, rfl, -⟩ := shown lexeme List.mem_cons_self
    exact List.cons_ne_nil _ _
  · intro _ c found
    rw [Lexeme.toList_stringOf, textOf, List.mem_flatMap] at found
    obtain ⟨lexeme, listed, inside⟩ := found
    obtain ⟨d, rfl, same⟩ := shown lexeme listed
    rw [List.mem_singleton.mp inside]
    exact same

theorem isTidy_part {key : Key} {part behind lexemes : List Lexeme} (other : key ≠ .gap)
    (whole : part ++ behind = lexemes) (some : part ≠ [])
    (faithful : ∀ lexeme ∈ lexemes, lexeme.IsFaithful)
    (filled : ∀ first ∈ lexemes.head?, first.isBlank = false) : IsTidy ⟨key, stringOf part⟩ := by
  obtain ⟨lexeme, row, rfl⟩ := List.exists_cons_of_ne_nil some
  subst whole
  obtain ⟨c, rest, shown, same⟩ := faithful lexeme List.mem_cons_self
  have first : Text.isAsciiBlank c = false := same.trans (filled lexeme rfl)
  have text : (stringOf (lexeme :: row)).toList = c :: (rest ++ textOf row) := by
    rw [Lexeme.toList_stringOf, Lexeme.textOf_cons, shown, List.cons_append]
  refine ⟨?_, fun gap => absurd gap other, fun _ => ?_⟩
  · rw [text]
    exact List.cons_ne_nil _ _
  · rw [text]
    simp [first]

theorem IsTidy.append {key other : Key} {text : String} (tidy : IsTidy ⟨key, text⟩)
    (noGap : key ≠ .gap) (noOther : other ≠ .gap) (more : String) : IsTidy ⟨other, text ++ more⟩ := by
  have front := tidy.visible noGap
  cases shown : text.toList with
  | nil => exact absurd shown tidy.filled
  | cons c rest =>
    simp only [shown, List.head?_cons, Option.any_some] at front
    refine ⟨?_, fun gap => absurd gap noOther, fun _ => ?_⟩
    · simp [shown]
    · simp [shown, front]

structure AreTidy (fragments : List Fragment) : Prop where
  tidy : ∀ fragment ∈ fragments, fragment.IsTidy
  apart : GapsApart fragments

namespace AreTidy

variable {fragment : Fragment} {fragments : List Fragment}

theorem nil : AreTidy [] :=
  ⟨List.forall_mem_nil _, List.isChain_nil⟩

theorem cons (tidy : fragment.IsTidy)
    (next : fragment.key = .gap → ∀ other ∈ fragments.head?, other.key ≠ .gap)
    (later : AreTidy fragments) : AreTidy (fragment :: fragments) := by
  refine ⟨List.forall_mem_cons.mpr ⟨tidy, later.tidy⟩, List.isChain_cons.mpr ⟨?_, later.apart⟩⟩
  intro other first gap
  exact next gap other first

theorem cons_of_ne (other : fragment.key ≠ .gap) (tidy : fragment.IsTidy)
    (later : AreTidy fragments) : AreTidy (fragment :: fragments) :=
  cons tidy (fun gap => absurd gap other) later

theorem tail (tidy : AreTidy (fragment :: fragments)) : AreTidy fragments :=
  ⟨fun other found => tidy.tidy other (List.mem_cons_of_mem _ found), List.IsChain.tail tidy.apart⟩

theorem reverse (tidy : AreTidy fragments) : AreTidy fragments.reverse := by
  refine ⟨fun fragment found => tidy.tidy fragment (List.mem_reverse.mp found), ?_⟩
  refine List.isChain_reverse.mpr (tidy.apart.imp ?_)
  intro first second apart gap before
  exact apart before gap

end AreTidy

namespace Source

variable {key : Key} {lexemes part behind : List Lexeme} {done later : List Fragment}

theorem head_afterBlanks (lexemes : List Lexeme) :
    ∀ first ∈ (afterBlanks lexemes).head?, first.isBlank = false := by
  intro first found
  have kept := List.head?_dropWhile_not Lexeme.isBlank lexemes
  rw [afterBlanks] at found
  rw [Option.mem_def.mp found] at kept
  exact kept

theorem mem_of_mem_afterBlanks {lexeme : Lexeme} (found : lexeme ∈ afterBlanks lexemes) :
    lexeme ∈ lexemes :=
  (List.dropWhile_suffix _).subset found

theorem areTidy_fragments (other : key ≠ .gap) (whole : part ++ behind = lexemes)
    (faithful : ∀ lexeme ∈ lexemes, lexeme.IsFaithful)
    (filled : ∀ first ∈ lexemes.head?, first.isBlank = false) (tidy : AreTidy later) :
    AreTidy (fragments key part ++ later) := by
  cases part with
  | nil => exact tidy
  | cons first part =>
    have front := isTidy_part other whole (List.cons_ne_nil first part) faithful filled
    exact tidy.cons_of_ne other front

theorem isTidy_blanks {lexeme : Lexeme} (blank : lexeme.isBlank = true) (rest : List Lexeme) :
    IsTidy ⟨.gap, stringOf (lexeme :: blanks rest)⟩ := by
  have row : ∀ other ∈ lexeme :: blanks rest, other.isBlank = true :=
    List.forall_mem_cons.mpr ⟨blank, fun _ found => List.mem_takeWhile_imp found⟩
  exact isTidy_gap (List.cons_ne_nil _ _) row

theorem faithful_afterBlanks {lexeme : Lexeme} {rest : List Lexeme}
    (faithful : ∀ other ∈ lexeme :: rest, other.IsFaithful) :
    ∀ other ∈ afterBlanks rest, other.IsFaithful := by
  intro other found
  exact faithful other (List.mem_cons_of_mem _ (mem_of_mem_afterBlanks found))

theorem areTidy_blanks (next : ∀ first ∈ later.head?, first.key ≠ .gap) (tidy : AreTidy later) :
    AreTidy (fragments .gap (blanks lexemes) ++ later) := by
  have blank : ∀ lexeme ∈ blanks lexemes, lexeme.isBlank = true :=
    fun _ found => List.mem_takeWhile_imp found
  cases row : blanks lexemes with
  | nil => exact tidy
  | cons lexeme others =>
    rw [row] at blank
    exact tidy.cons (isTidy_gap (List.cons_ne_nil _ _) blank) fun _ => next

theorem areTidy_pushMember {member : Fragment} (other : member.key ≠ .gap) (tidy : member.IsTidy)
    (before : AreTidy done) : AreTidy (pushMember done member) := by
  unfold pushMember
  split
  · split
    · rename_i name gap constant text rest named _
      have first : IsTidy ⟨.attributeOf constant, text⟩ :=
        before.tidy _ (List.mem_cons_of_mem _ List.mem_cons_self)
      have joined : IsTidy ⟨member.key, text ++ gap ++ member.text⟩ := by
        rw [String.append_assoc]
        exact first.append (by simp) other _
      exact before.tail.tail.cons_of_ne other joined
    · exact before.cons_of_ne other tidy
  · exact before.cons_of_ne other tidy

theorem areTidy_body (faithful : ∀ lexeme ∈ lexemes, lexeme.IsFaithful) (before : AreTidy done)
    (next : ∀ last ∈ done.head?, last.key = .gap → ∀ first ∈ lexemes.head?, first.isBlank = false) :
    AreTidy (body done lexemes) := by
  fun_induction body done lexemes with
  | case1 => exact before
  | case2 done lexeme rest blank ih =>
    have solid : ∀ last ∈ done.head?, last.key ≠ .gap := by
      intro last found same
      have filled := next last found same lexeme rfl
      rw [blank] at filled
      cases filled
    have after := before.cons (isTidy_blanks blank rest) fun _ => solid
    exact ih (faithful_afterBlanks faithful) after fun _ _ _ => head_afterBlanks rest
  | case3 done lexeme rest filled brace =>
    have later := faithful_afterBlanks faithful
    have front : ∀ first ∈ (lexeme :: rest).head?, first.isBlank = false := by simpa using filled
    have closed : AreTidy (⟨.classEnd, stringOf [lexeme]⟩ :: done) :=
      before.cons_of_ne (by simp) (isTidy_part (by decide) rfl (List.cons_ne_nil _ _) faithful front)
    have gap : AreTidy (fragments .gap (blanks rest) ++ ⟨.classEnd, stringOf [lexeme]⟩ :: done) :=
      areTidy_blanks (by simp) closed
    rw [List.append_assoc]
    exact areTidy_fragments (by decide) (List.append_nil _) later (head_afterBlanks rest) gap
  | case4 done lexeme rest filled inside member text ih =>
    have cut := append_splitMember .start (lexeme :: rest)
    have front : ∀ first ∈ (lexeme :: rest).head?, first.isBlank = false := by simpa using filled
    have other : Member.key text ≠ .gap := @Member.key_ne .gap rfl (by decide) text
    have tidy : IsTidy ⟨Member.key text, stringOf member.1⟩ :=
      isTidy_part other cut (splitMember_ne_nil rest (by simpa using inside)) faithful front
    refine ih ?_ (areTidy_pushMember other tidy before) ?_
    · intro other found
      exact faithful other (cut ▸ List.mem_append_right _ found)
    · -- Whether it was put together with its constant or not, a member is at the front now.
      intro last found gap
      obtain ⟨shown, others, pushed⟩ :=
        exists_pushMember done ⟨Member.key text, String.ofList text⟩
      rw [pushed] at found
      obtain rfl := Option.some.inj found
      exact absurd gap other

theorem statementKey_ne_gap (statement : List Lexeme) : statementKey statement ≠ .gap := by
  rw [statementKey]
  split <;> simp

theorem head_header (filled : ∀ first ∈ lexemes.head?, first.isBlank = false) :
    ∀ first ∈ (header lexemes).head?, first.key ≠ .gap := by
  cases lexemes with
  | nil => simp [header]
  | cons lexeme rest =>
    have first : lexeme.isBlank = false := by simpa using filled
    rw [header_of_filled (by simp [first])]
    split
    · cases comments : (splitComments (lexeme :: rest)).1 with
      | nil =>
        have whole := append_splitComments (lexeme :: rest)
        rw [comments, List.nil_append] at whole
        have none : blanks (lexeme :: rest) = [] := by simp [blanks, first]
        rw [whole, none]
        simpa [fragments] using statementKey_ne_gap _
      | cons comment more => simp [fragments, Key.unclassified]
    · split
      · simp [fragments, Key.unclassified]
      · simp

theorem areTidy_header (faithful : ∀ lexeme ∈ lexemes, lexeme.IsFaithful) :
    AreTidy (header lexemes) := by
  fun_induction header lexemes with
  | case1 => exact .nil
  | case2 lexeme rest blank ih =>
    have next := head_header (head_afterBlanks rest)
    have later := ih (faithful_afterBlanks faithful)
    exact later.cons (isTidy_blanks blank rest) fun _ => next
  | case3 lexeme rest filled comments next found statement ih =>
    have front : ∀ first ∈ (lexeme :: rest).head?, first.isBlank = false := by simpa using filled
    have commented := append_splitComments (lexeme :: rest)
    have inside : ∀ other ∈ next, other.IsFaithful := fun other listed =>
      faithful other (commented ▸ List.mem_append_right _ (mem_of_mem_afterBlanks listed))
    have cut := append_splitStatement next
    have later : ∀ other ∈ statement.2, other.IsFaithful :=
      fun other listed => inside other (cut ▸ List.mem_append_right _ listed)
    have noGap := statementKey_ne_gap statement.1
    have declared := isTidy_part noGap cut (splitStatement_ne_nil (ne_nil_of_isStatement found))
      inside (head_afterBlanks _)
    have gap : AreTidy (fragments .gap (blanks comments.2)
        ++ ⟨statementKey statement.1, stringOf statement.1⟩ :: header statement.2) :=
      areTidy_blanks (by simpa using noGap) ((ih later).cons_of_ne noGap declared)
    rw [List.append_assoc]
    exact areTidy_fragments (by decide) commented faithful front gap
  | case4 lexeme rest filled =>
    have front : ∀ first ∈ (lexeme :: rest).head?, first.isBlank = false := by simpa using filled
    have whole : AreTidy (fragments .unclassified (lexeme :: rest) ++ []) :=
      areTidy_fragments (by decide) (List.append_nil _) faithful front .nil
    rwa [List.append_nil] at whole
  | case5 lexeme rest filled comments next _ declaration more cut =>
    have front : ∀ first ∈ (lexeme :: rest).head?, first.isBlank = false := by simpa using filled
    have whole := append_of_splitTopLevel? cut
    have later : ∀ other ∈ more, other.IsFaithful :=
      fun other listed => faithful other (whole ▸ List.mem_append_right _ listed)
    have members := areTidy_body later .nil (by simp)
    have declared : IsTidy ⟨.classDecl, stringOf declaration⟩ :=
      isTidy_part (by decide) whole (ne_nil_of_splitTopLevel? cut) faithful front
    exact members.reverse.cons_of_ne (by simp) declared

end Source

end ClassWeaver.Fragment
