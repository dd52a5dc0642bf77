import ClassWeaver.Proofs.Fragment.ClassHeader
import ClassWeaver.Proofs.Fragment.MemberGrammar
import Mathlib.Data.List.SplitBy

set_option autoImplicit false

/-!
Taking a class body apart into its members. Main statement: a class header, members of the grammar and
a closing brace, with white space between them, are read as exactly these members, except that a
constant with the name of a property is put together with the field of that name behind it.
-/

namespace ClassWeaver.Fragment

theorem Member.isMember_key (text : List Char) :
    (Member.key text).isMember = true ∨ Member.key text = .unclassified := by
  have invocable (header beforeParams : List Char) :
      (Member.invocableKey header beforeParams).isMember = true ∨
        Member.invocableKey header beforeParams = .unclassified := by
    rw [Member.invocableKey]
    split
    · exact .inr rfl
    · dsimp only
      split <;> exact .inl rfl
  have field (header : List Char) :
      (Member.fieldKey header).isMember = true ∨ Member.fieldKey header = .unclassified := by
    rw [Member.fieldKey]
    split
    · split
      · exact .inl rfl
      · exact .inr rfl
    · exact .inr rfl
  rw [Member.key]
  dsimp only
  split
  · exact .inr rfl
  split
  · exact invocable _ _
  split
  · exact .inr rfl
  · exact field _

theorem Member.key_ne {key : Key} (noMember : key.isMember = false) (other : key ≠ .unclassified)
    (text : List Char) : Member.key text ≠ key := by
  rintro rfl
  rcases Member.isMember_key text with member | unclassified
  · rw [noMember] at member
    cases member
  · exact other unclassified

theorem Source.pushMember_of_key_ne_gap {first : Fragment} (other : first.key ≠ .gap)
    (done : List Fragment) (member : Fragment) :
    pushMember (first :: done) member = member :: first :: done := by
  unfold pushMember
  split
  · next whole =>
    rw [(List.cons.inj whole).1] at other
    exact absurd rfl other
  · rfl

/-- A member of a class body with the white space in front of it. -/
structure Segment where
  gap : List Char
  text : List Char

namespace Segment

open Source (body pushMember splitMember)
open Grammar (MemberText)
open Lexeme (ofSource)

def chars (segment : Segment) : List Char :=
  segment.gap ++ segment.text

def key (segment : Segment) : Key :=
  Member.key segment.text

structure IsSound (segment : Segment) : Prop where
  blank : ∀ c ∈ segment.gap, Text.isAsciiBlank c = true
  filled : segment.text.head?.all (! Text.isAsciiBlank ·) = true
  member : MemberText segment.text

/-- Says whether a member is put together with the one behind it: it is the constant with the name of
the property that is declared there, and there is white space between them. -/
def isJoined (first second : Segment) : Bool :=
  ! second.gap.isEmpty && Entry.isMistaken first.key second.key

/-- The text of members that are put together, from the first one on. -/
def textOf : List Segment → List Char
  | [] => []
  | first :: others => first.text ++ others.flatMap chars

def joined (group : List Segment) : Fragment :=
  ⟨(group.getLast?.map key).getD .unclassified, String.ofList (textOf group)⟩

def gapOf (gap : List Char) : List Fragment :=
  if gap.isEmpty then [] else [⟨.gap, String.ofList gap⟩]

/-- What is read of members that are put together, with the gap in front of them. -/
def fragmentsOf (group : List Segment) : List Fragment :=
  gapOf ((group.head?.map gap).getD []) ++ [joined group]

theorem reverse_gapOf (gap : List Char) : (gapOf gap).reverse = gapOf gap := by
  rw [gapOf]
  split <;> rfl

theorem textOf_concat {group : List Segment} (some : group ≠ []) (last : Segment) :
    textOf (group ++ [last]) = textOf group ++ last.chars := by
  cases group with
  | nil => exact absurd rfl some
  | cons first others => simp [textOf]

theorem reverse_fragmentsOf (group : List Segment) :
    (fragmentsOf group).reverse = joined group :: gapOf ((group.head?.map gap).getD []) := by
  rw [fragmentsOf, List.reverse_append, reverse_gapOf]
  rfl

theorem pushMember_fragmentsOf (front : List Segment) (last next : Segment) (done : List Fragment) :
    pushMember (gapOf next.gap ++ ((fragmentsOf (front ++ [last])).reverse ++ done))
        ⟨next.key, String.ofList next.text⟩ =
      if isJoined last next then (fragmentsOf (front ++ [last] ++ [next])).reverse ++ done
      else (fragmentsOf [next]).reverse ++ ((fragmentsOf (front ++ [last])).reverse ++ done) := by
  have ends : (joined (front ++ [last])).key = last.key := by simp [joined]
  have alone : joined [next] = ⟨next.key, String.ofList next.text⟩ := by simp [joined, textOf]
  have whole : joined (front ++ [last] ++ [next]) = ⟨next.key, (joined (front ++ [last])).text
      ++ String.ofList next.gap ++ String.ofList next.text⟩ := by
    rw [joined, joined, textOf_concat (by simp)]
    simp [chars, String.append_assoc]
  have head : (front ++ [last] ++ [next]).head? = (front ++ [last]).head? := by
    cases front <;> rfl
  rw [reverse_fragmentsOf, reverse_fragmentsOf, reverse_fragmentsOf, whole, head, alone,
    List.head?_singleton, Option.map_some, Option.getD_some]
  cases gapped : next.gap with
  | nil =>
    have other : (joined (front ++ [last])).key ≠ .gap := by
      rw [ends]
      exact @Member.key_ne .gap rfl (by decide) last.text
    have apart : isJoined last next = false := by simp [isJoined, gapped]
    rw [apart, if_neg Bool.false_ne_true]
    exact Source.pushMember_of_key_ne_gap other _ _
  | cons c gap =>
    have same : isJoined last next = Entry.isMistaken last.key next.key := by
      simp [isJoined, gapped]
    have pushed := Entry.pushMember_gap (joined (front ++ [last]))
      ⟨next.key, String.ofList next.text⟩ (String.ofList (c :: gap))
    rw [ends] at pushed
    rw [same]
    exact pushed _

theorem startsFilled_append {text : List Char} (filled : text.head?.all (! Text.isAsciiBlank ·) = true)
    (some : text ≠ []) (rest : List Char) : startsFilled (text ++ rest) = true := by
  cases text with
  | nil => exact absurd rfl some
  | cons c text => exact filled

theorem body_gapOf (done : List Fragment) {gap text : List Char}
    (blank : ∀ c ∈ gap, Text.isAsciiBlank c = true) (filled : startsFilled text = true) :
    body done (ofSource (gap ++ text)) = body (gapOf gap ++ done) (ofSource text) := by
  cases gap with
  | nil => rfl
  | cons c gap => exact Source.body_gap done (by simp) blank filled

theorem exists_cons_of_memberText {text : List Char} (member : MemberText text) :
    ∃ c rest, text = c :: rest ∧ c ≠ '\x7d' := by
  have front {head : List Char} (run : Grammar.Run false head) {d : Char} (other : d ≠ '\x7d')
      (rest : List Char) : ∃ c more, head ++ d :: rest = c :: more ∧ c ≠ '\x7d' := by
    cases run with
    | nil => exact ⟨d, rest, rfl, other⟩
    | plain other => exact ⟨_, _, rfl, by rintro rfl; simp at other⟩
    | skip skipped later =>
      cases skipped with
      | lineComment => exact ⟨_, _, rfl, by decide⟩
      | blockComment => exact ⟨_, _, rfl, by decide⟩
      | literal mark => exact ⟨_, _, rfl, by rcases mark with rfl | rfl <;> decide⟩
    | parens within later => exact ⟨_, _, rfl, by decide⟩
    | block allowed => cases allowed
  cases member with
  | declared run => exact front run (by decide) _
  | withBody run balanced =>
    rw [List.append_assoc]
    exact front run (by decide) _
  | initialized run given =>
    rw [List.append_assoc]
    exact front run (by decide) _

theorem body_text (done : List Fragment) {segment : Segment} (sound : segment.IsSound)
    (rest : List Char) : body done (ofSource (segment.text ++ rest)) =
      body (pushMember done ⟨segment.key, String.ofList segment.text⟩) (ofSource rest) := by
  obtain ⟨c, tail, whole, noEnd⟩ := exists_cons_of_memberText sound.member
  have filled : Text.isAsciiBlank c = false := by simpa [whole] using sound.filled
  have left : (splitMember .start (ofSource (segment.text ++ rest))).2 = ofSource rest :=
    Source.leftOver_memberText sound.member rest
  have cut := congrArg Lexeme.textOf
    (Source.append_splitMember .start (ofSource (segment.text ++ rest)))
  rw [Lexeme.textOf_append, left, Lexeme.textOf_ofSource, Lexeme.textOf_ofSource,
    List.append_cancel_right_eq] at cut
  rw [whole, List.cons_append, Source.body_cons done filled noEnd, ← List.cons_append, ← whole]
  dsimp only
  rw [cut, left]
  rfl

theorem body_segments {segments : List Segment} (sound : ∀ segment ∈ segments, segment.IsSound)
    (last : Segment) (front : List Segment) (groups : List (List Segment)) (rest : List Char) :
    body (((groups.reverse ++ [(last :: front).reverse]).flatMap fragmentsOf).reverse)
        (ofSource (segments.flatMap chars ++ rest)) =
      body ((List.splitBy.loop isJoined segments last front groups).flatMap fragmentsOf).reverse
        (ofSource rest) := by
  induction segments generalizing last front groups with
  | nil =>
    rw [List.splitBy.loop, List.reverse_cons (a := (last :: front).reverse)]
    rfl
  | cons next segments ih =>
    have here := sound next List.mem_cons_self
    have later := fun other inside => sound other (List.mem_cons_of_mem next inside)
    have filled : startsFilled (next.text ++ (segments.flatMap chars ++ rest)) = true := by
      obtain ⟨c, tail, whole, -⟩ := exists_cons_of_memberText here.member
      exact startsFilled_append here.filled (by simp [whole]) _
    have done : ((groups.reverse ++ [(last :: front).reverse]).flatMap fragmentsOf).reverse =
        (fragmentsOf (front.reverse ++ [last])).reverse
          ++ (groups.reverse.flatMap fragmentsOf).reverse := by
      simp
    have step : body ((groups.reverse ++ [(last :: front).reverse]).flatMap fragmentsOf).reverse
          (ofSource ((next :: segments).flatMap chars ++ rest)) =
        body (if isJoined last next then
            (fragmentsOf (front.reverse ++ [last] ++ [next])).reverse
              ++ (groups.reverse.flatMap fragmentsOf).reverse
          else (fragmentsOf [next]).reverse ++ ((fragmentsOf (front.reverse ++ [last])).reverse
            ++ (groups.reverse.flatMap fragmentsOf).reverse))
          (ofSource (segments.flatMap chars ++ rest)) := by
      rw [List.flatMap_cons, chars, List.append_assoc, List.append_assoc,
        body_gapOf _ here.blank filled, body_text _ here, done, pushMember_fragmentsOf]
    rw [step, List.splitBy.loop]
    cases joins : isJoined last next with
    | true =>
      rw [if_pos rfl]
      have joined := ih later next (last :: front) groups
      simpa using joined
    | false =>
      rw [if_neg Bool.false_ne_true]
      have apart := ih later next [] ((last :: front).reverse :: groups)
      simpa using apart

theorem body_splitBy {segments : List Segment} (sound : ∀ segment ∈ segments, segment.IsSound)
    (rest : List Char) :
    body [] (ofSource (segments.flatMap chars ++ rest)) =
      body ((segments.splitBy isJoined).flatMap fragmentsOf).reverse (ofSource rest) := by
  cases segments with
  | nil => rfl
  | cons first segments =>
    have here := sound first List.mem_cons_self
    have later := fun other inside => sound other (List.mem_cons_of_mem first inside)
    have filled : startsFilled (first.text ++ (segments.flatMap chars ++ rest)) = true := by
      obtain ⟨c, tail, whole, -⟩ := exists_cons_of_memberText here.member
      exact startsFilled_append here.filled (by simp [whole]) _
    have alone : pushMember (gapOf first.gap ++ []) ⟨first.key, String.ofList first.text⟩ =
        (fragmentsOf [first]).reverse := by
      rw [reverse_fragmentsOf, gapOf]
      split <;> simp_all [pushMember, joined, textOf, gapOf]
    rw [List.flatMap_cons, chars, List.append_assoc, List.append_assoc, body_gapOf _ here.blank filled,
      body_text _ here, alone, List.splitBy]
    have read := body_segments later first [] [] rest
    simpa using read

theorem key_joined_ne {key : Key} (noMember : key.isMember = false) (other : key ≠ .unclassified)
    (group : List Segment) : (joined group).key ≠ key := by
  rw [joined]
  cases group.getLast? with
  | none => exact other.symm
  | some last => exact Member.key_ne noMember other last.text

theorem key_of_mem_gapOf {gap : List Char} {fragment : Fragment} (found : fragment ∈ gapOf gap) :
    fragment.key = .gap := by
  rw [gapOf] at found
  split at found
  · cases found
  · rw [List.mem_singleton.mp found]

theorem filter_gapOf (gap : List Char) : (gapOf gap).filter (·.key != .gap) = [] :=
  List.filter_eq_nil_iff.mpr fun fragment found => by simp [key_of_mem_gapOf found]

theorem exists_body_end (done : List Fragment) (rest : List Char) :
    ∃ after, body done (ofSource ('\x7d' :: rest)) = after ++ ⟨.classEnd, "\x7d"⟩ :: done := by
  rw [Lexeme.ofSource_cons_of_isBare (by decide), Source.body_brace]
  exact ⟨_, rfl⟩

theorem filter_fragmentsOf (group : List Segment) :
    (fragmentsOf group).filter (·.key != .gap) = [joined group] := by
  have kept := @key_joined_ne .gap rfl (by decide) group
  rw [fragmentsOf, List.filter_append, filter_gapOf]
  simp [kept]

private theorem loop_of_apart {segments : List Segment} {last : Segment}
    (apart : (last :: segments).IsChain fun a b => isJoined a b = false)
    (groups : List (List Segment)) :
    List.splitBy.loop isJoined segments last [] groups =
      groups.reverse ++ (last :: segments).map ([·]) := by
  induction segments generalizing last groups with
  | nil => simp [List.splitBy.loop]
  | cons next segments ih =>
    obtain ⟨here, later⟩ := List.isChain_cons_cons.mp apart
    rw [List.splitBy.loop, here]
    simp [ih later]

theorem splitBy_of_apart {segments : List Segment}
    (apart : segments.IsChain fun a b => isJoined a b = false) :
    segments.splitBy isJoined = segments.map ([·]) := by
  cases segments with
  | nil => rfl
  | cons first segments => exact loop_of_apart apart []

end Segment

open Segment (isJoined joined fragmentsOf gapOf)
open Lexeme (ofSource)

/-- A class is read as its members. After a class header, members of the grammar and a closing brace,
with white space between them, what stands between the class declaration and the end of the class is,
apart from gaps, one fragment for each member, except that a constant with the name of a property is
put together with the field of that name if white space separates them. -/
theorem Store.parse_members {header : List Char} (opened : Source.IsClassHeader header)
    {segments : List Segment} (sound : ∀ segment ∈ segments, segment.IsSound) {gap : List Char}
    (blank : ∀ c ∈ gap, Text.isAsciiBlank c = true) (rest : List Char) :
    ∃ front declaration between after,
      (Store.parse (String.ofList
          (header ++ (segments.flatMap Segment.chars ++ (gap ++ '\x7d' :: rest))))).fragments =
        front ++ ⟨.classDecl, declaration⟩ :: between ++ ⟨.classEnd, "\x7d"⟩ :: after ∧
      (∀ fragment ∈ front ++ between, fragment.key ≠ .classDecl ∧ fragment.key ≠ .classEnd) ∧
      between.filter (·.key != .gap) = (segments.splitBy isJoined).map joined ∧
      (segments.IsChain (fun a b => isJoined a b = false) →
        (between.filter (·.key != .gap)).map (·.text) =
          segments.map fun segment => String.ofList segment.text) := by
  obtain ⟨after, ended⟩ := Segment.exists_body_end
    ((gapOf gap).reverse ++ ((segments.splitBy isJoined).flatMap fragmentsOf).reverse) rest
  have filled : startsFilled ('\x7d' :: rest) = true := rfl
  have read := opened.parse (segments.flatMap Segment.chars ++ (gap ++ '\x7d' :: rest))
  rw [Segment.body_splitBy sound, Segment.body_gapOf _ blank filled, ← Segment.reverse_gapOf, ended]
    at read
  have between : ((segments.splitBy isJoined).flatMap fragmentsOf ++ gapOf gap).filter
      (·.key != .gap) = (segments.splitBy isJoined).map joined := by
    have gaps : (gapOf gap).filter (·.key != .gap) = [] :=
      List.filter_eq_nil_iff.mpr fun fragment found => by simp [Segment.key_of_mem_gapOf found]
    rw [List.filter_append, gaps, List.append_nil, List.filter_flatMap]
    rw [List.map_eq_flatMap]
    exact List.flatMap_congr fun group _ => Segment.filter_fragmentsOf group
  refine ⟨⟨.start, ""⟩ :: Source.fragments .gap (Source.blanks (ofSource header)),
    Lexeme.stringOf (Source.afterBlanks (ofSource header)),
    (segments.splitBy isJoined).flatMap fragmentsOf ++ gapOf gap, after.reverse, ?_, ?_, between,
    fun apart => ?_⟩
  · rw [read]
    simp
  · intro fragment found
    rw [List.mem_append] at found
    rcases found with inFront | found
    · rcases List.mem_cons.mp inFront with rfl | inGap
      · exact ⟨by simp, by simp⟩
      · rw [Source.fragments] at inGap
        split at inGap
        · cases inGap
        · rw [List.mem_singleton.mp inGap]
          exact ⟨by simp, by simp⟩
    · by_cases blank : fragment.key = .gap
      · rw [blank]
        exact ⟨by simp, by simp⟩
      · have kept : fragment ∈ ((segments.splitBy isJoined).flatMap fragmentsOf
            ++ gapOf gap).filter (·.key != .gap) :=
          List.mem_filter.mpr ⟨found, by simpa using blank⟩
        rw [between] at kept
        obtain ⟨group, -, rfl⟩ := List.mem_map.mp kept
        exact ⟨@Segment.key_joined_ne .classDecl rfl (by decide) group,
          @Segment.key_joined_ne .classEnd rfl (by decide) group⟩
  · rw [between, Segment.splitBy_of_apart apart]
    simp [joined, Segment.textOf]

open Grammar

private def printing : Segment :=
  ⟨['\n'], "void f() \x7b g('\x7d'); \x7d".toList⟩

private def constant : Segment :=
  ⟨['\n'], "String PROPERTY_y = \"y\";".toList⟩

private def field : Segment :=
  ⟨['\n'], "int y;".toList⟩

private theorem isSound_printing : printing.IsSound := by
  have head : Run false ("void f".toList ++ ('(' :: [] ++ ')' :: [' '])) :=
    .ordinary (by decide) (.parens .nil (@Run.ordinary false [' '] [] (by decide) .nil))
  have plain {c : Char} {rest : List Char} (other : c ≠ '"' ∧ c ≠ '\'' ∧ c ≠ '/') : IsPlain c rest :=
    ⟨other.1, other.2.1, fun slash => absurd slash other.2.2⟩
  have literal : Skipped ['\'', '\x7d', '\''] [')', ';', ' '] :=
    .literal (.inr rfl) (.plain (by decide) (by decide) (by decide) .close) (by decide)
  have body : Balanced '\x7b' '\x7d' [' ', 'g', '(', '\'', '\x7d', '\'', ')', ';', ' '] :=
    .plain (by decide) (plain (by decide)) <| .plain (by decide) (plain (by decide)) <|
      .plain (by decide) (plain (by decide)) <| .skip literal <|
      .plain (by decide) (plain (by decide)) <| .plain (by decide) (plain (by decide)) <|
      .plain (by decide) (plain (by decide)) .nil
  exact ⟨by decide, by decide, .withBody head body⟩

private theorem isSound_constant : constant.IsSound := by
  have literal : Skipped ['"', 'y', '"'] [] :=
    .literal (.inl rfl) (.plain (by decide) (by decide) (by decide) .close) (by decide)
  have head := @Run.ordinary false "String PROPERTY_y ".toList [] (by decide) .nil
  have value := @Run.ordinary true [' '] _ (by decide) (.skip literal .nil)
  exact ⟨by decide, by decide, .initialized head value⟩

private theorem isSound_field : field.IsSound := by
  have head := @Run.ordinary false "int y".toList [] (by decide) .nil
  exact ⟨by decide, by decide, .declared head⟩

/-- Of three members the last two are put together, and the brace in the first ends nothing. -/
theorem Store.parse_three_members :
    ∃ front declaration between after,
      (Store.parse (String.ofList ("class A \x7b".toList
          ++ ([printing, constant, field].flatMap Segment.chars ++ (['\n'] ++ ['\x7d']))))).fragments =
        front ++ ⟨.classDecl, declaration⟩ :: between ++ ⟨.classEnd, "\x7d"⟩ :: after ∧
      between.filter (·.key != .gap) =
        [⟨.methodOf "f()", "void f() \x7b g('\x7d'); \x7d"⟩,
          ⟨.attributeOf "y", "String PROPERTY_y = \"y\";\nint y;"⟩] := by
  have opened : Source.IsClassHeader "class A \x7b".toList := ⟨by decide +kernel, by decide +kernel⟩
  have sound : ∀ segment ∈ [printing, constant, field], segment.IsSound := by
    rw [List.forall_mem_cons, List.forall_mem_cons, List.forall_mem_singleton]
    exact ⟨isSound_printing, isSound_constant, isSound_field⟩
  have grouped : ([printing, constant, field].splitBy isJoined).map joined =
      [⟨.methodOf "f()", "void f() \x7b g('\x7d'); \x7d"⟩,
        ⟨.attributeOf "y", "String PROPERTY_y = \"y\";\nint y;"⟩] := by
    decide +kernel
  obtain ⟨front, declaration, between, after, read, -, kept, -⟩ :=
    @Store.parse_members _ opened _ sound ['\n'] (by decide) []
  exact ⟨front, declaration, between, after, read, kept.trans grouped⟩

end ClassWeaver.Fragment
