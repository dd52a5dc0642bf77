import ClassWeaver.Proofs.Fragment.Frame
import ClassWeaver.Proofs.Fragment.Insertion
import ClassWeaver.Proofs.Fragment.Shape

set_option autoImplicit false

/-!
Class bodies that lose some of their fragments and are read again. Each fragment of a body is read of
a piece of text that is cut off in the same way in front of any other piece, but for the last one,
which may end in front of the closing brace only. Main statement: whatever fragments are left of a
body, hand-written code among them is found as hand-written code again.
-/

namespace ClassWeaver.Fragment

/-- Says whether a fragment is written by hand, or protected: no update may change it. -/
def isHandWritten (fragment : Fragment) : Bool :=
  fragment.key != .gap && (fragment.isProtected || ! fragment.key.isIndexed)

def HasHandWritten (fragments : List Fragment) : Prop :=
  ∃ fragment ∈ fragments, fragment.isHandWritten = true

instance (fragments : List Fragment) : Decidable (HasHandWritten fragments) :=
  inferInstanceAs (Decidable (∃ fragment ∈ fragments, _))

theorem HasHandWritten.cons {fragments : List Fragment} (has : HasHandWritten fragments)
    (fragment : Fragment) : HasHandWritten (fragment :: fragments) := by
  obtain ⟨other, found, written⟩ := has
  exact ⟨other, List.mem_cons_of_mem _ found, written⟩

theorem isProtected_append {key other : Key} {text : String}
    (marked : isProtected ⟨key, text⟩ = true) (before after : String) :
    isProtected ⟨other, before ++ text ++ after⟩ = true := by
  rw [isProtected, Text.contains_iff] at marked ⊢
  obtain ⟨front, back, whole⟩ := marked
  refine ⟨before.toList ++ front, back ++ after.toList, ?_⟩
  simp only [String.toList_append, ← whole, List.append_assoc]

theorem isHandWritten_append {key other : Key} {text : String}
    (written : isHandWritten ⟨key, text⟩ = true) (noGap : other ≠ .gap)
    (indexed : other.isIndexed = true → key.isIndexed = true) (before after : String) :
    isHandWritten ⟨other, before ++ text ++ after⟩ = true := by
  simp only [isHandWritten, Bool.and_eq_true, Bool.or_eq_true, Bool.not_eq_true'] at written ⊢
  refine ⟨bne_iff_ne.mpr noGap, ?_⟩
  rcases written.2 with marked | loose
  · exact .inl (isProtected_append marked before after)
  · refine .inr (Bool.eq_false_iff.mpr fun there => ?_)
    rw [indexed there] at loose
    cases loose

open Entry (isMistaken_constant pushMember_gap)
open Lexeme (code isBare ofSource stringOf textOf)
open Segment (body_gapOf gapOf)

namespace Source

variable {next : List Char → Prop} {key : Key} {text : List Char} {done : List Fragment}

theorem hasHandWritten_pushMember (has : HasHandWritten done) (member : Fragment) :
    HasHandWritten (pushMember done member) := by
  unfold Source.pushMember
  split
  · next name gap constant text rest kind =>
    split
    · obtain ⟨fragment, found, written⟩ := has
      rcases List.mem_cons.mp found with rfl | found
      · cases written
      rcases List.mem_cons.mp found with rfl | found
      · refine ⟨_, List.mem_cons_self, ?_⟩
        have noGap : member.key ≠ .gap := by simp [kind]
        have whole := isHandWritten_append written noGap (fun _ => rfl) "" (gap ++ member.text)
        rwa [String.empty_append, ← String.append_assoc] at whole
      · exact ⟨fragment, List.mem_cons_of_mem _ found, written⟩
    · exact has.cons member
  · exact has.cons member

/-- A text that is cut off as one member in front of some texts. -/
structure IsPart (next : List Char → Prop) (text : List Char) : Prop where
  begins : ∃ c rest, text = c :: rest ∧ Text.isAsciiBlank c = false ∧ c ≠ '\x7d'
  ends : ∀ more, next more → (splitMember .start (ofSource (text ++ more))).2 = ofSource more

def IsAnything (_ : List Char) : Prop :=
  True

def IsClosing (text : List Char) : Prop :=
  ∃ behind, text = '\x7d' :: behind

theorem IsPart.body (part : IsPart next text) {more : List Char} (follows : next more)
    (done : List Fragment) : body done (ofSource (text ++ more)) =
      body (pushMember done ⟨Member.key text, String.ofList text⟩) (ofSource more) := by
  have rest := part.ends more follows
  have whole := congrArg textOf (append_splitMember .start (ofSource (text ++ more)))
  rw [Lexeme.textOf_append, rest, Lexeme.textOf_ofSource, Lexeme.textOf_ofSource] at whole
  have cut := List.append_cancel_right whole
  obtain ⟨c, others, rfl, filled, noEnd⟩ := part.begins
  rw [List.cons_append] at rest cut ⊢
  rw [body_cons done filled noEnd]
  dsimp only
  rw [rest, cut]

/-- A text that is read as one fragment in front of some texts. -/
inductive Shows : (List Char → Prop) → Key → List Char → Prop
  | gap {next : List Char → Prop} {text : List Char} (blank : IsGap text) : Shows next .gap text
  | member {next : List Char → Prop} {text : List Char} (part : IsPart next text) :
    Shows next (Member.key text) text
  | property {next : List Char → Prop} {name : String} {constant gap field : List Char}
    (first : Shows IsAnything (.attributeOf ("PROPERTY_" ++ name)) constant) (between : IsGap gap)
    (second : IsPart next field) (named : Member.key field = .attributeOf name) :
    Shows next (.attributeOf name) (constant ++ gap ++ field)

theorem Shows.mono {other : List Char → Prop} (shows : Shows next key text)
    (follows : ∀ more, other more → next more) : Shows other key text := by
  have part {text : List Char} (part : IsPart next text) : IsPart other text :=
    ⟨part.begins, fun more here => part.ends more (follows more here)⟩
  cases shows with
  | gap blank => exact .gap blank
  | member whole => exact .member (part whole)
  | property first between second named => exact .property first between (part second) named

theorem IsPart.startsFilled (part : IsPart next text) (more : List Char) :
    startsFilled (text ++ more) = true := by
  obtain ⟨c, rest, rfl, filled, -⟩ := part.begins
  simp [Fragment.startsFilled, filled]

theorem Shows.startsFilled (shows : Shows next key text) (noGap : key ≠ .gap) (more : List Char) :
    startsFilled (text ++ more) = true := by
  induction shows generalizing more with
  | gap => exact absurd rfl noGap
  | member part => exact part.startsFilled more
  | property first between second named ih =>
    rw [List.append_assoc, List.append_assoc]
    exact ih (by simp) _

theorem Shows.isGap (shows : Shows next key text) (gap : key = .gap) : IsGap text := by
  cases shows with
  | gap blank => exact blank
  | member part => exact absurd gap (Member.key_ne rfl (by decide) text)
  | property => cases gap

theorem Shows.exists_body (shows : Shows next key text) (noGap : key ≠ .gap) (done : List Fragment) :
    ∃ front rest, (∀ more, next more → body done (ofSource (text ++ more)) =
        body (⟨key, front ++ String.ofList text⟩ :: rest) (ofSource more)) ∧
      (HasHandWritten done → HasHandWritten (⟨key, front ++ String.ofList text⟩ :: rest)) := by
  induction shows with
  | gap => exact absurd rfl noGap
  | @member next text part =>
    obtain ⟨front, rest, pushed⟩ :=
      exists_pushMember done ⟨Member.key text, String.ofList text⟩
    refine ⟨front, rest, fun more follows => ?_, fun has => ?_⟩
    · rw [part.body follows, pushed]
    · exact pushed ▸ hasHandWritten_pushMember has ⟨Member.key text, String.ofList text⟩
  | @property next name constant gap field first between second named ih =>
    obtain ⟨front, rest, read, kept⟩ := ih (by simp)
    have same : front ++ String.ofList (constant ++ gap ++ field) =
        front ++ String.ofList constant ++ String.ofList gap ++ String.ofList field := by
      simp [String.append_assoc]
    refine ⟨front, rest, fun more follows => ?_, fun has => ?_⟩
    · rw [List.append_assoc, List.append_assoc, read _ trivial,
        body_gap _ between.filled between.blank (second.startsFilled more), second.body follows, named,
        pushMember_gap, if_pos (isMistaken_constant name), ← same]
    · obtain ⟨fragment, found, written⟩ := kept has
      rcases List.mem_cons.mp found with rfl | found
      · refine ⟨_, List.mem_cons_self, ?_⟩
        have whole := @isHandWritten_append _ (.attributeOf name) _ written (by simp) (fun _ => rfl) ""
          (String.ofList gap ++ String.ofList field)
        rwa [String.empty_append, ← String.append_assoc, ← same] at whole
      · exact ⟨fragment, List.mem_cons_of_mem _ found, written⟩

/-- Fragments in reverse each of which is read of its own text in front of those behind it. -/
inductive AreShown : (List Char → Prop) → List Fragment → Prop
  | nil {next : List Char → Prop} : AreShown next []
  | cons {next : List Char → Prop} {fragment : Fragment} {done : List Fragment}
    (before : AreShown IsAnything done) (last : Shows next fragment.key fragment.text.toList) :
    AreShown next (fragment :: done)

theorem AreShown.mono {fragments : List Fragment} {other : List Char → Prop}
    (shown : AreShown next fragments) (follows : ∀ more, other more → next more) :
    AreShown other fragments := by
  cases shown with
  | nil => exact .nil
  | cons before last => exact .cons before (last.mono follows)

/-- Whatever fragments are left, each is read of its own text. -/
theorem AreShown.sublist {fragments fewer : List Fragment} (shown : AreShown next fragments)
    (thinner : fewer.Sublist fragments) : AreShown next fewer := by
  induction shown generalizing fewer with
  | nil =>
    rw [List.sublist_nil.mp thinner]
    exact .nil
  | cons before last ih =>
    rcases List.sublist_cons_iff.mp thinner with others | ⟨rest, rfl, others⟩
    · exact (ih others).mono fun _ _ => trivial
    · exact .cons (ih others) last

theorem charsOf_reverse_cons (fragment : Fragment) (done : List Fragment) :
    charsOf (fragment :: done).reverse = charsOf done.reverse ++ fragment.text.toList := by
  rw [List.reverse_cons, charsOf_append, charsOf_cons, charsOf_nil, List.append_nil]

theorem AreShown.exists_body {fragments : List Fragment} (shown : AreShown next fragments) :
    ∃ done gap, (∀ c ∈ gap, Text.isAsciiBlank c = true) ∧
      (HasHandWritten fragments → HasHandWritten done) ∧
      ∀ more, next more → body [] (ofSource (charsOf fragments.reverse ++ more)) =
        body done (ofSource (gap ++ more)) := by
  induction shown with
  | nil => exact ⟨[], [], List.forall_mem_nil _, id, fun _ _ => rfl⟩
  | @cons next fragment done before last ih =>
    obtain ⟨read, gap, blank, kept, whole⟩ := ih
    by_cases white : fragment.key = .gap
    · refine ⟨read, gap ++ fragment.text.toList, List.forall_mem_append.mpr ⟨blank, ?_⟩, fun has => ?_,
        fun rest _ => ?_⟩
      · exact (last.isGap white).blank
      · obtain ⟨other, found, written⟩ := has
        rcases List.mem_cons.mp found with rfl | found
        · simp [isHandWritten, white] at written
        · exact kept ⟨other, found, written⟩
      · rw [charsOf_reverse_cons, List.append_assoc, List.append_assoc, whole _ trivial]
    · obtain ⟨front, rest, reads, stays⟩ := last.exists_body white (gapOf gap ++ read)
      rw [String.ofList_toList] at reads stays
      refine ⟨⟨fragment.key, front ++ fragment.text⟩ :: rest, [], List.forall_mem_nil _, fun has => ?_,
        fun after follows => ?_⟩
      · obtain ⟨other, found, written⟩ := has
        rcases List.mem_cons.mp found with rfl | found
        · refine ⟨_, List.mem_cons_self, ?_⟩
          have joined := isHandWritten_append written white id front ""
          rwa [String.append_empty] at joined
        · obtain ⟨same, there, still⟩ := kept ⟨other, found, written⟩
          exact stays ⟨same, List.mem_append_right _ there, still⟩
      · rw [charsOf_reverse_cons, List.append_assoc, whole _ trivial,
          body_gapOf _ blank (last.startsFilled white after), reads after follows]
        rfl

theorem AreShown.pushMember (shown : AreShown IsAnything done) (part : IsPart next text) :
    AreShown next (pushMember done ⟨Member.key text, String.ofList text⟩) := by
  have alone : AreShown next (⟨Member.key text, String.ofList text⟩ :: done) := by
    refine .cons shown ?_
    rw [String.toList_ofList]
    exact .member part
  unfold Source.pushMember
  split
  · next name gap constant first rest kind =>
    split
    · next same =>
      subst same
      cases shown with
      | cons before between =>
        cases before with
        | cons before constant =>
          refine .cons before ?_
          dsimp only at kind
          rw [String.toList_append, String.toList_append, String.toList_ofList, kind]
          exact .property constant (between.isGap rfl) part kind
    · exact alone
  · exact alone

section Scanned

variable {lexeme : Lexeme} {rest part left : List Lexeme}
  (scanned : ofSource (textOf (lexeme :: rest)) = lexeme :: rest)
  (filled : ¬ lexeme.isBlank = true) (noEnd : ¬ (lexeme == code '\x7d') = true)
  (cut : part ++ left = lexeme :: rest) (some : part ≠ [])
include scanned filled noEnd cut some

private theorem begins_of_scanned : ∃ c others, textOf part = c :: others ∧
    Text.isAsciiBlank c = false ∧ c ≠ '\x7d' := by
  obtain ⟨first, tail, rfl⟩ := List.exists_cons_of_ne_nil some
  obtain ⟨rfl, -⟩ := List.cons.inj cut
  cases whole : textOf (first :: rest) with
  | nil =>
    rw [whole, ofSource] at scanned
    cases scanned
  | cons d more =>
    rw [whole, ofSource] at scanned
    obtain ⟨here, -⟩ := List.cons.inj scanned
    have text := Lexeme.append_split d more
    obtain ⟨c, others, shown, same⟩ := Lexeme.isFaithful_split d more
    rw [here] at text shown same
    refine ⟨c, others ++ textOf tail, by rw [Lexeme.textOf_cons, shown, List.cons_append], ?_, ?_⟩
    · rw [same]
      exact Bool.eq_false_iff.mpr filled
    · rintro rfl
      rw [shown, List.cons_append] at text
      obtain ⟨rfl, -⟩ := List.cons.inj text
      rw [Lexeme.split_of_isBare (by decide)] at here
      exact noEnd (beq_iff_eq.mpr here.symm)

private theorem isPart_of_endsMember (ends : EndsMember part)
    (again : ∀ more, splitMember .start (part ++ more) = (part, more)) :
    IsPart IsAnything (textOf part) where
  begins := begins_of_scanned scanned filled noEnd cut some
  ends := by
    intro more _
    obtain ⟨front, c, last, rfl⟩ := ends
    have bare : isBare c = true := by rcases last with rfl | rfl <;> decide
    rw [← cut, List.append_assoc] at scanned
    rw [Lexeme.textOf_append, List.append_assoc]
    have whole := Lexeme.ofSource_of_cut bare scanned more
    change (splitMember .start (ofSource (textOf front ++ c :: more))).2 = _
    rw [whole, List.append_cons, again]

private theorem isPart_of_brace {behind : List Lexeme} (brace : left = code '\x7d' :: behind)
    (again : ∀ more, splitMember .start (part ++ code '\x7d' :: more) = (part, code '\x7d' :: more)) :
    IsPart IsClosing (textOf part) where
  begins := begins_of_scanned scanned filled noEnd cut some
  ends := by
    rintro _ ⟨more, rfl⟩
    have bare : isBare '\x7d' = true := by decide
    rw [← cut, brace] at scanned
    rw [Lexeme.ofSource_of_cut bare scanned more, again, Lexeme.ofSource_cons_of_isBare bare]

end Scanned

theorem exists_shown {lexemes : List Lexeme} (scanned : ofSource (textOf lexemes) = lexemes)
    (shown : AreShown IsAnything done) (unended : ∀ fragment ∈ done, fragment.key ≠ .classEnd)
    (ended : ∃ fragment ∈ body done lexemes, fragment.key = .classEnd) :
    ∃ inner behind, AreShown IsClosing inner ∧ body done lexemes =
      fragments .unclassified (afterBlanks behind) ++ fragments .gap (blanks behind)
        ++ ⟨.classEnd, "\x7d"⟩ :: inner := by
  fun_induction body done lexemes with
  | case1 done =>
    obtain ⟨fragment, found, same⟩ := ended
    exact absurd same (unended fragment found)
  | case2 done lexeme rest blank ih =>
    have parts : lexeme :: rest = lexeme :: blanks rest ++ afterBlanks rest := by
      rw [List.cons_append, blanks_append_afterBlanks]
    have white : ∀ other ∈ lexeme :: blanks rest, other.isBlank = true :=
      List.forall_mem_cons.mpr ⟨blank, fun _ found => List.mem_takeWhile_imp found⟩
    have tidy := isTidy_gap (List.cons_ne_nil lexeme (blanks rest)) white
    refine ih (Lexeme.ofSource_textOf (scanned.trans parts)) (.cons shown ?_)
      (List.forall_mem_cons.mpr ⟨by simp, unended⟩) ended
    exact .gap ⟨tidy.filled, tidy.blank rfl⟩
  | case3 done lexeme rest filled brace =>
    rw [beq_iff_eq] at brace
    exact ⟨done, rest, shown.mono fun _ _ => trivial, by rw [brace]; rfl⟩
  | case4 done lexeme rest filled inside member text ih =>
    have cut : member.1 ++ member.2 = lexeme :: rest := append_splitMember .start (lexeme :: rest)
    have some : member.1 ≠ [] := splitMember_ne_nil rest (by simpa using inside)
    have later : ∀ fragment ∈ pushMember done ⟨Member.key text, String.ofList text⟩,
        fragment.key ≠ .classEnd :=
      @forall_mem_pushMember (· ≠ .classEnd) done ⟨Member.key text, String.ofList text⟩
        (Member.key_ne rfl (by decide) text) unended
    rcases splitMember_cases .start (lexeme :: rest) with none | ⟨⟨behind, brace⟩, again⟩ | ⟨ends, again⟩
    · rw [show member.2 = [] from none, body] at ended
      obtain ⟨fragment, found, same⟩ := ended
      exact absurd same (later fragment found)
    · refine ⟨_, behind, shown.pushMember (isPart_of_brace scanned filled inside cut some brace again), ?_⟩
      rw [show member.2 = code '\x7d' :: behind from brace, body_brace]
    · exact ih (Lexeme.ofSource_textOf (scanned.trans cut.symm))
        (shown.pushMember (isPart_of_endsMember scanned filled inside cut some ends again)) later ended

end Source

end ClassWeaver.Fragment
