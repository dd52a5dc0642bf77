import ClassWeaver.Proofs.Fragment.Hollow
import ClassWeaver.Proofs.Fragment.Segmentation

set_option autoImplicit false

/-!
How a file is read that goes on in another way. Main statements: the fragments up to the class
declaration are the same whatever stands in the class, and those up to the end of a member are the same
whatever stands behind it.
-/

namespace ClassWeaver.Fragment.Source

open Lexeme (code stringOf textOf)

theorem splitStatement_of_left {lexemes : List Lexeme} (left : (splitStatement lexemes).2 ≠ [])
    (more : List Lexeme) :
    splitStatement ((splitStatement lexemes).1 ++ more) = ((splitStatement lexemes).1, more) := by
  unfold splitStatement at left ⊢
  cases cut : splitTopLevel? ';' 0 lexemes with
  | none => simp [cut] at left
  | some parts =>
    obtain ⟨before, after⟩ := parts
    simp only [Option.getD_some]
    rw [splitTopLevel?_of_cut cut more]
    rfl

theorem header_of_filled {lexemes : List Lexeme} (filled : lexemes.head?.any (! ·.isBlank) = true) :
    header lexemes =
      if isStatement (afterBlanks (splitComments lexemes).2) then
        fragments .unclassified (splitComments lexemes).1
          ++ fragments .gap (blanks (splitComments lexemes).2)
          ++ ⟨statementKey (splitStatement (afterBlanks (splitComments lexemes).2)).1,
              stringOf (splitStatement (afterBlanks (splitComments lexemes).2)).1⟩
            :: header (splitStatement (afterBlanks (splitComments lexemes).2)).2
      else
        match splitTopLevel? '\x7b' 0 lexemes with
        | none => fragments .unclassified lexemes
        | some (declaration, rest) =>
          ⟨.classDecl, stringOf declaration⟩ :: (body [] rest).reverse := by
  cases lexemes with
  | nil => cases filled
  | cons lexeme rest =>
    have first : lexeme.isBlank = false := by simpa using filled
    rw [header, first]
    exact if_neg Bool.false_ne_true

private theorem comments_append {opened : List Lexeme} (inside : code '\x7b' ∈ opened)
    (more : List Lexeme) :
    (splitComments (opened ++ more)).1 = (splitComments opened).1 ∧
      blanks (splitComments (opened ++ more)).2 = blanks (splitComments opened).2 ∧
      afterBlanks (splitComments (opened ++ more)).2 =
        afterBlanks (splitComments opened).2 ++ more ∧
      isStatement (afterBlanks (splitComments (opened ++ more)).2) =
        isStatement (afterBlanks (splitComments opened).2) := by
  have outside := mem_splitComments inside (by decide)
  have next := blanks_append outside (by decide) more
  rw [splitComments_append inside (by decide), next.1, next.2,
    isStatement_append (mem_afterBlanks outside (by decide))]
  exact ⟨rfl, rfl, rfl, rfl⟩

private theorem blanks_of_cut {rest part behind : List Lexeme} {c : Char}
    (visible : Text.isAsciiBlank c = false) (inside : code c ∈ part)
    (cut : afterBlanks rest = part ++ behind) (more : List Lexeme) :
    blanks (blanks rest ++ part ++ more) = blanks rest ∧
      afterBlanks (blanks rest ++ part ++ more) = part ++ more := by
  have inside : code c ∈ blanks rest ++ part := List.mem_append_right _ inside
  have first := blanks_append inside visible behind
  rw [List.append_assoc, ← cut, blanks_append_afterBlanks] at first
  have next := List.append_cancel_right (first.2.symm.trans cut)
  have still := blanks_append inside visible more
  exact ⟨still.1.trans first.1.symm, still.2.trans (congrArg (· ++ more) next)⟩

private theorem filled_of_append {lexemes part behind : List Lexeme} {lexeme : Lexeme}
    (inside : lexeme ∈ part) (whole : part ++ behind = lexemes)
    (filled : lexemes.head?.any (! ·.isBlank) = true) (more : List Lexeme) :
    (part ++ more).head?.any (! ·.isBlank) = true := by
  subst whole
  cases part with
  | nil => cases inside
  | cons head tail => exact filled

private theorem header_statement_append {lexemes opened behind : List Lexeme}
    (filled : lexemes.head?.any (! ·.isBlank) = true) (inside : code '\x7b' ∈ opened)
    (found : isStatement (afterBlanks (splitComments lexemes).2) = true)
    (cut : (splitStatement (afterBlanks (splitComments lexemes).2)).2 = opened ++ behind)
    (more : List Lexeme) :
    header ((splitComments lexemes).1 ++ blanks (splitComments lexemes).2
        ++ (splitStatement (afterBlanks (splitComments lexemes).2)).1 ++ opened ++ more) =
      fragments .unclassified (splitComments lexemes).1
        ++ fragments .gap (blanks (splitComments lexemes).2)
        ++ [⟨statementKey (splitStatement (afterBlanks (splitComments lexemes).2)).1,
          stringOf (splitStatement (afterBlanks (splitComments lexemes).2)).1⟩]
        ++ header (opened ++ more) := by
  obtain ⟨comments, commented⟩ : ∃ comments, splitComments lexemes = comments := ⟨_, rfl⟩
  obtain ⟨statement, stated⟩ : ∃ statement, splitStatement (afterBlanks comments.2) = statement :=
    ⟨_, rfl⟩
  obtain ⟨whole, shape⟩ : ∃ whole,
      whole = comments.1 ++ blanks comments.2 ++ statement.1 ++ opened := ⟨_, rfl⟩
  rw [commented] at found cut ⊢
  rw [stated] at cut ⊢
  have next : afterBlanks comments.2 = statement.1 ++ opened ++ behind := by
    rw [List.append_assoc, ← cut, ← stated, append_splitStatement]
  have same : whole ++ behind = lexemes := by
    rw [shape, List.append_assoc, List.append_assoc, List.append_assoc, ← List.append_assoc statement.1,
      ← next, blanks_append_afterBlanks, ← commented, append_splitComments]
  have opens : code '\x7b' ∈ whole := shape ▸ List.mem_append_right _ inside
  -- both the text and its continuation begin like the part up to the brace
  obtain ⟨oldComments, oldGap, oldNext, oldKind⟩ := comments_append opens behind
  obtain ⟨newComments, newGap, newNext, newKind⟩ := comments_append opens more
  rw [same, commented] at oldComments oldGap oldNext oldKind
  have after : afterBlanks (splitComments whole).2 = statement.1 ++ opened :=
    List.append_cancel_right (oldNext.symm.trans next)
  have left : (splitStatement (afterBlanks comments.2)).2 ≠ [] := by
    have some := List.ne_nil_of_mem inside
    rw [stated, cut]
    simp [some]
  have ends := splitStatement_of_left left (opened ++ more)
  rw [stated] at ends
  have goesOn : isStatement (statement.1 ++ (opened ++ more)) = true := by
    rw [← List.append_assoc, ← after, ← newNext, newKind, ← oldKind]
    exact found
  rw [← shape, header_of_filled (filled_of_append opens same filled more), newComments, newGap, newNext,
    after, List.append_assoc, if_pos goesOn, ends, ← oldComments, ← oldGap, List.append_assoc,
    List.append_assoc, List.append_assoc]
  rfl

private theorem header_declaration_append {lexemes declaration behind : List Lexeme}
    (filled : lexemes.head?.any (! ·.isBlank) = true)
    (noStatement : ¬ isStatement (afterBlanks (splitComments lexemes).2) = true)
    (cut : splitTopLevel? '\x7b' 0 lexemes = some (declaration, behind)) (more : List Lexeme) :
    header (declaration ++ more) =
      ⟨.classDecl, stringOf declaration⟩ :: (body [] more).reverse := by
  have parts := append_of_splitTopLevel? cut
  obtain ⟨first, ends⟩ := exists_of_splitTopLevel? cut
  have inside : code '\x7b' ∈ declaration := ends ▸ List.mem_append_right first List.mem_cons_self
  have kind := (comments_append inside behind).2.2.2
  rw [parts] at kind
  have opens := splitTopLevel?_of_cut cut []
  have begins := filled_of_append inside parts filled []
  rw [List.append_nil] at opens begins
  exact header_declaration begins opens (kind.symm.trans (Bool.eq_false_iff.mpr noStatement)) more

/-- What is read of a text by `read` up to the opening brace of its class. -/
structure Opens (read : List Lexeme → List Fragment) (lexemes : List Lexeme) (front : List Fragment)
    (declaration : String) (opened behind : List Lexeme) : Prop where
  whole : lexemes = opened ++ behind
  ends : ∃ first, opened = first ++ [code '\x7b']
  outer : ∀ fragment ∈ front, fragment.key.isOuter = true
  reads : ∀ more, read (opened ++ more) = front ++ ⟨.classDecl, declaration⟩ :: (body [] more).reverse

theorem Opens.inside {read : List Lexeme → List Fragment} {lexemes opened behind : List Lexeme}
    {front : List Fragment} {declaration : String}
    (opens : Opens read lexemes front declaration opened behind) : code '\x7b' ∈ opened := by
  obtain ⟨first, ends⟩ := opens.ends
  rw [ends]
  exact List.mem_append_right first List.mem_cons_self

private theorem Opens.behind_of {read again : List Lexeme → List Fragment}
    {lexemes opened behind prefixed : List Lexeme} {front more : List Fragment} {declaration : String}
    (opens : Opens read lexemes front declaration opened behind)
    (outer : ∀ fragment ∈ more, fragment.key.isOuter = true)
    (reads : ∀ rest, again (prefixed ++ opened ++ rest) = more ++ read (opened ++ rest)) :
    Opens again (prefixed ++ lexemes) (more ++ front) declaration (prefixed ++ opened) behind where
  whole := by rw [opens.whole, List.append_assoc]
  ends := by
    obtain ⟨first, ends⟩ := opens.ends
    exact ⟨prefixed ++ first, by rw [ends, List.append_assoc]⟩
  outer := List.forall_mem_append.mpr ⟨outer, opens.outer⟩
  reads := fun rest => by rw [reads, opens.reads, List.append_assoc]

theorem key_of_mem_fragments {key : Key} {lexemes : List Lexeme} {fragment : Fragment}
    (found : fragment ∈ fragments key lexemes) : fragment.key = key := by
  rw [fragments] at found
  split at found
  · cases found
  · rw [List.mem_singleton.mp found]

theorem exists_of_outer {front rest : List Fragment} {key : Key} (inner : key.isOuter = false)
    (outer : ∀ fragment ∈ front, fragment.key.isOuter = true)
    (found : ∃ fragment ∈ front ++ rest, fragment.key = key) :
    ∃ fragment ∈ rest, fragment.key = key := by
  obtain ⟨fragment, listed, rfl⟩ := found
  refine ⟨fragment, (List.mem_append.mp listed).resolve_left fun early => ?_, rfl⟩
  rw [outer fragment early] at inner
  cases inner

theorem exists_opens_header {lexemes : List Lexeme}
    (ended : ∃ fragment ∈ header lexemes, fragment.key = .classEnd) :
    ∃ front declaration opened behind, Opens header lexemes front declaration opened behind := by
  fun_induction header lexemes with
  | case1 => obtain ⟨fragment, found, -⟩ := ended; cases found
  | case2 lexeme rest blank ih =>
    have outer : ∀ fragment ∈ [Fragment.mk .gap (stringOf (lexeme :: blanks rest))],
        fragment.key.isOuter = true := List.forall_mem_singleton.mpr rfl
    obtain ⟨front, declaration, opened, behind, opens⟩ := ih (exists_of_outer rfl outer ended)
    have parts : lexeme :: blanks rest ++ afterBlanks rest = lexeme :: rest := by
      rw [List.cons_append, blanks_append_afterBlanks]
    refine ⟨_, declaration, _, behind, parts ▸ opens.behind_of outer fun more => ?_⟩
    obtain ⟨gap, next⟩ := blanks_of_cut (by decide) opens.inside opens.whole more
    rw [List.cons_append, List.cons_append, header, if_pos blank, gap, next]
    rfl
  | case3 lexeme rest filled comments next found statement ih =>
    have outer : ∀ fragment ∈ fragments .unclassified comments.1 ++ fragments .gap (blanks comments.2)
        ++ [⟨statementKey statement.1, stringOf statement.1⟩], fragment.key.isOuter = true :=
      List.forall_mem_append.mpr ⟨List.forall_mem_append.mpr
        ⟨fun _ found => by rw [key_of_mem_fragments found]; rfl,
          fun _ found => by rw [key_of_mem_fragments found]; rfl⟩,
        List.forall_mem_singleton.mpr (isOuter_statementKey statement.1)⟩
    rw [List.append_cons] at ended
    obtain ⟨front, declaration, opened, behind, opens⟩ := ih (exists_of_outer rfl outer ended)
    have parts : comments.1 ++ blanks comments.2 ++ statement.1 ++ statement.2 = lexeme :: rest := by
      rw [List.append_assoc, append_splitStatement, List.append_assoc, blanks_append_afterBlanks,
        append_splitComments]
    exact ⟨_, declaration, _, behind, parts ▸ opens.behind_of outer
      (header_statement_append (by simpa using filled) opens.inside found opens.whole)⟩
  | case4 lexeme rest =>
    obtain ⟨fragment, found, same⟩ := ended
    rw [key_of_mem_fragments found] at same
    cases same
  | case5 lexeme rest filled comments next noStatement declaration behind cut =>
    exact ⟨[], stringOf declaration, declaration, behind, (append_of_splitTopLevel? cut).symm,
      exists_of_splitTopLevel? cut, by simp,
      header_declaration_append (by simpa using filled) noStatement cut⟩

private theorem opening_append {opened : List Lexeme} (inside : code '\x7b' ∈ opened)
    (more : List Lexeme) :
    opening (opened ++ more) = ((opening opened).1, (opening opened).2 ++ more) := by
  have next := blanks_append inside (by decide) more
  have there := mem_afterBlanks inside (by decide)
  have kind := (comments_append there more).2.2.2
  have comments := splitComments_append there (by decide) more
  rw [← next.2] at kind comments
  rw [opening, opening]
  rw [comments] at kind ⊢
  dsimp only at kind ⊢
  rw [kind, next.1]
  split <;> rfl

/-- A file with the end of a class is read the same up to the opening brace of the class, whatever the
class holds. -/
theorem exists_opens {lexemes : List Lexeme}
    (ended : ∃ fragment ∈ (parseLexemes lexemes).fragments, fragment.key = .classEnd) :
    ∃ front declaration opened behind,
      Opens (fun lexemes => (parseLexemes lexemes).fragments) lexemes front declaration opened
        behind := by
  have outer : ∀ fragment ∈ [Fragment.mk .start (stringOf (opening lexemes).1)],
      fragment.key.isOuter = true := List.forall_mem_singleton.mpr rfl
  have later : ∃ fragment ∈ header (opening lexemes).2, fragment.key = .classEnd :=
    exists_of_outer rfl outer ended
  obtain ⟨front, declaration, opened, behind, opens⟩ := exists_opens_header later
  have parts := append_opening lexemes
  have inside : code '\x7b' ∈ (opening lexemes).1 ++ opened := List.mem_append_right _ opens.inside
  have first := opening_append inside behind
  rw [List.append_assoc, ← opens.whole, parts] at first
  have kept := congrArg Prod.fst first
  have next := List.append_cancel_right ((congrArg Prod.snd first).symm.trans opens.whole)
  dsimp only at kept
  have reads (more : List Lexeme) : (parseLexemes ((opening lexemes).1 ++ opened ++ more)).fragments =
      [⟨.start, stringOf (opening lexemes).1⟩] ++ header (opened ++ more) := by
    rw [parseLexemes, opening_append inside more, ← kept, next]
    rfl
  have goes : Opens (fun lexemes => (parseLexemes lexemes).fragments)
      ((opening lexemes).1 ++ (opening lexemes).2) _ declaration _ behind :=
    opens.behind_of outer reads
  rw [parts] at goes
  exact ⟨_, declaration, _, behind, goes⟩

def EndsMember (lexemes : List Lexeme) : Prop :=
  ∃ front c, (c = ';' ∨ c = '\x7d') ∧ lexemes = front ++ [code c]

theorem EndsMember.append {lexemes : List Lexeme} (ends : EndsMember lexemes) (front : List Lexeme) :
    EndsMember (front ++ lexemes) := by
  obtain ⟨inside, c, last, rfl⟩ := ends
  exact ⟨front ++ inside, c, last, (List.append_assoc front inside [code c]).symm⟩

theorem EndsMember.exists_mem {lexemes : List Lexeme} (ends : EndsMember lexemes) :
    ∃ c, Text.isAsciiBlank c = false ∧ code c ∈ lexemes := by
  obtain ⟨front, c, last, rfl⟩ := ends
  exact ⟨c, by rcases last with rfl | rfl <;> decide, List.mem_append_right front List.mem_cons_self⟩

/-- A member is cut off where the text ends, in front of a closing brace, or at its own end. In the last
two cases it is cut off there whatever comes behind the brace or the member. -/
theorem splitMember_cases (progress : Progress) (lexemes : List Lexeme) :
    (splitMember progress lexemes).2 = [] ∨
      ((∃ behind, (splitMember progress lexemes).2 = code '\x7d' :: behind) ∧
        ∀ more, splitMember progress ((splitMember progress lexemes).1 ++ code '\x7d' :: more) =
          ((splitMember progress lexemes).1, code '\x7d' :: more)) ∨
      EndsMember (splitMember progress lexemes).1 ∧
        ∀ more, splitMember progress ((splitMember progress lexemes).1 ++ more) =
          ((splitMember progress lexemes).1, more) := by
  induction lexemes generalizing progress with
  | nil => exact .inl rfl
  | cons lexeme rest ih =>
    rw [splitMember]
    split
    · next before =>
      have brace := before
      rw [Progress.endsBefore, Bool.and_eq_true, beq_iff_eq] at brace
      obtain ⟨rfl, -⟩ := brace
      refine .inr (.inl ⟨⟨rest, rfl⟩, fun more => ?_⟩)
      rw [List.nil_append, splitMember, if_pos before]
    · next inside =>
      split
      · next last =>
        refine .inr (.inr ⟨?_, fun more => ?_⟩)
        · rw [Progress.endsAfter, Bool.or_eq_true] at last
          rcases last with semicolon | brace
          · rw [Bool.and_eq_true, beq_iff_eq] at semicolon
            exact ⟨[], ';', .inl rfl, by rw [semicolon.1]; rfl⟩
          · rw [Bool.and_eq_true, Bool.and_eq_true, beq_iff_eq] at brace
            exact ⟨[], '\x7d', .inr rfl, by rw [brace.1.1]; rfl⟩
        · rw [List.singleton_append, splitMember, if_neg inside, if_pos last]
      · next goesOn =>
        rcases ih (progress.after lexeme) with none | ⟨brace, again⟩ | ⟨ends, again⟩
        · exact .inl none
        · refine .inr (.inl ⟨brace, fun more => ?_⟩)
          rw [Prod.map_fst, List.cons_append, splitMember, if_neg inside, if_neg goesOn, again more]
          rfl
        · refine .inr (.inr ⟨ends.append [lexeme], fun more => ?_⟩)
          rw [Prod.map_fst, List.cons_append, splitMember, if_neg inside, if_neg goesOn, again more]
          rfl

theorem body_stop (done : List Fragment) {gap : List Lexeme}
    (blank : ∀ lexeme ∈ gap, lexeme.isBlank = true) (behind : List Lexeme) :
    body done (gap ++ code '\x7d' :: behind) =
      fragments .unclassified (afterBlanks behind) ++ fragments .gap (blanks behind)
        ++ ⟨.classEnd, "\x7d"⟩ :: (fragments .gap gap ++ done) := by
  cases gap with
  | nil => exact body_brace done behind
  | cons lexeme gap =>
    have rest := fun later inside => blank later (List.mem_cons_of_mem lexeme inside)
    have front : blanks (gap ++ code '\x7d' :: behind) = gap ∧
        afterBlanks (gap ++ code '\x7d' :: behind) = code '\x7d' :: behind := by
      rw [blanks, afterBlanks, List.takeWhile_append_of_pos rest, List.dropWhile_append_of_pos rest]
      simp [Text.isAsciiBlank]
    rw [List.cons_append, body, if_pos (blank lexeme List.mem_cons_self), front.1, front.2, body_brace]
    rfl

/-- What is read of a body in front of the white space at its end, behind what is `done`. -/
structure Closes (done : List Fragment) (lexemes inner gap : List Lexeme) (last : List Fragment)
    (behind : List Lexeme) : Prop where
  whole : lexemes = inner ++ (gap ++ code '\x7d' :: behind)
  blank : ∀ lexeme ∈ gap, lexeme.isBlank = true
  ends : inner = [] ∨ EndsMember inner
  unended : ∀ fragment ∈ last, fragment.key ≠ .classEnd
  reads : ∀ more, body done (inner ++ more) = body last more

private theorem Closes.behind_blank {done last : List Fragment} {lexeme : Lexeme}
    {rest inner gap behind : List Lexeme} (blank : lexeme.isBlank = true)
    (unended : ∀ fragment ∈ done, fragment.key ≠ .classEnd)
    (closes : Closes (⟨.gap, stringOf (lexeme :: blanks rest)⟩ :: done) (afterBlanks rest) inner gap last
      behind) : ∃ inner gap last behind, Closes done (lexeme :: rest) inner gap last behind := by
  have parts := blanks_append_afterBlanks rest
  rw [closes.whole] at parts
  rcases closes.ends with rfl | ends
  · refine ⟨[], lexeme :: blanks rest ++ gap, done, behind, ?_, ?_, .inl rfl, unended, fun _ => rfl⟩
    · rw [List.nil_append] at parts ⊢
      rw [List.append_assoc, List.cons_append, parts]
    · exact List.forall_mem_append.mpr ⟨List.forall_mem_cons.mpr ⟨blank, fun _ found =>
        List.mem_takeWhile_imp found⟩, closes.blank⟩
  · obtain ⟨c, visible, inside⟩ := ends.exists_mem
    refine ⟨lexeme :: blanks rest ++ inner, gap, last, behind, ?_, closes.blank, .inr (ends.append _),
      closes.unended, fun more => ?_⟩
    · rw [List.append_assoc, List.cons_append, parts]
    · obtain ⟨first, next⟩ := blanks_of_cut visible inside closes.whole more
      rw [List.cons_append, List.cons_append, body, if_pos blank, first, next, closes.reads]

private theorem Closes.behind_member {done last : List Fragment} {lexeme : Lexeme}
    {rest part left inner gap behind : List Lexeme} (filled : ¬ lexeme.isBlank = true)
    (noEnd : ¬ (lexeme == code '\x7d') = true) (whole : part ++ left = lexeme :: rest)
    (ends : EndsMember part) (again : ∀ more, splitMember .start (part ++ more) = (part, more))
    (closes : Closes (pushMember done ⟨Member.key (textOf part), String.ofList (textOf part)⟩) left inner
      gap last behind) : Closes done (lexeme :: rest) (part ++ inner) gap last behind where
  whole := by rw [List.append_assoc, ← closes.whole, whole]
  blank := closes.blank
  ends := by
    rcases closes.ends with rfl | later
    · rw [List.append_nil]
      exact .inr ends
    · exact .inr (later.append part)
  unended := closes.unended
  reads := by
    intro more
    obtain ⟨tail, rfl⟩ : ∃ tail, part = lexeme :: tail := by
      obtain ⟨c, -, some⟩ := ends.exists_mem
      cases part with
      | nil => cases some
      | cons first tail => exact ⟨tail, by rw [(List.cons.inj whole).1]⟩
    have cut := again (inner ++ more)
    rw [List.cons_append] at cut
    rw [List.append_assoc, List.cons_append, body, if_neg filled, if_neg noEnd, cut]
    exact closes.reads more

theorem forall_mem_pushMember {p : Key → Prop} {done : List Fragment} {member : Fragment}
    (here : p member.key) (before : ∀ fragment ∈ done, p fragment.key) :
    ∀ fragment ∈ pushMember done member, p fragment.key := by
  unfold pushMember
  split
  · split
    · exact List.forall_mem_cons.mpr ⟨here, fun fragment found =>
        before fragment (List.mem_cons_of_mem _ (List.mem_cons_of_mem _ found))⟩
    · exact List.forall_mem_cons.mpr ⟨here, before⟩
  · exact List.forall_mem_cons.mpr ⟨here, before⟩

theorem exists_pushMember (done : List Fragment) (member : Fragment) :
    ∃ front rest, pushMember done member = ⟨member.key, front ++ member.text⟩ :: rest := by
  have alone : member :: done = ⟨member.key, "" ++ member.text⟩ :: done := by
    rw [String.empty_append]
  unfold pushMember
  split
  · split
    · exact ⟨_, _, rfl⟩
    · exact ⟨_, _, alone⟩
  · exact ⟨_, _, alone⟩

/-- A body with the end of a class is read the same up to the last member whatever stands behind that, or
a member that does not end stands right in front of the end of the class. -/
theorem exists_closes {done : List Fragment} {lexemes : List Lexeme}
    (unended : ∀ fragment ∈ done, fragment.key ≠ .classEnd)
    (ended : ∃ fragment ∈ body done lexemes, fragment.key = .classEnd) :
    (∃ inner gap last behind, Closes done lexemes inner gap last behind) ∨
      ∃ after member rest, body done lexemes = after ++ ⟨.classEnd, "\x7d"⟩ :: member :: rest ∧
        member.key ≠ .gap ∧ member.key ≠ .classDecl ∧
        ∀ fragment ∈ member :: rest, fragment.key ≠ .classEnd := by
  fun_induction body done lexemes with
  | case1 done =>
    obtain ⟨fragment, found, same⟩ := ended
    exact absurd same (unended fragment found)
  | case2 done lexeme rest blank ih =>
    refine (ih (List.forall_mem_cons.mpr ⟨by simp, unended⟩) ended).imp_left ?_
    rintro ⟨inner, gap, last, behind, closes⟩
    exact closes.behind_blank blank unended
  | case3 done lexeme rest filled brace =>
    rw [beq_iff_eq] at brace
    exact .inl ⟨[], [], done, rest, by rw [brace]; rfl, by simp, .inl rfl, unended, fun _ => rfl⟩
  | case4 done lexeme rest filled inside member text ih =>
    have other {key : Key} (noMember : key.isMember = false) (classified : key ≠ .unclassified) :
        Member.key text ≠ key := Member.key_ne noMember classified text
    have later : ∀ fragment ∈ pushMember done ⟨Member.key text, String.ofList text⟩,
        fragment.key ≠ .classEnd :=
      @forall_mem_pushMember (· ≠ .classEnd) done ⟨Member.key text, String.ofList text⟩
        (other rfl (by decide)) unended
    rcases splitMember_cases .start (lexeme :: rest) with none | ⟨⟨behind, brace⟩, -⟩ | ⟨ends, again⟩
    · rw [show member.2 = [] from none, body] at ended
      obtain ⟨fragment, found, same⟩ := ended
      exact absurd same (later fragment found)
    · right
      obtain ⟨shown, others, pushed⟩ :=
        exists_pushMember done ⟨Member.key text, String.ofList text⟩
      rw [pushed] at later ⊢
      rw [show member.2 = code '\x7d' :: behind from brace, body_brace]
      exact ⟨_, _, _, rfl, other rfl (by decide), other rfl (by decide), later⟩
    · refine (ih later ended).imp_left ?_
      rintro ⟨inner, gap, last, behind, closes⟩
      exact ⟨_, gap, last, behind, closes.behind_member filled inside
        (append_splitMember .start (lexeme :: rest)) ends again⟩

end ClassWeaver.Fragment.Source
