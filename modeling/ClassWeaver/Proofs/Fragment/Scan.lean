import ClassWeaver.Fragment.Source

set_option autoImplicit false

/-!
Reading a member of a class body character by character. Main statement: a text on which the reading
finishes with the last character is cut off as one member, whatever comes after it.
-/

namespace ClassWeaver.Fragment

namespace Lexeme

/-- Characters that stand for themselves wherever they occur outside of literals. -/
def isBare (c : Char) : Bool :=
  c != '/' && c != '"' && c != '\''

theorem split_of_isBare {c : Char} (bare : isBare c = true) (rest : List Char) :
    split c rest = (code c, rest) := by
  simp only [isBare, Bool.and_eq_true, bne_iff_ne, ne_eq] at bare
  unfold split
  split <;> simp_all

theorem ofSource_cons_of_isBare {c : Char} (bare : isBare c = true) (rest : List Char) :
    ofSource (c :: rest) = code c :: ofSource rest := by
  rw [ofSource, split_of_isBare bare]

theorem ofSource_append_of_isBare {text : List Char} (bare : ∀ c ∈ text, isBare c = true)
    (rest : List Char) : ofSource (text ++ rest) = text.map code ++ ofSource rest := by
  induction text with
  | nil => rfl
  | cons c text ih =>
      have here : isBare c = true := bare c List.mem_cons_self
      rw [List.cons_append, ofSource_cons_of_isBare here,
        ih fun d found => bare d (List.mem_cons_of_mem c found)]
      rfl

theorem ofSource_of_isBare {text : List Char} (bare : ∀ c ∈ text, isBare c = true) :
    ofSource text = text.map code := by
  have whole := ofSource_append_of_isBare bare []
  rwa [List.append_nil, ofSource, List.append_nil] at whole

theorem split_of_quote {q : Char} (quote : q = '"' ∨ q = '\'') {rest : List Char}
    (short : ¬ ['"', '"', '"'] <+: q :: rest) :
    split q rest = (literal (q :: (splitQuoted q rest).1), (splitQuoted q rest).2) := by
  unfold split
  split
  · rcases quote with same | same <;> exact absurd same (by decide)
  · rcases quote with same | same <;> exact absurd same (by decide)
  · next more => exact absurd ⟨more, rfl⟩ short
  · rcases quote with rfl | rfl <;> rfl

theorem ofSource_cons_of_quote {q : Char} (quote : q = '"' ∨ q = '\'') {rest : List Char}
    (short : ∀ more, rest ≠ q :: q :: more) :
    ofSource (q :: rest) =
      literal (q :: (splitQuoted q rest).1) :: ofSource (splitQuoted q rest).2 := by
  have apart : ¬ ['"', '"', '"'] <+: q :: rest := by
    rintro ⟨more, whole⟩
    obtain ⟨rfl, rfl⟩ := List.cons.inj whole
    exact short more rfl
  rw [ofSource, split_of_quote quote apart]

end Lexeme

namespace Source

open Lexeme (code ofSource splitQuoted isBare)

deriving instance DecidableEq for Progress

inductive Mode where
  | code (progress : Progress)
  /-- Right after the quote that opens a literal. -/
  | opened (quote : Char) (progress : Progress)
  | quoted (quote : Char) (progress : Progress)
  /-- Right after a backslash in a literal. -/
  | escaped (quote : Char) (progress : Progress)
  /-- Right after a literal without characters. -/
  | emptied (quote : Char) (progress : Progress)
  | finished
  deriving DecidableEq

namespace Mode

def codeStep (progress : Progress) (c : Char) : Option Mode :=
  if c == '"' || c == '\'' then some (.opened c progress)
  else if progress.endsBefore (.code c) then none
  else if progress.endsAfter (.code c) then some .finished
  else some (.code (progress.after (.code c)))

def quotedStep (quote : Char) (progress : Progress) (c : Char) : Option Mode :=
  if c == '\n' then none
  else if c == '\\' then some (.escaped quote progress)
  else if c == quote then some (.code progress)
  else some (.quoted quote progress)

/-- Reads a character of code or of a literal. There is no way on where a literal does not end on its
line and where the member has ended already. -/
def stepOn : Mode → Char → Option Mode
  | .code progress, c => codeStep progress c
  | .opened quote progress, c =>
    if c == quote then some (.emptied quote progress) else quotedStep quote progress c
  | .quoted quote progress, c => quotedStep quote progress c
  | .escaped quote progress, _ => some (.quoted quote progress)
  | .emptied quote progress, c => if c == quote then none else codeStep progress c
  | .finished, _ => none

/-- Reads a character. A slash and an at sign, which might begin a comment or an annotation, are not
read. -/
def step (mode : Mode) (c : Char) : Option Mode :=
  if c == '/' || c == '@' then none else mode.stepOn c

def run (mode : Mode) : List Char → Option Mode
  | [] => some mode
  | c :: rest => (mode.step c).bind (run · rest)

theorem run_append (mode : Mode) (a b : List Char) :
    mode.run (a ++ b) = (mode.run a).bind (run · b) := by
  induction a generalizing mode with
  | nil => rfl
  | cons c a ih =>
      simp only [List.cons_append, run, Option.bind_assoc]
      exact congrArg _ (funext fun next => ih next)

theorem step_eq_some {mode next : Mode} {c : Char} (here : mode.step c = some next) :
    c ≠ '/' ∧ c ≠ '@' ∧ mode.stepOn c = some next := by
  unfold step at here
  split at here
  · simp at here
  · next other =>
      rw [Bool.or_eq_true, not_or] at other
      exact ⟨by simpa using other.1, by simpa using other.2, here⟩

theorem step_of_stepOn {mode next : Mode} {c : Char} (slash : c ≠ '/') (atSign : c ≠ '@')
    (there : mode.stepOn c = some next) : mode.step c = some next := by
  simp [step, slash, atSign, there]

theorem bare_of_run {mode after : Mode} {text : List Char} (read : mode.run text = some after) :
    ∀ c ∈ text, c ≠ '/' ∧ c ≠ '@' := by
  induction text generalizing mode with
  | nil => simp
  | cons c rest ih =>
      obtain ⟨next, here, later⟩ := Option.bind_eq_some_iff.mp read
      obtain ⟨slash, atSign, -⟩ := step_eq_some here
      intro d found
      rcases List.mem_cons.mp found with rfl | found
      · exact ⟨slash, atSign⟩
      · exact ih later d found

theorem run_eq_foldlM (mode : Mode) (text : List Char) : mode.run text = text.foldlM step mode := by
  induction text generalizing mode with
  | nil => rfl
  | cons c rest ih => exact congrArg _ (funext fun next => ih next)

theorem splitQuoted_cons {quote c : Char} (inLine : c ≠ '\n') (bare : c ≠ '\\')
    (rest : List Char) :
    splitQuoted quote (c :: rest) =
      if c == quote then ([c], rest) else (splitQuoted quote rest).map (c :: ·) id := by
  rw [splitQuoted]
  · simp [inLine]
    rfl
  · simp [bare]
  · simp [bare]

private theorem splitQuoted_of_run' {quote : Char} {progress : Progress} (text : List Char) :
    ((quoted quote progress).run text = some finished →
      ∃ inside left, text = inside ++ left ∧ (Mode.code progress).run left = some finished ∧
        ∀ rest, splitQuoted quote (text ++ rest) = (inside, left ++ rest)) ∧
    ((escaped quote progress).run text = some finished →
      ∃ inside left, text = inside ++ left ∧ (Mode.code progress).run left = some finished ∧
        ∀ rest, splitQuoted quote ('\\' :: (text ++ rest)) = ('\\' :: inside, left ++ rest)) := by
  induction text with
  | nil => simp [run]
  | cons c text ih =>
      constructor
      · intro read
        obtain ⟨next, here, later⟩ := Option.bind_eq_some_iff.mp read
        have there := (step_eq_some here).2.2
        have inLine : c ≠ '\n' := by
          rintro rfl
          simp [stepOn, quotedStep] at there
        by_cases backslash : c = '\\'
        · have escapes : escaped quote progress = next := by
            simpa [stepOn, quotedStep, backslash] using there
          rw [← escapes] at later
          obtain ⟨inside, left, whole, closed, cut⟩ := ih.2 later
          exact ⟨c :: inside, left, by simp [whole], closed, by simpa [backslash] using cut⟩
        · by_cases closing : c = quote
          · have closes : Mode.code progress = next := by
              rw [closing] at inLine backslash there
              simpa [stepOn, quotedStep, inLine, backslash] using there
            rw [← closes] at later
            refine ⟨[c], text, rfl, later, fun rest => ?_⟩
            rw [List.cons_append, splitQuoted_cons inLine backslash]
            simp [closing]
          · have goesOn : quoted quote progress = next := by
              simpa [stepOn, quotedStep, inLine, backslash, closing] using there
            rw [← goesOn] at later
            obtain ⟨inside, left, whole, closed, inner⟩ := ih.1 later
            refine ⟨c :: inside, left, by simp [whole], closed, fun rest => ?_⟩
            rw [List.cons_append, splitQuoted_cons inLine backslash]
            simp [closing, inner rest]
      · intro read
        obtain ⟨next, here, later⟩ := Option.bind_eq_some_iff.mp read
        have returns : quoted quote progress = next := by
          simpa [stepOn] using (step_eq_some here).2.2
        rw [← returns] at later
        obtain ⟨inside, left, whole, closed, cut⟩ := ih.1 later
        refine ⟨c :: inside, left, by simp [whole], closed, fun rest => ?_⟩
        simp [splitQuoted, cut rest]

theorem splitQuoted_of_run {quote : Char} {progress : Progress} {text : List Char}
    (read : (quoted quote progress).run text = some finished) :
    ∃ inside left, text = inside ++ left ∧ (Mode.code progress).run left = some finished ∧
      ∀ rest, splitQuoted quote (text ++ rest) = (inside, left ++ rest) :=
  (splitQuoted_of_run' text).1 read

private theorem run_of_emptied {quote : Char} {progress : Progress} {text : List Char}
    (read : (emptied quote progress).run text = some finished) :
    (Mode.code progress).run text = some finished ∧ ∀ more, text ≠ quote :: more := by
  cases text with
  | nil => simp [run] at read
  | cons c text =>
      obtain ⟨next, here, later⟩ := Option.bind_eq_some_iff.mp read
      obtain ⟨slash, atSign, there⟩ := step_eq_some here
      have other : c ≠ quote := by
        rintro rfl
        simp [stepOn] at there
      have same : (Mode.code progress).step c = some next :=
        step_of_stepOn slash atSign (by simpa [stepOn, other] using there)
      refine ⟨?_, fun more whole => other (List.cons.inj whole).1⟩
      rw [run, same]
      exact later

theorem splitQuoted_of_opened {quote : Char} {progress : Progress} {text : List Char}
    (mark : quote = '"' ∨ quote = '\'') (read : (opened quote progress).run text = some finished) :
    ∃ inside left, text = inside ++ left ∧ (Mode.code progress).run left = some finished ∧
      ∀ rest, splitQuoted quote (text ++ rest) = (inside, left ++ rest) ∧
        ∀ more, text ++ rest ≠ quote :: quote :: more := by
  cases text with
  | nil => simp [run] at read
  | cons c text =>
      obtain ⟨next, here, later⟩ := Option.bind_eq_some_iff.mp read
      obtain ⟨slash, atSign, there⟩ := step_eq_some here
      by_cases closing : c = quote
      · have empties : emptied quote progress = next := by
          simpa [stepOn, closing] using there
        rw [← empties] at later
        obtain ⟨left, other⟩ := run_of_emptied later
        refine ⟨[c], text, rfl, left, fun rest => ⟨?_, ?_⟩⟩
        · rw [List.cons_append, splitQuoted_cons (by grind) (by grind)]
          simp [closing]
        · intro more whole
          cases text with
          | nil => simp [run] at left
          | cons d text => exact other text (by simp_all)
      · have inside : (quoted quote progress).run (c :: text) = some finished := by
          have same : (quoted quote progress).step c = some next :=
            step_of_stepOn slash atSign (by simpa [stepOn, closing] using there)
          rw [run, same]
          exact later
        obtain ⟨inside, left, whole, closed, cut⟩ := splitQuoted_of_run inside
        refine ⟨inside, left, whole, closed, fun rest => ⟨cut rest, fun more same => ?_⟩⟩
        exact closing (List.cons.inj same).1

end Mode

namespace Progress

@[simp] theorem after_literal (progress : Progress) (text : List Char) :
    progress.after (.literal text) = progress := by
  obtain ⟨parens, braces, initialized⟩ := progress
  cases braces with
  | zero => simp [after, parensAfter]
  | succ braces => simp [after]

@[simp] theorem endsBefore_literal (progress : Progress) (text : List Char) :
    progress.endsBefore (.literal text) = false := by
  simp [endsBefore]

@[simp] theorem endsAfter_literal (progress : Progress) (text : List Char) :
    progress.endsAfter (.literal text) = false := by
  simp [endsAfter]

end Progress

open Mode (run_append)

private theorem splitMember_literal {progress : Progress} {text : List Char}
    {lexemes before after : List Lexeme}
    (cut : splitMember progress lexemes = (before, after)) :
    splitMember progress (.literal text :: lexemes) = (.literal text :: before, after) := by
  simp [splitMember, cut]

/-- A text on which the reading of a member finishes is cut off as one member, whatever follows. -/
theorem splitMember_of_run {progress : Progress} (text : List Char)
    (read : (Mode.code progress).run text = some .finished) (rest : List Char) :
    splitMember progress (ofSource (text ++ rest)) = (ofSource text, ofSource rest) := by
  match text with
  | [] => simp [Mode.run] at read
  | c :: tail =>
      obtain ⟨next, here, later⟩ := Option.bind_eq_some_iff.mp read
      obtain ⟨slash, -, there⟩ := Mode.step_eq_some here
      by_cases quote : c = '"' ∨ c = '\''
      · have opens : Mode.opened c progress = next := by
          simpa [Mode.stepOn, Mode.codeStep, quote] using there
        rw [← opens] at later
        obtain ⟨inside, left, whole, closed, cut⟩ := Mode.splitQuoted_of_opened quote later
        have alone := cut []
        rw [List.append_nil, List.append_nil] at alone
        have shorter : left.length < (c :: tail).length := by
          simp only [whole, List.length_append, List.length_cons]
          omega
        have ih := splitMember_of_run left closed rest
        rw [List.cons_append, Lexeme.ofSource_cons_of_quote quote (cut rest).2,
          Lexeme.ofSource_cons_of_quote quote alone.2, (cut rest).1, alone.1]
        exact splitMember_literal ih
      · have bare : isBare c = true := by
          rw [not_or] at quote
          simp [isBare, slash, quote]
        rw [List.cons_append, Lexeme.ofSource_cons_of_isBare bare,
          Lexeme.ofSource_cons_of_isBare bare]
        have there : Mode.codeStep progress c = some next := there
        rw [Mode.codeStep, if_neg (by simpa using quote)] at there
        rw [splitMember]
        split at there
        · simp at there
        · next goesOn =>
            rw [if_neg goesOn]
            split at there
            · next ends =>
                have done : Mode.finished = next := by simpa using there
                rw [← done] at later
                have last : tail = [] := by
                  cases tail with
                  | nil => rfl
                  | cons d tail => simp [Mode.run, Mode.step, Mode.stepOn] at later
                rw [if_pos ends, last]
                simp [Lexeme.ofSource]
            · next inside =>
                have goes : Mode.code (progress.after (.code c)) = next := by simpa using there
                rw [← goes] at later
                rw [if_neg inside, splitMember_of_run tail later rest]
                rfl
termination_by text.length

theorem Mode.getLast?_of_run {mode : Mode} {text : List Char} (read : mode.run text = some .finished)
    (unfinished : mode ≠ .finished) :
    text.getLast? = some ';' ∨ text.getLast? = some '\x7d' := by
  induction text generalizing mode with
  | nil => exact absurd (Option.some.inj read) unfinished
  | cons c text ih =>
      obtain ⟨next, here, later⟩ := Option.bind_eq_some_iff.mp read
      by_cases done : next = .finished
      · have last : text = [] := by
          cases text with
          | nil => rfl
          | cons d text => simp [done, run, step, stepOn] at later
        subst last done
        have there := (step_eq_some here).2.2
        have ends (progress : Progress) (closes : codeStep progress c = some .finished) :
            progress.endsAfter (.code c) = true := by
          unfold codeStep at closes
          split at closes
          · simp at closes
          split at closes
          · simp at closes
          split at closes
          · assumption
          · simp at closes
        have ended : ∃ progress : Progress, progress.endsAfter (.code c) = true := by
          cases mode with
          | code progress => exact ⟨progress, ends progress there⟩
          | emptied quote progress =>
              simp only [stepOn] at there
              split at there
              · simp at there
              · exact ⟨progress, ends progress there⟩
          | opened quote progress => simp [stepOn, quotedStep] at there; grind
          | quoted quote progress => simp [stepOn, quotedStep] at there; grind
          | escaped quote progress => simp [stepOn] at there
          | finished => exact absurd rfl unfinished
        obtain ⟨progress, ends⟩ := ended
        simp only [Progress.endsAfter, Bool.or_eq_true, Bool.and_eq_true, beq_iff_eq,
          Lexeme.code.injEq] at ends
        rcases ends with ⟨semicolon, -⟩ | ⟨⟨brace, -⟩, -⟩
        · exact .inl (by simp [semicolon])
        · exact .inr (by simp [brace])
      · have shown := ih later done
        cases text with
        | nil => simp at shown
        | cons d text => simpa using shown

def Mode.isOpen : Mode → Bool
  | .code _ => true
  | .quoted quote _ => quote == '"' || quote == '\''
  | _ => false

/-- A text that can stand in code and in literals without a change in how the rest is read. -/
def IsSilent (text : List Char) : Prop :=
  ∀ mode : Mode, mode.isOpen = true → mode.run text = some mode

def isNeutral (c : Char) : Bool :=
  ! ['/', '@', '"', '\'', '\\', '\n', '\x7b', '\x7d', '(', ')', ';', '='].contains c

theorem IsSilent.append {a b : List Char} (first : IsSilent a) (second : IsSilent b) :
    IsSilent (a ++ b) := by
  intro mode open_
  rw [Mode.run_append, first mode open_]
  exact second mode open_

private theorem Progress.after_of_isNeutral {c : Char} (neutral : isNeutral c = true)
    (progress : Progress) : progress.after (.code c) = progress := by
  obtain ⟨parens, braces, initialized⟩ := progress
  simp only [isNeutral, List.contains_cons, List.contains_nil, Bool.or_false, Bool.not_eq_true',
    Bool.or_eq_false_iff, beq_eq_false_iff_ne] at neutral
  cases braces with
  | zero => simp [after, parensAfter, neutral]
  | succ braces => simp [after, neutral]

private theorem Mode.step_of_isNeutral {c : Char} (neutral : isNeutral c = true) {mode : Mode}
    (open_ : mode.isOpen = true) : mode.step c = some mode := by
  have same := Progress.after_of_isNeutral neutral
  simp only [isNeutral, List.contains_cons, List.contains_nil, Bool.or_false, Bool.not_eq_true',
    Bool.or_eq_false_iff, beq_eq_false_iff_ne] at neutral
  cases mode with
  | code progress =>
      simp [step, stepOn, codeStep, neutral, Progress.endsBefore, Progress.endsAfter, same]
  | quoted quote progress =>
      have other : c ≠ quote := by
        rcases (by simpa [isOpen] using open_ : quote = '"' ∨ quote = '\'') with rfl | rfl
        · exact neutral.2.2.1
        · exact neutral.2.2.2.1
      simp [step, stepOn, quotedStep, neutral, other]
  | opened quote progress => simp [isOpen] at open_
  | escaped quote progress => simp [isOpen] at open_
  | emptied quote progress => simp [isOpen] at open_
  | finished => simp [isOpen] at open_

theorem isSilent_of_isNeutral {text : List Char} (neutral : ∀ c ∈ text, isNeutral c = true) :
    IsSilent text := by
  intro mode open_
  induction text with
  | nil => rfl
  | cons c text ih =>
      rw [Mode.run, Mode.step_of_isNeutral (neutral c List.mem_cons_self) open_]
      exact ih fun d found => neutral d (List.mem_cons_of_mem c found)

theorem isSilent_parentheses : IsSilent ['(', ')'] := by
  intro mode open_
  cases mode with
  | code progress =>
      obtain ⟨parens, braces, initialized⟩ := progress
      cases braces with
      | zero =>
          have first : (code '(' == code '=') = false := by decide
          have second : (code ')' == code '=') = false := by decide
          simp [Mode.run, Mode.step, Mode.stepOn, Mode.codeStep, Progress.endsBefore,
            Progress.endsAfter, Progress.after, parensAfter, first, second]
      | succ braces =>
          simp [Mode.run, Mode.step, Mode.stepOn, Mode.codeStep, Progress.endsBefore,
            Progress.endsAfter, Progress.after]
  | quoted quote progress =>
      rcases (by simpa [Mode.isOpen] using open_ : quote = '"' ∨ quote = '\'') with rfl | rfl
      · simp [Mode.run, Mode.step, Mode.stepOn, Mode.quotedStep]
      · simp [Mode.run, Mode.step, Mode.stepOn, Mode.quotedStep]
  | opened quote progress => simp [Mode.isOpen] at open_
  | escaped quote progress => simp [Mode.isOpen] at open_
  | emptied quote progress => simp [Mode.isOpen] at open_
  | finished => simp [Mode.isOpen] at open_

end Source

end ClassWeaver.Fragment
