import ClassWeaver.Fragment.Lexeme
import ClassWeaver.Fragment.Member
import ClassWeaver.Fragment.Store

set_option autoImplicit false

/-!
Taking a source text apart into fragments. Only the frame is recognized: leading comments, package,
imports, the class declaration, the members of its body and the closing brace. What lies between
them is kept as gaps and unclassified text. Main statements: cutting off a statement or a member
loses nothing, and what comes after it is shorter.
-/

namespace ClassWeaver.Fragment

namespace Source

open Lexeme (code)

def parensAfter (parens : Int) : Lexeme → Int
  | .code c => if c == '(' then parens + 1 else if c == ')' then parens - 1 else parens
  | _ => parens

/-- Cuts after the first occurrence of a character outside comments, literals and parentheses. -/
def splitTopLevel? (target : Char) (parens : Int) :
    List Lexeme → Option (List Lexeme × List Lexeme)
  | [] => none
  | lexeme :: rest =>
    if lexeme == code target && parens == 0 then some ([lexeme], rest)
    else (splitTopLevel? target (parensAfter parens lexeme) rest).map (Prod.map (lexeme :: ·) id)

theorem append_of_splitTopLevel? {target : Char} {parens : Int} {lexemes before after : List Lexeme}
    (cut : splitTopLevel? target parens lexemes = some (before, after)) :
    before ++ after = lexemes := by
  induction lexemes generalizing parens before with
  | nil => simp [splitTopLevel?] at cut
  | cons lexeme rest ih =>
    rw [splitTopLevel?] at cut
    split at cut
    · simp only [Option.some.injEq, Prod.mk.injEq] at cut
      simp [← cut.1, cut.2]
    · obtain ⟨⟨front, back⟩, inner, same⟩ := Option.map_eq_some_iff.1 cut
      obtain ⟨rfl, rfl⟩ := Prod.mk.inj same
      exact congrArg (lexeme :: ·) (ih inner)

theorem ne_nil_of_splitTopLevel? {target : Char} {parens : Int} {lexemes before after : List Lexeme}
    (cut : splitTopLevel? target parens lexemes = some (before, after)) : before ≠ [] := by
  cases lexemes with
  | nil => simp [splitTopLevel?] at cut
  | cons lexeme rest =>
    rw [splitTopLevel?] at cut
    split at cut
    · simp only [Option.some.injEq, Prod.mk.injEq] at cut
      simp [← cut.1]
    · obtain ⟨⟨front, back⟩, _, same⟩ := Option.map_eq_some_iff.1 cut
      obtain ⟨rfl, rfl⟩ := Prod.mk.inj same
      simp

/-- Cuts off a statement up to its semicolon, or the whole text if there is none. -/
def splitStatement (lexemes : List Lexeme) : List Lexeme × List Lexeme :=
  (splitTopLevel? ';' 0 lexemes).getD (lexemes, [])

theorem append_splitStatement (lexemes : List Lexeme) :
    (splitStatement lexemes).1 ++ (splitStatement lexemes).2 = lexemes := by
  unfold splitStatement
  cases cut : splitTopLevel? ';' 0 lexemes with
  | none => simp
  | some parts => simpa using append_of_splitTopLevel? cut

theorem splitStatement_ne_nil {lexemes : List Lexeme} (filled : lexemes ≠ []) :
    (splitStatement lexemes).1 ≠ [] := by
  unfold splitStatement
  cases cut : splitTopLevel? ';' 0 lexemes with
  | none => simpa using filled
  | some parts => simpa using ne_nil_of_splitTopLevel? cut

private theorem length_splitStatement_lt {lexemes : List Lexeme} (filled : lexemes ≠ []) :
    (splitStatement lexemes).2.length < lexemes.length := by
  have whole := congrArg List.length (append_splitStatement lexemes)
  have := List.length_pos_iff.2 (splitStatement_ne_nil filled)
  simp only [List.length_append] at whole
  omega

/-- How far the reading of a member has come: the open parentheses, the open braces, and whether an
equals sign has begun an initializer. -/
structure Progress where
  parens : Int
  braces : Nat
  initialized : Bool

namespace Progress

def start : Progress :=
  ⟨0, 0, false⟩

def isTop (progress : Progress) : Bool :=
  progress.braces == 0 && progress.parens == 0

/-- A brace that closes the class ends the member in front of it. -/
def endsBefore (progress : Progress) (lexeme : Lexeme) : Bool :=
  lexeme == code '\x7d' && progress.isTop

/-- A member ends with its semicolon, or with the brace that closes its body. -/
def endsAfter (progress : Progress) (lexeme : Lexeme) : Bool :=
  lexeme == code ';' && progress.isTop
    || lexeme == code '\x7d' && progress.braces == 1 && ! progress.initialized

/-- The progress after one more lexeme. Inside braces only braces count. -/
def after (progress : Progress) (lexeme : Lexeme) : Progress :=
  if progress.braces == 0 then
    { parens := parensAfter progress.parens lexeme
      braces := if lexeme == code '\x7b' && progress.isTop then 1 else 0
      initialized := progress.initialized || lexeme == code '=' && progress.isTop }
  else if lexeme == code '\x7b' then { progress with braces := progress.braces + 1 }
  else if lexeme == code '\x7d' then { progress with braces := progress.braces - 1 }
  else progress

end Progress

def splitMember (progress : Progress) : List Lexeme → List Lexeme × List Lexeme
  | [] => ([], [])
  | lexeme :: rest =>
    if progress.endsBefore lexeme then ([], lexeme :: rest)
    else if progress.endsAfter lexeme then ([lexeme], rest)
    else (splitMember (progress.after lexeme) rest).map (lexeme :: ·) id

theorem append_splitMember (progress : Progress) (lexemes : List Lexeme) :
    (splitMember progress lexemes).1 ++ (splitMember progress lexemes).2 = lexemes := by
  induction lexemes generalizing progress with
  | nil => rfl
  | cons lexeme rest ih =>
    rw [splitMember]
    split
    · rfl
    split
    · rfl
    · simp [ih]

theorem splitMember_ne_nil {lexeme : Lexeme} (rest : List Lexeme)
    (inside : (lexeme == code '\x7d') = false) :
    (splitMember .start (lexeme :: rest)).1 ≠ [] := by
  rw [splitMember, if_neg (by simp [Progress.endsBefore, inside])]
  split <;> simp

private theorem length_splitMember_lt {lexeme : Lexeme} (rest : List Lexeme)
    (inside : (lexeme == code '\x7d') = false) :
    (splitMember .start (lexeme :: rest)).2.length < (lexeme :: rest).length := by
  have whole := congrArg List.length (append_splitMember .start (lexeme :: rest))
  have := List.length_pos_iff.2 (splitMember_ne_nil rest inside)
  simp only [List.length_append] at whole
  omega

def fragments (key : Key) (lexemes : List Lexeme) : List Fragment :=
  if lexemes.isEmpty then [] else [⟨key, Lexeme.stringOf lexemes⟩]

def blanks (lexemes : List Lexeme) : List Lexeme :=
  lexemes.takeWhile Lexeme.isBlank

def afterBlanks (lexemes : List Lexeme) : List Lexeme :=
  lexemes.dropWhile Lexeme.isBlank

theorem blanks_append_afterBlanks (lexemes : List Lexeme) :
    blanks lexemes ++ afterBlanks lexemes = lexemes :=
  List.takeWhile_append_dropWhile

private theorem length_afterBlanks_le (lexemes : List Lexeme) :
    (afterBlanks lexemes).length ≤ lexemes.length :=
  (List.dropWhile_suffix _).length_le

/-- The comments that begin a text with the blanks between them, and what comes after them. -/
def splitComments : List Lexeme → List Lexeme × List Lexeme
  | .comment text :: rest =>
    let more := splitComments (afterBlanks rest)
    if more.1.isEmpty then ([.comment text], rest)
    else (.comment text :: blanks rest ++ more.1, more.2)
  | lexemes => ([], lexemes)
termination_by lexemes => lexemes.length
decreasing_by
  have := length_afterBlanks_le rest
  simp only [List.length_cons]
  omega

theorem append_splitComments (lexemes : List Lexeme) :
    (splitComments lexemes).1 ++ (splitComments lexemes).2 = lexemes := by
  fun_induction splitComments lexemes with
  | case1 => rfl
  | case2 text rest more _ ih =>
    have whole := blanks_append_afterBlanks rest
    simp [more, ih, whole]
  | case3 => rfl

def startsWithWord (word : String) (lexemes : List Lexeme) : Bool :=
  match Text.dropStart? word.toList (Lexeme.textOf (lexemes.take (word.length + 1))) with
  | some (c :: _) => ! (c.isAlphanum || c == '_' || c == '$')
  | some [] => true
  | none => false

def isStatement (lexemes : List Lexeme) : Bool :=
  startsWithWord "package" lexemes || startsWithWord "import" lexemes

theorem ne_nil_of_isStatement {lexemes : List Lexeme}
    (found : isStatement lexemes = true) : lexemes ≠ [] := by
  rintro rfl
  revert found
  decide

def statementKey (statement : List Lexeme) : Key :=
  if startsWithWord "package" statement then .package
  else
    let text := Lexeme.textOf statement
    let name := Text.dropWhileEnd (· == ';') ((Text.dropStart? "import".toList text).getD text)
    .importOf (String.ofList ([' '].intercalate (Text.words name)))

/-- Adds a member to the fragments of a body in reverse. A constant that holds the name of a
property becomes one fragment with the attribute of that name if the attribute follows it directly.
-/
def pushMember (done : List Fragment) (member : Fragment) : List Fragment :=
  match member.key, done with
  | .attributeOf name, ⟨.gap, gap⟩ :: ⟨.attributeOf constant, text⟩ :: rest =>
    if constant = "PROPERTY_" ++ name then ⟨member.key, text ++ gap ++ member.text⟩ :: rest
    else member :: done
  | _, _ => member :: done

/-- The fragments after the class declaration in reverse, in front of those that are `done`. -/
def body (done : List Fragment) : List Lexeme → List Fragment
  | [] => done
  | lexeme :: rest =>
    if lexeme.isBlank then
      body (⟨.gap, Lexeme.stringOf (lexeme :: blanks rest)⟩ :: done) (afterBlanks rest)
    else if lexeme == code '\x7d' then
      fragments .unclassified (afterBlanks rest) ++ fragments .gap (blanks rest)
        ++ ⟨.classEnd, Lexeme.stringOf [lexeme]⟩ :: done
    else
      let member := splitMember .start (lexeme :: rest)
      let text := Lexeme.textOf member.1
      body (pushMember done ⟨Member.key text, String.ofList text⟩) member.2
termination_by lexemes => lexemes.length
decreasing_by
  · exact Nat.lt_succ_of_le (length_afterBlanks_le rest)
  · rename_i _ inside
    exact length_splitMember_lt rest (by simpa using inside)

/-- The fragments from the package declaration on. A comment in front of a later statement is kept
as unclassified text. -/
def header : List Lexeme → List Fragment
  | [] => []
  | lexeme :: rest =>
    if lexeme.isBlank then
      ⟨.gap, Lexeme.stringOf (lexeme :: blanks rest)⟩ :: header (afterBlanks rest)
    else
      let comments := splitComments (lexeme :: rest)
      let next := afterBlanks comments.2
      if isStatement next then
        let statement := splitStatement next
        fragments .unclassified comments.1 ++ fragments .gap (blanks comments.2)
          ++ ⟨statementKey statement.1, Lexeme.stringOf statement.1⟩ :: header statement.2
      else
        match splitTopLevel? '\x7b' 0 (lexeme :: rest) with
        | none => fragments .unclassified (lexeme :: rest)
        | some (declaration, rest) =>
          ⟨.classDecl, Lexeme.stringOf declaration⟩ :: (body [] rest).reverse
termination_by lexemes => lexemes.length
decreasing_by
  · exact Nat.lt_succ_of_le (length_afterBlanks_le rest)
  · rename_i _ found
    have first := length_splitStatement_lt (ne_nil_of_isStatement found)
    have second := length_afterBlanks_le (splitComments (lexeme :: rest)).2
    have whole := congrArg List.length (append_splitComments (lexeme :: rest))
    simp only [List.length_append] at whole
    simp only [next, comments] at first
    omega

/-- The comment at the front of the file with the blanks around it, if a statement follows it. -/
def opening (lexemes : List Lexeme) : List Lexeme × List Lexeme :=
  let (comments, rest) := splitComments (afterBlanks lexemes)
  if isStatement (afterBlanks rest) && ! comments.isEmpty then (blanks lexemes ++ comments, rest)
  else ([], lexemes)

def parseLexemes (lexemes : List Lexeme) : Store :=
  let (front, rest) := opening lexemes
  ⟨⟨.start, Lexeme.stringOf front⟩ :: header rest⟩

end Source

def Store.parse (source : String) : Store :=
  Source.parseLexemes (Lexeme.ofSource source.toList)

end ClassWeaver.Fragment
