import ClassWeaver.Name
import ClassWeaver.Template.Writing

set_option autoImplicit false

/-!
The calls in code that a template prints. A rendered text is made of what the template says itself
and of the texts of values; a value is part of the word in which it is printed, and what it spells is
no call of the template. Main statements: a template has a text exactly if it has parts, which spell
that text, and the calls of lines one below the other are those of each line.
-/

namespace ClassWeaver.Template

/-- A part of a rendered text: what the template says itself, or the text of a value. -/
inductive Part where
  | own (content : String)
  | value (content : String)
  deriving DecidableEq, Repr

namespace Part

def text : Part → String
  | own content => content
  | value content => content

def textOf (parts : List Part) : String :=
  String.join (parts.map text)

@[simp] theorem textOf_append (a b : List Part) : textOf (a ++ b) = textOf a ++ textOf b := by
  simp [textOf]

theorem textOf_flatten (lists : List (List Part)) :
    textOf lists.flatten = String.join (lists.map textOf) := by
  induction lists with
  | nil => rfl
  | cons first rest ih => simp [ih]

end Part

open ClassWeaver.Template.Part (textOf)

mutual

def partsOfPiece (scope : Scope) : Piece → Option (List Part)
  | .text content => some [.own content]
  | .print source => do
    let value ← (← source.value? scope)
    return [.value value.shown]
  | .choose condition yes no => do
    let value ← condition.value? scope
    if value.any Value.isTruthy then partsOf scope yes else partsOf scope no
  | .each items isRequired body otherwise => do
    let frames := (← items.value? scope).bind frames?
    match frames with
    | some (frame :: frames) =>
      let parts ← (frame :: frames).mapM fun frame => partsOf (frame :: scope) body
      return parts.flatten
    | some [] => partsOf scope otherwise
    | none => if isRequired then none else partsOf scope otherwise
  | .within value isRequired body otherwise => do
    match ← value.value? scope with
    | some value =>
      if value.isTruthy then partsOf (⟨value, []⟩ :: scope) body
      else if isRequired then none
      else partsOf scope otherwise
    | none => if isRequired then none else partsOf scope otherwise
  | .failing => none

def partsOf (scope : Scope) : List Piece → Option (List Part)
  | [] => some []
  | piece :: rest => do
    let parts ← partsOfPiece scope piece
    return parts ++ (← partsOf scope rest)

end

private theorem mapM_textOf {α : Type} {text : α → Option String} {parts : α → Option (List Part)}
    (list : List α) (same : ∀ a ∈ list, text a = (parts a).map textOf) :
    list.mapM text = (list.mapM parts).map (·.map textOf) := by
  induction list with
  | nil => rfl
  | cons a rest ih =>
    have later := ih fun b inside => same b (List.mem_cons_of_mem a inside)
    rw [List.mapM_cons, List.mapM_cons, same a List.mem_cons_self, later]
    cases parts a with
    | none => rfl
    | some first => cases rest.mapM parts <;> rfl

mutual

theorem renderPiece_eq (scope : Scope) (piece : Piece) :
    renderPiece scope piece = (partsOfPiece scope piece).map textOf := by
  cases piece with
  | text content => simp [renderPiece, partsOfPiece, textOf, Part.text]
  | print source =>
    rw [renderPiece, partsOfPiece]
    cases source.value? scope with
    | none => rfl
    | some value => cases value <;> simp [textOf, Part.text]
  | choose condition yes no =>
    rw [renderPiece, partsOfPiece]
    cases condition.value? scope with
    | none => rfl
    | some value =>
      rw [Option.bind_eq_bind, Option.bind_eq_bind, Option.bind_some, Option.bind_some,
        apply_ite (Option.map textOf), renderPieces_eq scope yes, renderPieces_eq scope no]
  | each items isRequired body otherwise =>
    rw [renderPiece, partsOfPiece]
    cases items.value? scope with
    | none => rfl
    | some value =>
      simp only [Option.bind_eq_bind, Option.bind_some]
      rcases value.bind frames? with _ | (_ | ⟨frame, frames⟩)
      · dsimp only
        rw [apply_ite (Option.map textOf), renderPieces_eq scope otherwise]
        rfl
      · exact renderPieces_eq scope otherwise
      · have each := mapM_textOf (frame :: frames) fun inner _ =>
          renderPieces_eq (inner :: scope) body
        dsimp only
        rw [each]
        cases (frame :: frames).mapM fun inner => partsOf (inner :: scope) body with
        | none => rfl
        | some lists => exact congrArg some (Part.textOf_flatten lists).symm
  | within value isRequired body otherwise =>
    rw [renderPiece, partsOfPiece]
    cases value.value? scope with
    | none => rfl
    | some found =>
      cases found with
      | none =>
        simp only [Option.bind_eq_bind, Option.bind_some]
        rw [apply_ite (Option.map textOf), renderPieces_eq scope otherwise]
        rfl
      | some inner =>
        simp only [Option.bind_eq_bind, Option.bind_some]
        rw [apply_ite (Option.map textOf), apply_ite (Option.map textOf),
          renderPieces_eq (⟨inner, []⟩ :: scope) body, renderPieces_eq scope otherwise]
        rfl
  | failing => rfl

/-- The text of a template is what its parts spell. -/
theorem renderPieces_eq (scope : Scope) (pieces : List Piece) :
    renderPieces scope pieces = (partsOf scope pieces).map textOf := by
  match pieces with
  | [] => rfl
  | piece :: rest =>
    rw [renderPieces, partsOf, renderPiece_eq scope piece, renderPieces_eq scope rest]
    cases partsOfPiece scope piece with
    | none => rfl
    | some first =>
      cases partsOf scope rest with
      | none => rfl
      | some more => simp

end

/-- What is read of a part: its characters one by one, or the text of a value as a whole. -/
inductive Sign where
  | own (c : Char)
  | value (text : List Char)

def Part.signs : Part → List Sign
  | own content => content.toList.map .own
  | value content => [.value content.toList]

inductive Token where
  | word (text : List Char)
  | mark (c : Char)
  deriving DecidableEq

/-- Puts a text in front of code; it makes one word with the word that follows it directly. -/
def Token.push (text : List Char) : List Token → List Token
  | .word more :: rest => .word (text ++ more) :: rest
  | tokens => .word text :: tokens

def tokensOf : List Sign → List Token
  | [] => []
  | .own c :: rest =>
    if Name.isPart c then Token.push [c] (tokensOf rest) else .mark c :: tokensOf rest
  | .value text :: rest => Token.push text (tokensOf rest)

/-- A call: the variable on which a method is called, and the name of the method. -/
structure Call where
  receiver : String
  method : String
  deriving DecidableEq, Repr

/-- The call at the front of code. What is selected with a dot is no variable. -/
def callAt? : Bool → List Token → Option Call
  | false, .word receiver :: dot :: .word method :: opening :: _ =>
    if dot == .mark '.' && opening == .mark '(' then
      some ⟨String.ofList receiver, String.ofList method⟩
    else none
  | _, _ => none

def callsFrom (selected : Bool) : List Token → List Call
  | [] => []
  | token :: rest => (callAt? selected (token :: rest)).toList ++ callsFrom (token == .mark '.') rest

def callsOf (parts : List Part) : List Call :=
  callsFrom false (tokensOf (parts.flatMap Part.signs))

private theorem push_append (text : List Char) (tokens : List Token) {c : Char} (rest : List Token) :
    Token.push text (tokens ++ .mark c :: rest) = Token.push text tokens ++ .mark c :: rest := by
  cases tokens with
  | nil => rfl
  | cons token tokens => cases token <;> rfl

theorem tokensOf_append {c : Char} (apart : Name.isPart c = false) (a b : List Sign) :
    tokensOf (a ++ .own c :: b) = tokensOf a ++ .mark c :: tokensOf b := by
  induction a with
  | nil => simp [tokensOf, apart]
  | cons sign a ih =>
    cases sign with
    | own d =>
      rw [List.cons_append, tokensOf, tokensOf, ih]
      split
      · exact push_append [d] _ _
      · rfl
    | value text =>
      rw [List.cons_append, tokensOf, tokensOf, ih]
      exact push_append text _ _

private theorem callAt?_append {c : Char} (dot : c ≠ '.') (parenthesis : c ≠ '(') (selected : Bool)
    (token : Token) (a b : List Token) :
    callAt? selected (token :: a ++ .mark c :: b) = callAt? selected (token :: a) := by
  cases selected with
  | true => rfl
  | false =>
    cases token with
    | mark d => rfl
    | word receiver =>
      rcases a with _ | ⟨second, a⟩
      · cases b with
        | nil => rfl
        | cons third b => cases third <;> cases b <;> simp [callAt?, dot]
      · rcases a with _ | ⟨third, a⟩
        · cases b <;> rfl
        · rcases a with _ | ⟨fourth, a⟩
          · cases third <;> simp [callAt?, parenthesis]
          · cases third <;> rfl

private theorem callsFrom_append {c : Char} (dot : c ≠ '.') (parenthesis : c ≠ '(')
    (selected : Bool) (a b : List Token) :
    callsFrom selected (a ++ .mark c :: b) = callsFrom selected a ++ callsFrom false b := by
  induction a generalizing selected with
  | nil =>
    have other : (Token.mark c == .mark '.') = false := by simpa using dot
    simp [callsFrom, callAt?, other]
  | cons token a ih =>
    rw [List.cons_append, callsFrom, callsFrom, ih, ← List.append_assoc]
    congr 2
    exact congrArg Option.toList (callAt?_append dot parenthesis selected token a b)

theorem callsOf_line (parts rest : List Part) :
    callsOf (parts ++ .own "\n" :: rest) = callsOf parts ++ callsOf rest := by
  have signs : (parts ++ .own "\n" :: rest).flatMap Part.signs =
      parts.flatMap Part.signs ++ .own '\n' :: rest.flatMap Part.signs := by
    rw [List.flatMap_append, List.flatMap_cons]
    rfl
  rw [callsOf, signs, tokensOf_append (by decide), callsFrom_append (by decide) (by decide)]
  rfl

theorem partsOf_append {scope : Scope} {a b : Template} {front back : List Part}
    (first : partsOf scope a = some front) (second : partsOf scope b = some back) :
    partsOf scope (a ++ b) = some (front ++ back) := by
  induction a generalizing front with
  | nil =>
    obtain rfl : [] = front := Option.some.inj first
    exact second
  | cons piece a ih =>
    rw [partsOf] at first
    obtain ⟨here, printed, first⟩ := Option.bind_eq_some_iff.mp first
    obtain ⟨later, rest, same⟩ := Option.bind_eq_some_iff.mp first
    obtain rfl : here ++ later = front := Option.some.inj same
    rw [List.cons_append, partsOf, printed, ih rest, List.append_assoc]
    rfl

private theorem partsOf_singleton (scope : Scope) (piece : Piece) :
    partsOf scope [piece] = partsOfPiece scope piece := by
  rw [partsOf]
  cases partsOfPiece scope piece <;> simp [partsOf]

def Prints (scope : Scope) (template : Template) (signs : List Sign) : Prop :=
  ∃ parts, partsOf scope template = some parts ∧ parts.flatMap Part.signs = signs

namespace Prints

variable {scope : Scope} {rest : Template} {signs : List Sign}

theorem nil : Prints scope [] [] :=
  ⟨[], rfl, rfl⟩

theorem text {chars : List Char} (later : Prints scope rest signs) :
    Prints scope (.text (String.ofList chars) :: rest) (chars.map .own ++ signs) := by
  obtain ⟨parts, printed, rfl⟩ := later
  refine ⟨.own (String.ofList chars) :: parts, partsOf_append (a := [.text _]) rfl printed, ?_⟩
  rw [List.flatMap_cons, Part.signs, String.toList_ofList]

theorem var {name : String} {value : Value}
    (known : (Path.inScope 0 [name]).value? scope = some (some value))
    (later : Prints scope rest signs) :
    Prints scope (Template.var name :: rest) (.value value.shown.toList :: signs) := by
  obtain ⟨parts, printed, rfl⟩ := later
  refine ⟨.value value.shown :: parts, ?_, rfl⟩
  rw [partsOf, Template.var, partsOfPiece, Expression.value?, known, printed]
  rfl

theorem item {value : Value} (known : (Path.inScope 0 []).value? scope = some (some value))
    (later : Prints scope rest signs) :
    Prints scope (Template.item :: rest) (.value value.shown.toList :: signs) := by
  obtain ⟨parts, printed, rfl⟩ := later
  refine ⟨.value value.shown :: parts, ?_, rfl⟩
  rw [partsOf, Template.item, partsOfPiece, Expression.value?, known, printed]
  rfl

theorem when {name : String} {value : Value} {inner : List Sign} {yes : Template}
    (known : (Path.inScope 0 [name]).value? scope = some (some value))
    (here : Prints scope yes inner) (later : Prints scope rest signs) :
    Prints scope (Template.when name yes :: rest)
      ((if value.isTruthy then inner else []) ++ signs) := by
  obtain ⟨parts, printed, rfl⟩ := here
  obtain ⟨others, printed', rfl⟩ := later
  refine ⟨(if value.isTruthy then parts else []) ++ others, ?_, ?_⟩
  · rw [partsOf, Template.when, either, partsOfPiece, Expression.value?, known, printed']
    cases truthy : value.isTruthy <;> simp [truthy, printed, partsOf]
  · rw [List.flatMap_append]
    split <;> rfl

end Prints

/-- A template that prints whole lines which make certain calls. -/
def Makes (scope : Scope) (template : Template) (calls : List Call) : Prop :=
  ∃ parts, partsOf scope template = some parts ∧
    ∀ rest, callsOf (parts ++ rest) = calls ++ callsOf rest

private theorem exists_frames (items : List Value) :
    ∃ frames, frames? (.list items) = some frames ∧ frames.map (·.value) = items := by
  refine ⟨_, rfl, List.ext_getElem? fun index => ?_⟩
  rw [List.getElem?_map, List.getElem?_mapIdx]
  cases items[index]? <;> rfl

private theorem exists_mapM {α : Type} {scope : Scope} {body : Template} {value : α → Value}
    {calls : α → List Call} {frames : List Frame} {entries : List α}
    (same : frames.map (·.value) = entries.map value)
    (each : ∀ entry ∈ entries, ∀ vars, Makes (⟨value entry, vars⟩ :: scope) body (calls entry)) :
    ∃ lists, frames.mapM (fun frame => partsOf (frame :: scope) body) = some lists ∧
      ∀ rest, callsOf (lists.flatten ++ rest) = entries.flatMap calls ++ callsOf rest := by
  induction frames generalizing entries with
  | nil =>
    obtain rfl : entries = [] := List.map_eq_nil_iff.mp same.symm
    exact ⟨[], rfl, fun _ => rfl⟩
  | cons frame frames ih =>
    cases entries with
    | nil => cases same
    | cons entry entries =>
      obtain ⟨here, later⟩ := List.cons.inj same
      obtain ⟨parts, printed, called⟩ := each entry List.mem_cons_self frame.loopVariables
      obtain ⟨lists, printed', called'⟩ := ih later fun other inside =>
        each other (List.mem_cons_of_mem entry inside)
      rw [← here] at printed
      refine ⟨parts :: lists, by rw [List.mapM_cons, printed, printed']; rfl, fun rest => ?_⟩
      rw [List.flatten_cons, List.append_assoc, called, called', List.flatMap_cons,
        List.append_assoc]

namespace Makes

variable {scope : Scope} {a b : Template} {first second : List Call}

theorem nil : Makes scope [] [] :=
  ⟨[], rfl, fun _ => rfl⟩

theorem append (front : Makes scope a first) (back : Makes scope b second) :
    Makes scope (a ++ b) (first ++ second) := by
  obtain ⟨before, printed, called⟩ := front
  obtain ⟨after, printed', called'⟩ := back
  refine ⟨before ++ after, partsOf_append printed printed', fun rest => ?_⟩
  rw [List.append_assoc, called, called', List.append_assoc]

theorem line {signs : List Sign} (printed : Prints scope a signs)
    (called : callsFrom false (tokensOf signs) = first) : Makes scope (line a) first := by
  obtain ⟨parts, known, rfl⟩ := printed
  refine ⟨parts ++ [.own "\n"], partsOf_append known rfl, fun rest => ?_⟩
  rw [List.append_assoc, List.singleton_append, callsOf_line, callsOf, called]

theorem either {name : String} {holds : Bool}
    (known : (Path.inScope 0 [name]).value? scope = some (some (.truth holds)))
    (yes : Makes scope a first) (no : Makes scope b second) :
    Makes scope [either name a b] (if holds then first else second) := by
  have chosen : partsOf scope [Template.either name a b] = partsOf scope (if holds then a else b) := by
    rw [partsOf_singleton, Template.either, partsOfPiece, Expression.value?, known]
    cases holds <;> rfl
  cases holds with
  | true =>
    obtain ⟨parts, printed, called⟩ := yes
    exact ⟨parts, chosen.trans printed, called⟩
  | false =>
    obtain ⟨parts, printed, called⟩ := no
    exact ⟨parts, chosen.trans printed, called⟩

theorem when {name : String} {holds : Bool}
    (known : (Path.inScope 0 [name]).value? scope = some (some (.truth holds)))
    (yes : Makes scope a first) : Makes scope [when name a] (if holds then first else []) :=
  either known yes nil

theorem forEach {α : Type} {name : String} {value : α → Value} {calls : α → List Call}
    {entries : List α}
    (known : (Path.inScope 0 [name]).value? scope = some (some (.list (entries.map value))))
    (each : ∀ entry ∈ entries, ∀ vars, Makes (⟨value entry, vars⟩ :: scope) a (calls entry)) :
    Makes scope [forEach name a] (entries.flatMap calls) := by
  obtain ⟨frames, listed, values⟩ := exists_frames (entries.map value)
  obtain ⟨lists, printed, called⟩ := exists_mapM values each
  have whole : partsOf scope [Template.forEach name a] = some lists.flatten := by
    rw [partsOf_singleton, Template.forEach, partsOfPiece, Expression.value?, known]
    cases frames with
    | nil =>
      obtain rfl : [] = lists := Option.some.inj printed
      simp [listed, partsOf]
    | cons frame frames => simp only [Option.bind_eq_bind, Option.bind_some, listed, printed]; rfl
  exact ⟨lists.flatten, whole, called⟩

end Makes

def Calls (scope : Scope) (template : Template) (calls : List Call) : Prop :=
  (partsOf scope template).map callsOf = some calls

theorem Prints.calls {scope : Scope} {template : Template} {signs : List Sign} {calls : List Call}
    (printed : Prints scope template signs) (called : callsFrom false (tokensOf signs) = calls) :
    Calls scope template calls := by
  obtain ⟨parts, known, rfl⟩ := printed
  rw [Calls, known, Option.map_some, callsOf, called]

namespace Calls

variable {scope : Scope} {a : Template} {rest : List Template} {first second : List Call}

theorem cons (here : Makes scope a first) (later : Calls scope (inOrder rest) second) :
    Calls scope (inOrder (a :: rest)) (first ++ second) := by
  obtain ⟨front, printed, called⟩ := here
  obtain ⟨back, printed', rfl⟩ := Option.map_eq_some_iff.mp later
  have whole : inOrder (a :: rest) = a ++ inOrder rest := List.flatten_cons
  rw [Calls, whole, partsOf_append printed printed', Option.map_some, called]

theorem silent {signs : List Sign} (printed : Prints scope a signs)
    (quiet : callsFrom false (tokensOf signs) = [])
    (later : Calls scope (inOrder rest) second) : Calls scope (inOrder (line a :: rest)) second :=
  cons (.line printed quiet) later

theorem fixed {chars : List Char} (quiet : callsFrom false (tokensOf (chars.map .own)) = [])
    (later : Calls scope (inOrder rest) second) :
    Calls scope (inOrder (line [.text (String.ofList chars)] :: rest)) second :=
  silent (.text .nil) (by rwa [List.append_nil]) later

theorem last {signs : List Sign} (printed : Prints scope a signs)
    (called : callsFrom false (tokensOf signs) = first) : Calls scope (inOrder [a]) first := by
  rw [inOrder, List.flatten_singleton]
  exact printed.calls called

end Calls

end ClassWeaver.Template
