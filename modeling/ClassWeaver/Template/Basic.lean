import ClassWeaver.Template.Value

set_option autoImplicit false

/-!
Templates: texts with variables, alternatives and repetitions, and what they look like for given
values. Every variable that is printed must have a value. Main statement: templates one after the
other are rendered one after the other.
-/

namespace ClassWeaver

namespace Template

/-- How a value is found: from the value at hand or one around it, from the outermost one, or among
the variables of a repetition. -/
inductive Path where
  | inScope (levels : Nat) (names : List String)
  | fromRoot (names : List String)
  | loopVariable (levels : Nat) (name : String)
  deriving DecidableEq, Repr

inductive Expression where
  | path (place : Path)
  | literal (value : Value)
  | call (function : String) (arguments : List Expression)
  deriving Repr

inductive Piece where
  | text (content : String)
  | print (source : Expression)
  /-- One of two templates. -/
  | choose (condition : Expression) (yes no : List Piece)
  /-- A template for each item, or another one if there is none. Without the other one there must be
  something to go through. -/
  | each (items : Expression) (isRequired : Bool) (body otherwise : List Piece)
  /-- A template for the parts of a value, or another one if the value is empty. -/
  | within (value : Expression) (isRequired : Bool) (body otherwise : List Piece)
  /-- A part that is never rendered. -/
  | failing
  deriving Repr

end Template

abbrev Template :=
  List Template.Piece

namespace Template

structure Frame where
  value : Value
  loopVariables : List (String × Value)

abbrev Scope :=
  List Frame

def Scope.level (scope : Scope) (levels : Nat) : Value :=
  ((scope[levels]? <|> scope.getLast?).map (·.value)).getD .null

def Path.value? (scope : Scope) : Path → Option (Option Value)
  | .inScope levels names => Value.parts? names (scope.level levels)
  | .fromRoot names => Value.parts? names (scope.level scope.length)
  | .loopVariable levels name =>
    some (scope[levels]?.bind fun frame => frame.loopVariables.lookup name)

private def compare? (accepts : Ordering → Bool) : Value → Value → Option Value
  | .number a, .number b => some (.truth (accepts (compare a b)))
  | _, _ => none

/-- What a function gives for its arguments. Arguments that it does not need do not matter. -/
def resultOf? : String → List Value → Option Value
  | "eq", a :: b :: _ => some (.truth (same a b))
  | "ne", a :: b :: _ => some (.truth (! same a b))
  | "not", a :: _ => some (.truth (! a.isTruthy))
  | "and", a :: b :: _ => some (.truth (a.isTruthy && b.isTruthy))
  | "or", a :: b :: _ => some (.truth (a.isTruthy || b.isTruthy))
  | "gt", a :: b :: _ => compare? (· == .gt) a b
  | "gte", a :: b :: _ => compare? (· != .lt) a b
  | "lt", a :: b :: _ => compare? (· == .lt) a b
  | "lte", a :: b :: _ => compare? (· != .gt) a b
  | "len", a :: _ => some (.number (size a))
  | "lookup", a :: b :: _ => member? a b
  | _, _ => none
where
  same : Value → Value → Bool
    | .null, .null => true
    | .truth a, .truth b => a == b
    | .number a, .number b => a == b
    | .text a, .text b => a == b
    | _, _ => false
  notNull? : Value → Option Value
    | .null => none
    | value => some value
  member? : Value → Value → Option Value
    | .list items, .number index =>
      if index < 0 then none else items[index.toNat]?.bind notNull?
    | .record fields, .text name => (fields.lookup name).bind notNull?
    | _, _ => none
  size : Value → Int
    | .text content => content.utf8ByteSize
    | .list items => items.length
    | .record fields => fields.length
    | _ => 0

mutual

/-- The value of an expression, if there is one; a mistaken expression has no answer. A note for a
log stands for nothing. -/
def Expression.value? (scope : Scope) : Expression → Option (Option Value)
  | .path place => place.value? scope
  | .literal value => some (some value)
  | .call "log" _ => some (some (.text ""))
  | .call function arguments => do
    let values ← Expression.values? scope arguments
    return some (← resultOf? function values)

def Expression.values? (scope : Scope) : List Expression → Option (List Value)
  | [] => some []
  | expression :: rest => do
    let value ← (← expression.value? scope)
    return value :: (← Expression.values? scope rest)

end

private def loopFrame (key : String) (count index : Nat) (label value : Value) : Frame :=
  ⟨value, [(key, label), ("first", .truth (index == 0)), ("last", .truth (index + 1 == count))]⟩

def frames? : Value → Option (List Frame)
  | .list items =>
    some (items.mapIdx fun index item =>
      loopFrame "index" items.length index (.number index) item)
  | .record fields =>
    some (fields.mapIdx fun index (name, value) =>
      loopFrame "key" fields.length index (.text name) value)
  | _ => none

mutual

def renderPiece (scope : Scope) : Piece → Option String
  | .text content => some content
  | .print source => do
    let value ← (← source.value? scope)
    return value.shown
  | .choose condition yes no => do
    let value ← condition.value? scope
    if value.any Value.isTruthy then renderPieces scope yes else renderPieces scope no
  | .each items isRequired body otherwise => do
    let frames := (← items.value? scope).bind frames?
    match frames with
    | some (frame :: frames) =>
      let texts ← (frame :: frames).mapM fun frame => renderPieces (frame :: scope) body
      return String.join texts
    | some [] => renderPieces scope otherwise
    | none => if isRequired then none else renderPieces scope otherwise
  | .within value isRequired body otherwise => do
    match ← value.value? scope with
    | some value =>
      if value.isTruthy then renderPieces (⟨value, []⟩ :: scope) body
      else if isRequired then none
      else renderPieces scope otherwise
    | none => if isRequired then none else renderPieces scope otherwise
  | .failing => none

def renderPieces (scope : Scope) : List Piece → Option String
  | [] => some ""
  | piece :: rest => do
    let text ← renderPiece scope piece
    return text ++ (← renderPieces scope rest)

end

def render (template : Template) (value : Value) : Option String :=
  renderPieces [⟨value, []⟩] template

theorem renderPieces_append (scope : Scope) (a b : Template) :
    renderPieces scope (a ++ b) =
      (renderPieces scope a).bind fun text => (renderPieces scope b).map (text ++ ·) := by
  induction a with
  | nil =>
    rw [List.nil_append, renderPieces]
    cases renderPieces scope b <;> simp
  | cons piece rest ih =>
    rw [List.cons_append, renderPieces, renderPieces, ih]
    cases renderPiece scope piece with
    | none => rfl
    | some text =>
      cases renderPieces scope rest with
      | none => rfl
      | some middle =>
        cases renderPieces scope b with
        | none => rfl
        | some last => simp [bind, Option.bind, String.append_assoc]

end Template

end ClassWeaver
