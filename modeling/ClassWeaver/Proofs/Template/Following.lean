import ClassWeaver.Template.Writing

set_option autoImplicit false

/-!
Following a template without its values. A machine that reads characters is led through the texts of
a template; where a value is printed it must be in a state that no printed text changes, and the
ways through alternatives and repetitions must come together. Main statement: where this succeeds,
the template has a text for every value of the expected shape, and the machine reads that text from
the same state to the same state.
-/

namespace ClassWeaver.Template

inductive Shape where
  | text
  /-- A text or null. -/
  | optional
  | truth
  | list (item : Shape)
  | record (fields : List (String × Shape))
  deriving Repr

/-- The shape of a part of a value: the value itself, or one of its fields. -/
def Shape.part? : List String → Shape → Option Shape
  | [], shape => some shape
  | [name], .record fields => fields.lookup name
  | _, _ => none

def Shape.isPrinted : Shape → Bool
  | .text | .optional => true
  | _ => false

namespace Value

/-- A value has a shape, and its texts are as they should be. -/
inductive HasShape (fits : String → Prop) : Shape → Value → Prop where
  | text {content : String} (fit : fits content) : HasShape fits .text (.text content)
  | absent : HasShape fits .optional .null
  | present {content : String} (fit : fits content) : HasShape fits .optional (.text content)
  | truth {holds : Bool} : HasShape fits .truth (.truth holds)
  | list {item : Shape} {items : List Value} (each : ∀ value ∈ items, HasShape fits item value) :
      HasShape fits (.list item) (.list items)
  | record {shapes : List (String × Shape)} {fields : List (String × Value)}
      (content : String → Value)
      (found : ∀ name shape, shapes.lookup name = some shape →
        fields.lookup name = some (content name))
      (each : ∀ name shape, shapes.lookup name = some shape → HasShape fits shape (content name)) :
      HasShape fits (.record shapes) (.record fields)

namespace HasShape

variable {fits : String → Prop}

theorem ofText? {content : Option String} (fit : ∀ text, content = some text → fits text) :
    HasShape fits .optional (Value.ofText? content) := by
  cases content with
  | none => exact absent
  | some text => exact present (fit text rfl)

theorem nil : HasShape fits (.record []) (.record []) :=
  record (fun _ => .null) (by simp) (by simp)

theorem cons {name : String} {shape : Shape} {value : Value} {shapes : List (String × Shape)}
    {fields : List (String × Value)} (first : HasShape fits shape value)
    (rest : HasShape fits (.record shapes) (.record fields)) :
    HasShape fits (.record ((name, shape) :: shapes)) (.record ((name, value) :: fields)) := by
  cases rest with
  | record content found each =>
      refine record (fun label => if label = name then value else content label) ?_ ?_
      · intro label other known
        by_cases same : label = name
        · simp [same]
        · have differ : (label == name) = false := beq_false_of_ne same
          rw [List.lookup_cons, differ] at known ⊢
          simpa [same] using found label other known
      · intro label other known
        by_cases same : label = name
        · subst same
          have whole : shape = other := by simpa using known
          simpa [← whole] using first
        · have differ : (label == name) = false := beq_false_of_ne same
          rw [List.lookup_cons, differ] at known
          simpa [same] using each label other known

theorem part {names : List String} {shape inner : Shape} {value : Value}
    (shaped : HasShape fits shape value) (known : shape.part? names = some inner) :
    ∃ found, value.parts? names = some (some found) ∧ HasShape fits inner found := by
  unfold Shape.part? at known
  split at known
  · obtain rfl := Option.some.inj known
    exact ⟨value, rfl, shaped⟩
  · next name fields =>
      cases shaped with
      | record content found each =>
          refine ⟨content name, ?_, each name inner known⟩
          simp [parts?, part?, found name inner known]
  · simp at known

theorem shown_of_isPrinted {shape : Shape} {value : Value} (shaped : HasShape fits shape value)
    (printed : shape.isPrinted = true) : value.shown = "" ∨ fits value.shown := by
  cases shaped with
  | text fit => exact .inr (by simpa [shown] using fit)
  | absent => exact .inl (by simp [shown])
  | present fit => exact .inr (by simpa [shown] using fit)
  | truth => simp [Shape.isPrinted] at printed
  | list each => simp [Shape.isPrinted] at printed
  | record content found each => simp [Shape.isPrinted] at printed

end HasShape

end Value

section Following

variable {σ : Type} [DecidableEq σ] (step : σ → Char → Option σ) (prints : σ → Bool)

def meet? (a b : Option σ) : Option σ :=
  if a = b then a else none

mutual

def followPiece? (shape : Shape) (state : σ) : Piece → Option σ
  | .text content => content.toList.foldlM step state
  | .print (.path (.inScope 0 names)) =>
    if prints state && (shape.part? names).any Shape.isPrinted then some state else none
  | .choose (.path (.inScope 0 names)) yes no =>
    if (shape.part? names).isSome then
      meet? (followPieces? shape state yes) (followPieces? shape state no)
    else none
  | .each (.path (.inScope 0 names)) _ body otherwise =>
    match shape.part? names with
    | some (.list item) =>
      meet? (some state)
        (meet? (followPieces? item state body) (followPieces? shape state otherwise))
    | _ => none
  | _ => none

def followPieces? (shape : Shape) (state : σ) : List Piece → Option σ
  | [] => some state
  | piece :: rest => (followPiece? shape state piece).bind fun next => followPieces? shape next rest

end

theorem eq_of_meet?_eq_some {a b : Option σ} {state : σ} (met : meet? a b = some state) :
    a = some state ∧ b = some state := by
  unfold meet? at met
  split at met
  · next same => exact ⟨met, same ▸ met⟩
  · simp at met

variable {step prints} {fits : String → Prop}

private theorem parts?_of_scope {names : List String} {shape inner : Shape} {value : Value}
    (vars : List (String × Value)) (scope : Scope) (shaped : value.HasShape fits shape)
    (known : shape.part? names = some inner) :
    ∃ found, Path.value? (⟨value, vars⟩ :: scope) (.inScope 0 names) = some (some found) ∧
      found.HasShape fits inner := by
  simpa [Path.value?, Scope.level] using shaped.part known

private theorem frames?_list {item : Shape} {items : List Value}
    (each : ∀ value ∈ items, value.HasShape fits item) :
    ∃ frames, frames? (.list items) = some frames ∧
      ∀ frame ∈ frames, frame.value.HasShape fits item := by
  refine ⟨_, rfl, fun frame found => ?_⟩
  obtain ⟨index, bound, rfl⟩ := List.mem_mapIdx.mp found
  exact each _ (List.getElem_mem bound)

omit [DecidableEq σ] in
private theorem mapM_frames {body : Template} {scope : Scope} {state : σ} (frames : List Frame)
    (each : ∀ frame ∈ frames, ∃ text, renderPieces (frame :: scope) body = some text ∧
      text.toList.foldlM step state = some state) :
    ∃ texts, frames.mapM (fun frame => renderPieces (frame :: scope) body) = some texts ∧
      (String.join texts).toList.foldlM step state = some state := by
  induction frames with
  | nil => exact ⟨[], rfl, by simp [String.join]⟩
  | cons frame frames ih =>
      obtain ⟨text, here, read⟩ := each frame List.mem_cons_self
      obtain ⟨texts, rest, readRest⟩ := ih fun other found => each other (List.mem_cons_of_mem _ found)
      refine ⟨text :: texts, by simp [here, rest], ?_⟩
      rw [String.toList_join, List.flatMap_cons, List.foldlM_append, read]
      simpa [String.toList_join] using readRest

mutual

private theorem exists_renderPiece {shape : Shape} {value : Value} {state after : σ}
    (silent : ∀ state text, prints state = true → fits text →
      text.toList.foldlM step state = some state)
    (vars : List (String × Value)) (scope : Scope) (shaped : value.HasShape fits shape) (piece : Piece)
    (followed : followPiece? step prints shape state piece = some after) :
    ∃ text, renderPiece (⟨value, vars⟩ :: scope) piece = some text ∧
      text.toList.foldlM step state = some after := by
  unfold followPiece? at followed
  split at followed
  · next content => exact ⟨content, rfl, followed⟩
  · next names =>
      split at followed
      · next ready =>
          obtain rfl := Option.some.inj followed
          obtain ⟨quiet, printed⟩ := Bool.and_eq_true_iff.mp ready
          obtain ⟨inner, known, shown⟩ := (Option.any_eq_true _ _).mp printed
          obtain ⟨found, here, fit⟩ := parts?_of_scope vars scope shaped known
          refine ⟨found.shown, by simp [renderPiece, Expression.value?, here], ?_⟩
          rcases fit.shown_of_isPrinted shown with empty | fitting
          · simp [empty]
          · exact silent state found.shown quiet fitting
      · simp at followed
  · next names yes no =>
      split at followed
      · next tested =>
          obtain ⟨inner, known⟩ := Option.isSome_iff_exists.mp tested
          obtain ⟨found, here, -⟩ := parts?_of_scope vars scope shaped known
          obtain ⟨first, second⟩ := eq_of_meet?_eq_some followed
          obtain ⟨a, renderYes, readYes⟩ :=
            exists_renderPieces silent vars scope shaped yes first
          obtain ⟨b, renderNo, readNo⟩ :=
            exists_renderPieces silent vars scope shaped no second
          by_cases truthy : found.isTruthy = true
          · exact ⟨a, by simp [renderPiece, Expression.value?, here, truthy, renderYes], readYes⟩
          · exact ⟨b, by simp [renderPiece, Expression.value?, here, truthy, renderNo], readNo⟩
      · simp at followed
  · next names isRequired body otherwise =>
      split at followed
      · next item known =>
          obtain ⟨found, here, fit⟩ := parts?_of_scope vars scope shaped known
          obtain ⟨same, both⟩ := eq_of_meet?_eq_some followed
          obtain rfl := Option.some.inj same
          obtain ⟨first, second⟩ := eq_of_meet?_eq_some both
          cases fit with
          | list each =>
              rename_i items
              obtain ⟨frames, listed, shapes⟩ := frames?_list each
              cases frames with
              | nil =>
                  obtain ⟨text, rendered, read⟩ :=
                    exists_renderPieces silent vars scope shaped otherwise second
                  exact ⟨text, by simp [renderPiece, Expression.value?, here, listed, rendered], read⟩
              | cons frame frames =>
                  obtain ⟨texts, rendered, read⟩ :=
                    mapM_frames (frame :: frames) fun frame found =>
                      exists_renderPieces silent frame.loopVariables (⟨value, vars⟩ :: scope)
                        (shapes frame found) body first
                  have joined := congrArg (Option.bind · fun texts => some (String.join texts)) rendered
                  refine ⟨String.join texts, ?_, read⟩
                  simpa [renderPiece, Expression.value?, here, listed] using joined
      · simp at followed
  · simp at followed
termination_by sizeOf piece

/-- A template that can be followed has a text for a value of the shape, and the text leads where
following the template has led. -/
theorem exists_renderPieces {shape : Shape} {value : Value} {state after : σ}
    (silent : ∀ state text, prints state = true → fits text →
      text.toList.foldlM step state = some state)
    (vars : List (String × Value)) (scope : Scope) (shaped : value.HasShape fits shape) (pieces : List Piece)
    (followed : followPieces? step prints shape state pieces = some after) :
    ∃ text, renderPieces (⟨value, vars⟩ :: scope) pieces = some text ∧
      text.toList.foldlM step state = some after := by
  match pieces with
  | [] => exact ⟨"", rfl, by simpa [followPieces?] using followed⟩
  | piece :: rest =>
      rw [followPieces?] at followed
      obtain ⟨middle, first, second⟩ := Option.bind_eq_some_iff.mp followed
      obtain ⟨text, here, read⟩ := exists_renderPiece silent vars scope shaped piece first
      obtain ⟨more, there, readMore⟩ :=
        exists_renderPieces silent vars scope shaped rest second
      refine ⟨text ++ more, by simp [renderPieces, here, there], ?_⟩
      rw [String.toList_append, List.foldlM_append, read]
      exact readMore
termination_by sizeOf pieces

end

end Following

end ClassWeaver.Template
