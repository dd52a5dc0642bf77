import ClassWeaver.Proofs.Regeneration.Emptying

set_option autoImplicit false

/-!
What a run can fail of. A log beside the files takes down which operations are refused. Main
statement: with the standard templates every class of every model can be generated into every file,
and each failure of a run is an operation on a file that was refused.
-/

namespace ClassWeaver

theorem Task.exists_carryOut_standard (task : Task) (kind : FileKind) (previous : Option Model)
    (current : Model) (draft : Draft) :
    ∃ after, task.carryOut kind .standard previous current draft = .ok after := by
  cases done : task.carryOut kind .standard previous current draft with
  | ok after => exact ⟨after, rfl⟩
  | error obstacle =>
    rw [carryOut_eq] at done
    rcases of_bind_eq_error done with before | ⟨middle, -, after⟩
    · cases previous with
      | none => cases before
      | some model =>
        obtain ⟨owner, -, draft, stuck⟩ := exists_of_foldlM_eq_error before
        rw [Draft.purgeStale, Draft.generate_standard] at stuck
        cases stuck
    · obtain ⟨owner, -, draft, stuck⟩ := exists_of_foldlM_eq_error after
      rw [Draft.generate_standard] at stuck
      cases stuck

structure Refusal where
  path : FilePath
  cause : String
  deriving DecidableEq, Repr

namespace Refusal

def obstacle (refusal : Refusal) : Obstacle :=
  ⟨refusal.path, .file refusal.path refusal.cause⟩

def failure (refusal : Refusal) : Failure :=
  ⟨refusal.path, (Error.file refusal.path refusal.cause).message⟩

def ofAnswer {α : Type} (path : FilePath) : Except String α → List Refusal
  | .ok _ => []
  | .error cause => [⟨path, cause⟩]

/-- Says that a draft is there unless one of some refusals was in the way. -/
def ExplainDraft (among : List Refusal) (result : Except Obstacle Draft) : Prop :=
  ∀ obstacle, result = .error obstacle → obstacle ∈ among.map Refusal.obstacle

def ExplainOutcome (among : List Refusal) (outcome : Outcome) : Prop :=
  ∀ failure, outcome = .failed failure → failure ∈ among.map Refusal.failure

variable {among : List Refusal}

theorem explainDraft_ok (draft : Draft) : ExplainDraft among (.ok draft) := by
  intro obstacle failed
  cases failed

theorem explainDraft_obstacle {refusal : Refusal} (inside : refusal ∈ among) :
    ExplainDraft among (.error refusal.obstacle) := by
  intro obstacle failed
  rw [← Except.error.inj failed]
  exact List.mem_map_of_mem inside

theorem explainOutcome_failure {refusal : Refusal} (inside : refusal ∈ among) :
    ExplainOutcome among (.failed refusal.failure) := by
  intro failure failed
  rw [← Outcome.failed.inj failed]
  exact List.mem_map_of_mem inside

theorem ExplainDraft.carryOut {opened : Except Obstacle Draft}
    (explained : ExplainDraft among opened) (task : Task) (kind : FileKind) (previous : Option Model)
    (current : Model) :
    ExplainDraft among (opened.bind (task.carryOut kind .standard previous current)) := by
  cases opened with
  | ok draft =>
    intro obstacle failed
    obtain ⟨after, done⟩ := task.exists_carryOut_standard kind previous current draft
    rw [Except.bind, done] at failed
    cases failed
  | error obstacle => exact explained

theorem failures_ofOutcomes_subset {outcomes : List Outcome}
    (explained : ∀ outcome ∈ outcomes, ExplainOutcome among outcome) (marked : List MarkedElement) :
    (Report.ofOutcomes marked outcomes).failures ⊆ among.map failure := by
  intro failure listed
  have inside : .failed failure ∈ outcomes :=
    (Report.mem_entries_ofOutcomes.mp (Report.failed_mem_entries.mpr listed)).1
  exact explained _ inside failure rfl

end Refusal

/-- Files with a log of what was refused, in the order of time. -/
structure Logged (σ : Type) where
  files : σ
  refusals : List Refusal

namespace Logged

variable {σ α : Type}

def operation (path : FilePath) (plain : StateM σ (Except String α)) :
    StateM (Logged σ) (Except String α) := fun state =>
  let (answer, files) := plain.run state.files
  (answer, ⟨files, state.refusals ++ Refusal.ofAnswer path answer⟩)

def question (plain : StateM σ α) : StateM (Logged σ) α := fun state =>
  let (answer, files) := plain.run state.files
  (answer, ⟨files, state.refusals⟩)

instance [Files (StateM σ)] : Files (StateM (Logged σ)) where
  readText path := operation path (Files.readText path)
  holds path := question (Files.holds path)
  writeText path text := operation path (Files.writeText path text)
  remove path := operation path (Files.remove path)

end Logged

/-- Says that a program with a log does what another one does without, that it takes nothing out of
the log, and that its result has a property if all of the log at the end is among some refusals. -/
structure Records {σ α : Type} (among : List Refusal) (logged : StateM (Logged σ) α)
    (plain : StateM σ α) (post : α → Prop) : Prop where
  answer : ∀ state, (logged.run state).1 = (plain.run state.files).1
  files : ∀ state, (logged.run state).2.files = (plain.run state.files).2
  grows : ∀ state, state.refusals ⊆ (logged.run state).2.refusals
  sound : ∀ state, (logged.run state).2.refusals ⊆ among → post (logged.run state).1

namespace Records

variable {σ α β : Type} {among : List Refusal} {logged : StateM (Logged σ) α} {plain : StateM σ α}
  {post : α → Prop}

theorem mono {other : α → Prop} (records : Records among logged plain post)
    (weaker : ∀ a, post a → other a) : Records among logged plain other where
  answer := records.answer
  files := records.files
  grows := records.grows
  sound state inside := weaker _ (records.sound state inside)

protected theorem pure {a : α} (holds : post a) :
    Records among (Pure.pure a : StateM (Logged σ) α) (Pure.pure a) post where
  answer _ := rfl
  files _ := rfl
  grows _ := List.Subset.refl _
  sound _ _ := holds

protected theorem bind {next : α → StateM (Logged σ) β} {plainNext : α → StateM σ β}
    {last : β → Prop} (first : Records among logged plain post)
    (later : ∀ a, Records among (next a) (plainNext a) fun b => post a → last b) :
    Records among (logged >>= next) (plain >>= plainNext) last where
  answer state := by
    have second := (later (logged.run state).1).answer (logged.run state).2
    rw [first.files] at second
    exact second.trans (first.answer state ▸ rfl)
  files state := by
    have second := (later (logged.run state).1).files (logged.run state).2
    rw [first.files] at second
    exact second.trans (first.answer state ▸ rfl)
  grows state :=
    List.Subset.trans (first.grows state) ((later (logged.run state).1).grows (logged.run state).2)
  sound state inside := by
    have second := later (logged.run state).1
    refine second.sound (logged.run state).2 inside (first.sound state ?_)
    exact List.Subset.trans (second.grows (logged.run state).2) inside

protected theorem mapM {step : α → StateM (Logged σ) β} {plainStep : α → StateM σ β}
    {related : α → β → Prop} (each : ∀ a, Records among (step a) (plainStep a) (related a))
    (list : List α) :
    Records among (list.mapM step) (list.mapM plainStep) fun results =>
      ∀ b ∈ results, ∃ a ∈ list, related a b := by
  induction list with
  | nil =>
    rw [List.mapM_nil, List.mapM_nil]
    exact .pure (List.forall_mem_nil _)
  | cons a rest ih =>
    rw [List.mapM_cons, List.mapM_cons]
    refine (each a).bind fun first => ih.bind fun others => .pure fun remaining here b found => ?_
    rcases List.mem_cons.mp found with rfl | later
    · exact ⟨a, List.mem_cons_self, here⟩
    · obtain ⟨origin, inside, known⟩ := remaining b later
      exact ⟨origin, List.mem_cons_of_mem a inside, known⟩

theorem operation (path : FilePath) (plain : StateM σ (Except String α)) :
    Records among (Logged.operation path plain) plain fun answer =>
      ∀ cause, answer = .error cause → ⟨path, cause⟩ ∈ among where
  answer _ := rfl
  files _ := rfl
  grows _ := List.subset_append_left _ _
  sound state inside cause refused := by
    refine inside (List.mem_append_right _ ?_)
    have answered : (plain state.files).1 = .error cause := refused
    rw [answered]
    exact List.mem_singleton_self _

section Files

variable [Files (StateM σ)] {path : FilePath}

theorem holds_bind {next : Bool → StateM (Logged σ) β} {plainNext : Bool → StateM σ β}
    {last : β → Prop} (later : ∀ there, Records among (next there) (plainNext there) last) :
    Records among (Files.holds path >>= next) (Files.holds path >>= plainNext) last := by
  have asked : Records among (Files.holds path : StateM (Logged σ) Bool) (Files.holds path)
      fun _ => True :=
    ⟨fun _ => rfl, fun _ => rfl, fun _ => List.Subset.refl _, fun _ _ => trivial⟩
  exact asked.bind fun there => (later there).mono fun _ known _ => known

theorem load (path : FilePath) :
    Records among (Snapshot.load path : StateM (Logged σ) (Option Model)) (Snapshot.load path)
      fun _ => True := by
  rw [Snapshot.load, Snapshot.load]
  refine .holds_bind fun there => ?_
  cases there with
  | false => exact .pure trivial
  | true =>
    refine (operation path _).bind fun answer => ?_
    cases answer with
    | ok text => exact .pure fun _ => trivial
    | error cause => exact .pure fun _ => trivial

theorem open? (path : FilePath) :
    Records among (Draft.open? path : StateM (Logged σ) (Except Obstacle Draft)) (Draft.open? path)
      (Refusal.ExplainDraft among) := by
  rw [Draft.open?, Draft.open?]
  refine .holds_bind fun there => ?_
  cases there with
  | false => exact .pure (Refusal.explainDraft_ok _)
  | true =>
    refine (operation path _).bind fun answer => ?_
    cases answer with
    | ok source => exact .pure fun _ => Refusal.explainDraft_ok _
    | error cause => exact .pure fun refused => Refusal.explainDraft_obstacle (refused cause rfl)

theorem discard (path : FilePath) :
    Records among (Draft.discard path : StateM (Logged σ) Outcome) (Draft.discard path)
      (Refusal.ExplainOutcome among) := by
  rw [Draft.discard, Draft.discard]
  refine .holds_bind fun there => ?_
  cases there with
  | false =>
    refine .pure fun failure failed => ?_
    cases failed
  | true =>
    refine (operation path _).bind fun answer => ?_
    cases answer with
    | ok _ =>
      refine .pure fun _ failure failed => ?_
      cases failed
    | error cause => exact .pure fun refused => Refusal.explainOutcome_failure (refused cause rfl)

theorem finish_draft (path : FilePath) (draft : Draft) :
    Records among (draft.finish path : StateM (Logged σ) Outcome) (draft.finish path)
      (Refusal.ExplainOutcome among) := by
  rw [Draft.finish, Draft.finish]
  cases draft.isDispensable with
  | true => exact discard path
  | false =>
    dsimp only
    cases draft.store.render == draft.initial with
    | true =>
      refine .pure fun failure failed => ?_
      cases failed
    | false =>
      refine (operation path _).bind fun answer => ?_
      cases answer with
      | ok _ =>
        refine .pure fun _ failure failed => ?_
        cases failed
      | error cause => exact .pure fun refused => Refusal.explainOutcome_failure (refused cause rfl)

theorem finish_task (task : Task) (result : Except Obstacle Draft) :
    Records among (task.finish result : StateM (Logged σ) Outcome) (task.finish result)
      fun outcome => Refusal.ExplainDraft among result → Refusal.ExplainOutcome among outcome := by
  cases result with
  | ok draft => exact (finish_draft task.path draft).mono fun _ known _ => known
  | error obstacle =>
    refine .pure fun explained => ?_
    obtain ⟨refusal, inside, rfl⟩ := List.mem_map.mp (explained obstacle rfl)
    exact Refusal.explainOutcome_failure inside

theorem save (path : FilePath) (model : Model) :
    Records among (Snapshot.save path model : StateM (Logged σ) (Except Error Unit))
      (Snapshot.save path model)
      fun answer => ∀ cause, answer = .error cause →
        (⟨path, cause.message⟩ : Failure) ∈ among.map Refusal.failure := by
  rw [Snapshot.save, Snapshot.save]
  refine (operation path _).bind fun answer => ?_
  cases answer with
  | ok _ =>
    refine .pure fun _ cause failed => ?_
    cases failed
  | error reason =>
    refine .pure fun refused cause failed => ?_
    rw [← Except.error.inj failed]
    exact List.mem_map_of_mem (refused reason rfl)

theorem complete (path : FilePath) (current : Model) (report : Report) :
    Records among (report.complete path current : StateM (Logged σ) Report)
      (report.complete path current)
      fun done => report.failures ⊆ among.map Refusal.failure →
        done.failures ⊆ among.map Refusal.failure := by
  rw [Report.complete, Report.complete]
  cases report.failures.isEmpty with
  | false => exact .pure id
  | true =>
    refine (save path current).bind fun answer => ?_
    cases answer with
    | ok _ => exact .pure fun _ => id
    | error cause =>
      refine .pure fun refused known => ?_
      have last : [(⟨path, cause.message⟩ : Failure)] ⊆ among.map Refusal.failure :=
        List.cons_subset.mpr ⟨refused cause rfl, List.nil_subset _⟩
      exact List.append_subset.mpr ⟨known, last⟩

protected theorem regenerate (kind : FileKind) (current : Model) :
    Records among (ClassWeaver.regenerate kind .standard current : StateM (Logged σ) Report)
      (ClassWeaver.regenerate kind .standard current)
      fun report => report.failures ⊆ among.map Refusal.failure := by
  rw [ClassWeaver.regenerate, ClassWeaver.regenerate]
  refine .bind (load _) fun snapshot => ?_
  dsimp only
  have opened (previous : Option Model) (task : Task) :
      Records among
        (do
          let opened ← Draft.open? task.path
          return (task, opened.bind (task.carryOut kind .standard previous current)) :
          StateM (Logged σ) (Task × Except Obstacle Draft))
        (do
          let opened ← Draft.open? task.path
          return (task, opened.bind (task.carryOut kind .standard previous current)))
        fun done => Refusal.ExplainDraft among done.2 :=
    (open? task.path).bind fun opened =>
      .pure fun explained => explained.carryOut task kind previous current
  refine .bind (.mapM (opened _) _) fun results => ?_
  refine .bind (.mapM (fun done => finish_task done.1 done.2) results) fun outcomes => ?_
  -- what became of a file is explained by how it was opened and how it was finished
  refine (complete _ current _).mono fun report known finished drafted _ => known ?_
  refine Refusal.failures_ofOutcomes_subset (fun outcome found => ?_) _
  obtain ⟨done, inside, kept⟩ := finished outcome found
  obtain ⟨task, -, explained⟩ := drafted done inside
  exact kept explained

end Files

end Records

/-- The standard templates never fail. Every class of every model can be generated into every store,
and a run fails of nothing but refused operations on files: with a log of these it does what it does
without, and every failure that it reports is one of the log. -/
theorem FileKind.standard_never_fails (kind : FileKind) (model : Model) :
    (∀ owner store, ∃ after, kind.generate .standard model owner store = (after, .ok ())) ∧
    ∀ {σ : Type} [Files (StateM σ)] (start : σ),
      let plain := (regenerate kind .standard model : StateM σ Report).run start
      let logged := (regenerate kind .standard model : StateM (Logged σ) Report).run ⟨start, []⟩
      logged.1 = plain.1 ∧ logged.2.files = plain.2 ∧
        plain.1.failures ⊆ logged.2.refusals.map Refusal.failure := by
  refine ⟨fun owner store => ⟨_, generate_standard kind model owner store⟩, ?_⟩
  intro σ _ start plain logged
  have records := @Records.regenerate σ logged.2.refusals _ kind model
  have explained := records.sound ⟨start, []⟩ (List.Subset.refl _)
  rw [records.answer] at explained
  exact ⟨records.answer ⟨start, []⟩, records.files ⟨start, []⟩, explained⟩

/-- The lookup of variables is strict. -/
example : Catalog.standard.render "package" (.record []) = .error (.template "package") := by
  decide

/-- A class whose superclass is not there, with a role that nothing is joined to and one whose partner
is not there. -/
private def danglingModel : Model :=
  { Model.ofPackage "p" Model.standardSourceFolder with
    classes := [{ ModelClass.ofName "A" with
      superclass := some "Nowhere"
      roles := [⟨some "free", .one, standardCollection, beanStyle, none, false⟩,
        ⟨some "lost", .one, standardCollection, pojoStyle, some ⟨"Nowhere", 7⟩, false⟩] }] }

private def danglingFile : FilePath :=
  ⟨"src/main/java/p/A.java"⟩

private def closedTree : MemoryTree :=
  ⟨[], [(.write, danglingFile.text)]⟩

/-- A class whose superclass and partners are not there is generated, and a denied write is all that a
run of its model fails of. -/
theorem FileKind.standard_fails_of_denied_write :
    let plain :=
      (regenerate .classFile .standard danglingModel : StateM MemoryTree Report).run closedTree
    let logged := (regenerate .classFile .standard danglingModel :
      StateM (Logged MemoryTree) Report).run ⟨closedTree, []⟩
    (∀ owner ∈ danglingModel.classes, ∃ after,
      FileKind.classFile.generate .standard danglingModel owner .empty = (after, .ok ())) ∧
    plain.1.failures =
      [⟨danglingFile, "filesystem error at src/main/java/p/A.java: write denied"⟩] ∧
    logged.2.refusals = [⟨danglingFile, "write denied"⟩] ∧
    plain.1.failures ⊆ logged.2.refusals.map Refusal.failure := by
  intro plain logged
  obtain ⟨generated, fails⟩ := FileKind.standard_never_fails .classFile danglingModel
  exact ⟨fun owner _ => generated owner .empty, by decide +kernel, by decide +kernel,
    (fails closedTree).2.2⟩

end ClassWeaver
