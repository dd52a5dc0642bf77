import ClassWeaver.Regeneration.Report
import Mathlib.Data.List.Perm.Basic

set_option autoImplicit false

/-!
What a report lists. Main statement: it lists every outcome once, except that of files that do not
exist and do not have to.
-/

namespace ClassWeaver

def Outcome.isListed : Outcome → Bool
  | .absent _ => false
  | _ => true

namespace Report

variable {report : Report} {marked : List MarkedElement} {outcomes : List Outcome}

def entries (report : Report) : List Outcome :=
  report.written.map .written ++ report.unchanged.map .unchanged ++ report.deleted.map .deleted
    ++ report.failures.map .failed

theorem mem_entries {entry : Outcome} : entry ∈ report.entries ↔
    (∃ path ∈ report.written, .written path = entry) ∨
      (∃ path ∈ report.unchanged, .unchanged path = entry) ∨
        (∃ path ∈ report.deleted, .deleted path = entry) ∨
          ∃ failure ∈ report.failures, .failed failure = entry := by
  simp only [entries, List.mem_append, List.mem_map, or_assoc]

theorem failed_mem_entries {failure : Failure} :
    .failed failure ∈ report.entries ↔ failure ∈ report.failures := by
  rw [mem_entries]
  constructor
  · rintro (⟨_, -, other⟩ | ⟨_, -, other⟩ | ⟨_, -, other⟩ | ⟨_, listed, same⟩)
    · cases other
    · cases other
    · cases other
    · rwa [← Outcome.failed.inj same]
  · exact fun listed => .inr (.inr (.inr ⟨failure, listed, rfl⟩))

theorem entries_ofOutcomes_perm (marked : List MarkedElement) (outcomes : List Outcome) :
    (ofOutcomes marked outcomes).entries.Perm (outcomes.filter (·.isListed)) := by
  induction outcomes with
  | nil => exact .refl []
  | cons outcome rest ih =>
    cases outcome with
    | written path => exact ih.cons (.written path)
    | unchanged path =>
      have moved : (ofOutcomes marked (.unchanged path :: rest)).entries.Perm
          (.unchanged path :: (ofOutcomes marked rest).entries) :=
        (List.perm_middle.append_right _).append_right _
      exact moved.trans (ih.cons _)
    | deleted path =>
      have moved : (ofOutcomes marked (.deleted path :: rest)).entries.Perm
          (.deleted path :: (ofOutcomes marked rest).entries) :=
        List.perm_middle.append_right _
      exact moved.trans (ih.cons _)
    | absent path => exact ih
    | failed failure => exact List.perm_middle.trans (ih.cons (.failed failure))

theorem mem_entries_ofOutcomes {entry : Outcome} :
    entry ∈ (ofOutcomes marked outcomes).entries ↔ entry ∈ outcomes ∧ entry.isListed = true := by
  rw [(entries_ofOutcomes_perm marked outcomes).mem_iff, List.mem_filter]

end Report

end ClassWeaver
