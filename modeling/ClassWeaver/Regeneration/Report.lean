import ClassWeaver.FilePath
import ClassWeaver.Model.Marking

set_option autoImplicit false

/-!
What a run has done: each file that it was concerned with is listed once, under what became of it.
-/

namespace ClassWeaver

structure Failure where
  path : FilePath
  message : String
  deriving DecidableEq, Repr

inductive Outcome where
  /-- Its text has changed. -/
  | written (path : FilePath)
  /-- Its text was right already. -/
  | unchanged (path : FilePath)
  /-- It was removed because nothing was left in it. -/
  | deleted (path : FilePath)
  /-- It did not exist, and does not have to. -/
  | absent (path : FilePath)
  | failed (failure : Failure)
  deriving DecidableEq, Repr

def Outcome.path : Outcome → FilePath
  | .written path | .unchanged path | .deleted path | .absent path => path
  | .failed failure => failure.path

structure Report where
  written : List FilePath
  unchanged : List FilePath
  deleted : List FilePath
  failures : List Failure
  /-- The elements whose code was out of date. -/
  marked : List MarkedElement
  /-- Says whether the next run will compare with the current model. -/
  snapshotSaved : Bool
  deriving DecidableEq, Repr

namespace Report

def ofOutcomes (marked : List MarkedElement) (outcomes : List Outcome) : Report where
  written := outcomes.filterMap fun
    | .written path => some path
    | _ => none
  unchanged := outcomes.filterMap fun
    | .unchanged path => some path
    | _ => none
  deleted := outcomes.filterMap fun
    | .deleted path => some path
    | _ => none
  failures := outcomes.filterMap fun
    | .failed failure => some failure
    | _ => none
  marked := marked
  snapshotSaved := false

def isSuccess (report : Report) : Bool :=
  report.failures.isEmpty && report.snapshotSaved

def text (report : Report) : String :=
  String.join (report.written.map fun path => s!"wrote {path.text}\n")
    ++ String.join (report.deleted.map fun path => s!"deleted {path.text}\n")
    ++ String.join (report.failures.map fun failure =>
      s!"failed {failure.path.text}: {failure.message}\n")
    ++ s!"{report.written.length} written, {report.unchanged.length} unchanged, "
    ++ s!"{report.deleted.length} deleted, {report.failures.length} failed"

end Report

end ClassWeaver
