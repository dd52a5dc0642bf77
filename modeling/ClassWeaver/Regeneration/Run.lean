import ClassWeaver.FileTree.Basic
import ClassWeaver.Model.Snapshot
import ClassWeaver.Regeneration.Draft
import ClassWeaver.Regeneration.Report

set_option autoImplicit false

/-!
A run brings all files of one kind in line with the current model. The files are read first and
written or removed afterwards, each on its own, so that a failure concerns its file only. The
snapshot is saved only if there was none, so that the next run tries again.
-/

namespace ClassWeaver

variable {m : Type → Type} [Monad m] [Files m]

namespace Snapshot

/-- Reads the snapshot at a path. One that is missing or unreadable counts as none. -/
def load (path : FilePath) : m (Option Model) := do
  if ← Files.holds path then
    match ← Files.readText path with
    | .ok text => return (decode text).toOption
    | .error _ => return none
  else return none

def save (path : FilePath) (model : Model) : m (Except Error Unit) := do
  return (← Files.writeText path (encode model)).mapError (.file path)

end Snapshot

def Draft.open? (path : FilePath) : m (Except Obstacle Draft) := do
  if ← Files.holds path then
    match ← Files.readText path with
    | .ok source => return .ok (.ofSource source)
    | .error cause => return .error ⟨path, .file path cause⟩
  else return .ok .new

private def failed (obstacle : Obstacle) : Outcome :=
  .failed ⟨obstacle.path, obstacle.cause.message⟩

def Draft.discard (path : FilePath) : m Outcome := do
  if ← Files.holds path then
    match ← Files.remove path with
    | .ok _ => return .deleted path
    | .error cause => return failed ⟨path, .file path cause⟩
  else return .absent path

/-- Writes the text of a draft, unless it is what the file holds already, or removes the file if it
has to go. -/
def Draft.finish (path : FilePath) (draft : Draft) : m Outcome := do
  if draft.isDispensable then discard path
  else
    let text := draft.store.render
    if text == draft.initial then return .unchanged path
    else
      match ← Files.writeText path text with
      | .ok _ => return .written path
      | .error cause => return failed ⟨path, .file path cause⟩

def Task.finish (task : Task) (result : Except Obstacle Draft) : m Outcome :=
  match result with
  | .ok draft => draft.finish task.path
  | .error obstacle => return failed obstacle

/-- A report together with what came of saving the snapshot, which is not tried after a failure. -/
def Report.complete (path : FilePath) (current : Model) (report : Report) : m Report := do
  if report.failures.isEmpty then
    match ← Snapshot.save path current with
    | .ok _ => return { report with snapshotSaved := true }
    | .error cause =>
      return { report with failures := report.failures ++ [⟨path, cause.message⟩] }
  else return report

def regenerate (kind : FileKind) (catalog : Catalog) (current : Model) : m Report := do
  let snapshotPath := kind.snapshotPath current
  let marking := (← Snapshot.load snapshotPath).map (Marking.mark · current)
  let previous := marking.map (·.1)
  let tasks := Task.all kind previous current
  let results ← tasks.mapM fun task => do
    let opened ← Draft.open? task.path
    return (task, opened.bind (task.carryOut kind catalog previous current))
  let outcomes ← results.mapM fun (task, result) => task.finish result
  (Report.ofOutcomes (marking.elim [] (·.2)) outcomes).complete snapshotPath current

end ClassWeaver
