import ClassWeaver.Command.Basic
import ClassWeaver.Command.Settings
import ClassWeaver.Regeneration.Run

set_option autoImplicit false

/-!
Carrying out commands. The answer of a command is a text for display; a run with failures has a
report too, but counts as failed.
-/

namespace ClassWeaver

inductive CommandError where
  | unreadableTemplates (cause : Error)
  | unreadableModel (path : FilePath) (cause : String)
  | invalidModel (path : FilePath) (cause : Error)
  | missingFile (path : FilePath)
  | unreadableFile (path : FilePath) (cause : String)
  | failedRun (reports : List Report)
  deriving DecidableEq, Repr

def Report.texts (reports : List Report) : String :=
  "\n".intercalate (reports.map Report.text)

def Report.failureCount (reports : List Report) : Nat :=
  reports.foldl (fun count report => count + report.failures.length) 0

def CommandError.message : CommandError → String
  | unreadableTemplates cause => "failed to load templates: " ++ cause.message
  | unreadableModel path cause => s!"failed to read model definition {path.text}: {cause}"
  | invalidModel path cause => s!"invalid model definition {path.text}: {cause.message}"
  | missingFile path => "no such file: " ++ path.text
  | unreadableFile path cause => (Error.file path cause).message
  | failedRun reports =>
    s!"{Report.texts reports}\ngeneration finished with {Report.failureCount reports} failure(s)"

def lineColumn (line : Nat) : String :=
  let digits := toString line
  String.ofList (List.replicate (5 - digits.length) ' ') ++ digits

/-- A row for each fragment that is neither a gap nor empty, with the line that it starts on. -/
def Fragment.Store.rows (store : Fragment.Store) : List String :=
  go 1 store.fragments
where
  go (line : Nat) : List Fragment → List String
    | [] => []
    | fragment :: rest =>
      let rows := go (line + fragment.text.toList.count '\n') rest
      if fragment.key = .gap || fragment.text.isEmpty then rows
      else (lineColumn line ++ "  " ++ fragment.key.written) :: rows

variable {m : Type → Type} [Monad m] [Files m]

def Catalog.load (path : Option FilePath) : m (Except Error Catalog) := do
  match path with
  | none => return .ok .standard
  | some path =>
    match ← Files.readText path with
    | .ok text => return parse text
    | .error cause => return .error (.file path cause)

def Model.load (path : FilePath) : m (Except CommandError Model) := do
  match ← Files.readText path with
  | .error cause => return .error (.unreadableModel path cause)
  | .ok text =>
    return (do (← ModelDefinition.parse text).build).mapError (.invalidModel path)

namespace Command

/-- Brings files in line with the model of a file: those of the classes, and then those of the
tables if they are wanted. -/
def runGenerate (catalog : Catalog) (tables : Bool) (path : FilePath) :
    m (Except CommandError String) := do
  match ← Model.load path with
  | .error cause => return .error cause
  | .ok model =>
    let kinds := if tables then [FileKind.classFile, .tableFile] else [.classFile]
    let reports ← kinds.mapM fun kind => regenerate kind catalog model
    if reports.all (·.failures.isEmpty) then return .ok (Report.texts reports)
    else return .error (.failedRun reports)

def runDiff (path : FilePath) : m (Except CommandError String) := do
  match ← Model.load path with
  | .error cause => return .error cause
  | .ok current =>
    let snapshotPath := FileKind.classFile.snapshotPath current
    match ← Snapshot.load snapshotPath with
    | some previous => return .ok (Marking.summary (Marking.mark previous current).2)
    | none =>
      return .ok
        s!"No snapshot at {snapshotPath.text}; the next run generates everything from scratch."

def runFragments (path : FilePath) : m (Except CommandError String) := do
  if ← Files.holds path then
    match ← Files.readText path with
    | .ok source => return .ok ("\n".intercalate (Fragment.Store.parse source).rows)
    | .error cause => return .error (.unreadableFile path cause)
  else return .error (.missingFile path)

def run (command : Command) (valueOf? : String → Option String) :
    m (Except CommandError String) := do
  match command with
  | generate model templates tables =>
    let settings := Settings.resolve templates tables valueOf?
    match ← Catalog.load settings.templates with
    | .ok catalog => runGenerate catalog settings.tables model
    | .error cause => return .error (.unreadableTemplates cause)
  | diff model => runDiff model
  | fragments file => runFragments file

end Command

end ClassWeaver
