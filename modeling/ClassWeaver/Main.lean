import ClassWeaver.Command.Line
import ClassWeaver.Command.Run
import ClassWeaver.FileTree.Disk

set_option autoImplicit false

/-!
The command line. The answer of a command goes to the standard output; all else goes to the standard
error output and makes the program fail, also a wish for help.
-/

namespace ClassWeaver

def DiskError.ofSystem? : IO.Error → Option DiskError
  | .noFileOrDirectory .. => some notFound
  | .alreadyExists .. => some .exists
  | .inappropriateType _ code _ => some (if code = 21 then isFolder else notFolder)
  | .resourceBusy .. => some busy
  | _ => none

def explained {α : Type} (action : IO α) : IO (Except String α) := do
  try
    return .ok (← action)
  catch error =>
    return .error (((DiskError.ofSystem? error).map (·.message)).getD (toString error))

def folderText? (path : FilePath) : Option String :=
  let text := Text.dropWhileEnd (· == '/') path.text.toList
  let folder := Text.dropWhileEnd (· != '/') text
  if folder.isEmpty then none else some (String.ofList folder)

/-- Writes a file beside the one that it is to replace, and then moves it there. -/
def replaceFile (path : FilePath) (text : String) : IO Unit := do
  if let some folder := folderText? path then IO.FS.createDirAll folder
  let staged :=
    String.ofList (Text.dropWhileEnd (· == '/') path.text.toList) ++ Disk.stagingEnd
  IO.FS.writeFile staged text
  try
    IO.FS.rename staged path.text
  catch error =>
    discard (explained (IO.FS.removeFile staged))
    throw error

instance : Files IO where
  readText path := do
    match ← explained (IO.FS.readBinFile path.text) with
    | .error cause => return .error cause
    | .ok content =>
      match String.fromUTF8? content with
      | some text => return .ok text
      | none => return .error DiskError.invalidText.message
  holds path := return (← explained (IO.FS.realPath path.text)).toOption.isSome
  writeText path text := explained (replaceFile path text)
  remove path := do
    match ← explained (IO.FS.removeFile path.text) with
    | .error cause =>
      return if cause = DiskError.notFound.message then .ok () else .error cause
    | .ok _ => return .ok ()

def usageText : String :=
  "\n".intercalate [
    "Regenerate Java classes from a class model in place",
    "",
    "Usage:",
    "  classgen generate MODEL [--templates FILE] [--tables]",
    "  classgen diff MODEL",
    "  classgen fragments FILE",
    "  classgen help"]

def UsageError.message : UsageError → String
  | helpWanted | nothingGiven => usageText
  | versionWanted => "classgen 0.1.0"
  | unknownCommand => "error: there is no such command\n\n" ++ usageText
  | unknownArgument => "error: unexpected argument\n\n" ++ usageText
  | missingArgument => "error: a file is missing\n\n" ++ usageText
  | invalidValue => "error: a value is missing or empty\n\n" ++ usageText
  | surplusValue => "error: an option that takes no value has one\n\n" ++ usageText
  | repeatedArgument => "error: an option is given more than once\n\n" ++ usageText

def fail (message : String) : IO UInt32 := do
  IO.eprintln message
  return 1

def runCommandLine (arguments : List String) : IO UInt32 := do
  match Command.ofArguments arguments with
  | .error cause => fail cause.message
  | .ok command =>
    let templates ← IO.getEnv Settings.templatesVariable
    let answer : Except CommandError String ← command.run fun name =>
      if name = Settings.templatesVariable then templates else none
    match answer with
    | .ok shown =>
      IO.println shown
      return 0
    | .error cause => fail cause.message

end ClassWeaver

def main (arguments : List String) : IO UInt32 :=
  ClassWeaver.runCommandLine arguments
