import ClassWeaver.Command.Basic
import ClassWeaver.Text.Search

set_option autoImplicit false

/-!
Reading a command from the arguments of a command line. An argument is looked at when the next one
has shown that it is complete; hence of two mistakes the one is reported that becomes evident first.
-/

namespace ClassWeaver

inductive UsageError where
  | helpWanted
  | versionWanted
  | nothingGiven
  | unknownCommand
  | unknownArgument
  | missingArgument
  | invalidValue
  | surplusValue
  | repeatedArgument
  deriving DecidableEq, Repr

inductive CommandName where
  | generate
  | diff
  | fragments
  deriving DecidableEq, Repr

namespace CommandName

/-- The kind of command with a name. -/
def ofText? : String → Option CommandName
  | "generate" => some generate
  | "diff" => some diff
  | "fragments" => some fragments
  | _ => none

def hasOptions : CommandName → Bool
  | generate => true
  | _ => false

end CommandName

inductive ArgumentShape where
  /-- A long option, with the value behind an equals sign. -/
  | long (name : String) (value : Option String)
  /-- A short option, with what follows its letter. -/
  | short (letter : Char) (rest : List Char)
  | plain
  deriving DecidableEq, Repr

/-- What an argument looks like. A dash alone is no option. -/
def ArgumentShape.ofText (text : String) : ArgumentShape :=
  match text.toList with
  | '-' :: '-' :: name =>
    let value := (name.dropWhile (· != '=')).tail?
    .long (String.ofList (name.takeWhile (· != '='))) (value.map String.ofList)
  | '-' :: letter :: rest => .short letter rest
  | _ => .plain

inductive PendingArgument where
  | file (text : String)
  | templates (text : Option String)
  deriving DecidableEq, Repr

structure CommandArguments where
  file : Option String
  templates : Option String
  tables : Bool
  pending : Option PendingArgument
  deriving DecidableEq, Repr

namespace CommandArguments

def start : CommandArguments :=
  ⟨none, none, false, none⟩

def settle (given : CommandArguments) : Except UsageError CommandArguments :=
  match given.pending with
  | none => .ok given
  | some (.file text) =>
    if text.isEmpty then .error .invalidValue
    else .ok { given with file := some text, pending := none }
  | some (.templates none) => .error .invalidValue
  | some (.templates (some text)) =>
    if given.templates.isSome then .error .repeatedArgument
    else if text.isEmpty then .error .invalidValue
    else .ok { given with templates := some text, pending := none }

def hasFile (given : CommandArguments) : Bool :=
  match given.pending with
  | some (.file _) => true
  | _ => given.file.isSome

def addFile (given : CommandArguments) (text : String) : Except UsageError CommandArguments := do
  if given.hasFile then .error .unknownArgument
  return { ← given.settle with pending := some (.file text) }

def addTables (given : CommandArguments) : Except UsageError CommandArguments := do
  let given ← given.settle
  if given.tables then .error .repeatedArgument
  return { given with tables := true }

/-- Takes the option for templates. Its value may come with it or in the next argument. -/
def addTemplates (given : CommandArguments) (value : Option String) :
    Except UsageError CommandArguments := do
  let given := { ← given.settle with pending := some (.templates value) }
  if value.isSome then given.settle else return given

def add (name : CommandName) (given : CommandArguments) (text : String) :
    Except UsageError CommandArguments :=
  match ArgumentShape.ofText text with
  | .long "help" (some _) => .error .surplusValue
  | .long "help" none | .short 'h' _ => do
    discard given.settle
    .error .helpWanted
  | .long option value =>
    if ! name.hasOptions then .error .unknownArgument
    else if option = "templates" then given.addTemplates value
    else if option = "tables" then
      if value.isSome then .error .surplusValue else given.addTables
    else .error .unknownArgument
  | .short _ _ => .error .unknownArgument
  | .plain =>
    match given.pending with
    | some (.templates none) => .ok { given with pending := some (.templates (some text)) }
    | _ => given.addFile text

/-- Takes all arguments of a command. What follows a double dash is no option. -/
def addAll (name : CommandName) (given : CommandArguments) :
    List String → Except UsageError CommandArguments
  | [] => given.settle
  | text :: rest => do
    if text = "--" then (← rest.foldlM addFile given).settle
    else addAll name (← given.add name text) rest

def toCommand (name : CommandName) (given : CommandArguments) : Except UsageError Command :=
  match given.file with
  | none => .error .missingArgument
  | some file =>
    match name with
    | .generate => .ok (.generate ⟨file⟩ (given.templates.map FilePath.mk) given.tables)
    | .diff => .ok (.diff ⟨file⟩)
    | .fragments => .ok (.fragments ⟨file⟩)

end CommandArguments

namespace Command

private def isKnown (text : String) : Bool :=
  text == "help" || (CommandName.ofText? text).isSome

/-- Why asking for help on something carries out no command: the help is shown if it exists. -/
def helpOn (topics : List String) : UsageError :=
  match topics with
  | [] => .helpWanted
  | [topic] => if isKnown topic then .helpWanted else .unknownCommand
  | _ => .unknownCommand

def mistakeIn (arguments : List String) : UsageError :=
  match arguments with
  | [] | ["--"] => .nothingGiven
  | "--" :: text :: _ => if isKnown text then .unknownArgument else .unknownCommand
  | text :: _ =>
    match ArgumentShape.ofText text with
    | .long "help" none | .short 'h' _ => .helpWanted
    | .long "version" none | .short 'V' _ => .versionWanted
    | .long "help" (some _) | .long "version" (some _) => .surplusValue
    | .long _ _ | .short _ _ => .unknownArgument
    | .plain => .unknownCommand

def ofArguments (arguments : List String) : Except UsageError Command :=
  match arguments with
  | "help" :: topics => .error (helpOn topics)
  | text :: rest =>
    match CommandName.ofText? text with
    | some name => do (← CommandArguments.start.addAll name rest).toCommand name
    | none => .error (mistakeIn arguments)
  | [] => .error .nothingGiven

end Command

end ClassWeaver
