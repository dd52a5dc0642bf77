import ClassWeaver.FileTree.Basic

set_option autoImplicit false

/-!
Files and folders on a disk, with the failures that the operations of a disk have. A file is
replaced by writing its new content beside it first, so that it is never seen half written.
-/

namespace ClassWeaver

inductive DiskError where
  | notFound
  | exists
  | notFolder
  | isFolder
  | nameTooLong
  | busy
  | invalidName
  | invalidText
  deriving DecidableEq, Repr

def DiskError.message : DiskError → String
  | notFound => "No such file or directory (os error 2)"
  | .exists => "File exists (os error 17)"
  | notFolder => "Not a directory (os error 20)"
  | isFolder => "Is a directory (os error 21)"
  | nameTooLong => "File name too long (os error 36)"
  | busy => "Device or resource busy (os error 16)"
  | invalidName => "file name contained an unexpected NUL byte"
  | invalidText => "stream did not contain valid UTF-8"

inductive DiskEntry where
  | folder
  | file (content : ByteArray)

/-- The entries of a disk below its outermost folder, each under the names that lead to it, and the
folder that relative paths start from. The folders that an entry is in are entries too. -/
structure Disk where
  entries : List (List String × DiskEntry)
  working : List String

namespace Disk

def ofWorking (name : String) : Disk :=
  ⟨[([name], .folder)], [name]⟩

/-- The entry under some names; without a name it is the outermost folder. -/
def entry? (disk : Disk) (names : List String) : Option DiskEntry :=
  if names.isEmpty then some .folder else disk.entries.lookup names

def isFolder (disk : Disk) (names : List String) : Bool :=
  match disk.entry? names with
  | some .folder => true
  | _ => false

def put (disk : Disk) (names : List String) (entry : DiskEntry) : Disk :=
  { disk with entries := (names, entry) :: disk.entries.filter (·.1 != names) }

def erase (disk : Disk) (names : List String) : Disk :=
  { disk with entries := disk.entries.filter (·.1 != names) }

def longestName : Nat :=
  255

/-- Follows the components of a path from a folder to the names of what it leads to. Everything on
the way must be a folder; what it leads to need not exist. -/
def follow (disk : Disk) : List String → List FilePath.Component → Except DiskError (List String)
  | names, [] => .ok names
  | names, component :: rest =>
    match disk.entry? names with
    | none => .error .notFound
    | some (.file _) => .error .notFolder
    | some .folder =>
      match component with
      | .root => disk.follow [] rest
      | .here => disk.follow names rest
      | .up => disk.follow names.dropLast rest
      | .named name =>
        if longestName < name.utf8ByteSize then .error .nameTooLong
        else disk.follow (names ++ [name]) rest

/-- The names that the components of a path lead to. Without components there is no path. -/
def resolve (disk : Disk) (components : List FilePath.Component) :
    Except DiskError (List String) :=
  if components.isEmpty then .error .notFound
  else if components.any (·.label.toList.contains '\x00') then .error .invalidName
  else disk.follow disk.working components

def endsWithSlash (path : FilePath) : Bool :=
  path.text.toList.getLast? == some '/'

/-- Says whether a path is written with something at its end that is no name. -/
def endsWithoutName (path : FilePath) : Bool :=
  let part := Text.takeWhileEnd (· != '/') (Text.dropWhileEnd (· == '/') path.text.toList)
  part == [] || part == ['.'] || part == ['.', '.']

/-- The entry that a path leads to. A path with a slash or a dot at its end leads to a folder only.
-/
def find (disk : Disk) (path : FilePath) : Except DiskError DiskEntry := do
  match disk.entry? (← disk.resolve path.components) with
  | none => .error .notFound
  | some (.file content) =>
    if endsWithSlash path || endsWithoutName path then .error .notFolder else .ok (.file content)
  | some .folder => .ok .folder

def holds (disk : Disk) (path : FilePath) : Bool :=
  (disk.find path).toOption.isSome

def readText (disk : Disk) (path : FilePath) : Except DiskError String := do
  match ← disk.find path with
  | .folder => .error .isFolder
  | .file content =>
    match String.fromUTF8? content with
    | some text => .ok text
    | none => .error .invalidText

def writeContent (disk : Disk) (components : List FilePath.Component) (content : ByteArray) :
    Except DiskError Disk := do
  let names ← disk.resolve components
  if disk.isFolder names then .error .isFolder else .ok (disk.put names (.file content))

def makeFolder (disk : Disk) (components : List FilePath.Component) : Except DiskError Disk := do
  let names ← disk.resolve components
  match disk.entry? names with
  | some _ => .error .exists
  | none => .ok (disk.put names .folder)

def ensureFolder (disk : Disk) (components : List FilePath.Component) : Except DiskError Disk :=
  match disk.makeFolder components with
  | .ok after => .ok after
  | .error cause =>
    if (disk.resolve components).toOption.any disk.isFolder then .ok disk else .error cause

/-- Makes a folder and those around it as far as they are missing. The components of its path come
in reverse order. What has been made stays if there is a failure further inside. -/
def makeFolders (disk : Disk) : List FilePath.Component → Except DiskError Unit × Disk
  | [] => (.ok (), disk)
  | component :: outer =>
    let components := (component :: outer).reverse
    match disk.ensureFolder components with
    | .ok after => (.ok (), after)
    | .error .notFound =>
      match disk.makeFolders outer with
      | (.error cause, after) => (.error cause, after)
      | (.ok _, after) =>
        match after.ensureFolder components with
        | .ok after => (.ok (), after)
        | .error cause => (.error cause, after)
    | .error cause => (.error cause, disk)

def stagingEnd : String :=
  ".classgen-tmp"

/-- Where a file is written before it replaces another one. -/
def stagingPath (components : List FilePath.Component) : List FilePath.Component :=
  match components.getLast? with
  | some (.named name) => components.dropLast ++ [.named (name ++ stagingEnd)]
  | _ => components ++ [.named stagingEnd]

def rename (disk : Disk) (source : List FilePath.Component) (target : FilePath) :
    Except DiskError Disk := do
  let sourceNames ← disk.resolve source
  let names ← disk.resolve target.components
  match disk.entry? sourceNames with
  | none => .error .notFound
  | some moved =>
    if endsWithoutName target then
      discard (disk.find target)
      .error .busy
    else if endsWithSlash target then .error .notFolder
    else if disk.isFolder names then .error .isFolder
    else .ok ((disk.erase sourceNames).put names moved)

def unlink (disk : Disk) (components : List FilePath.Component) : Except DiskError Disk := do
  let names ← disk.resolve components
  match disk.entry? names with
  | none => .error .notFound
  | some .folder => .error .isFolder
  | some (.file _) => .ok (disk.erase names)

/-- Replaces a file; says whether that worked and what the disk is like then. -/
def replace (disk : Disk) (path : FilePath) (text : String) : Except DiskError Unit × Disk :=
  let staged := stagingPath path.components
  match disk.makeFolders path.components.reverse.tail with
  | (.error cause, disk) => (.error cause, disk)
  | (.ok _, disk) =>
    match disk.writeContent staged text.toUTF8 with
    | .error cause => (.error cause, disk)
    | .ok disk =>
      match disk.rename staged path with
      | .ok after => (.ok (), after)
      | .error cause => (.error cause, (disk.unlink staged).toOption.getD disk)

def remove (disk : Disk) (path : FilePath) : Except DiskError Disk :=
  match disk.find path with
  | .error .notFound => .ok disk
  | .error cause => .error cause
  | .ok _ => disk.unlink path.components

def isEmptyFolder (disk : Disk) (names : List String) : Bool :=
  disk.entries.all fun (other, _) => ! (names.isPrefixOf other && other != names)

def pathText (names : List String) : String :=
  "/".intercalate names

/-- What is in the folder that relative paths start from, with the text of each path: the contents
of the files, and nothing for the empty folders, whose paths end with a slash. -/
def listing (disk : Disk) : List (String × Option ByteArray) :=
  let shown := disk.entries.filterMap fun (names, entry) =>
    if ! disk.working.isPrefixOf names || names == disk.working then none
    else
      let text := pathText (names.drop disk.working.length)
      match entry with
      | .file content => some (text, some content)
      | .folder => if disk.isEmptyFolder names then some (text ++ "/", none) else none
  shown.mergeSort fun a b => a.1 ≤ b.1

end Disk

instance : Files (StateM Disk) where
  readText path := return ((← get).readText path).mapError (·.message)
  holds path := return (← get).holds path
  writeText path text := do
    let (answer, after) := (← get).replace path text
    set after
    return answer.mapError (·.message)
  remove path := attempt fun disk => (disk.remove path).mapError (·.message)

end ClassWeaver
