import ClassWeaver.FileTree.Basic

set_option autoImplicit false

/-!
Files in memory. Folders are there as long as something is in them. Some operations may be denied,
so that it can be seen what a run makes of failures. Main statements: a file that has been put is
read back under every spelling of its path, and other files stay what they are.
-/

namespace ClassWeaver

inductive Access where
  | read
  | write
  | remove
  deriving DecidableEq, Repr

def Access.text : Access → String
  | .read => "read"
  | .write => "write"
  | .remove => "remove"

/-- Files with their texts, in the order of their paths, and what is denied at which spelling of a
path. -/
structure MemoryTree where
  files : List (FilePath × String)
  denied : List (Access × String)
  deriving Repr

namespace MemoryTree

def empty : MemoryTree :=
  ⟨[], []⟩

def find? (tree : MemoryTree) (path : FilePath) : Option String :=
  (tree.files.find? fun (known, _) => known.same path).map (·.2)

/-- Puts a file into a list in the order of paths; a file that is replaced keeps the spelling of its
path. -/
def putInto (path : FilePath) (text : String) : List (FilePath × String) → List (FilePath × String)
  | [] => [(path, text)]
  | (known, old) :: rest =>
    if known.same path then (known, text) :: rest
    else if path.precedes known then (path, text) :: (known, old) :: rest
    else (known, old) :: putInto path text rest

def put (tree : MemoryTree) (path : FilePath) (text : String) : MemoryTree :=
  { tree with files := putInto path text tree.files }

def erase (tree : MemoryTree) (path : FilePath) : MemoryTree :=
  { tree with files := tree.files.filter fun (known, _) => ! known.same path }

/-- Says whether there is a file, or a folder with something in it. -/
def holds (tree : MemoryTree) (path : FilePath) : Bool :=
  tree.files.any fun (known, _) => known.same path || known.isBelow path

private theorem same_iff {a b : FilePath} : a.same b = true ↔ a.components = b.components := by
  simp [FilePath.same]

theorem find?_put (tree : MemoryTree) (path other : FilePath) (text : String) :
    (tree.put path text).find? other =
      if path.same other then some text else tree.find? other := by
  obtain ⟨files, denied⟩ := tree
  simp only [put, find?]
  induction files with
  | nil => by_cases same : path.same other <;> simp [putInto, same]
  | cons file rest ih =>
    obtain ⟨known, old⟩ := file
    unfold putInto
    by_cases first : known.same path
    · have chain : known.same other = path.same other := by
        rw [Bool.eq_iff_iff, same_iff, same_iff, same_iff.1 first]
      by_cases same : path.same other <;> simp [first, chain, same]
    · by_cases ahead : path.precedes known
      · by_cases same : path.same other <;> simp [first, ahead, same]
      · simp only [first, ahead]
        by_cases hit : known.same other
        · have differ : path.same other = false := by
            rw [Bool.eq_false_iff]
            intro same
            exact first (same_iff.2 ((same_iff.1 hit).trans (same_iff.1 same).symm))
          simp [hit, differ]
        · simpa [hit] using ih

def unlessDenied {α : Type} (tree : MemoryTree) (access : Access) (path : FilePath)
    (answer : Except String α) : Except String α :=
  if tree.denied.contains (access, path.text) then .error (access.text ++ " denied") else answer

def readText (tree : MemoryTree) (path : FilePath) : Except String String :=
  tree.unlessDenied .read path <|
    match tree.find? path with
    | some text => .ok text
    | none => .error ("File not found: " ++ path.text)

def writeText (tree : MemoryTree) (path : FilePath) (text : String) : Except String MemoryTree :=
  tree.unlessDenied .write path (.ok (tree.put path text))

def remove (tree : MemoryTree) (path : FilePath) : Except String MemoryTree :=
  tree.unlessDenied .remove path (.ok (tree.erase path))

def deny (tree : MemoryTree) (access : Access) (path : String) : Bool × MemoryTree :=
  if tree.denied.contains (access, path) then (false, tree)
  else (true, { tree with denied := (access, path) :: tree.denied })

def allow (tree : MemoryTree) (access : Access) (path : String) : Bool × MemoryTree :=
  if tree.denied.contains (access, path) then
    (true, { tree with denied := tree.denied.filter (· != (access, path)) })
  else (false, tree)

end MemoryTree

instance : Files (StateM MemoryTree) where
  readText path := return (← get).readText path
  holds path := return (← get).holds path
  writeText path text := attempt (·.writeText path text)
  remove path := attempt (·.remove path)

end ClassWeaver
