import ClassWeaver.Fragment.Source
import ClassWeaver.Generation.FileKind

set_option autoImplicit false

/-!
A file on its way from its old text to its new one. First the code of the previous model is taken
out as far as it is out of date, then the current model is put in.
-/

namespace ClassWeaver

/-- A file at work: its fragments, the text that it had, whether it existed, and whether it is to go
if nothing is left in it. -/
structure Draft where
  store : Fragment.Store
  initial : String
  existed : Bool
  purge : Bool

/-- Why a file cannot be generated, with its path as the class that failed spells it. -/
structure Obstacle where
  path : FilePath
  cause : Error

namespace Draft

/-- The draft of a file with a text, or of a file or folder that could not be read as one. -/
def ofSource (source : String) : Draft :=
  ⟨Fragment.Store.parse source, source, true, false⟩

def new : Draft :=
  ⟨.empty, "", false, false⟩

def generate (kind : FileKind) (catalog : Catalog) (model : Model) (draft : Draft)
    (owner : ModelClass) : Except Obstacle Draft :=
  match kind.generate catalog model owner draft.store with
  | (store, .ok _) => .ok { draft with store := store }
  | (_, .error cause) => .error ⟨kind.path model owner, cause⟩

/-- Brings the code of a class of the previous model up to date with its flags. A flagged class, and
a class without members whose file is gone, leaves no empty file behind. -/
def purgeStale (kind : FileKind) (catalog : Catalog) (previous : Model) (draft : Draft)
    (owner : ModelClass) : Except Obstacle Draft :=
  (draft.generate kind catalog previous owner).map fun after =>
    { after with purge := after.purge || owner.modified || (owner.isEmpty && ! after.existed) }

def reread (draft : Draft) : Draft :=
  { draft with store := Fragment.Store.parse draft.store.render }

def isDispensable (draft : Draft) : Bool :=
  draft.purge && draft.store.isBodyEmpty

end Draft

/-- The work on one file: its path as it was first spelled, and the classes of the previous and of
the current model whose code it holds. -/
structure Task where
  path : FilePath
  previous : List ModelClass
  current : List ModelClass

namespace Task

/-- Changes the task of a path in a list in the order of paths, and adds it if it is missing. -/
def atPath (path : FilePath) (change : Task → Task) : List Task → List Task
  | [] => [change ⟨path, [], []⟩]
  | task :: rest =>
    if task.path.same path then change task :: rest
    else if path.precedes task.path then change ⟨path, [], []⟩ :: task :: rest
    else task :: atPath path change rest

def all (kind : FileKind) (previous : Option Model) (current : Model) : List Task :=
  let ofPrevious (tasks : List Task) (model : Model) :=
    model.classes.foldl (fun tasks owner =>
      atPath (kind.path model owner)
        (fun task => { task with previous := task.previous ++ [owner] }) tasks) tasks
  current.classes.foldl (fun tasks owner =>
    atPath (kind.path current owner)
      (fun task => { task with current := task.current ++ [owner] }) tasks)
    (previous.elim [] (ofPrevious []))

def carryOut (kind : FileKind) (catalog : Catalog) (previous : Option Model) (current : Model)
    (task : Task) (draft : Draft) : Except Obstacle Draft := do
  let draft ← match previous with
    | none => .ok draft
    | some model => task.previous.foldlM (Draft.purgeStale kind catalog model) draft
  let draft := if task.previous.isEmpty then draft else draft.reread
  task.current.foldlM (Draft.generate kind catalog current) draft

end Task

end ClassWeaver
