import ClassWeaver.FilePath
import ClassWeaver.Generation.TableFile

set_option autoImplicit false

/-!
The two kinds of files that are generated for each class of a model.
-/

namespace ClassWeaver

inductive FileKind where
  | classFile
  | tableFile
  deriving DecidableEq, Repr

namespace FileKind

def snapshotName : FileKind → String
  | classFile => "classModel.yaml"
  | tableFile => "tablesClassModel.yaml"

def snapshotPath (kind : FileKind) (model : Model) : FilePath :=
  FilePath.join ⟨model.packageFolder⟩ kind.snapshotName

def path (kind : FileKind) (model : Model) (owner : ModelClass) : FilePath :=
  let package : FilePath := ⟨model.packageFolder⟩
  match kind with
  | classFile => package.join (owner.name ++ ".java")
  | tableFile =>
    (package.join TableFile.folder).join (TableFile.tableName owner.name ++ ".java")

def updates (kind : FileKind) (model : Model) (owner : ModelClass) : List Update :=
  match kind with
  | classFile => ClassFile.updates model owner
  | tableFile => TableFile.updates model owner

def generate (kind : FileKind) (catalog : Catalog) (model : Model) (owner : ModelClass)
    (store : Fragment.Store) : Fragment.Store × Except Error Unit :=
  Update.applyAll catalog (kind.updates model owner) store

end FileKind

end ClassWeaver
