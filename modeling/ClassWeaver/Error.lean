import ClassWeaver.FilePath
import ClassWeaver.Name

set_option autoImplicit false

/-!
Everything that can go wrong in building a model, reading a document or writing a file, with the
text that is shown for it.
-/

namespace ClassWeaver

inductive Error where
  /-- A name cannot be used where it stands. -/
  | invalidName (cause : NameError)
  /-- An association joins a class that the model lacks. -/
  | unknownClass (name : String)
  /-- A class extends a class that the model lacks. -/
  | unknownSuperclass (name superclass : String)
  /-- A file could not be read, written or removed. -/
  | file (path : FilePath) (cause : String)
  /-- A document is malformed or does not have the expected shape. -/
  | unreadableDocument
  /-- A template is malformed, unknown or uses a variable without a value. -/
  | template (name : String)
  deriving DecidableEq, Repr

def Error.message : Error → String
  | .invalidName cause => "invalid name: " ++ cause.message
  | .unknownClass name => "unknown class: " ++ name
  | .unknownSuperclass name superclass =>
    s!"model definition error: class {name} extends unknown class {superclass}"
  | .file path cause => s!"filesystem error at {path.text}: {cause}"
  | .unreadableDocument => "snapshot codec error"
  | .template name => s!"template error in '{name}'"

end ClassWeaver
