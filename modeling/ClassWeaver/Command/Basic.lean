import ClassWeaver.FilePath

set_option autoImplicit false

/-!
The commands that can be given.
-/

namespace ClassWeaver

inductive Command where
  /-- Brings the files of a model in line with it; table files too if wanted. -/
  | generate (model : FilePath) (templates : Option FilePath) (tables : Bool)
  /-- Lists the elements of the model of the last run whose code is out of date. -/
  | diff (model : FilePath)
  /-- Lists the fragments of a source file. -/
  | fragments (file : FilePath)
  deriving DecidableEq, Repr

end ClassWeaver
