import ClassWeaver.FilePath

set_option autoImplicit false

/-!
Settings of a run. What is given with the command goes before what the environment says, and an
empty variable counts as unset.
-/

namespace ClassWeaver

/-- The settings of a run: a file with templates of one's own, and whether table files are wanted.
-/
structure Settings where
  templates : Option FilePath
  tables : Bool
  deriving DecidableEq, Repr

namespace Settings

def templatesVariable : String :=
  "CLASSGEN_TEMPLATES"

def nonEmpty? (value : Option String) : Option String :=
  value.filter fun text => ! text.isEmpty

/-- The settings for what was given with the command, with the variables of the environment. -/
def resolve (templates : Option FilePath) (tables : Bool) (valueOf? : String → Option String) :
    Settings :=
  ⟨templates <|> (nonEmpty? (valueOf? templatesVariable)).map FilePath.mk, tables⟩

/-- What is logged: warnings unless the variable for it says something else. -/
def logFilter (value : Option String) : String :=
  (nonEmpty? value).getD "warn"

end Settings

end ClassWeaver
