import ClassWeaver.Template.Basic

set_option autoImplicit false

/-!
Short forms for writing templates line by line.
-/

namespace ClassWeaver.Template

instance : Coe String Piece :=
  ⟨.text⟩

def var (name : String) : Piece :=
  .print (.path (.inScope 0 [name]))

def item : Piece :=
  .print (.path (.inScope 0 []))

def either (name : String) (yes no : Template) : Piece :=
  .choose (.path (.inScope 0 [name])) yes no

def when (name : String) (yes : Template) : Piece :=
  either name yes []

def forEach (name : String) (body : Template) : Piece :=
  .each (.path (.inScope 0 [name])) true body []

def inOrder (templates : List Template) : Template :=
  templates.flatten

def line (pieces : Template) : Template :=
  pieces ++ [.text "\n"]

end ClassWeaver.Template
