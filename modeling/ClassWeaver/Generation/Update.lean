import ClassWeaver.Fragment.Store
import ClassWeaver.Template.Catalog

set_option autoImplicit false

/-!
Generating code as a list of updates of a source file. Which fragments are addressed depends on the
model alone; their texts come from templates. Main statement: lists of updates one after the other
are carried out one after the other.
-/

namespace ClassWeaver

/-- What is to become of one fragment of a file: its template with the values for it, the blank
lines beside it if it is new, and whether it goes instead. -/
structure Update where
  key : Fragment.Key
  template : Template.Standard
  values : Template.Value
  blank : Nat
  remove : Bool

namespace Update

def ofMember (key : Fragment.Key) (template : Template.Standard) (values : Template.Value)
    (remove : Bool) : Update :=
  ⟨key, template, values, 2, remove⟩

def ofImport (name : String) : Update :=
  ⟨.importOf name, .importLine, .record [("qualifiedName", .text name)], 1, false⟩

/-- The updates of the package declaration, the class declaration and the end of the class. -/
def frame (package name : String) (superclass : Option String) : List Update := [
  ⟨.package, .package, .record [("packageName", .text package)], 2, false⟩,
  ⟨.classDecl, .classDecl,
    .record [("name", .text name), ("superClass", .ofText? superclass)], 2, false⟩,
  ⟨.classEnd, .classEnd, .record [], 1, false⟩]

def text (update : Update) (catalog : Catalog) : Except Error String :=
  catalog.render update.template.name update.values

/-- Carries out updates. The first one without a text ends it; what was done before stays. -/
def applyAll (catalog : Catalog) : List Update → Fragment.Store → Fragment.Store × Except Error Unit
  | [], store => (store, .ok ())
  | update :: rest, store =>
    match update.text catalog with
    | .error error => (store, .error error)
    | .ok text =>
      applyAll catalog rest (store.upsert update.key text update.blank update.remove).2

end Update

end ClassWeaver
