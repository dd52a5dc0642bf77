import ClassWeaver.Error
import ClassWeaver.Model.Basic

set_option autoImplicit false

/-!
Building a model step by step. Every name is checked on the way in, and the two ends of an
association are added together so that they refer to each other. A step that fails changes nothing.
-/

namespace ClassWeaver.Model

def standardSourceFolder : String :=
  "src/main/java"

private def named {α : Type} (result : Except NameError α) : Except Error α :=
  result.mapError .invalidName

def start (package sourceFolder : String) : Except Error Model := do
  named (Name.checkQualified package)
  return ofPackage package sourceFolder

def ensureClass (model : Model) (name : String) : Except Error Model := do
  if (model.class? name).isSome then return model
  named (Name.checkSimple name)
  named (Name.checkJavaLang name)
  return { model with classes := model.classes ++ [.ofName name] }

def editClass (model : Model) (className : String)
    (step : ModelClass → Except Error ModelClass) : Except Error Model := do
  match model.class? className with
  | none => .error (.unknownClass className)
  | some owner =>
    let changed ← step owner
    return model.modifyClass className fun _ => changed

def hasMember (owner : ModelClass) (name : String) : Bool :=
  (owner.attribute? name).isSome || (owner.role? (some name)).isSome

def addAttribute (model : Model) (className name type : String) (initializer : Option String) :
    Except Error Model :=
  model.editClass className fun owner => do
    named (Name.checkSimple name)
    if hasMember owner name then
      .error (.invalidName (.duplicateAttribute name owner.name))
    else
      let added : Attribute := ⟨name, type, initializer, model.defaultStyle, false⟩
      return { owner with attributes := owner.attributes ++ [added] }

def restyleLast (style : String) : List Attribute → List Attribute
  | [] => []
  | [last] => [{ last with style := style }]
  | first :: second :: rest => first :: restyleLast style (second :: rest)

def setStyle (model : Model) (className style : String) : Model :=
  model.modifyClass className fun owner =>
    { owner with attributes := restyleLast style owner.attributes }

def addMethod (model : Model) (className declaration body : String) : Except Error Model :=
  model.editClass className fun owner =>
    let added : Method := ⟨declaration, body, false⟩
    if owner.methods.any (·.sameSignature added) then
      .error (.invalidName (.duplicateMethod added.signature.text owner.name))
    else .ok { owner with methods := owner.methods ++ [added] }

def setSuperclass (model : Model) (className superclass : String) : Except Error Model :=
  model.editClass className fun owner => do
    named (Name.checkSimple superclass)
    return { owner with superclass := some superclass }

structure End where
  className : String
  role : Option String
  cardinality : Cardinality
  deriving DecidableEq, Repr

def checkFree (model : Model) (className name : String) : Except Error Unit :=
  if (model.class? className).any (hasMember · name) then
    .error (.invalidName (.takenByMember name className))
  else .ok ()

def roleOf (model : Model) (self : End) (partner : RoleRef) : Role :=
  ⟨self.role, self.cardinality, model.defaultCollection, model.defaultStyle, some partner, false⟩

def addRole (model : Model) (className : String) (role : Role) : Model :=
  model.modifyClass className fun owner => { owner with roles := owner.roles ++ [role] }

def roleCount (model : Model) (className : String) : Nat :=
  ((model.class? className).map (·.roles.length)).getD 0

def knownClass (model : Model) (name : String) : Except Error Unit :=
  if (model.class? name).isSome then .ok () else .error (.unknownClass name)

/-- Joins two classes by an association that reaches `far` from the class of `near` under the name
`role`. An end without a name stays invisible in the generated code. The two ends of an association
of a class with itself may have one name. -/
def associate (model : Model) (nearClass role : String) (cardinality : Cardinality) (far : End) :
    Except Error Model := do
  if let some farRole := far.role then named (Name.checkSimple farRole)
  named (Name.checkSimple role)
  model.knownClass nearClass
  model.knownClass far.className
  model.checkFree nearClass role
  if let some farRole := far.role then
    if nearClass != far.className || role != farRole then
      model.checkFree far.className farRole
  let nearIndex := model.roleCount nearClass
  let farIndex :=
    if nearClass == far.className then nearIndex + 1 else model.roleCount far.className
  let near : End := ⟨nearClass, some role, cardinality⟩
  return (model.addRole nearClass (model.roleOf near ⟨far.className, farIndex⟩)).addRole
    far.className (model.roleOf far ⟨nearClass, nearIndex⟩)

end ClassWeaver.Model
