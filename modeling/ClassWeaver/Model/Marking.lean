import ClassWeaver.Model.Basic

set_option autoImplicit false

/-!
Comparing the model of the previous run with the current one: every element of the previous model
whose generated code is out of date gets its flag set and is listed. Nothing else changes.
-/

namespace ClassWeaver

inductive MarkedElement where
  | classOf (name : String)
  | attributeOf (className name : String)
  | roleOf (className : String) (name : Option String)
  | methodOf (className signature : String)
  deriving DecidableEq, Repr

def MarkedElement.text : MarkedElement → String
  | .classOf name => "class " ++ name
  | .attributeOf className name => s!"attribute {className}.{name}"
  | .roleOf className name => "role " ++ className ++ "." ++ name.getD "<unnamed>"
  | .methodOf className signature => s!"method {className}.{signature}"

namespace Marking

/-- An attribute is out of date if the class has none of its name with its type and style. -/
def attributeChanged (current : ModelClass) (old : Attribute) : Bool :=
  (current.attribute? old.name).all fun new => old.type != new.type || old.style != new.style

def methodChanged (current : ModelClass) (old : Method) : Bool :=
  ! current.methods.any old.sameSignature

def partnerClass (role : Role) : Option String :=
  role.other.map (·.className)

def counterpartName (model : Model) (role : Role) : Option String :=
  (model.otherRole? role).bind (·.name)

/-- The role of the current class that stands for an old one: the one of the same name, or for a
role without a name the one with the same partner class and the same name at the other end. -/
def matching? (previous current : Model) (currentClass : ModelClass) (old : Role) : Option Role :=
  if old.name.isSome then currentClass.role? old.name
  else currentClass.roles.find? fun new =>
    new.name.isNone && partnerClass new == partnerClass old
      && counterpartName current new == counterpartName previous old

/-- A role is out of date on its own account if nothing stands for it, or something with another
cardinality, style or partner class. -/
def roleChanged (previous current : Model) (currentClass : ModelClass) (old : Role) : Bool :=
  (matching? previous current currentClass old).all fun new =>
    old.cardinality != new.cardinality || old.style != new.style
      || partnerClass old != partnerClass new

/-- The places of the roles of a class that are out of date on their own account. -/
def changedPlaces (previous current : Model) (old : ModelClass) : List RoleRef :=
  match current.class? old.name with
  | none => []
  | some currentClass =>
    old.roles.zipIdx.filterMap fun (role, index) =>
      if roleChanged previous current currentClass role then some ⟨old.name, index⟩ else none

/-- The places of all roles of surviving classes that are out of date on their own account. -/
def stalePlaces (previous current : Model) : List RoleRef :=
  previous.classes.flatMap (changedPlaces previous current)

/-- A class after comparing it: its flags, what they are listed as, and the places of the roles at
the other ends of flagged roles. -/
structure Compared where
  flagged : ModelClass
  elements : List MarkedElement
  partners : List RoleRef

private def flagAttribute (changed : Bool) (property : Attribute) : Attribute :=
  if changed then { property with modified := true } else property

private def flagRole (changed : Bool) (role : Role) : Role :=
  if changed then { role with modified := true } else role

private def flagMethod (changed : Bool) (method : Method) : Method :=
  if changed then { method with modified := true } else method

def compareKept (stale : List RoleRef) (current old : ModelClass) : Compared :=
  let emptied := ! old.isEmpty && current.isEmpty
  let isStale (index : Nat) := stale.contains ⟨old.name, index⟩
  let staleRoles := old.roles.zipIdx.filterMap fun (role, index) =>
    if isStale index then some role else none
  { flagged :=
      { old with
        attributes := old.attributes.map fun property =>
          flagAttribute (attributeChanged current property) property
        roles := old.roles.zipIdx.map fun (role, index) => flagRole (isStale index) role
        methods := old.methods.map fun method => flagMethod (methodChanged current method) method
        modified := old.modified || emptied }
    elements :=
      (if emptied then [.classOf old.name] else [])
        ++ (old.attributes.filter (attributeChanged current)).map
            (fun property => .attributeOf old.name property.name)
        ++ staleRoles.map (fun role => .roleOf old.name role.name)
        ++ (old.methods.filter (methodChanged current)).map
            (fun method => .methodOf old.name method.signature.text)
    partners := staleRoles.filterMap (·.other) }

/-- Compares a class with the current model. A class that is gone is flagged with all its members.
-/
def compareClass (stale : List RoleRef) (current : Model) (old : ModelClass) : Compared :=
  match current.class? old.name with
  | none => ⟨old.markAll, [.classOf old.name], old.roles.filterMap (·.other)⟩
  | some currentClass => compareKept stale currentClass old

def flagPartner (state : Model × List MarkedElement) (place : RoleRef) :
    Model × List MarkedElement :=
  match state.1.role? place with
  | none => state
  | some role =>
    if role.modified then state
    else
      (state.1.modifyRole place ({ · with modified := true }),
        state.2 ++ [.roleOf place.className role.name])

/-- Flags every element of the previous model that is out of date and lists them. A flagged role
takes the role at the other end with it. -/
def mark (previous current : Model) : Model × List MarkedElement :=
  let compared := previous.classes.map (compareClass (stalePlaces previous current) current)
  let flagged := { previous with classes := compared.map (·.flagged) }
  (compared.flatMap (·.partners)).foldl flagPartner (flagged, compared.flatMap (·.elements))

def summary (elements : List MarkedElement) : String :=
  if elements.isEmpty then "No changes since last generation."
  else
    "\n".intercalate
      ("Stale generated code to be removed:" :: elements.map fun element => "  - " ++ element.text)

end Marking

end ClassWeaver
