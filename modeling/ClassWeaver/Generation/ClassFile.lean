import ClassWeaver.Generation.Update
import ClassWeaver.Model.Basic
import ClassWeaver.Text.UpperCase

set_option autoImplicit false

/-!
The source file of a class: fields and accessors of its attributes and roles, its hand-declared
methods, and what they need. The members of flagged elements go instead of being generated.
-/

namespace ClassWeaver.ClassFile

open Template (Value)

def capitalized (name : String) : Value :=
  .text (Text.capitalize name)

def plainMethod (name : String) : Fragment.Key :=
  .ofMethod ⟨name, []⟩

def methodWith (name : String) (types : List String) : Fragment.Key :=
  .ofMethod (.ofTypes name types)

def usesListeners (owner : ModelClass) : Bool :=
  owner.attributes.any (·.style == beanStyle)
    || owner.namedRoles.any fun (_, role) => role.style == beanStyle

def roleImports (role : Role) : List String :=
  if role.isMany then
    ["java.util.List", "java.util.Collections"]
      ++ if role.collection.toList.contains '.' then [] else ["java.util." ++ role.collection]
  else []

def distinct : List String → List String
  | [] => []
  | name :: rest => name :: (distinct rest).filter (· != name)

def imports (owner : ModelClass) : List String :=
  distinct ((if owner.attributes.isEmpty then [] else ["java.util.Objects"])
    ++ owner.namedRoles.flatMap (fun (_, role) => roleImports role)
    ++ if usesListeners owner then ["java.beans.PropertyChangeSupport"] else [])

def attributeUpdates (owner : ModelClass) (property : Attribute) : List Update :=
  let name := Text.capitalize property.name
  let values : Value := .record [
    ("className", .text owner.name), ("name", .text property.name), ("capName", .text name),
    ("type", .text property.type), ("init", .ofText? property.initializer),
    ("bean", .truth (property.style == beanStyle))]
  [.ofMember (.attributeOf property.name) .attributeDecl values property.modified,
    .ofMember (plainMethod ("get" ++ name)) .attributeGetter values property.modified,
    .ofMember (methodWith ("set" ++ name) [property.type]) .attributeSetter values
      property.modified]

/-- The members of a role with the name `name` whose partners belong to the class of `place`. -/
def linkedRoleUpdates (model : Model) (owner : ModelClass) (name : String) (role : Role)
    (place : RoleRef) : List Update :=
  let counterpart := model.role? place
  let counterpartName := counterpart.bind (·.name)
  let title := Text.capitalize name
  let values : Value := .record [
    ("className", .text owner.name), ("name", .text name), ("capName", .text title),
    ("type", .text place.className), ("otherClass", .text place.className),
    ("otherNamed", .truth counterpartName.isSome),
    ("otherCapName", capitalized (counterpartName.getD "")),
    ("otherMany", .truth (counterpart.any (·.isMany))), ("roleType", .text role.collection),
    ("bean", .truth (role.style == beanStyle))]
  let member (key : Fragment.Key) (template : Template.Standard) : Update :=
    .ofMember key template values role.modified
  if role.isMany then
    let partners := [place.className ++ "..."]
    [member (.attributeOf name) .roleManyDecl,
      member (plainMethod ("get" ++ title)) .roleManyGetter,
      member (methodWith ("with" ++ title) partners) .roleManyWith,
      member (methodWith ("without" ++ title) partners) .roleManyWithout]
  else
    [member (.attributeOf name) .roleOneDecl,
      member (plainMethod ("get" ++ title)) .attributeGetter,
      member (methodWith ("set" ++ title) [place.className]) .roleOneSetter]

def roleUpdates (model : Model) (owner : ModelClass) (name : String) (role : Role) : List Update :=
  match role.other with
  | none => []
  | some place => linkedRoleUpdates model owner name role place

/-- The key of a hand-declared method. A method with the name of the class is a constructor. -/
def methodKey (owner : ModelClass) (method : Method) : Fragment.Key :=
  if method.signature.name == owner.name then .ofConstructor method.signature
  else .ofMethod method.signature

def methodUpdate (owner : ModelClass) (method : Method) : Update :=
  .ofMember (methodKey owner method) .method
    (.record [
      ("declaration", .text (Text.trimmed method.declaration)),
      ("body", .text (Text.trimmed method.body))])
    method.modified

def listenerUpdates (owner : ModelClass) : List Update :=
  let remove := owner.modified || ! usesListeners owner
  [.ofMember (.attributeOf "listeners") .listenersDecl (.record []) remove,
    .ofMember (methodWith "firePropertyChange" ["String", "Object", "Object"])
      .firePropertyChange (.record []) remove,
    .ofMember (plainMethod "listeners") .listenersGetter (.record []) remove]

def textUpdate (owner : ModelClass) : Update :=
  let names := (owner.attributes.filter (·.type == "String")).map fun property =>
    capitalized property.name
  .ofMember (plainMethod "toString") .toText (.record [("names", .list names)])
    (owner.modified || names.isEmpty)

/-- What the removal of an object from a role needs to know; a role without a partner is left out. -/
def removalValue (name : String) (role : Role) : Option Value :=
  role.other.map fun place =>
    .record [
      ("capName", capitalized name), ("many", .truth role.isMany),
      ("otherClass", .text place.className)]

def removeYouUpdate (owner : ModelClass) : Update :=
  let roles := owner.namedRoles.filterMap fun (name, role) => removalValue name role
  .ofMember (plainMethod "removeYou") .removeYou (.record [("roles", .list roles)])
    (owner.modified || roles.isEmpty)

def updates (model : Model) (owner : ModelClass) : List Update :=
  Update.frame model.package owner.name owner.superclass
    ++ (imports owner).map Update.ofImport
    ++ owner.attributes.flatMap (attributeUpdates owner)
    ++ owner.namedRoles.flatMap (fun (name, role) => roleUpdates model owner name role)
    ++ owner.methods.map (methodUpdate owner)
    ++ listenerUpdates owner
    ++ [textUpdate owner, removeYouUpdate owner]

end ClassWeaver.ClassFile
