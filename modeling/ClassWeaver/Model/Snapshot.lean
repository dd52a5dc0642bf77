import ClassWeaver.Model.Document
import ClassWeaver.Yaml.Tree

set_option autoImplicit false

/-!
Snapshots of models as documents. A snapshot keeps everything but the flags, so that the next run
can tell what has changed since.
-/

namespace ClassWeaver

open Yaml (Node Tree)

def optionalField (name : String) : Option String → List (String × Tree)
  | none => []
  | some content => [(name, .text content)]

def Cardinality.text : Cardinality → String
  | .one => "one"
  | .many => "many"

def Attribute.toTree (owned : Attribute) : Tree :=
  .record ([("name", .text owned.name), ("type", .text owned.type)]
    ++ optionalField "initialization" owned.initializer
    ++ [("property_style", .text owned.style)])

def RoleRef.toTree (place : RoleRef) : Tree :=
  .record [("class", .text place.className), ("index", .number place.index)]

def Role.toTree (role : Role) : Tree :=
  .record (optionalField "name" role.name
    ++ [("cardinality", .text role.cardinality.text), ("role_type", .text role.collection),
      ("property_style", .text role.style)]
    ++ role.other.toList.map fun place => ("other", place.toTree))

def Method.toTree (method : Method) : Tree :=
  .record [("declaration", .text method.declaration), ("body", .text method.body)]

def ModelClass.toTree (owner : ModelClass) : Tree :=
  .record ([("name", .text owner.name)]
    ++ optionalField "super_class" owner.superclass
    ++ [("attributes", .sequence (owner.attributes.map Attribute.toTree)),
      ("roles", .sequence (owner.roles.map Role.toTree)),
      ("methods", .sequence (owner.methods.map Method.toTree))])

def Attribute.ofNode? (node : Node) : Option Attribute := do
  let record ← node.record?
  return {
    name := ← record.required? "name" Node.text?
    type := ← record.required? "type" Node.text?
    initializer := ← record.optional? "initialization" Node.text?
    style := ← record.required? "property_style" Node.text?
    modified := false }

def RoleRef.ofNode? (node : Node) : Option RoleRef := do
  let record ← node.record?
  return {
    className := ← record.required? "class" Node.text?
    index := ← record.required? "index" Node.natural? }

def Role.ofNode? (node : Node) : Option Role := do
  let record ← node.record?
  return {
    name := ← record.optional? "name" Node.text?
    cardinality := ← record.required? "cardinality" Cardinality.ofNode?
    collection := ← record.required? "role_type" Node.text?
    style := ← record.required? "property_style" Node.text?
    other := ← record.optional? "other" RoleRef.ofNode?
    modified := false }

def Method.ofNode? (node : Node) : Option Method := do
  let record ← node.record?
  return {
    declaration := ← record.required? "declaration" Node.text?
    body := ← record.withDefault? "body" "" Node.text?
    modified := false }

def ModelClass.ofNode? (node : Node) : Option ModelClass := do
  let record ← node.record?
  return {
    name := ← record.required? "name" Node.text?
    superclass := ← record.optional? "super_class" Node.text?
    attributes := ← record.list? "attributes" Attribute.ofNode?
    roles := ← record.list? "roles" Role.ofNode?
    methods := ← record.list? "methods" Method.ofNode?
    modified := false }

def Model.ofNode? (node : Node) : Option Model := do
  let record ← node.record?
  return {
    package := ← record.required? "package_name" Node.text?
    sourceFolder := ← record.required? "main_java_dir" Node.text?
    defaultCollection := ← record.required? "default_role_type" Node.text?
    defaultStyle := ← record.required? "default_property_style" Node.text?
    classes := ← record.list? "classes" ModelClass.ofNode? }

namespace Snapshot

def encode (model : Model) : String :=
  Tree.documentText [
    ("package_name", .text model.package),
    ("main_java_dir", .text model.sourceFolder),
    ("default_role_type", .text model.defaultCollection),
    ("default_property_style", .text model.defaultStyle),
    ("classes", .sequence (model.classes.map ModelClass.toTree))]

def decode (text : String) : Except Error Model :=
  match (Node.read text.toList).bind Model.ofNode? with
  | some model => .ok model
  | none => .error .unreadableDocument

end Snapshot

end ClassWeaver
