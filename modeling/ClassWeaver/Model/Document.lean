import ClassWeaver.Model.Definition
import ClassWeaver.Yaml.Shape

set_option autoImplicit false

/-!
Definitions of models as documents. Fields that the format does not know are passed over.
-/

namespace ClassWeaver

open Yaml (Node)

def Cardinality.ofNode? : Node → Option Cardinality :=
  Node.choice? [("one", .one), ("many", .many)]

def AttributeDefinition.ofNode? (node : Node) : Option AttributeDefinition := do
  let record ← node.record?
  return {
    name := ← record.required? "name" Node.text?
    type := ← record.required? "type" Node.text?
    initializer := ← record.optional? "init" Node.text?
    style := ← record.optional? "style" Node.text? }

def MethodDefinition.ofNode? (node : Node) : Option MethodDefinition := do
  let record ← node.record?
  return {
    declaration := ← record.required? "declaration" Node.text?
    body := ← record.withDefault? "body" "" Node.text? }

def ClassDefinition.ofNode? (node : Node) : Option ClassDefinition := do
  let record ← node.record?
  return {
    name := ← record.required? "name" Node.text?
    superclass := ← record.optional? "extends" Node.text?
    attributes := ← record.list? "attributes" AttributeDefinition.ofNode?
    methods := ← record.list? "methods" MethodDefinition.ofNode? }

def AssociationDefinition.ofNode? (node : Node) : Option AssociationDefinition := do
  let record ← node.record?
  return {
    className := ← record.required? "class" Node.text?
    role := ← record.required? "role" Node.text?
    cardinality := ← record.required? "cardinality" Cardinality.ofNode?
    otherClass := ← record.required? "other_class" Node.text?
    otherRole := ← record.optional? "other_role" Node.text?
    otherCardinality := ← record.withDefault? "other_cardinality" .one Cardinality.ofNode? }

namespace ModelDefinition

def ofNode? (node : Node) : Option ModelDefinition := do
  let record ← node.record?
  return {
    package := ← record.required? "package" Node.text?
    sourceFolder := ← record.withDefault? "source_folder" Model.standardSourceFolder Node.text?
    style := ← record.optional? "property_style" Node.text?
    collection := ← record.optional? "role_type" Node.text?
    classes := ← record.list? "classes" ClassDefinition.ofNode?
    associations := ← record.list? "associations" AssociationDefinition.ofNode? }

def parse (text : String) : Except Error ModelDefinition :=
  match (Node.read text.toList).bind ofNode? with
  | some definition => .ok definition
  | none => .error .unreadableDocument

end ModelDefinition

end ClassWeaver
