import ClassWeaver.Generation.ClassFile

set_option autoImplicit false

/-!
The source file of the tables of a class. A table holds rows of objects; each role adds columns with
partners and keeps rows whose objects are linked.
-/

namespace ClassWeaver.TableFile

open ClassFile (plainMethod methodWith)
open Template (Value)

def folder : String :=
  "tables"

def tableName (className : String) : String :=
  className ++ "Table"

structure Field where
  name : String
  type : String
  initializer : String

def fields : List Field := [
  ⟨"table", "ArrayList<ArrayList<Object>>", "new ArrayList<>()"⟩,
  ⟨"columnName", "String", "null"⟩,
  ⟨"columnMap", "LinkedHashMap<String, Integer>", "new LinkedHashMap<>()"⟩]

/-- What the file has to import, partner classes as often as roles lead to them. -/
def imports (model : Model) (owner : ModelClass) : List String :=
  let qualified (className : String) := model.package ++ "." ++ className
  ["java.util.ArrayList", "java.util.LinkedHashMap", "java.util.LinkedHashSet",
    qualified owner.name]
    ++ owner.namedRoles.filterMap fun (_, role) =>
      role.other.map fun place => qualified place.className

def constructorUpdate (owner : ModelClass) : Update :=
  .ofMember (.ofConstructor (.ofTypes (tableName owner.name) [owner.name ++ "..."]))
    .tableConstructor (.record [("className", .text owner.name)]) owner.modified

def fieldUpdates (owner : ModelClass) (field : Field) : List Update :=
  let name := Text.capitalize field.name
  let values : Value := .record [
    ("className", .text (tableName owner.name)), ("name", .text field.name),
    ("capName", .text name), ("type", .text field.type), ("init", .text field.initializer),
    ("bean", .truth false)]
  [.ofMember (.attributeOf field.name) .attributeDecl values owner.modified,
    .ofMember (plainMethod ("get" ++ name)) .attributeGetter values owner.modified,
    .ofMember (methodWith ("set" ++ name) [field.type]) .plainSetter values owner.modified]

def attributeUpdate (owner : ModelClass) (property : Attribute) : Update :=
  let name := Text.capitalize property.name
  .ofMember (methodWith ("expand" ++ name) ["String..."]) .tableExpandAttribute
    (.record [("className", .text owner.name), ("capName", .text name)]) property.modified

def roleUpdates (owner : ModelClass) (name : String) (role : Role) : List Update :=
  match role.other with
  | none => []
  | some place =>
    let title := Text.capitalize name
    let values : Value := .record [
      ("className", .text owner.name), ("capName", .text title),
      ("otherClass", .text place.className), ("many", .truth role.isMany)]
    [.ofMember (methodWith ("expand" ++ title) ["String..."]) .tableExpandRole values
        role.modified,
      .ofMember (methodWith ("has" ++ title) [tableName place.className]) .tableHasRole values
        role.modified]

/-- The members that turn a table into a set or a text. The table of a superclass passes on how to
turn one into a set. -/
def conversionUpdates (owner : ModelClass) : List Update :=
  [.ofMember (plainMethod "toSet") .tableToSet (.record [("className", .text owner.name)])
      (owner.modified || owner.superclass.isSome),
    .ofMember (plainMethod "toString") .tableToText (.record []) owner.modified]

def updates (model : Model) (owner : ModelClass) : List Update :=
  Update.frame (model.package ++ "." ++ folder) (tableName owner.name)
      (owner.superclass.map tableName)
    ++ (imports model owner).map Update.ofImport
    ++ [constructorUpdate owner]
    ++ fields.flatMap (fieldUpdates owner)
    ++ owner.attributes.map (attributeUpdate owner)
    ++ owner.namedRoles.flatMap (fun (name, role) => roleUpdates owner name role)
    ++ conversionUpdates owner

end ClassWeaver.TableFile
