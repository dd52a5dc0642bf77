import ClassWeaver.Template.Members
import ClassWeaver.Template.Tables

set_option autoImplicit false

/-!
The templates that generation uses, with their names and what they are unless they are replaced.
Main statement: they are listed by their names, each once.
-/

namespace ClassWeaver.Template

inductive Standard where
  | package
  | importLine
  | classDecl
  | classEnd
  | attributeDecl
  | attributeGetter
  | attributeSetter
  | plainSetter
  | roleOneDecl
  | roleOneSetter
  | roleManyDecl
  | roleManyGetter
  | roleManyWith
  | roleManyWithout
  | listenersDecl
  | firePropertyChange
  | listenersGetter
  | method
  | toText
  | removeYou
  | tableConstructor
  | tableExpandAttribute
  | tableExpandRole
  | tableHasRole
  | tableToSet
  | tableToText
  deriving DecidableEq, Repr

namespace Standard

def name : Standard → String
  | package => "package"
  | importLine => "import"
  | classDecl => "classDecl"
  | classEnd => "classEnd"
  | attributeDecl => "attrDecl"
  | attributeGetter => "attrGet"
  | attributeSetter => "attrSet"
  | plainSetter => "simpleAttrSet"
  | roleOneDecl => "roleOneDecl"
  | roleOneSetter => "roleOneSet"
  | roleManyDecl => "roleManyDecl"
  | roleManyGetter => "roleManyGet"
  | roleManyWith => "roleManyWith"
  | roleManyWithout => "roleManyWithout"
  | listenersDecl => "listenersDecl"
  | firePropertyChange => "firePropertyChange"
  | listenersGetter => "listenersGet"
  | method => "method"
  | toText => "toString"
  | removeYou => "removeYou"
  | tableConstructor => "tableConstructor"
  | tableExpandAttribute => "tableExpandAttribute"
  | tableExpandRole => "tableExpandRole"
  | tableHasRole => "tableHasRole"
  | tableToSet => "tableToSet"
  | tableToText => "tableToString"

def template : Standard → Template
  | package => Members.package
  | importLine => Members.importLine
  | classDecl => Members.classDecl
  | classEnd => Members.classEnd
  | attributeDecl => Members.attributeDecl
  | attributeGetter => Members.attributeGetter
  | attributeSetter => Members.attributeSetter
  | plainSetter => Members.plainSetter
  | roleOneDecl => Members.roleOneDecl
  | roleOneSetter => Members.roleOneSetter
  | roleManyDecl => Members.roleManyDecl
  | roleManyGetter => Members.roleManyGetter
  | roleManyWith => Members.roleManyWith
  | roleManyWithout => Members.roleManyWithout
  | listenersDecl => Members.listenersDecl
  | firePropertyChange => Members.firePropertyChange
  | listenersGetter => Members.listenersGetter
  | method => Members.method
  | toText => Members.toText
  | removeYou => Members.removeYou
  | tableConstructor => Tables.constructor
  | tableExpandAttribute => Tables.expandAttribute
  | tableExpandRole => Tables.expandRole
  | tableHasRole => Tables.hasRole
  | tableToSet => Tables.toSet
  | tableToText => Tables.toText

def all : List Standard :=
  [
    .attributeDecl, .attributeGetter, .attributeSetter, .classDecl, .classEnd,
    .firePropertyChange, .importLine, .listenersDecl, .listenersGetter, .method, .package,
    .removeYou, .roleManyDecl, .roleManyGetter, .roleManyWith, .roleManyWithout,
    .roleOneDecl, .roleOneSetter, .plainSetter, .tableConstructor, .tableExpandAttribute,
    .tableExpandRole, .tableHasRole, .tableToSet, .tableToText, .toText]

theorem mem_all (standard : Standard) : standard ∈ all := by
  cases standard <;> decide

theorem pairwise_all : all.Pairwise fun a b => a.name < b.name := by
  decide

end Standard

end ClassWeaver.Template
