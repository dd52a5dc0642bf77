import ClassWeaver.Model.Builder

set_option autoImplicit false

/-!
Definitions of models, as they are written by hand: classes with their members, and associations.
A definition is built class by class, then the superclasses are looked up, then the associations
are added.
-/

namespace ClassWeaver

structure AttributeDefinition where
  name : String
  type : String
  initializer : Option String
  style : Option String
  deriving DecidableEq, Repr

structure MethodDefinition where
  declaration : String
  body : String
  deriving DecidableEq, Repr

structure ClassDefinition where
  name : String
  superclass : Option String
  attributes : List AttributeDefinition
  methods : List MethodDefinition
  deriving DecidableEq, Repr

/-- An association in a definition. Without the name of the other role it can be followed from
`className` only. -/
structure AssociationDefinition where
  className : String
  role : String
  cardinality : Cardinality
  otherClass : String
  otherRole : Option String
  otherCardinality : Cardinality
  deriving DecidableEq, Repr

structure ModelDefinition where
  package : String
  sourceFolder : String
  style : Option String
  collection : Option String
  classes : List ClassDefinition
  associations : List AssociationDefinition
  deriving DecidableEq, Repr

def AttributeDefinition.build (definition : AttributeDefinition) (className : String)
    (model : Model) : Except Error Model := do
  let model ← model.addAttribute className definition.name definition.type definition.initializer
  match definition.style with
  | none => return model
  | some style => return model.setStyle className style

def ClassDefinition.build (definition : ClassDefinition) (model : Model) : Except Error Model := do
  let model ← model.ensureClass definition.name
  let model ← definition.attributes.foldlM
    (fun model property => property.build definition.name model) model
  let model ← definition.methods.foldlM
    (fun model method => model.addMethod definition.name method.declaration method.body) model
  match definition.superclass with
  | none => return model
  | some superclass => model.setSuperclass definition.name superclass

/-- The other end of an association; an end without a name has one partner. -/
def AssociationDefinition.far (definition : AssociationDefinition) : Model.End :=
  let cardinality := if definition.otherRole.isSome then definition.otherCardinality else .one
  ⟨definition.otherClass, definition.otherRole, cardinality⟩

def AssociationDefinition.build (definition : AssociationDefinition) (model : Model) :
    Except Error Model :=
  model.associate definition.className definition.role definition.cardinality definition.far

namespace ModelDefinition

def checkSuperclasses (model : Model) : Except Error Unit :=
  model.classes.forM fun owner =>
    match owner.superclass with
    | none => .ok ()
    | some superclass =>
      if (model.class? superclass).isSome then .ok ()
      else .error (.unknownSuperclass owner.name superclass)

def start (definition : ModelDefinition) : Except Error Model := do
  let model ← Model.start definition.package definition.sourceFolder
  return { model with
    defaultStyle := definition.style.getD model.defaultStyle
    defaultCollection := definition.collection.getD model.defaultCollection }

def build (definition : ModelDefinition) : Except Error Model := do
  let model ← definition.start
  let model ← definition.classes.foldlM (fun model entry => entry.build model) model
  checkSuperclasses model
  definition.associations.foldlM (fun model association => association.build model) model

end ModelDefinition

end ClassWeaver
