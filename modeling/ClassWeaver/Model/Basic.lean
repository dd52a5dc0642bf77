import ClassWeaver.Signature

set_option autoImplicit false

/-!
Models of classes: classes with attributes, methods and the ends of associations. The two ends of an
association refer to each other by class name and position, and a reference is resolved through the
model. Main statements: a class keeps one named role a name, and a class that is found has the name.
-/

namespace ClassWeaver

inductive Cardinality where
  | one
  | many
  deriving DecidableEq, Repr

/-- The place of a role: its class and its position among the roles of the class. -/
structure RoleRef where
  className : String
  index : Nat
  deriving DecidableEq, Repr

def pojoStyle : String :=
  "POJO"

def beanStyle : String :=
  "Bean"

/-- The collection that holds the partners of a role with many of them, unless said otherwise. -/
def standardCollection : String :=
  "ArrayList"

/-- An attribute of a class. A set flag says that its generated code is out of date. -/
structure Attribute where
  name : String
  type : String
  initializer : Option String
  style : String
  modified : Bool
  deriving DecidableEq, Repr

/-- One end of an association. Ends without a name are not generated. -/
structure Role where
  name : Option String
  cardinality : Cardinality
  collection : String
  style : String
  other : Option RoleRef
  modified : Bool
  deriving DecidableEq, Repr

/-- A method that was written by hand, with its body as it stands. -/
structure Method where
  declaration : String
  body : String
  modified : Bool
  deriving DecidableEq, Repr

structure ModelClass where
  name : String
  superclass : Option String
  attributes : List Attribute
  roles : List Role
  methods : List Method
  modified : Bool
  deriving DecidableEq, Repr

/-- The classes of a package, where their sources live, and what new elements get by default. -/
structure Model where
  package : String
  sourceFolder : String
  defaultCollection : String
  defaultStyle : String
  classes : List ModelClass
  deriving DecidableEq, Repr

def modifyFirst {α : Type} (p : α → Bool) (change : α → α) : List α → List α
  | [] => []
  | a :: rest => if p a then change a :: rest else a :: modifyFirst p change rest

def Role.isMany (role : Role) : Bool :=
  role.cardinality == .many

namespace Method

/-- What identifies a method. A declaration without a parameter list is a name as a whole. -/
def signature (method : Method) : Signature :=
  (Signature.ofDeclaration? method.declaration).getD ⟨Text.trimmed method.declaration, []⟩

def sameSignature (a b : Method) : Bool :=
  a.signature == b.signature

end Method

namespace ModelClass

def ofName (name : String) : ModelClass :=
  ⟨name, none, [], [], [], false⟩

def attribute? (owner : ModelClass) (name : String) : Option Attribute :=
  owner.attributes.find? (·.name == name)

/-- The first role of a name, or the first one without a name. -/
def role? (owner : ModelClass) (name : Option String) : Option Role :=
  owner.roles.find? (·.name == name)

/-- The roles with a name, and of several with one name the first. -/
def firstNamed : List Role → List (String × Role)
  | [] => []
  | role :: rest =>
    match role.name with
    | none => firstNamed rest
    | some name => (name, role) :: (firstNamed rest).filter (·.1 != name)

def namedRoles (owner : ModelClass) : List (String × Role) :=
  firstNamed owner.roles

/-- Says whether a class has no attributes, no named roles and no methods. -/
def isEmpty (owner : ModelClass) : Bool :=
  owner.attributes.isEmpty && owner.namedRoles.isEmpty && owner.methods.isEmpty

def markAll (owner : ModelClass) : ModelClass :=
  { owner with
    attributes := owner.attributes.map ({ · with modified := true })
    roles := owner.roles.map ({ · with modified := true })
    methods := owner.methods.map ({ · with modified := true })
    modified := true }

private theorem mem_role_of_firstNamed {name : String} {role : Role} {roles : List Role}
    (found : (name, role) ∈ firstNamed roles) : role ∈ roles ∧ role.name = some name := by
  induction roles with
  | nil => simp [firstNamed] at found
  | cons first rest ih =>
    unfold firstNamed at found
    split at found
    · exact ⟨List.mem_cons_of_mem _ (ih found).1, (ih found).2⟩
    · next label named =>
      rcases List.mem_cons.1 found with same | later
      · obtain ⟨rfl, rfl⟩ := Prod.mk.inj same
        exact ⟨List.mem_cons_self, named⟩
      · have inner := ih (List.mem_filter.1 later).1
        exact ⟨List.mem_cons_of_mem _ inner.1, inner.2⟩

theorem mem_roles_of_mem_namedRoles {owner : ModelClass} {name : String} {role : Role}
    (found : (name, role) ∈ owner.namedRoles) : role ∈ owner.roles ∧ role.name = some name :=
  mem_role_of_firstNamed found

theorem nodup_namedRoles (owner : ModelClass) : (owner.namedRoles.map (·.1)).Nodup := by
  unfold namedRoles
  induction owner.roles with
  | nil => simp [firstNamed]
  | cons first rest ih =>
    unfold firstNamed
    split
    · exact ih
    · rw [List.map_cons, List.nodup_cons]
      refine ⟨by simp, ?_⟩
      exact (List.Sublist.map _ List.filter_sublist).nodup ih

end ModelClass

namespace Model

def ofPackage (package sourceFolder : String) : Model :=
  ⟨package, sourceFolder, standardCollection, pojoStyle, []⟩

def packageFolder (model : Model) : String :=
  model.sourceFolder ++ "/" ++ model.package.map fun c => if c == '.' then '/' else c

def class? (model : Model) (name : String) : Option ModelClass :=
  model.classes.find? (·.name == name)

theorem name_of_class? {model : Model} {name : String} {found : ModelClass}
    (known : model.class? name = some found) : found ∈ model.classes ∧ found.name = name :=
  ⟨List.mem_of_find?_eq_some known, by simpa using List.find?_some known⟩

def modifyClass (model : Model) (name : String) (change : ModelClass → ModelClass) : Model :=
  { model with classes := modifyFirst (·.name == name) change model.classes }

/-- Adds a class unless there is one of its name; says whether it was added. -/
def addClass (model : Model) (added : ModelClass) : Bool × Model :=
  if (model.class? added.name).isSome then (false, model)
  else (true, { model with classes := model.classes ++ [added] })

/-- A role loses its partner if the partner belongs to a class that goes. -/
def unlink (name : String) (role : Role) : Role :=
  if role.other.any (·.className == name) then { role with other := none } else role

/-- Removes the class of a name and unlinks the roles whose partners were in it. -/
def removeClass (model : Model) (name : String) : Option ModelClass × Model :=
  match model.class? name with
  | none => (none, model)
  | some removed =>
    let kept := (model.classes.eraseP (·.name == name)).map fun owner =>
      { owner with roles := owner.roles.map (unlink name) }
    (some removed, { model with classes := kept })

/-- The role at a place. -/
def role? (model : Model) (place : RoleRef) : Option Role :=
  (model.class? place.className).bind fun owner => owner.roles[place.index]?

def modifyRole (model : Model) (place : RoleRef) (change : Role → Role) : Model :=
  model.modifyClass place.className fun owner =>
    { owner with roles := owner.roles.modify place.index change }

def otherRole? (model : Model) (role : Role) : Option Role :=
  role.other.bind model.role?

def superclassOf? (model : Model) (owner : ModelClass) : Option ModelClass :=
  owner.superclass.bind model.class?

end Model

end ClassWeaver
