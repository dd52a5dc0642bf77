import ClassWeaver.Proofs.Generation.Values
import ClassWeaver.Proofs.Template.Calls

set_option autoImplicit false

/-!
The calls that generated members make. Main statements: the members of an attribute, the members of
a role and the method that leaves all associations make certain calls, whatever their types, names
and initializers spell.
-/

namespace ClassWeaver

open Template (Call Calls Makes Part Value)

namespace Update

def parts? (update : Update) : Option (List Part) :=
  Template.partsOf [⟨update.values, []⟩] update.template.template

/-- The code that an update prints has parts, and each call in it is of a certain kind. -/
def EachCall (allowed : Call → Prop) (update : Update) : Prop :=
  ∃ parts, update.parts? = some parts ∧ update.text Catalog.standard = .ok (Part.textOf parts) ∧
    ∀ call ∈ Template.callsOf parts, allowed call

variable {allowed : Call → Prop}

theorem EachCall.of_calls {update : Update} {calls : List Call}
    (made : Calls [⟨update.values, []⟩] update.template.template calls)
    (each : ∀ call ∈ calls, allowed call) : update.EachCall allowed := by
  obtain ⟨parts, printed, rfl⟩ := Option.map_eq_some_iff.mp made
  refine ⟨parts, printed, text_of_render ?_, each⟩
  rw [Template.render, Template.renderPieces_eq, printed, Option.map_some]

theorem EachCall.silent {update : Update}
    (made : Calls [⟨update.values, []⟩] update.template.template []) : update.EachCall allowed :=
  .of_calls made nofun

end Update

namespace Generation

def notification (isBean : Bool) : List Call :=
  if isBean then [⟨"this", "firePropertyChange"⟩] else []

/-- The call that keeps the other end of an association in step: a setter, or another method if that
end has many partners. An end without a name cannot be called. -/
def partnerCall (receiver verb title : String) (isNamed isMany : Bool) : List Call :=
  if isNamed then
    if isMany then [⟨receiver, String.ofList (verb.toList ++ title.toList)⟩]
    else [⟨receiver, String.ofList ("set".toList ++ title.toList)⟩]
  else []

private theorem ofList_append_toList (a b : String) :
    String.ofList (a.toList ++ b.toList) = a ++ b := by
  rw [String.ofList_append, String.ofList_toList, String.ofList_toList]

theorem mem_partnerCall {receiver verb title : String} {isNamed isMany : Bool} {call : Call} :
    call ∈ partnerCall receiver verb title isNamed isMany ↔
      isNamed = true ∧ call = ⟨receiver, (if isMany then verb else "set") ++ title⟩ := by
  rw [partnerCall, ofList_append_toList, ofList_append_toList]
  cases isNamed <;> cases isMany <;> simp

theorem mem_notification {isBean : Bool} {call : Call} :
    call ∈ notification isBean ↔ isBean = true ∧ call = ⟨"this", "firePropertyChange"⟩ := by
  cases isBean <;> simp [notification]

section Attributes

variable {className name title type : String} {initializer : Value} {isBean : Bool}

def attributeRecord (className name title type : String) (initializer : Value) (isBean : Bool) :
    Value :=
  .record [
    ("className", .text className), ("name", .text name), ("capName", .text title),
    ("type", .text type), ("init", initializer), ("bean", .truth isBean)]

theorem calls_attributeDecl :
    Calls [⟨attributeRecord className name title type initializer isBean, []⟩]
      Template.Members.attributeDecl [] := by
  refine .silent (.text <| .var rfl <| .text <| .var rfl <| .text .nil) rfl <| .silent .nil rfl ?_
  refine .last (.text <| .var rfl <| .text <| .var rfl <| .when rfl (.text <| .var rfl .nil) <|
    .text .nil) ?_
  cases initializer.isTruthy <;> rfl

theorem calls_getter {scope : Template.Scope}
    (typed : (Template.Path.inScope 0 ["type"]).value? scope = some (some (.text type)))
    (titled : (Template.Path.inScope 0 ["capName"]).value? scope = some (some (.text title)))
    (named : (Template.Path.inScope 0 ["name"]).value? scope = some (some (.text name))) :
    Calls scope Template.Members.attributeGetter [] := by
  refine .silent (.text <| .var typed <| .text <| .var titled <| .text .nil) rfl ?_
  refine .fixed rfl ?_
  refine .silent (.text <| .var named <| .text .nil) rfl ?_
  exact .last (.text .nil) rfl

theorem calls_attributeSetter :
    Calls [⟨attributeRecord className name title type initializer isBean, []⟩]
      Template.Members.attributeSetter
      (⟨"Objects", "equals"⟩ :: (notification isBean ++ [])) := by
  refine .silent (.text <| .var rfl <| .text <| .var rfl <| .text <| .var rfl <| .text .nil) rfl ?_
  refine .fixed rfl ?_
  refine .cons (.line (.text <| .var rfl <| .text .nil) rfl) ?_
  refine .fixed rfl <| .fixed rfl <| .fixed rfl <| .silent .nil rfl ?_
  refine .silent (.text <| .var rfl <| .text <| .var rfl <| .text .nil) rfl ?_
  refine .silent (.text <| .var rfl <| .text .nil) rfl ?_
  refine .cons (.when rfl (.line (.text <| .var rfl <| .text .nil) rfl)) ?_
  refine .fixed rfl ?_
  exact .last (.text .nil) rfl

end Attributes

section Roles

variable {className name title type partner counterpart collection : String}
  {isNamed isMany isBean : Bool}

def roleRecord (className name title partner counterpart collection : String)
    (isNamed isMany isBean : Bool) : Value :=
  .record [
    ("className", .text className), ("name", .text name), ("capName", .text title),
    ("type", .text partner), ("otherClass", .text partner), ("otherNamed", .truth isNamed),
    ("otherCapName", .text counterpart), ("otherMany", .truth isMany),
    ("roleType", .text collection), ("bean", .truth isBean)]

theorem calls_roleOneDecl :
    Calls [⟨roleRecord className name title partner counterpart collection isNamed isMany isBean, []⟩]
      Template.Members.roleOneDecl [] := by
  refine .silent (.text <| .var rfl <| .text <| .var rfl <| .text .nil) rfl <| .silent .nil rfl ?_
  exact .last (.text <| .var rfl <| .text <| .var rfl <| .text .nil) rfl

theorem calls_roleManyDecl :
    Calls [⟨roleRecord className name title partner counterpart collection isNamed isMany isBean, []⟩]
      Template.Members.roleManyDecl [] := by
  refine .silent (.text <| .var rfl <| .text <| .var rfl <| .text .nil) rfl <| .silent .nil rfl ?_
  exact .last (.text <| .var rfl <| .text <| .var rfl <| .text .nil) rfl

theorem calls_roleManyGetter :
    Calls [⟨roleRecord className name title partner counterpart collection isNamed isMany isBean, []⟩]
      Template.Members.roleManyGetter
      ([⟨"Collections", "unmodifiableList"⟩, ⟨"Collections", "emptyList"⟩] ++ []) := by
  refine .silent (.text <| .var rfl <| .text <| .var rfl <| .text .nil) rfl <| .fixed rfl ?_
  refine .cons (.line (.text <| .var rfl <| .text <| .var rfl <| .text .nil) rfl) ?_
  exact .last (.text .nil) rfl

theorem calls_roleOneSetter :
    Calls [⟨roleRecord className name title partner counterpart collection isNamed isMany isBean, []⟩]
      Template.Members.roleOneSetter
      (partnerCall "oldValue" "without" counterpart isNamed isMany
        ++ (partnerCall "value" "with" counterpart isNamed isMany ++ (notification isBean ++ []))) := by
  refine .silent (.text <| .var rfl <| .text <| .var rfl <| .text <| .var rfl <| .text .nil) rfl ?_
  refine .fixed rfl ?_
  refine .silent (.text <| .var rfl <| .text .nil) rfl ?_
  refine .fixed rfl <| .fixed rfl <| .fixed rfl <| .silent .nil rfl ?_
  refine .silent (.text <| .var rfl <| .text <| .var rfl <| .text .nil) rfl ?_
  refine .silent (.text <| .var rfl <| .text .nil) rfl <| .fixed rfl ?_
  refine .silent (.text <| .var rfl <| .text .nil) rfl ?_
  refine .cons (.when rfl (.either rfl
    (.line (.text <| .var rfl <| .text .nil) rfl) (.line (.text <| .var rfl <| .text .nil) rfl))) ?_
  refine .fixed rfl ?_
  refine .silent (.text <| .var rfl <| .text .nil) rfl <| .fixed rfl <| .fixed rfl ?_
  refine .cons (.when rfl (.either rfl
    (.line (.text <| .var rfl <| .text .nil) rfl) (.line (.text <| .var rfl <| .text .nil) rfl))) ?_
  refine .fixed rfl ?_
  refine .cons (.when rfl (.line (.text <| .var rfl <| .text .nil) rfl)) ?_
  refine .fixed rfl ?_
  exact .last (.text .nil) rfl

theorem calls_roleManyWith :
    Calls [⟨roleRecord className name title partner counterpart collection isNamed isMany isBean, []⟩]
      Template.Members.roleManyWith
      (partnerCall "item" "with" counterpart isNamed isMany ++ (notification isBean ++ [])) := by
  refine .silent (.text <| .var rfl <| .text <| .var rfl <| .text <| .var rfl <| .text .nil) rfl ?_
  refine .fixed rfl ?_
  refine .silent (.text <| .var rfl <| .text .nil) rfl <| .fixed rfl ?_
  refine .silent (.text <| .var rfl <| .text <| .var rfl <| .text .nil) rfl <| .fixed rfl ?_
  refine .silent (.text <| .var rfl <| .text .nil) rfl <| .fixed rfl ?_
  refine .silent (.text <| .var rfl <| .text .nil) rfl <| .fixed rfl ?_
  refine .silent (.text <| .var rfl <| .text .nil) rfl ?_
  refine .cons (.when rfl (.either rfl
    (.line (.text <| .var rfl <| .text .nil) rfl) (.line (.text <| .var rfl <| .text .nil) rfl))) ?_
  refine .cons (.when rfl (.line (.text <| .var rfl <| .text .nil) rfl)) ?_
  refine .fixed rfl <| .fixed rfl <| .fixed rfl ?_
  exact .last (.text .nil) rfl

theorem calls_roleManyWithout :
    Calls [⟨roleRecord className name title partner counterpart collection isNamed isMany isBean, []⟩]
      Template.Members.roleManyWithout
      (partnerCall "item" "without" counterpart isNamed isMany ++ (notification isBean ++ [])) := by
  refine .silent (.text <| .var rfl <| .text <| .var rfl <| .text <| .var rfl <| .text .nil) rfl ?_
  refine .fixed rfl ?_
  refine .silent (.text <| .var rfl <| .text .nil) rfl ?_
  refine .fixed rfl <| .fixed rfl <| .fixed rfl ?_
  refine .silent (.text <| .var rfl <| .text .nil) rfl <| .fixed rfl ?_
  refine .silent (.text <| .var rfl <| .text .nil) rfl <| .fixed rfl ?_
  refine .cons (.when rfl (.either rfl
    (.line (.text <| .var rfl <| .text .nil) rfl) (.line (.text <| .var rfl <| .text .nil) rfl))) ?_
  refine .cons (.when rfl (.line (.text <| .var rfl <| .text .nil) rfl)) ?_
  refine .fixed rfl <| .fixed rfl <| .fixed rfl ?_
  exact .last (.text .nil) rfl

end Roles

section Removal

/-- What is known of a role that is left: its name in upper case, whether it has many partners, and
the class of the partners. -/
structure Leaving where
  title : String
  isMany : Bool
  partner : String

def Leaving.value (leaving : Leaving) : Value :=
  .record [
    ("capName", .text leaving.title), ("many", .truth leaving.isMany),
    ("otherClass", .text leaving.partner)]

def Leaving.calls (leaving : Leaving) : List Call :=
  if leaving.isMany then
    [⟨"this", String.ofList ("without".toList ++ leaving.title.toList)⟩,
      ⟨"this", String.ofList ("get".toList ++ leaving.title.toList)⟩]
  else [⟨"this", String.ofList ("set".toList ++ leaving.title.toList)⟩]

theorem calls_removeYou (roles : List Leaving) :
    Calls [⟨.record [("roles", .list (roles.map Leaving.value))], []⟩] Template.Members.removeYou
      (roles.flatMap Leaving.calls ++ []) := by
  refine .fixed rfl <| .fixed rfl <| .cons (.forEach rfl fun leaving _ vars => ?_)
    (.last (.text .nil) rfl)
  exact .either rfl (.line (.text <| .var rfl <| .text <| .var rfl <| .text <| .var rfl <|
    .text .nil) rfl) (.line (.text <| .var rfl <| .text .nil) rfl)

theorem calls_toText {α : Type} (entries : List α) (title : α → String) :
    Calls [⟨.record [("names", .list (entries.map fun entry => .text (title entry)))], []⟩]
      Template.Members.toText
      (entries.flatMap (fun entry =>
          [⟨"result", "append"⟩, ⟨"this", String.ofList ("get".toList ++ (title entry).toList)⟩])
        ++ ([⟨"result", "substring"⟩] ++ [])) := by
  refine .fixed rfl <| .fixed rfl <| .fixed rfl <| .fixed rfl <|
    .cons (.forEach rfl fun name _ vars => ?_) ?_
  · exact .line (.text <| .item rfl <| .text .nil) rfl
  · exact .cons (.line (.text .nil) rfl) (.last (.text .nil) rfl)

end Removal

section Fixed

theorem calls_package (name : String) :
    Calls [⟨.record [("packageName", .text name)], []⟩] Template.Members.package [] :=
  Template.Prints.calls (.text <| .var rfl <| .text .nil) rfl

theorem calls_importLine (name : String) :
    Calls [⟨.record [("qualifiedName", .text name)], []⟩] Template.Members.importLine [] :=
  Template.Prints.calls (.text <| .var rfl <| .text .nil) rfl

theorem calls_classDecl (name : String) (superclass : Value) :
    Calls [⟨.record [("name", .text name), ("superClass", superclass)], []⟩]
      Template.Members.classDecl [] := by
  refine .silent (.text <| .var rfl <| .when rfl (.text <| .var rfl .nil) .nil) ?_
    (.last (.text .nil) rfl)
  cases superclass.isTruthy <;> rfl

theorem calls_classEnd {scope : Template.Scope} : Calls scope Template.Members.classEnd [] :=
  Template.Prints.calls (.text .nil) rfl

theorem calls_listenersDecl {scope : Template.Scope} :
    Calls scope Template.Members.listenersDecl [] :=
  Template.Prints.calls (.text .nil) rfl

theorem calls_firePropertyChange {scope : Template.Scope} :
    Calls scope Template.Members.firePropertyChange [] := by
  refine .silent (.text <| .text .nil) rfl <| .fixed rfl <| .fixed rfl <| .fixed rfl <| .fixed rfl ?_
  exact .fixed rfl <| .fixed rfl <| .fixed rfl <| .last (.text .nil) rfl

theorem calls_listenersGetter {scope : Template.Scope} :
    Calls scope Template.Members.listenersGetter [] := by
  refine .fixed rfl <| .fixed rfl <| .fixed rfl <| .fixed rfl <| .fixed rfl <| .fixed rfl ?_
  exact .fixed rfl <| .last (.text .nil) rfl

theorem calls_method (declaration body : String) :
    Calls [⟨.record [("declaration", .text declaration), ("body", .text body)], []⟩]
      Template.Members.method [] := by
  refine .silent (.text <| .var rfl .nil) rfl <| .fixed rfl <| .silent (.text <| .var rfl .nil) rfl ?_
  exact .last (.text .nil) rfl

end Fixed

end Generation

namespace ClassFile

open Generation (notification partnerCall Leaving ofList_append_toList)

variable {allowed : Call → Prop} {model : Model} {owner : ModelClass}

theorem eachCall_methodUpdate (method : Method) : (methodUpdate owner method).EachCall allowed :=
  .silent (Generation.calls_method _ _)

theorem eachCall_listenerUpdates : ∀ update ∈ listenerUpdates owner, update.EachCall allowed := by
  rw [listenerUpdates]
  rw [List.forall_mem_cons, List.forall_mem_cons, List.forall_mem_singleton]
  exact ⟨.silent Generation.calls_listenersDecl, .silent Generation.calls_firePropertyChange,
    .silent Generation.calls_listenersGetter⟩

theorem eachCall_attributeUpdates {property : Attribute}
    (library : ∀ method, allowed ⟨"Objects", method⟩)
    (told : ∀ call ∈ notification (property.style == beanStyle), allowed call) :
    ∀ update ∈ attributeUpdates owner property, update.EachCall allowed := by
  rw [attributeUpdates]
  rw [List.forall_mem_cons, List.forall_mem_cons, List.forall_mem_singleton]
  refine ⟨.silent Generation.calls_attributeDecl, .silent (Generation.calls_getter rfl rfl rfl),
    .of_calls Generation.calls_attributeSetter ?_⟩
  rw [List.append_nil, List.forall_mem_cons]
  exact ⟨library _, told⟩

theorem eachCall_linkedRoleUpdates {name : String} {role : Role} {place : RoleRef}
    (library : ∀ method, allowed ⟨"Collections", method⟩)
    (told : ∀ call ∈ notification (role.style == beanStyle), allowed call)
    (linked : ∀ receiver ∈ ["value", "oldValue", "item"], ∀ verb ∈ ["with", "without"],
      ∀ call ∈ partnerCall receiver verb
          (Text.capitalize (((model.role? place).bind (·.name)).getD ""))
          ((model.role? place).bind (·.name)).isSome ((model.role? place).any (·.isMany)),
        allowed call) :
    ∀ update ∈ linkedRoleUpdates model owner name role place, update.EachCall allowed := by
  rw [linkedRoleUpdates]
  split
  · rw [List.forall_mem_cons, List.forall_mem_cons, List.forall_mem_cons, List.forall_mem_singleton]
    refine ⟨.silent Generation.calls_roleManyDecl, .of_calls Generation.calls_roleManyGetter ?_,
      .of_calls Generation.calls_roleManyWith ?_, .of_calls Generation.calls_roleManyWithout ?_⟩
    · rw [List.append_nil, List.forall_mem_cons, List.forall_mem_singleton]
      exact ⟨library _, library _⟩
    · rw [List.append_nil, List.forall_mem_append]
      exact ⟨linked "item" (by decide) "with" (by decide), told⟩
    · rw [List.append_nil, List.forall_mem_append]
      exact ⟨linked "item" (by decide) "without" (by decide), told⟩
  · rw [List.forall_mem_cons, List.forall_mem_cons, List.forall_mem_singleton]
    refine ⟨.silent Generation.calls_roleOneDecl, .silent (Generation.calls_getter rfl rfl rfl),
      .of_calls Generation.calls_roleOneSetter ?_⟩
    rw [List.append_nil, List.forall_mem_append, List.forall_mem_append]
    exact ⟨linked "oldValue" (by decide) "without" (by decide),
      linked "value" (by decide) "with" (by decide), told⟩

theorem eachCall_textUpdate (library : ∀ method, allowed ⟨"result", method⟩)
    (got : ∀ property ∈ owner.attributes,
      allowed ⟨"this", "get" ++ Text.capitalize property.name⟩) :
    (textUpdate owner).EachCall allowed := by
  have made := Generation.calls_toText (owner.attributes.filter (·.type == "String"))
    fun property => Text.capitalize property.name
  refine Update.EachCall.of_calls made ?_
  rw [List.forall_mem_append, List.append_nil, List.forall_mem_singleton]
  refine ⟨fun call found => ?_, library _⟩
  obtain ⟨property, inside, found⟩ := List.mem_flatMap.mp found
  have kept := got property (List.mem_filter.mp inside).1
  rw [List.mem_cons, List.mem_singleton] at found
  rcases found with rfl | rfl
  · exact library _
  · rwa [ofList_append_toList]

private theorem removalValue_eq (name : String) (role : Role) :
    removalValue name role = (role.other.map fun place =>
      Leaving.mk (Text.capitalize name) role.isMany place.className).map Leaving.value := by
  rw [removalValue, Option.map_map]
  rfl

theorem eachCall_removeYouUpdate
    (left : ∀ entry ∈ owner.namedRoles, entry.2.other.isSome = true →
      if entry.2.isMany then allowed ⟨"this", "without" ++ Text.capitalize entry.1⟩ ∧
        allowed ⟨"this", "get" ++ Text.capitalize entry.1⟩
      else allowed ⟨"this", "set" ++ Text.capitalize entry.1⟩) :
    (removeYouUpdate owner).EachCall allowed := by
  have values (entry : String × Role) : removalValue entry.1 entry.2 =
      (entry.2.other.map fun place => Leaving.mk (Text.capitalize entry.1) entry.2.isMany
        place.className).map Leaving.value :=
    removalValue_eq entry.1 entry.2
  have roles : (removeYouUpdate owner).values = .record [("roles", .list
      ((owner.namedRoles.filterMap fun entry => entry.2.other.map fun place =>
        Leaving.mk (Text.capitalize entry.1) entry.2.isMany place.className).map
          Leaving.value))] := by
    rw [List.map_filterMap]
    simp only [← values]
    rfl
  have made := Generation.calls_removeYou (owner.namedRoles.filterMap fun entry =>
    entry.2.other.map fun place =>
      Leaving.mk (Text.capitalize entry.1) entry.2.isMany place.className)
  rw [← roles] at made
  refine .of_calls made ?_
  rw [List.append_nil]
  intro call found
  obtain ⟨leaving, inside, found⟩ := List.mem_flatMap.mp found
  obtain ⟨entry, listed, known⟩ := List.mem_filterMap.mp inside
  obtain ⟨place, linked, rfl⟩ := Option.map_eq_some_iff.mp known
  have reached := left entry listed (by rw [linked]; rfl)
  rw [Leaving.calls] at found
  split at reached
  · next many =>
    rw [if_pos many, List.mem_cons, List.mem_singleton] at found
    rcases found with rfl | rfl
    · rw [ofList_append_toList]
      exact reached.1
    · rw [ofList_append_toList]
      exact reached.2
  · next one =>
    rw [if_neg one, List.mem_singleton] at found
    rw [found, ofList_append_toList]
    exact reached

end ClassFile

theorem FileKind.eachCall_frameUpdates {model : Model} {owner : ModelClass}
    {allowed : Call → Prop} : ∀ update ∈ classFile.frameUpdates model owner,
      update.EachCall allowed := by
  rw [frameUpdates, List.forall_mem_append]
  constructor
  · rw [Update.frame]
    rw [List.forall_mem_cons, List.forall_mem_cons, List.forall_mem_singleton]
    exact ⟨.silent (Generation.calls_package _), .silent (Generation.calls_classDecl _ _),
      .silent Generation.calls_classEnd⟩
  · intro update found
    obtain ⟨name, -, rfl⟩ := List.mem_map.mp found
    exact .silent (Generation.calls_importLine name)

end ClassWeaver
