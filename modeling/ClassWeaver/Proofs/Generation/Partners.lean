import ClassWeaver.Proofs.Generation.Completeness
import ClassWeaver.Proofs.Generation.MemberCalls
import ClassWeaver.Proofs.Model.Unchanged

set_option autoImplicit false

/-!
Which methods the calls in generated code find. Main statement: in a model that was built, the code of
a role calls on its partners only what the class of the partners has for the class of the role, and
what generated code calls on its own object the class of the object has.
-/

namespace ClassWeaver

open Fragment (Key Store)
open Template (Call)

namespace Model

variable {model : Model} {owner : ModelClass}

/-- Says that generating the file of a class leaves in it, whatever it was before, a method of a name
with parameters of certain types. -/
def Offers (model : Model) (owner : ModelClass) (name : String) (types : List String) : Prop :=
  ∀ start, ∃ store, FileKind.classFile.generate Catalog.standard model owner start = (store, .ok ()) ∧
    (store.get? (ClassFile.methodWith name types)).isSome = true

end Model

def Fragment.Key.initial? : Key → Option Char
  | .methodOf signature => signature.toList.head?
  | _ => none

theorem ClassFile.initial?_methodWith (c : Char) (chars : List Char) (rest : String)
    (types : List String) :
    (methodWith (String.ofList (c :: chars) ++ rest) types).initial? = some c := by
  simp [methodWith, Key.ofMethod, Key.initial?, Signature.ofTypes, Signature.text]

theorem ModelClass.IsUnflagged.isFlagged {owner : ModelClass} (unflagged : owner.IsUnflagged)
    {element : Element} (inside : element ∈ owner.elements) : element.isFlagged = false := by
  cases element with
  | ofAttribute property =>
    exact unflagged.attributes property (ModelClass.mem_elements_ofAttribute.mp inside)
  | ofRole name role =>
    have named := ModelClass.mem_elements_ofRole.mp inside
    exact unflagged.roles role (ModelClass.mem_roles_of_mem_namedRoles named).1
  | ofMethod method =>
    exact unflagged.methods method (ModelClass.mem_elements_ofMethod.mp inside)

namespace FileKind

variable {model : Model} {owner : ModelClass} {update : Update}

theorem initial?_of_remove (unflagged : owner.IsUnflagged)
    (found : update ∈ classFile.updates model owner) (removed : update.remove = true) :
    update.key.initial? ∈ [none, some 'l', some 'r', some 't'] ∨
      (ClassFile.usesListeners owner = false ∧ update.key.initial? = some 'f') := by
  rcases mem_updates.mp found with framed | ⟨element, inside, its⟩ | own
  · have outside := isMember_of_mem_frameUpdates framed
    have none : update.key.initial? = none := by
      cases key : update.key <;> first | rfl | (rw [key] at outside; cases outside)
    exact .inl (none ▸ List.mem_cons_self)
  · rw [Element.remove_of_mem_updates its, unflagged.isFlagged inside] at removed
    cases removed
  · simp only [ownUpdates, ClassFile.listenerUpdates, unflagged.self, Bool.false_or,
      List.mem_append, List.mem_cons, List.not_mem_nil, or_false] at own
    rcases own with (rfl | rfl | rfl) | rfl | rfl
    · exact .inl List.mem_cons_self
    · have quiet : ClassFile.usesListeners owner = false := by
        simpa [Update.ofMember] using removed
      have fire : (ClassFile.methodWith "firePropertyChange" ["String", "Object", "Object"]).initial? =
          some 'f' := by
        decide
      exact .inr ⟨quiet, fire⟩
    · have listeners : (ClassFile.plainMethod "listeners").initial? ∈
          [none, some 'l', some 'r', some 't'] := by
        decide
      exact .inl listeners
    · have text : (ClassFile.plainMethod "toString").initial? ∈
          [none, some 'l', some 'r', some 't'] := by
        decide
      exact .inl text
    · have removal : (ClassFile.plainMethod "removeYou").initial? ∈
          [none, some 'l', some 'r', some 't'] := by
        decide
      exact .inl removal

end FileKind

namespace Model

variable {model : Model} {owner : ModelClass} {update : Update}

theorem offers_of_mem_updates {name : String} {types : List String}
    (found : update ∈ FileKind.classFile.updates model owner)
    (addressed : update.key = ClassFile.methodWith name types)
    (stay : ∀ other ∈ FileKind.classFile.updates model owner,
      other.key = ClassFile.methodWith name types → other.remove = false) :
    model.Offers owner name types := by
  intro start
  refine ⟨_, FileKind.generate_standard .classFile model owner start, ?_⟩
  refine Store.isSome_get?_upsertAll rfl start ⟨_, List.mem_map_of_mem found, addressed⟩ ?_
  intro call inside same
  obtain ⟨other, its, rfl⟩ := List.mem_map.mp inside
  exact stay other its same

theorem offers_accessor (unflagged : owner.IsUnflagged) {element : Element}
    (inside : element ∈ owner.elements) (found : update ∈ element.updates .classFile model owner)
    {verb : String} (known : verb ∈ ["get", "set", "with", "without"]) {title : String}
    {types : List String} (addressed : update.key = ClassFile.methodWith (verb ++ title) types) :
    model.Offers owner (verb ++ title) types := by
  refine offers_of_mem_updates (FileKind.mem_updates.mpr (.inr (.inl ⟨element, inside, found⟩)))
    addressed fun other its same => ?_
  have first : other.key.initial? ∈ [some 'g', some 's', some 'w'] := by
    rw [same]
    simp only [List.mem_cons, List.not_mem_nil, or_false] at known
    rcases known with rfl | rfl | rfl | rfl
    all_goals exact (ClassFile.initial?_methodWith _ _ title types).symm ▸ by decide
  by_contra removed
  rcases FileKind.initial?_of_remove unflagged its (by simpa using removed) with fixed | ⟨-, fire⟩
  · simp only [List.mem_cons, List.not_mem_nil, or_false] at first fixed
    rcases first with c | c | c <;> simp [c] at fixed
  · simp [fire] at first

theorem offers_firePropertyChange (unflagged : owner.IsUnflagged)
    (listened : ClassFile.usesListeners owner = true) :
    model.Offers owner "firePropertyChange" ["String", "Object", "Object"] := by
  have found : .ofMember (ClassFile.methodWith "firePropertyChange" ["String", "Object", "Object"])
      .firePropertyChange (.record []) (owner.modified || ! ClassFile.usesListeners owner) ∈
        FileKind.classFile.updates model owner :=
    FileKind.mem_updates.mpr <| .inr <| .inr <| List.mem_append_left _ <|
      List.mem_cons_of_mem _ List.mem_cons_self
  refine offers_of_mem_updates found rfl fun other its same => ?_
  by_contra removed
  have first : other.key.initial? = some 'f' := by
    rw [same]
    decide
  rcases FileKind.initial?_of_remove unflagged its (by simpa using removed) with fixed | ⟨quiet, -⟩
  · simp [first] at fixed
  · rw [listened] at quiet
    cases quiet

/-- The types of the parameters through which a role takes partners of a class. -/
def partnerTypes (role : Role) (className : String) : List String :=
  [if role.isMany then className ++ "..." else className]

theorem offers_roleAccessor (unflagged : owner.IsUnflagged) {name : String} {role : Role}
    (listed : (name, role) ∈ owner.namedRoles) {place : RoleRef} (linked : role.other = some place)
    {verb : String} (known : verb ∈ if role.isMany then ["with", "without"] else ["set"]) :
    model.Offers owner (verb ++ Text.capitalize name) (partnerTypes role place.className) := by
  have inside := ModelClass.mem_elements_ofRole.mpr listed
  have whole : (Element.ofRole name role).updates .classFile model owner =
      ClassFile.linkedRoleUpdates model owner name role place := by
    rw [Element.updates, ClassFile.roleUpdates, linked]
  rw [ClassFile.linkedRoleUpdates] at whole
  rw [partnerTypes]
  cases many : role.isMany with
  | true =>
    rw [many, if_pos rfl] at whole known
    rw [if_pos rfl]
    rcases List.mem_cons.mp known with rfl | known
    · exact offers_accessor unflagged inside
        (whole ▸ List.mem_cons_of_mem _ (List.mem_cons_of_mem _ List.mem_cons_self)) (by decide) rfl
    · obtain rfl := List.mem_singleton.mp known
      exact offers_accessor unflagged inside (whole ▸ List.mem_cons_of_mem _
        (List.mem_cons_of_mem _ (List.mem_cons_of_mem _ List.mem_cons_self))) (by decide) rfl
  | false =>
    rw [many, if_neg Bool.false_ne_true] at whole known
    rw [if_neg Bool.false_ne_true]
    obtain rfl := List.mem_singleton.mp known
    exact offers_accessor unflagged inside
      (whole ▸ List.mem_cons_of_mem _ (List.mem_cons_of_mem _ List.mem_cons_self)) (by decide) rfl

theorem offers_roleGetter (unflagged : owner.IsUnflagged) {name : String} {role : Role}
    (listed : (name, role) ∈ owner.namedRoles) {place : RoleRef} (linked : role.other = some place) :
    model.Offers owner ("get" ++ Text.capitalize name) [] := by
  have inside := ModelClass.mem_elements_ofRole.mpr listed
  have whole : (Element.ofRole name role).updates .classFile model owner =
      ClassFile.linkedRoleUpdates model owner name role place := by
    rw [Element.updates, ClassFile.roleUpdates, linked]
  rw [ClassFile.linkedRoleUpdates] at whole
  cases many : role.isMany with
  | true =>
    rw [many, if_pos rfl] at whole
    exact offers_accessor unflagged inside (whole ▸ List.mem_cons_of_mem _ List.mem_cons_self)
      (by decide) rfl
  | false =>
    rw [many, if_neg Bool.false_ne_true] at whole
    exact offers_accessor unflagged inside (whole ▸ List.mem_cons_of_mem _ List.mem_cons_self)
      (by decide) rfl

theorem IsConsistent.offers_counterpart (consistent : model.IsConsistent)
    (agreeing : model.HasAgreeingNames) {place : RoleRef} {counterpart : Role}
    (there : model.role? place = some counterpart)
    {back : RoleRef} (linked : counterpart.other = some back) {name : String}
    (named : counterpart.name = some name) :
    ∃ partner, model.class? place.className = some partner ∧
      ∀ verb ∈ if counterpart.isMany then ["with", "without"] else ["set"],
        model.Offers partner (verb ++ Text.capitalize name)
          (partnerTypes counterpart back.className) := by
  obtain ⟨partner, known, at_index⟩ := Option.bind_eq_some_iff.mp there
  refine ⟨partner, known, fun verb inVerbs => ?_⟩
  have inClasses := (name_of_class? known).1
  have inRoles := List.mem_of_getElem? at_index
  -- the file has the members of the first role with the name, which agrees with the counterpart
  have hit : (partner.role? (some name)).isSome = true := by
    rw [ModelClass.role?, List.find?_isSome]
    exact ⟨counterpart, inRoles, by simp [named]⟩
  obtain ⟨first, chosen⟩ := Option.isSome_iff_exists.mp hit
  have listed := ModelClass.mem_namedRoles_of_role? chosen
  obtain ⟨inside, called⟩ := ModelClass.mem_roles_of_mem_namedRoles listed
  have same : first.name = counterpart.name := called.trans named.symm
  have isNamed : first.name.isSome = true := by rw [called]; rfl
  have partners := (consistent.alike_of_name inClasses inside inRoles isNamed same).2
  have cardinality := agreeing partner inClasses first inside counterpart inRoles isNamed same
  have many : first.isMany = counterpart.isMany := by rw [Role.isMany, Role.isMany, cardinality]
  rw [Marking.partnerClass, Marking.partnerClass, linked, Option.map_some] at partners
  obtain ⟨target, linked', home⟩ := Option.map_eq_some_iff.mp partners
  have offered := @offers_roleAccessor model partner (consistent.unflagged partner inClasses) name first
    listed target linked' verb (many ▸ inVerbs)
  rwa [partnerTypes, many, home] at offered

theorem IsConsistent.eachCall_linkedRoleUpdates (consistent : model.IsConsistent)
    (agreeing : model.HasAgreeingNames) (found : owner ∈ model.classes) {name : String} {role : Role}
    (listed : (name, role) ∈ owner.namedRoles) {place : RoleRef} (linked : role.other = some place) :
    ∃ partner counterpart, model.class? place.className = some partner ∧
      model.role? place = some counterpart ∧
      ∀ update ∈ ClassFile.linkedRoleUpdates model owner name role place, update.EachCall fun call =>
        call.receiver ∈ ["value", "oldValue", "item"] →
          ∃ other, counterpart.name = some other ∧
            ∃ verb ∈ if counterpart.isMany then ["with", "without"] else ["set"],
              call.method = verb ++ Text.capitalize other ∧
              model.Offers partner call.method (partnerTypes counterpart owner.name) := by
  obtain ⟨inRoles, -⟩ := ModelClass.mem_roles_of_mem_namedRoles listed
  obtain ⟨index, at_index⟩ := List.mem_iff_getElem?.mp inRoles
  obtain ⟨place', counterpart, linked', there, back, -⟩ :=
    consistent.exists_counterpart found at_index
  obtain rfl : place' = place := Option.some.inj (linked'.symm.trans linked)
  obtain ⟨partner, known, -⟩ := Option.bind_eq_some_iff.mp there
  refine ⟨partner, counterpart, known, there, ?_⟩
  refine ClassFile.eachCall_linkedRoleUpdates (fun method => ?_) ?_ ?_
  · intro onPartner
    simp at onPartner
  · intro call told onPartner
    rw [(Generation.mem_notification.mp told).2] at onPartner
    simp at onPartner
  · intro receiver _ verb inVerbs call called _
    rw [there, Option.bind_some, Option.any_some] at called
    obtain ⟨isNamed, rfl⟩ := Generation.mem_partnerCall.mp called
    obtain ⟨other, named⟩ := Option.isSome_iff_exists.mp isNamed
    rw [named, Option.getD_some]
    obtain ⟨same, known', offered⟩ := consistent.offers_counterpart agreeing there back named
    obtain rfl : same = partner := Option.some.inj (known'.symm.trans known)
    have chosen : (if counterpart.isMany then verb else "set") ∈
        if counterpart.isMany then ["with", "without"] else ["set"] := by
      split
      · exact inVerbs
      · exact List.mem_singleton_self _
    exact ⟨other, rfl, _, chosen, rfl, offered _ chosen⟩

theorem eachCall_this (unflagged : owner.IsUnflagged) :
    ∀ update ∈ FileKind.classFile.updates model owner, update.EachCall fun call =>
      call.receiver = "this" → ∃ types, model.Offers owner call.method types := by
  have told {style : String} (listened : style = beanStyle → ClassFile.usesListeners owner = true) :
      ∀ call ∈ Generation.notification (style == beanStyle), call.receiver = "this" →
        ∃ types, model.Offers owner call.method types := by
    intro call found _
    obtain ⟨isBean, rfl⟩ := Generation.mem_notification.mp found
    exact ⟨_, offers_firePropertyChange unflagged (listened (by simpa using isBean))⟩
  intro update found
  rcases FileKind.mem_updates.mp found with framed | ⟨element, inside, its⟩ | own
  · exact FileKind.eachCall_frameUpdates update framed
  · cases element with
    | ofAttribute property =>
      refine ClassFile.eachCall_attributeUpdates (fun _ other => ?_) (told fun isBean => ?_) update its
      · simp at other
      · have there := ModelClass.mem_elements_ofAttribute.mp inside
        rw [ClassFile.usesListeners, Bool.or_eq_true, List.any_eq_true]
        exact .inl ⟨property, there, by simpa using isBean⟩
    | ofRole name role =>
      rw [Element.updates, ClassFile.roleUpdates] at its
      split at its
      · cases its
      · refine ClassFile.eachCall_linkedRoleUpdates (fun _ other => ?_) (told fun isBean => ?_) ?_
          update its
        · simp at other
        · have there := ModelClass.mem_elements_ofRole.mp inside
          rw [ClassFile.usesListeners, Bool.or_eq_true, List.any_eq_true, List.any_eq_true]
          exact .inr ⟨(name, role), there, by simpa using isBean⟩
        · intro receiver inReceivers verb _ call called onThis
          rw [(Generation.mem_partnerCall.mp called).2] at onThis
          simp only at onThis
          rw [onThis] at inReceivers
          simp at inReceivers
    | ofMethod method =>
      rw [List.mem_singleton.mp its]
      exact ClassFile.eachCall_methodUpdate method
  · rcases List.mem_append.mp own with listener | own
    · exact ClassFile.eachCall_listenerUpdates update listener
    · rw [List.mem_cons, List.mem_singleton] at own
      rcases own with rfl | rfl
      · refine ClassFile.eachCall_textUpdate (fun _ other => ?_) fun property there _ => ?_
        · simp at other
        · exact ⟨[], offers_accessor unflagged (ModelClass.mem_elements_ofAttribute.mpr there)
            (List.mem_cons_of_mem _ List.mem_cons_self) (by decide) rfl⟩
      · refine ClassFile.eachCall_removeYouUpdate fun entry listed isLinked => ?_
        obtain ⟨place, linked⟩ := Option.isSome_iff_exists.mp isLinked
        have accessors {verb : String}
            (known : verb ∈ if entry.2.isMany then ["with", "without"] else ["set"]) :=
          @offers_roleAccessor model owner unflagged _ _ listed place linked verb known
        split
        · next many =>
          refine ⟨fun _ => ⟨_, accessors (by rw [many]; decide)⟩,
            fun _ => ⟨_, offers_roleGetter unflagged listed linked⟩⟩
        · next one =>
          rw [if_neg one] at accessors
          exact fun _ => ⟨_, accessors List.mem_cons_self⟩

end Model

/-- The two sides of every association of a model that was built fit together, unless the two ends of
an association of a class with itself share a name and differ in how many partners they have. Each
call in the code of a role on an object at the other end is the setter of the counterpart, or adds to
it or removes from it if the counterpart has many partners, and the class at the other end always has
that method for objects of the class of the role. Each call in the code of a class on its own object
finds a method there. -/
theorem ModelDefinition.calls_are_offered {definition : ModelDefinition} {model : Model}
    (built : definition.build = .ok model) (agreeing : model.HasAgreeingNames) {owner : ModelClass}
    (found : owner ∈ model.classes) :
    (∀ name role place, (name, role) ∈ owner.namedRoles → role.other = some place →
      ∃ partner counterpart, model.class? place.className = some partner ∧
        model.role? place = some counterpart ∧
        ∀ update ∈ ClassFile.linkedRoleUpdates model owner name role place,
          update.EachCall fun call => call.receiver ∈ ["value", "oldValue", "item"] →
            ∃ other, counterpart.name = some other ∧
              ∃ verb ∈ if counterpart.isMany then ["with", "without"] else ["set"],
                call.method = verb ++ Text.capitalize other ∧
                model.Offers partner call.method (Model.partnerTypes counterpart owner.name)) ∧
      ∀ update ∈ FileKind.classFile.updates model owner, update.EachCall fun call =>
        call.receiver = "this" → ∃ types, model.Offers owner call.method types :=
  have consistent := isConsistent_build built
  ⟨fun _ _ _ listed linked => consistent.eachCall_linkedRoleUpdates agreeing found listed linked,
    Model.eachCall_this (consistent.unflagged owner found)⟩

private def petsDefinition : ModelDefinition :=
  ⟨"p", Model.standardSourceFolder, none, none, [⟨"A", none, [], []⟩, ⟨"B", none, [], []⟩],
    [⟨"A", "pets", .many, "B", some "owner", .one⟩]⟩

private def petsRole : Role :=
  ⟨some "pets", .many, standardCollection, pojoStyle, some ⟨"B", 0⟩, false⟩

private def keeper : ModelClass :=
  { ModelClass.ofName "A" with roles := [petsRole] }

private def petsModel : Model :=
  let ownerRole : Role := ⟨some "owner", .one, standardCollection, pojoStyle, some ⟨"A", 0⟩, false⟩
  { Model.ofPackage "p" Model.standardSourceFolder with
    classes := [keeper, { ModelClass.ofName "B" with roles := [ownerRole] }] }

private def petsUpdates : List Update :=
  ClassFile.linkedRoleUpdates petsModel keeper "pets" petsRole ⟨"B", 0⟩

/-- Adding a pet sets its owner, and the class of the pets has the setter. -/
theorem owner_of_pet_is_set :
    ∃ partner update, petsModel.class? "B" = some partner ∧ update ∈ petsUpdates ∧
      update.key = ClassFile.methodWith "withPets" ["B..."] ∧
      update.parts?.map Template.callsOf = some [⟨"item", "setOwner"⟩] ∧
      petsModel.Offers partner "setOwner" ["A"] := by
  have built : petsDefinition.build = .ok petsModel := by decide
  obtain ⟨partner, counterpart, known, there, each⟩ :=
    (ModelDefinition.calls_are_offered built (by decide) List.mem_cons_self).1 "pets" petsRole
      ⟨"B", 0⟩ (by decide) rfl
  have third : petsUpdates[2]? = some _ := rfl
  have called : (petsUpdates[2]?.bind Update.parts?).map Template.callsOf =
      some [⟨"item", "setOwner"⟩] := by
    decide +kernel
  rw [third, Option.bind_some] at called
  have inside := List.mem_of_getElem? third
  refine ⟨partner, _, known, inside, by decide, called, ?_⟩
  obtain ⟨parts, printed, -, answered⟩ := each _ inside
  rw [printed, Option.map_some] at called
  obtain ⟨-, -, -, -, -, offered⟩ := answered ⟨"item", "setOwner"⟩
    (Option.some.inj called ▸ List.mem_singleton_self _) (by decide)
  obtain rfl := Option.some.inj there
  exact offered

end ClassWeaver
