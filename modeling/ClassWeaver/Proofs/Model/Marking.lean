import ClassWeaver.Model.Marking
import Mathlib.Data.List.Nodup
import Mathlib.Data.List.Perm.Basic

set_option autoImplicit false

/-!
What comparing two models flags. Main statements: the flags that are set are those of the elements
that are out of date, a role shares its flag with the role at the other end, every flagged class
and every flagged member of a class that is still there is listed once, and no name changes.
-/

namespace ClassWeaver

theorem mem_modifyFirst {α : Type} {p : α → Bool} {change : α → α} {list : List α} {a : α}
    (found : a ∈ modifyFirst p change list) : a ∈ list ∨ ∃ b ∈ list, a = change b := by
  induction list with
  | nil => cases found
  | cons first rest ih =>
    rw [modifyFirst] at found
    split at found
    · rcases List.mem_cons.mp found with rfl | later
      · exact .inr ⟨first, List.mem_cons_self, rfl⟩
      · exact .inl (List.mem_cons_of_mem _ later)
    · rcases List.mem_cons.mp found with rfl | later
      · exact .inl List.mem_cons_self
      · rcases ih later with kept | ⟨b, inside, same⟩
        · exact .inl (List.mem_cons_of_mem _ kept)
        · exact .inr ⟨b, List.mem_cons_of_mem _ inside, same⟩

theorem map_modifyFirst {α β : Type} {f : α → β} {change : α → α}
    (kept : ∀ a, f (change a) = f a) (p : α → Bool) (list : List α) :
    (modifyFirst p change list).map f = list.map f := by
  induction list with
  | nil => rfl
  | cons a rest ih =>
    rw [modifyFirst]
    split
    · rw [List.map_cons, List.map_cons, kept]
    · rw [List.map_cons, List.map_cons, ih]

theorem modifyFirst_eq_map {α : Type} {p : α → Bool} {list : List α}
    (once : list.Pairwise fun a b => p a = true → p b = false) (change : α → α) :
    modifyFirst p change list = list.map fun a => if p a then change a else a := by
  induction list with
  | nil => rfl
  | cons a rest ih =>
    obtain ⟨here, later⟩ := List.pairwise_cons.mp once
    rw [modifyFirst, List.map_cons]
    by_cases hit : p a = true
    · have kept : rest.map (fun b => if p b then change b else b) = rest := by
        rw [List.map_congr_left (g := id) fun b found => by simp [here b found hit], List.map_id]
      rw [if_pos hit, if_pos hit, kept]
    · rw [if_neg hit, if_neg hit, ih later]

namespace Role

def flagged (role : Role) : Role :=
  { role with modified := true }

theorem flagged_of_modified {role : Role} (modified : role.modified = true) :
    role.flagged = role := by
  rw [flagged, ← modified]

end Role

namespace ModelClass

def flagRoles (chosen : RoleRef → Bool) (owner : ModelClass) : ModelClass :=
  { owner with
    roles := owner.roles.mapIdx fun index role =>
      if chosen ⟨owner.name, index⟩ then role.flagged else role }

theorem flagRoles_eq_self {chosen : RoleRef → Bool} {owner : ModelClass}
    (old : ∀ index role, owner.roles[index]? = some role → chosen ⟨owner.name, index⟩ = true →
      role.modified = true) : owner.flagRoles chosen = owner := by
  have same : (owner.roles.mapIdx fun index role =>
      if chosen ⟨owner.name, index⟩ then role.flagged else role) = owner.roles := by
    apply List.ext_getElem?
    intro index
    rw [List.getElem?_mapIdx]
    cases found : owner.roles[index]? with
    | none => rfl
    | some role =>
      rw [Option.map_some]
      split
      · next hit => rw [Role.flagged_of_modified (old index role found hit)]
      · rfl
  rw [flagRoles, same]

end ModelClass

namespace Model

/-- No two classes have one name. -/
def HasDistinctClasses (model : Model) : Prop :=
  (model.classes.map (·.name)).Nodup

/-- Roles with partners come in pairs that refer to each other. -/
def IsLinked (model : Model) : Prop :=
  ∀ place role partner, model.role? place = some role → role.other = some partner →
    ∃ counterpart, model.role? partner = some counterpart ∧ counterpart.other = some place

structure IsUnflagged (model : Model) : Prop where
  classes : ∀ owner ∈ model.classes, owner.modified = false
  attributes : ∀ owner ∈ model.classes, ∀ property ∈ owner.attributes, property.modified = false
  roles : ∀ owner ∈ model.classes, ∀ role ∈ owner.roles, role.modified = false
  methods : ∀ owner ∈ model.classes, ∀ method ∈ owner.methods, method.modified = false

def flagRoles (chosen : RoleRef → Bool) (model : Model) : Model :=
  { model with classes := model.classes.map (ModelClass.flagRoles chosen) }

theorem class?_of_mem {model : Model} (distinct : model.HasDistinctClasses) {owner : ModelClass}
    (found : owner ∈ model.classes) : model.class? owner.name = some owner := by
  rw [HasDistinctClasses] at distinct
  rw [class?]
  generalize model.classes = classes at distinct found
  induction classes with
  | nil => cases found
  | cons first rest ih =>
    rw [List.map_cons, List.nodup_cons] at distinct
    rcases List.mem_cons.mp found with rfl | later
    · simp
    · have differ : first.name ≠ owner.name := by
        intro same
        exact distinct.1 (same ▸ List.mem_map_of_mem later)
      simpa [differ] using ih distinct.2 later

theorem role?_of_mem {model : Model} (distinct : model.HasDistinctClasses) {owner : ModelClass}
    (found : owner ∈ model.classes) (index : Nat) :
    model.role? ⟨owner.name, index⟩ = owner.roles[index]? := by
  rw [role?, class?_of_mem distinct found, Option.bind_some]

theorem HasDistinctClasses.modifyClass_eq {model : Model} (distinct : model.HasDistinctClasses)
    (name : String) (change : ModelClass → ModelClass) :
    model.modifyClass name change = { model with
      classes := model.classes.map fun owner => if owner.name == name then change owner else owner } := by
  have once : model.classes.Pairwise fun a b =>
      (a.name == name) = true → (b.name == name) = false := by
    refine (List.pairwise_map.mp distinct).imp fun {a b} differ hit => ?_
    rw [beq_eq_false_iff_ne]
    exact fun same => differ ((eq_of_beq hit).trans same.symm)
  rw [modifyClass, modifyFirst_eq_map once]

theorem HasDistinctClasses.flagRoles {model : Model} (distinct : model.HasDistinctClasses)
    (chosen : RoleRef → Bool) : (model.flagRoles chosen).HasDistinctClasses := by
  rw [HasDistinctClasses, Model.flagRoles, List.map_map]
  exact distinct

theorem role?_flagRoles (model : Model) (chosen : RoleRef → Bool) (place : RoleRef) :
    (model.flagRoles chosen).role? place =
      (model.role? place).map fun role => if chosen place then role.flagged else role := by
  have sameName : (fun owner : ModelClass => (owner.flagRoles chosen).name == place.className) =
      fun owner => owner.name == place.className := rfl
  rw [role?, role?, class?, class?, flagRoles, List.find?_map, Function.comp_def, sameName]
  cases found : model.classes.find? (·.name == place.className) with
  | none => rfl
  | some owner =>
    have named : owner.name = place.className := by simpa using List.find?_some found
    rw [Option.map_some, Option.bind_some, Option.bind_some, ModelClass.flagRoles,
      List.getElem?_mapIdx, named]

theorem flagRoles_flagRoles (model : Model) (first second : RoleRef → Bool) :
    (model.flagRoles first).flagRoles second =
      model.flagRoles fun place => first place || second place := by
  have classwise (owner : ModelClass) : (owner.flagRoles first).flagRoles second =
      owner.flagRoles fun place => first place || second place := by
    simp only [ModelClass.flagRoles, List.mapIdx_mapIdx]
    congr 2
    funext index role
    by_cases one : first ⟨owner.name, index⟩ = true <;>
      by_cases two : second ⟨owner.name, index⟩ = true <;> simp [one, two, Role.flagged]
  rw [flagRoles, flagRoles, flagRoles, List.map_map]
  congr 2
  funext owner
  exact classwise owner

theorem flagRoles_eq_self {model : Model} (distinct : model.HasDistinctClasses)
    {chosen : RoleRef → Bool}
    (old : ∀ place role, model.role? place = some role → chosen place = true →
      role.modified = true) : model.flagRoles chosen = model := by
  have kept : model.classes.map (ModelClass.flagRoles chosen) = model.classes := by
    rw [List.map_congr_left (g := id), List.map_id]
    intro owner found
    apply ModelClass.flagRoles_eq_self
    intro index role at_index hit
    exact old ⟨owner.name, index⟩ role ((role?_of_mem distinct found index).trans at_index) hit
  rw [flagRoles, kept]

theorem modifyRole_flagged {model : Model} (distinct : model.HasDistinctClasses)
    (place : RoleRef) : model.modifyRole place Role.flagged = model.flagRoles (· == place) := by
  rw [modifyRole, distinct.modifyClass_eq, flagRoles]
  congr 2
  funext owner
  by_cases named : owner.name = place.className
  · rw [if_pos (by simpa using named), ModelClass.flagRoles]
    congr 1
    apply List.ext_getElem?
    intro index
    rw [List.getElem?_modify, List.getElem?_mapIdx, named]
    obtain ⟨className, at_index⟩ := place
    by_cases same : index = at_index
    · cases owner.roles[index]? <;> simp [same]
    · cases owner.roles[index]? <;> simp [same, Ne.symm same]
  · rw [if_neg (by simpa using named), ModelClass.flagRoles_eq_self]
    intro index role _ hit
    have whole : (⟨owner.name, index⟩ : RoleRef) = place := by simpa using hit
    exact absurd (congrArg RoleRef.className whole) named

def isUnflaggedAt (model : Model) (place : RoleRef) : Bool :=
  (model.role? place).any fun role => ! role.modified

theorem isUnflaggedAt_flagRoles (model : Model) (chosen : RoleRef → Bool) (place : RoleRef) :
    (model.flagRoles chosen).isUnflaggedAt place =
      (model.isUnflaggedAt place && ! chosen place) := by
  rw [isUnflaggedAt, isUnflaggedAt, role?_flagRoles]
  cases model.role? place with
  | none => rfl
  | some role => by_cases hit : chosen place = true <;> simp [hit, Role.flagged]

end Model

namespace Marking

def roleElement (model : Model) (place : RoleRef) : MarkedElement :=
  .roleOf place.className ((model.role? place).bind (·.name))

theorem roleElement_flagRoles (model : Model) (chosen : RoleRef → Bool) (place : RoleRef) :
    roleElement (model.flagRoles chosen) place = roleElement model place := by
  rw [roleElement, roleElement, Model.role?_flagRoles]
  cases model.role? place with
  | none => rfl
  | some role => by_cases hit : chosen place = true <;> simp [hit, Role.flagged]

theorem flagPartner_eq {model : Model} (distinct : model.HasDistinctClasses)
    (elements : List MarkedElement) (place : RoleRef) :
    flagPartner (model, elements) place =
      (model.flagRoles (· == place),
        elements ++ if model.isUnflaggedAt place then [roleElement model place] else []) := by
  rw [flagPartner]
  split
  · next missing =>
    have same : model.flagRoles (· == place) = model := by
      refine Model.flagRoles_eq_self distinct fun other role found hit => ?_
      rw [show other = place by simpa using hit] at found
      exact absurd (missing.symm.trans found) nofun
    rw [same, Model.isUnflaggedAt, show model.role? place = none from missing]
    simp
  · next role found =>
    have found : model.role? place = some role := found
    split
    · next modified =>
      have same : model.flagRoles (· == place) = model := by
        refine Model.flagRoles_eq_self distinct fun other known there hit => ?_
        rw [show other = place by simpa using hit] at there
        rwa [Option.some.inj (there.symm.trans found)]
      rw [same, Model.isUnflaggedAt, found]
      simp [modified]
    · next bare =>
      rw [← Model.modifyRole_flagged distinct, Model.isUnflaggedAt, roleElement, found]
      simp [bare]
      rfl

theorem foldl_flagPartner {model : Model} (distinct : model.HasDistinctClasses)
    (elements : List MarkedElement) (places : List RoleRef) :
    places.foldl flagPartner (model, elements) =
      (model.flagRoles fun place => places.contains place,
        elements ++ ((places.filter model.isUnflaggedAt).eraseDups.map (roleElement model))) := by
  induction places generalizing model elements with
  | nil =>
    have same : model.flagRoles (fun place => [].contains place) = model :=
      Model.flagRoles_eq_self distinct fun _ _ _ hit => by simp at hit
    rw [same]
    simp
  | cons place rest ih =>
    rw [List.foldl_cons, flagPartner_eq distinct, ih (distinct.flagRoles _),
      Model.flagRoles_flagRoles]
    refine Prod.ext ?_ ?_
    · simp only [List.contains_cons]
    · have kept : rest.filter (model.flagRoles (· == place)).isUnflaggedAt =
          (rest.filter model.isUnflaggedAt).filter fun other => ! other == place := by
        rw [List.filter_filter]
        congr 1
        funext other
        rw [Model.isUnflaggedAt_flagRoles, Bool.and_comm]
      have named : roleElement (model.flagRoles (· == place)) = roleElement model :=
        funext (roleElement_flagRoles model _)
      rw [kept, named]
      by_cases bare : model.isUnflaggedAt place = true
      · rw [if_pos bare, List.filter_cons_of_pos bare, List.eraseDups_cons, List.map_cons,
          List.append_assoc, List.singleton_append]
      · have clean : (rest.filter model.isUnflaggedAt).filter (fun other => ! other == place) =
            rest.filter model.isUnflaggedAt := by
          refine List.filter_eq_self.mpr fun other found => ?_
          have unlike : other ≠ place := by
            rintro rfl
            exact bare (List.mem_filter.mp found).2
          simpa using unlike
        rw [if_neg bare, List.filter_cons_of_neg bare, List.append_nil, clean]

section Exactness

variable (previous current : Model)

/-- The code of the role at a place has to go on its own account: its class is gone, or no role of
the class that is there now stands for it with its cardinality, style and partner class. -/
def isLost (place : RoleRef) : Bool :=
  (current.class? place.className).all fun currentClass =>
    (previous.role? place).any (roleChanged previous current currentClass)

/-- The class with exactly the flags of what is out of date. A class that is gone is out of date
with all its members. -/
def flaggedClass (owner : ModelClass) : ModelClass :=
  let counterpart? := current.class? owner.name
  { owner with
    attributes := owner.attributes.map fun property =>
      { property with modified := counterpart?.all (attributeChanged · property) }
    roles := owner.roles.mapIdx fun index role =>
      { role with
        modified := isLost previous current ⟨owner.name, index⟩
          || role.other.any (isLost previous current) }
    methods := owner.methods.map fun method =>
      { method with modified := counterpart?.all (methodChanged · method) }
    modified := counterpart?.all fun currentClass => ! owner.isEmpty && currentClass.isEmpty }

/-- What flagged elements of a class are listed as. Of a class that is gone the members are not
listed. -/
def listingOf (owner : ModelClass) : List MarkedElement :=
  (if owner.modified then [.classOf owner.name] else [])
    ++ if (current.class? owner.name).isNone then []
      else (owner.attributes.filter (·.modified)).map (fun property =>
          .attributeOf owner.name property.name)
        ++ (owner.roles.filter (·.modified)).map (fun role => .roleOf owner.name role.name)
        ++ (owner.methods.filter (·.modified)).map (fun method =>
          .methodOf owner.name method.signature.text)

def partnerPlaces : List RoleRef :=
  previous.classes.flatMap fun owner =>
    (compareClass (stalePlaces previous current) current owner).partners

private def comparedClass (owner : ModelClass) : ModelClass :=
  let counterpart? := current.class? owner.name
  { owner with
    attributes := owner.attributes.map fun property =>
      if counterpart?.all (attributeChanged · property) then { property with modified := true }
      else property
    roles := owner.roles.mapIdx fun index role =>
      if isLost previous current ⟨owner.name, index⟩ then role.flagged else role
    methods := owner.methods.map fun method =>
      if counterpart?.all (methodChanged · method) then { method with modified := true }
      else method
    modified := owner.modified
      || counterpart?.all fun currentClass => ! owner.isEmpty && currentClass.isEmpty }

variable {previous current}

theorem contains_stalePlaces (distinct : previous.HasDistinctClasses) {owner : ModelClass}
    (found : owner ∈ previous.classes) {currentClass : ModelClass}
    (known : current.class? owner.name = some currentClass) (index : Nat) :
    (stalePlaces previous current).contains ⟨owner.name, index⟩ =
      isLost previous current ⟨owner.name, index⟩ := by
  rw [isLost, known, Option.all_some, Model.role?_of_mem distinct found, Bool.eq_iff_iff,
    List.contains_iff_mem]
  constructor
  · intro stale
    obtain ⟨other, there, inside⟩ := List.mem_flatMap.mp stale
    rw [changedPlaces] at inside
    split at inside
    · cases inside
    · next otherClass otherKnown =>
      obtain ⟨⟨role, position⟩, at_position, taken⟩ := List.mem_filterMap.mp inside
      obtain ⟨changed, same⟩ := Option.ite_none_right_eq_some.mp taken
      obtain ⟨sameName, rfl⟩ := RoleRef.mk.inj (Option.some.inj same)
      have sameOwner : other = owner := by
        have one := Model.class?_of_mem distinct there
        rw [sameName, Model.class?_of_mem distinct found] at one
        exact (Option.some.inj one).symm
      subst sameOwner
      rw [known] at otherKnown
      cases otherKnown
      rw [List.mem_zipIdx_iff_getElem?.mp at_position]
      exact changed
  · intro lost
    obtain ⟨role, at_index, changed⟩ := (Option.any_eq_true _ _).mp lost
    refine List.mem_flatMap.mpr ⟨owner, found, ?_⟩
    rw [changedPlaces, known]
    refine List.mem_filterMap.mpr ⟨(role, index), ?_, ?_⟩
    · exact List.mem_zipIdx_iff_getElem?.mpr at_index
    · exact if_pos changed

theorem compareClass_flagged (distinct : previous.HasDistinctClasses) {owner : ModelClass}
    (found : owner ∈ previous.classes) :
    (compareClass (stalePlaces previous current) current owner).flagged =
      comparedClass previous current owner := by
  rw [compareClass, comparedClass]
  cases known : current.class? owner.name with
  | none =>
    have lost (index : Nat) : isLost previous current ⟨owner.name, index⟩ = true := by
      rw [isLost, known, Option.all_none]
    simp only [lost, if_true, ModelClass.markAll, Option.all_none, Bool.or_true]
    rw [List.mapIdx_eq_zipIdx_map]
    congr 1
    apply List.ext_getElem?
    intro index
    simp only [List.getElem?_map, List.getElem?_zipIdx]
    cases owner.roles[index]? <;> rfl
  | some currentClass =>
    have stale := contains_stalePlaces distinct found known
    simp only [← stale, Option.all_some]
    rw [List.mapIdx_eq_zipIdx_map]
    rfl

theorem compareClass_partners (distinct : previous.HasDistinctClasses) {owner : ModelClass}
    (found : owner ∈ previous.classes) :
    (compareClass (stalePlaces previous current) current owner).partners =
      (owner.roles.zipIdx.filter fun entry =>
        isLost previous current ⟨owner.name, entry.2⟩).filterMap (·.1.other) := by
  rw [compareClass]
  cases known : current.class? owner.name with
  | none =>
    have lost (index : Nat) : isLost previous current ⟨owner.name, index⟩ = true := by
      rw [isLost, known, Option.all_none]
    have places : owner.roles.zipIdx.filterMap (·.1.other) = owner.roles.filterMap (·.other) := by
      conv => rhs; rw [← List.zipIdx_map_fst 0 owner.roles, List.filterMap_map]
      rfl
    simp only [lost, List.filter_true, places]
  | some currentClass =>
    have stale := contains_stalePlaces distinct found known
    simp only [← stale]
    rw [List.filterMap_filter]
    simp only [compareKept]
    rw [List.filterMap_filterMap]
    congr 1
    funext ⟨role, index⟩
    dsimp only
    split <;> rfl

theorem mem_partnerPlaces (distinct : previous.HasDistinctClasses) {place : RoleRef} :
    place ∈ partnerPlaces previous current ↔
      ∃ source role, previous.role? source = some role ∧ isLost previous current source = true ∧
        role.other = some place := by
  rw [partnerPlaces, List.mem_flatMap]
  constructor
  · rintro ⟨owner, found, inside⟩
    rw [compareClass_partners distinct found] at inside
    obtain ⟨⟨role, index⟩, taken, linked⟩ := List.mem_filterMap.mp inside
    obtain ⟨at_index, lost⟩ := List.mem_filter.mp taken
    refine ⟨⟨owner.name, index⟩, role, ?_, lost, linked⟩
    rw [Model.role?_of_mem distinct found, List.mem_zipIdx_iff_getElem?.mp at_index]
  · rintro ⟨source, role, there, lost, linked⟩
    obtain ⟨owner, known, at_index⟩ := Option.bind_eq_some_iff.mp there
    obtain ⟨found, named⟩ := Model.name_of_class? known
    refine ⟨owner, found, ?_⟩
    rw [compareClass_partners distinct found]
    refine List.mem_filterMap.mpr ⟨(role, source.index), List.mem_filter.mpr ⟨?_, ?_⟩, linked⟩
    · exact List.mem_zipIdx_iff_getElem?.mpr at_index
    · rw [named]
      exact lost

theorem contains_partnerPlaces (distinct : previous.HasDistinctClasses)
    (linked : previous.IsLinked) {place : RoleRef} {role : Role}
    (there : previous.role? place = some role) :
    (partnerPlaces previous current).contains place = role.other.any (isLost previous current) := by
  rw [Bool.eq_iff_iff, List.contains_iff_mem, mem_partnerPlaces distinct, Option.any_eq_true]
  constructor
  · rintro ⟨source, partner, at_source, lost, back⟩
    obtain ⟨counterpart, at_place, forth⟩ := linked source partner place at_source back
    rw [there] at at_place
    cases at_place
    exact ⟨source, forth, lost⟩
  · rintro ⟨source, forth, lost⟩
    obtain ⟨counterpart, at_source, back⟩ := linked place role source there forth
    exact ⟨source, counterpart, at_source, lost, back⟩

private def comparedModel (previous current : Model) : Model :=
  { previous with classes := previous.classes.map (comparedClass previous current) }

private theorem distinct_comparedModel (distinct : previous.HasDistinctClasses) :
    (comparedModel previous current).HasDistinctClasses := by
  rw [Model.HasDistinctClasses, comparedModel, List.map_map]
  exact distinct

private theorem mark_eq (distinct : previous.HasDistinctClasses) :
    mark previous current =
      ((comparedModel previous current).flagRoles fun place =>
          (partnerPlaces previous current).contains place,
        (previous.classes.flatMap fun owner =>
            (compareClass (stalePlaces previous current) current owner).elements)
          ++ ((partnerPlaces previous current).filter
              (comparedModel previous current).isUnflaggedAt).eraseDups.map
            (roleElement (comparedModel previous current))) := by
  have first : { previous with
      classes := (previous.classes.map
        (compareClass (stalePlaces previous current) current)).map (·.flagged) } =
      comparedModel previous current := by
    rw [comparedModel, List.map_map]
    congr 1
    exact List.map_congr_left fun owner found => compareClass_flagged distinct found
  rw [mark, first, List.flatMap_map, List.flatMap_map]
  exact foldl_flagPartner (distinct_comparedModel distinct) _ _

private theorem flagRoles_comparedClass (distinct : previous.HasDistinctClasses)
    (linked : previous.IsLinked) (unflagged : previous.IsUnflagged) {owner : ModelClass}
    (found : owner ∈ previous.classes) :
    (comparedClass previous current owner).flagRoles
        (fun place => (partnerPlaces previous current).contains place) =
      flaggedClass previous current owner := by
  have attributes (property : Attribute) (inside : property ∈ owner.attributes) (changed : Bool) :
      (if changed then { property with modified := true } else property) =
        { property with modified := changed } := by
    have bare := unflagged.attributes owner found property inside
    obtain ⟨name, type, initializer, style, modified⟩ := property
    obtain rfl : modified = false := bare
    cases changed <;> rfl
  have methods (method : Method) (inside : method ∈ owner.methods) (changed : Bool) :
      (if changed then { method with modified := true } else method) =
        { method with modified := changed } := by
    have bare := unflagged.methods owner found method inside
    obtain ⟨declaration, body, modified⟩ := method
    obtain rfl : modified = false := bare
    cases changed <;> rfl
  simp only [ModelClass.flagRoles, comparedClass, flaggedClass, unflagged.classes owner found,
    Bool.false_or]
  congr 1
  · exact List.map_congr_left fun property inside => attributes property inside _
  · rw [List.mapIdx_mapIdx]
    apply List.ext_getElem?
    intro index
    rw [List.getElem?_mapIdx, List.getElem?_mapIdx]
    cases at_index : owner.roles[index]? with
    | none => rfl
    | some role =>
      have there : previous.role? ⟨owner.name, index⟩ = some role :=
        (Model.role?_of_mem distinct found index).trans at_index
      have bare := unflagged.roles owner found role (List.mem_of_getElem? at_index)
      have partner : (partnerPlaces previous current).contains ⟨owner.name, index⟩ =
          role.other.any (isLost previous current) := contains_partnerPlaces distinct linked there
      simp only [Option.map_some, Function.comp_apply, partner]
      obtain ⟨name, cardinality, collection, style, other, modified⟩ := role
      obtain rfl : modified = false := bare
      cases isLost previous current ⟨owner.name, index⟩ <;>
        cases other.any (isLost previous current) <;> rfl
  · exact List.map_congr_left fun method inside => methods method inside _

/-- The flags that comparing sets are exactly those of what is out of date, and nothing but flags
changes. -/
theorem mark_fst (distinct : previous.HasDistinctClasses) (linked : previous.IsLinked)
    (unflagged : previous.IsUnflagged) :
    (mark previous current).1 =
      { previous with classes := previous.classes.map (flaggedClass previous current) } := by
  have classwise : previous.classes.map (fun owner =>
      (comparedClass previous current owner).flagRoles fun place =>
        (partnerPlaces previous current).contains place) =
      previous.classes.map (flaggedClass previous current) :=
    List.map_congr_left fun owner found => flagRoles_comparedClass distinct linked unflagged found
  simp only [mark_eq distinct, Model.flagRoles, comparedModel, List.map_map, Function.comp_def,
    classwise]

private theorem nodup_eraseDups {α : Type} [BEq α] [LawfulBEq α] :
    ∀ list : List α, list.eraseDups.Nodup
  | [] => by simp
  | a :: rest => by
    rw [List.eraseDups_cons, List.nodup_cons]
    exact ⟨by simp [List.mem_eraseDups], nodup_eraseDups _⟩
termination_by list => list.length
decreasing_by exact Nat.lt_succ_of_le (List.length_filter_le _ _)

private theorem filter_or_perm {α : Type} (p q : α → Bool) (list : List α) :
    (list.filter fun a => p a || q a).Perm
      (list.filter p ++ list.filter fun a => ! p a && q a) := by
  have split := List.filter_append_perm p (list.filter fun a => p a || q a)
  rw [List.filter_filter, List.filter_filter] at split
  have first : (list.filter fun a => p a && (p a || q a)) = list.filter p :=
    List.filter_congr fun a _ => by cases p a <;> rfl
  have second : (list.filter fun a => ! p a && (p a || q a)) =
      list.filter fun a => ! p a && q a :=
    List.filter_congr fun a _ => by cases p a <;> rfl
  rw [first, second] at split
  exact split.symm

private def latePlaces (previous current : Model) (owner : ModelClass) : List RoleRef :=
  (owner.roles.zipIdx.filter fun entry =>
    ! isLost previous current ⟨owner.name, entry.2⟩
      && entry.1.other.any (isLost previous current)).map fun entry => ⟨owner.name, entry.2⟩

private def roleElements (owner : ModelClass) (chosen : Role × Nat → Bool) : List MarkedElement :=
  (owner.roles.zipIdx.filter chosen).map fun entry => .roleOf owner.name entry.1.name

private theorem map_roleElement_latePlaces (distinct : previous.HasDistinctClasses)
    {owner : ModelClass} (found : owner ∈ previous.classes) :
    (latePlaces previous current owner).map (roleElement previous) =
      roleElements owner fun entry => ! isLost previous current ⟨owner.name, entry.2⟩
        && entry.1.other.any (isLost previous current) := by
  rw [latePlaces, roleElements, List.map_map]
  refine List.map_congr_left fun entry taken => ?_
  have at_index := List.mem_zipIdx_iff_getElem?.mp (List.mem_filter.mp taken).1
  rw [Function.comp_apply, roleElement, Model.role?_of_mem distinct found, at_index]
  rfl

private theorem listingOf_of_known {owner currentClass : ModelClass}
    (known : current.class? owner.name = some currentClass) :
    listingOf current (flaggedClass previous current owner) =
      (if ! owner.isEmpty && currentClass.isEmpty then [.classOf owner.name] else [])
        ++ ((owner.attributes.filter (attributeChanged currentClass)).map
            (fun property => .attributeOf owner.name property.name)
          ++ roleElements owner (fun entry => isLost previous current ⟨owner.name, entry.2⟩
              || entry.1.other.any (isLost previous current))
          ++ (owner.methods.filter (methodChanged currentClass)).map
            (fun method => .methodOf owner.name method.signature.text)) := by
  rw [listingOf]
  simp only [flaggedClass, roleElements, known, Option.all_some, Option.isNone_some,
    List.mapIdx_eq_zipIdx_map, List.filter_map, List.map_map]
  rfl

private theorem elements_compareKept (distinct : previous.HasDistinctClasses)
    {owner currentClass : ModelClass} (found : owner ∈ previous.classes)
    (known : current.class? owner.name = some currentClass) :
    (compareKept (stalePlaces previous current) currentClass owner).elements =
      (if ! owner.isEmpty && currentClass.isEmpty then [.classOf owner.name] else [])
        ++ (owner.attributes.filter (attributeChanged currentClass)).map
          (fun property => .attributeOf owner.name property.name)
        ++ roleElements owner (fun entry => isLost previous current ⟨owner.name, entry.2⟩)
        ++ (owner.methods.filter (methodChanged currentClass)).map
          (fun method => .methodOf owner.name method.signature.text) := by
  have own : (owner.roles.zipIdx.filterMap fun entry =>
      if (stalePlaces previous current).contains ⟨owner.name, entry.2⟩ then some entry.1
      else none) = (owner.roles.zipIdx.filter fun entry =>
        isLost previous current ⟨owner.name, entry.2⟩).map (·.1) := by
    rw [← List.filterMap_eq_map, List.filterMap_filter]
    refine List.filterMap_congr fun entry _ => ?_
    rw [contains_stalePlaces distinct found known]
    rfl
  rw [compareKept, own, List.map_map]
  rfl

private theorem listingOf_flaggedClass (distinct : previous.HasDistinctClasses)
    {owner : ModelClass} (found : owner ∈ previous.classes) :
    (listingOf current (flaggedClass previous current owner)).Perm
      ((compareClass (stalePlaces previous current) current owner).elements
        ++ (latePlaces previous current owner).map (roleElement previous)) := by
  rw [map_roleElement_latePlaces distinct found, compareClass]
  cases known : current.class? owner.name with
  | none =>
    have lost (index : Nat) : isLost previous current ⟨owner.name, index⟩ = true := by
      rw [isLost, known, Option.all_none]
    simp [roleElements, lost, listingOf, flaggedClass, known]
  | some currentClass =>
    have order := ((filter_or_perm (fun entry : Role × Nat =>
      isLost previous current ⟨owner.name, entry.2⟩) (fun entry =>
        entry.1.other.any (isLost previous current)) owner.roles.zipIdx).map
          fun entry => MarkedElement.roleOf owner.name entry.1.name)
    rw [List.map_append] at order
    rw [listingOf_of_known known, elements_compareKept distinct found known]
    simp only [List.append_assoc]
    refine List.Perm.append_left _ (List.Perm.append_left _ ?_)
    refine (order.append_right _).trans ?_
    rw [List.append_assoc]
    exact List.Perm.append_left _ List.perm_append_comm

private theorem role?_comparedModel (place : RoleRef) :
    (comparedModel previous current).role? place =
      (previous.role? place).map fun role =>
        if isLost previous current place then role.flagged else role := by
  have sameName : (fun owner => (comparedClass previous current owner).name == place.className) =
      fun owner => owner.name == place.className := rfl
  rw [Model.role?, Model.role?, Model.class?, Model.class?, comparedModel, List.find?_map,
    Function.comp_def, sameName]
  cases found : previous.classes.find? (·.name == place.className) with
  | none => rfl
  | some owner =>
    have named : owner.name = place.className := by simpa using List.find?_some found
    rw [Option.map_some, Option.bind_some, Option.bind_some, comparedClass,
      List.getElem?_mapIdx, named]

private theorem isUnflaggedAt_comparedModel (unflagged : previous.IsUnflagged)
    (place : RoleRef) : (comparedModel previous current).isUnflaggedAt place =
      ((previous.role? place).isSome && ! isLost previous current place) := by
  rw [Model.isUnflaggedAt, role?_comparedModel]
  cases there : previous.role? place with
  | none => rfl
  | some role =>
    obtain ⟨owner, known, at_index⟩ := Option.bind_eq_some_iff.mp there
    have bare := unflagged.roles owner (Model.name_of_class? known).1 role
      (List.mem_of_getElem? at_index)
    by_cases lost : isLost previous current place = true <;> simp [lost, Role.flagged, bare]

private theorem mem_latePlaces (distinct : previous.HasDistinctClasses)
    (linked : previous.IsLinked) {place : RoleRef} :
    place ∈ previous.classes.flatMap (latePlaces previous current) ↔
      (previous.role? place).isSome = true ∧ isLost previous current place = false ∧
        place ∈ partnerPlaces previous current := by
  rw [List.mem_flatMap]
  constructor
  · rintro ⟨owner, found, inside⟩
    obtain ⟨⟨role, index⟩, taken, rfl⟩ := List.mem_map.mp inside
    obtain ⟨at_index, conditions⟩ := List.mem_filter.mp taken
    obtain ⟨own, partner⟩ := Bool.and_eq_true_iff.mp conditions
    have there : previous.role? ⟨owner.name, index⟩ = some role := by
      rw [Model.role?_of_mem distinct found, List.mem_zipIdx_iff_getElem?.mp at_index]
    refine ⟨by rw [there]; rfl, by simpa using own, ?_⟩
    rw [← List.contains_iff_mem, contains_partnerPlaces distinct linked there]
    exact partner
  · rintro ⟨there, own, partner⟩
    obtain ⟨role, there⟩ := Option.isSome_iff_exists.mp there
    obtain ⟨owner, known, at_index⟩ := Option.bind_eq_some_iff.mp there
    obtain ⟨found, named⟩ := Model.name_of_class? known
    have whole : (⟨owner.name, place.index⟩ : RoleRef) = place := by rw [named]
    rw [← List.contains_iff_mem, contains_partnerPlaces distinct linked there] at partner
    refine ⟨owner, found, List.mem_map.mpr ⟨(role, place.index), ?_, whole⟩⟩
    refine List.mem_filter.mpr ⟨List.mem_zipIdx_iff_getElem?.mpr at_index, ?_⟩
    rw [whole, own]
    exact partner

private theorem nodup_latePlaces (distinct : previous.HasDistinctClasses) :
    (previous.classes.flatMap (latePlaces previous current)).Nodup := by
  rw [List.nodup_flatMap]
  constructor
  · intro owner _
    have positions : (owner.roles.zipIdx.map (·.2)).Nodup := by
      rw [List.zipIdx_map_snd]
      exact List.nodup_range'
    have taken := positions.sublist
      ((List.filter_sublist (p := fun entry : Role × Nat =>
        ! isLost previous current ⟨owner.name, entry.2⟩
          && entry.1.other.any (isLost previous current))).map (·.2))
    have places := taken.map (f := fun index => (⟨owner.name, index⟩ : RoleRef))
      fun _ _ same => (RoleRef.mk.inj same).2
    rwa [List.map_map] at places
  · refine (List.pairwise_map.mp distinct).imp fun {a b} differ => ?_
    intro place inA inB
    obtain ⟨_, _, rfl⟩ := List.mem_map.mp inA
    obtain ⟨_, _, same⟩ := List.mem_map.mp inB
    exact differ (congrArg RoleRef.className same).symm

/-- The listed elements of a marked model: every flagged class, and every flagged member of a class
that is still there. -/
def listing (current marked : Model) : List MarkedElement :=
  marked.classes.flatMap (listingOf current)

theorem mark_snd (distinct : previous.HasDistinctClasses) (linked : previous.IsLinked)
    (unflagged : previous.IsUnflagged) :
    (mark previous current).2.Perm (listing current (mark previous current).1) := by
  have late : ((partnerPlaces previous current).filter
      (comparedModel previous current).isUnflaggedAt).eraseDups.Perm
        (previous.classes.flatMap (latePlaces previous current)) := by
    rw [List.perm_ext_iff_of_nodup (nodup_eraseDups _) (nodup_latePlaces distinct)]
    intro place
    rw [List.mem_eraseDups, List.mem_filter, isUnflaggedAt_comparedModel unflagged,
      mem_latePlaces distinct linked]
    rw [Bool.and_eq_true, Bool.not_eq_true', and_comm, and_assoc]
  have named : roleElement (comparedModel previous current) = roleElement previous := by
    funext place
    rw [roleElement, roleElement, role?_comparedModel]
    cases previous.role? place with
    | none => rfl
    | some role => by_cases lost : isLost previous current place = true <;> simp [lost, Role.flagged]
  have classwise : (previous.classes.flatMap fun owner =>
      listingOf current (flaggedClass previous current owner)).Perm
        (previous.classes.flatMap fun owner =>
          (compareClass (stalePlaces previous current) current owner).elements
            ++ (latePlaces previous current owner).map (roleElement previous)) :=
    List.Perm.flatMap_left _ fun owner found => listingOf_flaggedClass distinct found
  rw [mark_fst distinct linked unflagged, mark_eq distinct, listing, List.flatMap_map]
  refine List.Perm.trans ?_ classwise.symm
  refine List.Perm.trans ?_ (List.flatMap_append_perm _ _ _)
  rw [named, ← List.map_flatMap]
  exact List.Perm.append_left _ (late.map _)

end Exactness

section Unflagged

variable {previous current : Model}

private theorem exists_of_all_eq_false {α : Type} {found : Option α} {p : α → Bool}
    (passed : found.all p = false) : ∃ a, found = some a ∧ p a = false := by
  cases found with
  | none => cases passed
  | some a => exact ⟨a, rfl, passed⟩

theorem exists_of_attributeChanged {now : ModelClass} {old : Attribute}
    (same : attributeChanged now old = false) :
    ∃ new, now.attribute? old.name = some new ∧ new.type = old.type ∧ new.style = old.style := by
  obtain ⟨new, found, equal⟩ := exists_of_all_eq_false same
  rw [Bool.or_eq_false_iff, bne_eq_false_iff_eq, bne_eq_false_iff_eq] at equal
  exact ⟨new, found, equal.1.symm, equal.2.symm⟩

theorem exists_of_roleChanged {now : ModelClass} {old : Role}
    (same : roleChanged previous current now old = false) :
    ∃ new, matching? previous current now old = some new ∧ new.cardinality = old.cardinality ∧
      new.style = old.style ∧ partnerClass new = partnerClass old := by
  obtain ⟨new, found, equal⟩ := exists_of_all_eq_false same
  rw [Bool.or_eq_false_iff, Bool.or_eq_false_iff, bne_eq_false_iff_eq, bne_eq_false_iff_eq,
    bne_eq_false_iff_eq] at equal
  exact ⟨new, found, equal.1.1.symm, equal.1.2.symm, equal.2.symm⟩

theorem exists_of_methodChanged {now : ModelClass} {old : Method}
    (same : methodChanged now old = false) :
    ∃ new ∈ now.methods, new.signature = old.signature := by
  rw [methodChanged, Bool.not_eq_false', List.any_eq_true] at same
  obtain ⟨new, found, equal⟩ := same
  exact ⟨new, found, (beq_iff_eq.mp equal).symm⟩

theorem mark_keeps (keeps : ModelClass → Prop)
    (compared : ∀ old ∈ previous.classes,
      keeps (compareClass (stalePlaces previous current) current old).flagged)
    (flagged : ∀ owner index, keeps owner →
      keeps { owner with roles := owner.roles.modify index ({ · with modified := true }) }) :
    ∀ owner ∈ (mark previous current).1.classes, keeps owner := by
  have each (place : RoleRef) (state : Model × List MarkedElement)
      (sound : ∀ owner ∈ state.1.classes, keeps owner) :
      ∀ owner ∈ (flagPartner state place).1.classes, keeps owner := by
    intro owner found
    rw [flagPartner] at found
    split at found
    · exact sound owner found
    · split at found
      · exact sound owner found
      · rcases mem_modifyFirst found with kept | ⟨old, inside, rfl⟩
        · exact sound owner kept
        · exact flagged old place.index (sound old inside)
  have all (places : List RoleRef) (state : Model × List MarkedElement)
      (sound : ∀ owner ∈ state.1.classes, keeps owner) :
      ∀ owner ∈ (places.foldl flagPartner state).1.classes, keeps owner := by
    induction places generalizing state with
    | nil => exact sound
    | cons place rest ih => exact ih _ (each place state sound)
  refine all _ _ fun owner inside => ?_
  obtain ⟨_, entry, rfl⟩ := List.mem_map.mp inside
  obtain ⟨old, there, rfl⟩ := List.mem_map.mp entry
  exact compared old there

/-- Every member of a class without a flag has its match in the class that is there now. -/
structure IsCurrent (previous current : Model) (now owner : ModelClass) : Prop where
  attributes : ∀ property ∈ owner.attributes, property.modified = false →
    attributeChanged now property = false
  roles : ∀ role ∈ owner.roles, role.modified = false →
    roleChanged previous current now role = false
  methods : ∀ method ∈ owner.methods, method.modified = false → methodChanged now method = false

private theorem IsCurrent.modifyRole {now owner : ModelClass}
    (sound : IsCurrent previous current now owner) (index : Nat) :
    IsCurrent previous current now
      { owner with roles := owner.roles.modify index ({ · with modified := true }) } where
  attributes := sound.attributes
  roles := by
    intro role found bare
    obtain ⟨position, at_position⟩ := List.mem_iff_getElem?.mp found
    rw [List.getElem?_modify] at at_position
    obtain ⟨old, there, same⟩ := Option.map_eq_some_iff.mp at_position
    split at same
    · rw [← same] at bare
      cases bare
    · exact sound.roles role (List.mem_of_getElem? (same ▸ there)) bare
  methods := sound.methods

private theorem isCurrent_compareKept {old now : ModelClass} (found : old ∈ previous.classes)
    (known : current.class? old.name = some now) :
    IsCurrent previous current now
      (compareKept (stalePlaces previous current) now old).flagged where
  attributes := by
    intro property inside bare
    obtain ⟨original, -, rfl⟩ := List.mem_map.mp inside
    cases changed : attributeChanged now original with
    | false => exact changed
    | true =>
      rw [changed] at bare
      cases bare
  roles := by
    intro role inside bare
    obtain ⟨⟨original, index⟩, at_index, rfl⟩ := List.mem_map.mp inside
    cases stale : (stalePlaces previous current).contains ⟨old.name, index⟩ with
    | true =>
      dsimp only at bare
      rw [stale] at bare
      cases bare
    | false =>
      have kept : roleChanged previous current now original = false := by
        refine Bool.eq_false_iff.mpr fun changed => ?_
        have listed : (⟨old.name, index⟩ : RoleRef) ∈ stalePlaces previous current := by
          refine List.mem_flatMap.mpr ⟨old, found, ?_⟩
          rw [changedPlaces, known]
          exact List.mem_filterMap.mpr ⟨(original, index), at_index, if_pos changed⟩
        rw [List.contains_iff_mem.mpr listed] at stale
        cases stale
      dsimp only
      rw [stale]
      exact kept
  methods := by
    intro method inside bare
    obtain ⟨original, -, rfl⟩ := List.mem_map.mp inside
    cases changed : methodChanged now original with
    | false => exact changed
    | true =>
      rw [changed] at bare
      cases bare

/-- After comparing, a member without a flag has its match in the class that is there now. -/
theorem isCurrent_mark {owner now : ModelClass} (found : owner ∈ (mark previous current).1.classes)
    (known : current.class? owner.name = some now) : IsCurrent previous current now owner := by
  refine mark_keeps (fun owner => ∀ now, current.class? owner.name = some now →
    IsCurrent previous current now owner) ?_ ?_ owner found now known
  · intro old there now known
    have named : (compareClass (stalePlaces previous current) current old).flagged.name
        = old.name := by
      rw [compareClass]
      split <;> rfl
    rw [named] at known
    rw [compareClass, known]
    exact isCurrent_compareKept there known
  · exact fun owner index sound now known => (sound now known).modifyRole index

end Unflagged

section Names

structure SameNames (a b : Model) : Prop where
  package : a.package = b.package
  sourceFolder : a.sourceFolder = b.sourceFolder
  classes : a.classes.map (·.name) = b.classes.map (·.name)

theorem SameNames.symm {a b : Model} (alike : SameNames a b) : SameNames b a :=
  ⟨alike.package.symm, alike.sourceFolder.symm, alike.classes.symm⟩

theorem SameNames.trans {a b c : Model} (first : SameNames a b) (second : SameNames b c) :
    SameNames a c :=
  ⟨first.package.trans second.package, first.sourceFolder.trans second.sourceFolder,
    first.classes.trans second.classes⟩

theorem sameNames_flagPartner (state : Model × List MarkedElement) (place : RoleRef) :
    SameNames (flagPartner state place).1 state.1 := by
  rw [flagPartner]
  split
  · exact ⟨rfl, rfl, rfl⟩
  · split
    · exact ⟨rfl, rfl, rfl⟩
    · refine ⟨rfl, rfl, ?_⟩
      rw [Model.modifyRole, Model.modifyClass, map_modifyFirst]
      exact fun _ => rfl

theorem sameNames_foldl (places : List RoleRef) (state : Model × List MarkedElement) :
    SameNames (places.foldl flagPartner state).1 state.1 := by
  induction places generalizing state with
  | nil => exact ⟨rfl, rfl, rfl⟩
  | cons place rest ih => exact (ih _).trans (sameNames_flagPartner state place)

theorem sameNames_mark (previous current : Model) :
    SameNames (mark previous current).1 previous := by
  refine (sameNames_foldl _ _).trans ⟨rfl, rfl, ?_⟩
  rw [List.map_map, List.map_map]
  refine List.map_congr_left fun owner _ => ?_
  rw [Function.comp_apply, Function.comp_apply, compareClass]
  split <;> rfl

end Names

end Marking

end ClassWeaver
