import ClassWeaver.Proofs.Model.Ordering

set_option autoImplicit false

/-!
What a definition builds, in full. Every entry becomes one class with the members that it lists, and the
roles of a class are the ends of associations that lie in it, in the order of the associations.

Main statement: `ModelDefinition.build_eq`, a definition with distinct class names that builds makes the
model that it describes, in which each end of an association refers to the role of the other end.
-/

namespace ClassWeaver

/-- The attribute of a definition, in its own style or else in a given one. -/
def AttributeDefinition.toAttribute (style : String) (definition : AttributeDefinition) : Attribute :=
  ⟨definition.name, definition.type, definition.initializer, definition.style.getD style, false⟩

def MethodDefinition.toMethod (definition : MethodDefinition) : Method :=
  ⟨definition.declaration, definition.body, false⟩

def AssociationDefinition.near (definition : AssociationDefinition) : Model.End :=
  ⟨definition.className, some definition.role, definition.cardinality⟩

namespace ModelDefinition

def endCount (className : String) (associations : List AssociationDefinition) : Nat :=
  (associations.flatMap fun association => [association.near, association.far]).countP
    (·.className == className)

/-- The place of the near end of an association behind the ends of earlier ones. -/
def nearPlace (earlier : List AssociationDefinition) (association : AssociationDefinition) : RoleRef :=
  ⟨association.className, endCount association.className earlier⟩

/-- The place of the far end, which in a class of both ends is behind the near one. -/
def farPlace (earlier : List AssociationDefinition) (association : AssociationDefinition) : RoleRef :=
  ⟨association.otherClass, endCount association.otherClass earlier
    + if association.className = association.otherClass then 1 else 0⟩

variable (definition : ModelDefinition)

/-- The role of an end, with the defaults of a definition, whose partner is at a place. -/
def roleOf (self : Model.End) (partner : RoleRef) : Role :=
  ⟨self.role, self.cardinality, definition.collection.getD standardCollection,
    definition.style.getD pojoStyle, some partner, false⟩

/-- The role of the near end of an association, which refers to the far one. -/
def nearRole (earlier : List AssociationDefinition) (association : AssociationDefinition) : Role :=
  definition.roleOf association.near (farPlace earlier association)

/-- The role of the far end of an association, which refers to the near one. -/
def farRole (earlier : List AssociationDefinition) (association : AssociationDefinition) : Role :=
  definition.roleOf association.far (nearPlace earlier association)

def rolesOf (className : String) (earlier : List AssociationDefinition)
    (association : AssociationDefinition) : List Role :=
  (if association.className = className then [definition.nearRole earlier association] else [])
    ++ if association.otherClass = className then [definition.farRole earlier association] else []

def rolesBehind (className : String) (earlier : List AssociationDefinition) :
    List AssociationDefinition → List Role
  | [] => []
  | association :: rest =>
    definition.rolesOf className earlier association
      ++ rolesBehind className (earlier ++ [association]) rest

def classOf (entry : ClassDefinition) (roles : List Role) : ModelClass :=
  ⟨entry.name, entry.superclass,
    entry.attributes.map (·.toAttribute (definition.style.getD pojoStyle)), roles,
    entry.methods.map (·.toMethod), false⟩

/-- The model that a definition describes, if it has some associations only. -/
def described (associations : List AssociationDefinition) : Model :=
  ⟨definition.package, definition.sourceFolder, definition.collection.getD standardCollection,
    definition.style.getD pojoStyle,
    definition.classes.map fun entry =>
      definition.classOf entry (definition.rolesBehind entry.name [] associations)⟩

end ModelDefinition

theorem Model.HasDistinctClasses.addRole_eq {model : Model} (distinct : model.HasDistinctClasses)
    (className : String) (role : Role) : model.addRole className role = { model with
      classes := model.classes.map fun owner =>
        { owner with roles := owner.roles ++ if className = owner.name then [role] else [] } } := by
  rw [Model.addRole, distinct.modifyClass_eq]
  congr 1
  refine List.map_congr_left fun owner _ => ?_
  by_cases named : owner.name = className
  · simp [named]
  · simp [named, Ne.symm named]

/-! ### Entries -/

section Entries

variable {style : String} {owner after : ModelClass}

theorem AttributeDefinition.eq_of_foldlM {definitions : List AttributeDefinition}
    (done : definitions.foldlM (fun owner property => property.extend style owner) owner = .ok after) :
    after = { owner with
      attributes := owner.attributes ++ definitions.map (·.toAttribute style) } := by
  refine eq_of_foldlM_concat (fun items => { owner with attributes := items })
    (·.toAttribute style) ?_ done
  intro items definition after added
  obtain ⟨-, -, added⟩ := exists_of_bind_eq_ok added
  split at added
  · cases added
  · exact (Except.ok.inj added).symm

theorem MethodDefinition.eq_of_foldlM {definitions : List MethodDefinition}
    (done : definitions.foldlM (fun owner method => method.extend owner) owner = .ok after) :
    after = { owner with methods := owner.methods ++ definitions.map (·.toMethod) } := by
  refine eq_of_foldlM_concat (fun items => { owner with methods := items })
    (·.toMethod) ?_ done
  intro items definition after added
  rw [extend] at added
  dsimp only at added
  split at added
  · cases added
  · exact (Except.ok.inj added).symm

theorem ClassDefinition.eq_of_make {entry : ClassDefinition} (done : entry.make style = .ok after) :
    after = ⟨entry.name, entry.superclass, entry.attributes.map (·.toAttribute style), [],
      entry.methods.map (·.toMethod), false⟩ := by
  obtain ⟨blank, created, done⟩ := exists_of_bind_eq_ok done
  obtain ⟨attributed, properties, done⟩ := exists_of_bind_eq_ok done
  obtain ⟨complete, methods, done⟩ := exists_of_bind_eq_ok done
  obtain ⟨-, -, created⟩ := exists_of_bind_eq_ok created
  obtain ⟨-, -, created⟩ := exists_of_bind_eq_ok created
  have first : blank = .ofName entry.name := (Except.ok.inj created).symm
  rw [MethodDefinition.eq_of_foldlM methods, AttributeDefinition.eq_of_foldlM properties, first] at done
  cases above : entry.superclass with
  | none =>
    rw [above] at done
    exact (Except.ok.inj done).symm
  | some superclass =>
    rw [above] at done
    obtain ⟨-, -, done⟩ := exists_of_bind_eq_ok done
    exact (Except.ok.inj done).symm

end Entries

namespace ModelDefinition

variable {definition : ModelDefinition} {className : String}
  {earlier associations : List AssociationDefinition}
  {association : AssociationDefinition} {model : Model} {owner : ModelClass}

/-! ### Roles -/

theorem endCount_append (className : String) (first second : List AssociationDefinition) :
    endCount className (first ++ second) = endCount className first + endCount className second := by
  rw [endCount, List.flatMap_append, List.countP_append]
  rfl

theorem length_rolesOf (definition : ModelDefinition) (className : String)
    (earlier : List AssociationDefinition) (association : AssociationDefinition) :
    (definition.rolesOf className earlier association).length = endCount className [association] := by
  by_cases near : association.className = className <;>
    by_cases far : association.otherClass = className <;>
      simp [rolesOf, endCount, AssociationDefinition.near, AssociationDefinition.far, near, far]

theorem length_rolesBehind (definition : ModelDefinition) (className : String)
    (earlier associations : List AssociationDefinition) :
    (definition.rolesBehind className earlier associations).length =
      endCount className associations := by
  induction associations generalizing earlier with
  | nil => rfl
  | cons association rest ih =>
    rw [rolesBehind, List.length_append, length_rolesOf, ih, ← endCount_append,
      List.singleton_append]

theorem rolesBehind_append (definition : ModelDefinition) (className : String)
    (earlier first second : List AssociationDefinition) :
    definition.rolesBehind className earlier (first ++ second) =
      definition.rolesBehind className earlier first
        ++ definition.rolesBehind className (earlier ++ first) second := by
  induction first generalizing earlier with
  | nil => simp [rolesBehind]
  | cons association first ih =>
    rw [List.cons_append, rolesBehind, rolesBehind, ih, List.append_assoc, List.append_assoc,
      List.singleton_append]

theorem rolesBehind_concat (definition : ModelDefinition) (className : String)
    (associations : List AssociationDefinition) (association : AssociationDefinition) :
    definition.rolesBehind className [] (associations ++ [association]) =
      definition.rolesBehind className [] associations
        ++ definition.rolesOf className associations association := by
  rw [rolesBehind_append, List.nil_append, rolesBehind, rolesBehind, List.append_nil]

theorem rolesBehind_of_eq (definition : ModelDefinition) (className : String)
    {later : List AssociationDefinition} (whole : associations = earlier ++ association :: later) :
    ∃ behind, definition.rolesBehind className [] associations =
      definition.rolesBehind className [] earlier
        ++ (definition.rolesOf className earlier association ++ behind) := by
  rw [whole, rolesBehind_append, List.nil_append, rolesBehind]
  exact ⟨_, rfl⟩

/-! ### Classes with roles -/

theorem class?_described (definition : ModelDefinition) (associations : List AssociationDefinition)
    (name : String) : (definition.described associations).class? name =
      (definition.classes.find? (·.name == name)).map fun entry =>
        definition.classOf entry (definition.rolesBehind entry.name [] associations) := by
  rw [Model.class?, described, List.find?_map]
  rfl

theorem roles_of_class?_described
    (known : (definition.described associations).class? className = some owner) :
    owner.roles = definition.rolesBehind className [] associations := by
  rw [class?_described] at known
  obtain ⟨entry, found, rfl⟩ := Option.map_eq_some_iff.mp known
  have named : entry.name = className := by simpa using List.find?_some found
  rw [← named]
  rfl

theorem isSome_class?_described (definition : ModelDefinition)
    (first second : List AssociationDefinition) (name : String) :
    ((definition.described first).class? name).isSome =
      ((definition.described second).class? name).isSome := by
  rw [class?_described, class?_described, Option.isSome_map, Option.isSome_map]

theorem hasDistinctClasses_described (distinct : (definition.classes.map (·.name)).Nodup)
    (associations : List AssociationDefinition) :
    (definition.described associations).HasDistinctClasses := by
  rw [Model.HasDistinctClasses, described, List.map_map]
  exact distinct

theorem addRole_described (distinct : (definition.classes.map (·.name)).Nodup)
    (earlier : List AssociationDefinition) (association : AssociationDefinition) :
    ((definition.described earlier).addRole association.className
        (definition.nearRole earlier association)).addRole association.otherClass
          (definition.farRole earlier association) =
      definition.described (earlier ++ [association]) := by
  have apart := hasDistinctClasses_described distinct earlier
  rw [(apart.addRole _ _).addRole_eq, apart.addRole_eq]
  simp only [described, List.map_map]
  congr 1
  refine List.map_congr_left fun entry _ => ?_
  simp only [Function.comp_apply, classOf, rolesBehind_concat, rolesOf, List.append_assoc]

theorem eq_of_build_association (distinct : (definition.classes.map (·.name)).Nodup)
    (joined : association.build (definition.described earlier) = .ok model) :
    model = definition.described (earlier ++ [association]) := by
  obtain ⟨a, b, knownA, knownB, -, -, rfl⟩ := Model.exists_of_associate joined
  have here : a.roles.length = endCount association.className earlier := by
    rw [roles_of_class?_described knownA, length_rolesBehind]
  have there : b.roles.length = endCount association.otherClass earlier := by
    rw [roles_of_class?_described knownB, length_rolesBehind]
    rfl
  have farPlaced : (⟨association.otherClass, if association.className = association.otherClass then
      a.roles.length + 1 else b.roles.length⟩ : RoleRef) = farPlace earlier association := by
    rw [here, there, farPlace]
    split
    · next same => rw [same]
    · rfl
  have nearPlaced :
      (⟨association.className, a.roles.length⟩ : RoleRef) = nearPlace earlier association := by
    rw [here, nearPlace]
  have near : (definition.described earlier).roleOf
      ⟨association.className, some association.role, association.cardinality⟩
      ⟨association.far.className, if association.className = association.far.className then
        a.roles.length + 1 else b.roles.length⟩ = definition.nearRole earlier association :=
    congrArg (definition.roleOf association.near) farPlaced
  have far : (definition.described earlier).roleOf association.far
      ⟨association.className, a.roles.length⟩ = definition.farRole earlier association :=
    congrArg (definition.roleOf association.far) nearPlaced
  rw [near, far]
  exact addRole_described distinct earlier association

theorem eq_of_start (begun : definition.start = .ok model) :
    model = { definition.described [] with classes := [] } := by
  obtain ⟨blank, opened, same⟩ := exists_of_bind_eq_ok begun
  obtain ⟨-, -, created⟩ := exists_of_bind_eq_ok opened
  rw [← Except.ok.inj same, ← Except.ok.inj created]
  rfl

theorem eq_of_foldlM_build (distinct : (definition.classes.map (·.name)).Nodup) {blank : Model}
    (begun : definition.start = .ok blank)
    (built : definition.classes.foldlM (fun model entry => entry.build model) blank = .ok model) :
    model = definition.described [] := by
  have empty := classes_of_start begun
  have fresh : ∀ entry ∈ definition.classes, blank.class? entry.name = none := by
    intro entry _
    rw [Model.class?, empty, List.find?_nil]
  rw [foldlM_build distinct fresh, eq_of_start begun] at built
  cases made : definition.classes.mapM
      (ClassDefinition.make (definition.described []).defaultStyle) with
  | error cause =>
    rw [made] at built
    cases built
  | ok owners =>
    have each := (mapM_eq_ok_iff.mp made).imp fun _ _ done => (ClassDefinition.eq_of_make done).symm
    have same : definition.classes.map (definition.classOf · []) = owners := by
      rw [← List.forall₂_eq_eq_eq, List.forall₂_map_left_iff]
      exact each
    rw [made] at built
    rw [← Except.ok.inj built, ← same]
    rfl

/-- What a definition with distinct class names builds is the model that it describes. -/
theorem eq_described (distinct : (definition.classes.map (·.name)).Nodup)
    (built : definition.build = .ok model) :
    model = definition.described definition.associations := by
  obtain ⟨blank, begun, built⟩ := exists_of_bind_eq_ok built
  obtain ⟨filled, classes, built⟩ := exists_of_bind_eq_ok built
  obtain ⟨-, -, joined⟩ := exists_of_bind_eq_ok built
  rw [eq_of_foldlM_build distinct begun classes] at joined
  have whole := eq_of_foldlM_concat definition.described id
    (fun _ _ _ added => eq_of_build_association distinct added) joined
  rwa [List.map_id, List.nil_append] at whole

theorem exists_joined_classes (distinct : (definition.classes.map (·.name)).Nodup)
    (built : definition.build = .ok model) {later : List AssociationDefinition}
    (whole : definition.associations = earlier ++ association :: later) :
    (∃ a, model.class? association.className = some a) ∧
      ∃ b, model.class? association.otherClass = some b := by
  have same := eq_described distinct built
  obtain ⟨blank, begun, built⟩ := exists_of_bind_eq_ok built
  obtain ⟨filled, classes, built⟩ := exists_of_bind_eq_ok built
  obtain ⟨-, -, joined⟩ := exists_of_bind_eq_ok built
  -- The associations are added up to this one, whose step asks for the two classes.
  rw [eq_of_foldlM_build distinct begun classes, whole, List.foldlM_append] at joined
  obtain ⟨before, front, joined⟩ := exists_of_bind_eq_ok joined
  obtain ⟨next, here, -⟩ := exists_of_bind_eq_ok joined
  have described := eq_of_foldlM_concat definition.described id
    (fun _ _ _ added => eq_of_build_association distinct added) front
  rw [described] at here
  obtain ⟨a, b, knownA, knownB, -⟩ := Model.exists_of_associate here
  have kept (name : String) := isSome_class?_described definition definition.associations
    ([] ++ earlier.map id) name
  rw [← same] at kept
  refine ⟨Option.isSome_iff_exists.mp ?_, Option.isSome_iff_exists.mp ?_⟩
  · rw [kept, knownA]
    rfl
  · rw [kept]
    exact Option.isSome_iff_exists.mpr ⟨b, knownB⟩

theorem role?_nearPlace {later : List AssociationDefinition}
    (whole : associations = earlier ++ association :: later)
    (known : (definition.described associations).class? association.className = some owner) :
    (definition.described associations).role? (nearPlace earlier association) =
      some (definition.nearRole earlier association) := by
  obtain ⟨behind, roles⟩ := rolesBehind_of_eq definition association.className whole
  rw [nearPlace, Model.role?, known, Option.bind_some, roles_of_class?_described known, roles,
    ← length_rolesBehind definition association.className [] earlier,
    List.getElem?_append_right (Nat.le_refl _), Nat.sub_self, rolesOf, if_pos rfl]
  rfl

theorem role?_farPlace {later : List AssociationDefinition}
    (whole : associations = earlier ++ association :: later)
    (known : (definition.described associations).class? association.otherClass = some owner) :
    (definition.described associations).role? (farPlace earlier association) =
      some (definition.farRole earlier association) := by
  obtain ⟨behind, roles⟩ := rolesBehind_of_eq definition association.otherClass whole
  rw [farPlace, Model.role?, known, Option.bind_some, roles_of_class?_described known, roles,
    ← length_rolesBehind definition association.otherClass [] earlier,
    List.getElem?_append_right (Nat.le_add_right _ _), Nat.add_sub_cancel_left, rolesOf, if_pos rfl]
  by_cases same : association.className = association.otherClass
  · rw [if_pos same, if_pos same]
    rfl
  · rw [if_neg same, if_neg same]
    rfl

/-- A definition with distinct class names builds the model that it describes: no entry, member or end is
lost or taken twice, at the place of each end there is its role, which refers to the place of the other
end, and every superclass is a class of the model. -/
theorem built_as_described (distinct : (definition.classes.map (·.name)).Nodup)
    (built : definition.build = .ok model) :
    model = definition.described definition.associations ∧
      (∀ earlier association later, definition.associations = earlier ++ association :: later →
        model.role? (nearPlace earlier association) =
            some (definition.nearRole earlier association) ∧
          model.role? (farPlace earlier association) =
            some (definition.farRole earlier association)) ∧
      ∀ entry ∈ definition.classes, ∀ superclass ∈ entry.superclass,
        (model.class? superclass).isSome = true := by
  have same := eq_described distinct built
  refine ⟨same, ?_, ?_⟩
  · intro earlier association later whole
    obtain ⟨⟨a, knownA⟩, b, knownB⟩ := exists_joined_classes distinct built whole
    rw [same] at knownA knownB ⊢
    exact ⟨role?_nearPlace whole knownA, role?_farPlace whole knownB⟩
  · intro entry listed superclass above
    obtain ⟨blank, begun, built⟩ := exists_of_bind_eq_ok built
    obtain ⟨filled, classes, built⟩ := exists_of_bind_eq_ok built
    obtain ⟨_, checked, -⟩ := exists_of_bind_eq_ok built
    rw [eq_of_foldlM_build distinct begun classes] at checked
    have known := checkSuperclasses_eq_ok.mp checked (definition.classOf entry [])
      (List.mem_map.mpr ⟨entry, listed, rfl⟩) superclass above
    rw [same, isSome_class?_described definition _ []]
    exact known

/-- A definition with associations of all kinds: of a class with itself under one name, from a class to
itself, between two classes, and from one to another. -/
private def university : ModelDefinition :=
  ⟨"org.example.uni", "src", none, some "HashSet",
    [⟨"University", none, [], []⟩, ⟨"Person", none, [⟨"name", "String", none, none⟩], []⟩,
      ⟨"Student", some "Person", [⟨"matNo", "int", some "0", some beanStyle⟩],
        [⟨"public int credits(int semester)", "return semester * 30;"⟩]⟩],
    [⟨"Person", "friends", .many, "Person", some "friends", .many⟩,
      ⟨"University", "students", .many, "Student", some "uni", .one⟩,
      ⟨"Person", "boss", .one, "Person", none, .many⟩,
      ⟨"Student", "tutor", .one, "Person", none, .many⟩]⟩

/-- The roles of the classes of the university, with their partners. -/
theorem university_is_built : ∃ model, university.build = .ok model ∧
    (model.classes.map fun owner => owner.roles.map fun role => (role.name, role.other)) =
      [[(some "students", some ⟨"Student", 0⟩)],
        [(some "friends", some ⟨"Person", 1⟩), (some "friends", some ⟨"Person", 0⟩),
          (some "boss", some ⟨"Person", 3⟩), (none, some ⟨"Person", 2⟩),
          (none, some ⟨"Student", 1⟩)],
        [(some "uni", some ⟨"University", 0⟩), (some "tutor", some ⟨"Person", 4⟩)]] := by
  have distinct : (university.classes.map (·.name)).Nodup := by decide
  have done : (university.build.map fun _ => ()) = .ok () := by decide
  cases built : university.build with
  | error cause =>
    rw [built] at done
    cases done
  | ok model =>
    obtain ⟨same, -, -⟩ := built_as_described distinct built
    refine ⟨model, rfl, ?_⟩
    rw [same]
    decide

end ModelDefinition

end ClassWeaver
