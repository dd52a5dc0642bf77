import ClassWeaver.Proofs.Model.Building

set_option autoImplicit false

/-!
What comparing a model with itself flags. Main statement: of a consistent model nothing is flagged
and nothing is listed exactly if the roles of a class that share a name agree on how many partners
they have.
-/

namespace ClassWeaver

namespace Model

variable {model : Model} {owner : ModelClass}

/-- The roles of each class that share a name agree on how many partners they have. -/
def HasAgreeingNames (model : Model) : Prop :=
  ∀ owner ∈ model.classes, ∀ a ∈ owner.roles, ∀ b ∈ owner.roles, a.name.isSome = true →
    a.name = b.name → a.cardinality = b.cardinality

instance (model : Model) : Decidable model.HasAgreeingNames :=
  inferInstanceAs (Decidable (∀ owner ∈ model.classes, ∀ a ∈ owner.roles, ∀ b ∈ owner.roles,
    a.name.isSome = true → a.name = b.name → a.cardinality = b.cardinality))

theorem IsConsistent.exists_counterpart (consistent : model.IsConsistent)
    (found : owner ∈ model.classes) {index : Nat} {role : Role}
    (at_index : owner.roles[index]? = some role) :
    ∃ partner counterpart, role.other = some partner ∧ model.role? partner = some counterpart ∧
      counterpart.other = some ⟨owner.name, index⟩ ∧
      (role.name.isSome = true ∨ counterpart.name.isSome = true) ∧
      role.style = counterpart.style := by
  have there := (role?_of_mem consistent.distinct found index).trans at_index
  obtain ⟨partner, counterpart, linked, -, rest⟩ := consistent.linked _ _ there
  exact ⟨partner, counterpart, linked, rest⟩

theorem IsConsistent.alike_of_name (consistent : model.IsConsistent)
    (found : owner ∈ model.classes) {a b : Role} (insideA : a ∈ owner.roles)
    (insideB : b ∈ owner.roles) (named : a.name.isSome = true) (same : a.name = b.name) :
    a.style = b.style ∧ Marking.partnerClass a = Marking.partnerClass b := by
  obtain ⟨i, at_i⟩ := List.mem_iff_getElem?.mp insideA
  obtain ⟨j, at_j⟩ := List.mem_iff_getElem?.mp insideB
  by_cases one : i = j
  · subst one
    obtain rfl : a = b := Option.some.inj (at_i.symm.trans at_j)
    exact ⟨rfl, rfl⟩
  · have shared := (consistent.classes owner found).shared
    have forth := shared i j a b at_i at_j one named same
    have back := shared j i b a at_j at_i (Ne.symm one) (same ▸ named) same.symm
    obtain ⟨partner, counterpart, linked, there, -, -, styled⟩ :=
      consistent.exists_counterpart found at_i
    obtain rfl : ⟨owner.name, j⟩ = partner := Option.some.inj (forth.symm.trans linked)
    rw [role?_of_mem consistent.distinct found, at_j] at there
    obtain rfl : b = counterpart := Option.some.inj there
    have partners : Marking.partnerClass a = Marking.partnerClass b := by
      rw [Marking.partnerClass, Marking.partnerClass, forth, back, Option.map_some, Option.map_some]
    exact ⟨styled, partners⟩

theorem IsConsistent.eq_of_unnamed (consistent : model.IsConsistent)
    (found : owner ∈ model.classes) {a b : Role} (insideA : a ∈ owner.roles)
    (insideB : b ∈ owner.roles) (bare : a.name = none)
    (partners : Marking.partnerClass a = Marking.partnerClass b)
    (counterparts : Marking.counterpartName model a = Marking.counterpartName model b) : a = b := by
  obtain ⟨i, at_i⟩ := List.mem_iff_getElem?.mp insideA
  obtain ⟨j, at_j⟩ := List.mem_iff_getElem?.mp insideB
  obtain ⟨⟨home, m⟩, farA, linkA, thereA, backA, namedA, -⟩ :=
    consistent.exists_counterpart found at_i
  obtain ⟨⟨home', n⟩, farB, linkB, thereB, backB, -, -⟩ := consistent.exists_counterpart found at_j
  rw [Marking.partnerClass, Marking.partnerClass, linkA, linkB] at partners
  obtain rfl : home = home' := Option.some.inj partners
  rw [Marking.counterpartName, Marking.counterpartName, otherRole?, otherRole?, linkA, linkB,
    Option.bind_some, Option.bind_some, thereA, thereB] at counterparts
  have sameName : farA.name = farB.name := counterparts
  have isNamed : farA.name.isSome = true := namedA.resolve_left (by simp [bare])
  obtain ⟨other, known, at_m⟩ := Option.bind_eq_some_iff.mp thereA
  obtain ⟨inside, rfl⟩ := name_of_class? known
  have at_n : other.roles[n]? = some farB :=
    (role?_of_mem consistent.distinct inside n).symm.trans thereB
  by_cases one : m = n
  · subst one
    obtain rfl : farA = farB := Option.some.inj (at_m.symm.trans at_n)
    obtain ⟨-, rfl⟩ := RoleRef.mk.inj (Option.some.inj (backA.symm.trans backB))
    exact Option.some.inj (at_i.symm.trans at_j)
  · -- two partners with one name would be each other's partners, and not those of `a` and `b`
    have pair := (consistent.classes other inside).shared m n farA farB at_m at_n one isNamed
      sameName
    have here := (role?_of_mem consistent.distinct found i).trans at_i
    rw [Option.some.inj (backA.symm.trans pair), thereB] at here
    obtain rfl : farB = a := Option.some.inj here
    rw [sameName, bare] at isNamed
    cases isNamed

end Model

namespace Marking

variable {model : Model} {owner : ModelClass}

theorem attributeChanged_self (consistent : model.IsConsistent) (found : owner ∈ model.classes)
    {property : Attribute} (inside : property ∈ owner.attributes) :
    attributeChanged owner property = false := by
  have distinct := (consistent.classes owner found).attributes
  have first : owner.attribute? property.name = some property := by
    rw [ModelClass.attribute?]
    generalize owner.attributes = attributes at distinct inside
    induction attributes with
    | nil => cases inside
    | cons other rest ih =>
      obtain ⟨fresh, later⟩ := List.nodup_cons.mp distinct
      rcases List.mem_cons.mp inside with rfl | old
      · rw [List.find?_cons_of_pos (by simp)]
      · have unlike : other.name ≠ property.name := fun same =>
          fresh (List.mem_map.mpr ⟨property, old, same.symm⟩)
        rw [List.find?_cons_of_neg (by simpa using unlike), ih later old]
  rw [attributeChanged, first]
  simp

theorem methodChanged_self {method : Method} (inside : method ∈ owner.methods) :
    methodChanged owner method = false := by
  rw [methodChanged, Bool.not_eq_false', List.any_eq_true]
  exact ⟨method, inside, beq_self_eq_true _⟩

theorem exists_matching? (consistent : model.IsConsistent) (found : owner ∈ model.classes)
    {role : Role} (inside : role ∈ owner.roles) :
    ∃ same ∈ owner.roles, matching? model model owner role = some same ∧ same.name = role.name ∧
      same.style = role.style ∧ partnerClass same = partnerClass role ∧
      (role.name = none → same = role) := by
  cases called : role.name with
  | some name =>
    have hit : (owner.role? role.name).isSome = true := by
      rw [ModelClass.role?, List.find?_isSome]
      exact ⟨role, inside, beq_self_eq_true _⟩
    obtain ⟨same, first⟩ := Option.isSome_iff_exists.mp hit
    have there := List.mem_of_find?_eq_some first
    have sameName : same.name = role.name := by
      rw [ModelClass.role?] at first
      simpa using List.find?_some first
    obtain ⟨style, partner⟩ :=
      consistent.alike_of_name found there inside (by rw [sameName, called]; rfl) sameName
    have matched : matching? model model owner role = some same := by
      rw [matching?, if_pos (by rw [called]; rfl)]
      exact first
    exact ⟨same, there, matched, sameName.trans called, style, partner, fun bare => by cases bare⟩
  | none =>
    let stands (new : Role) : Bool := new.name.isNone && partnerClass new == partnerClass role
      && counterpartName model new == counterpartName model role
    have hit : (owner.roles.find? stands).isSome = true := by
      rw [List.find?_isSome]
      exact ⟨role, inside, by simp [stands, called]⟩
    obtain ⟨same, first⟩ := Option.isSome_iff_exists.mp hit
    have there := List.mem_of_find?_eq_some first
    have conditions := List.find?_some first
    simp only [stands, Bool.and_eq_true, beq_iff_eq, Option.isNone_iff_eq_none] at conditions
    obtain ⟨⟨bare, partner⟩, counterpart⟩ := conditions
    obtain rfl : same = role :=
      consistent.eq_of_unnamed found there inside bare partner counterpart
    have matched : matching? model model owner same = some same := by
      rw [matching?, if_neg (by simp [called])]
      exact first
    exact ⟨same, there, matched, called, rfl, rfl, fun _ => rfl⟩

theorem isLost_self (consistent : model.IsConsistent) (agreeing : model.HasAgreeingNames)
    {place : RoleRef} {role : Role} (there : model.role? place = some role) :
    isLost model model place = false := by
  obtain ⟨owner, known, at_index⟩ := Option.bind_eq_some_iff.mp there
  have found := (Model.name_of_class? known).1
  have inside := List.mem_of_getElem? at_index
  obtain ⟨same, inside', matched, sameName, style, partner, bare⟩ :=
    exists_matching? consistent found inside
  have cardinality : same.cardinality = role.cardinality := by
    cases called : role.name with
    | none => rw [bare called]
    | some name =>
      exact agreeing owner found same inside' role inside (by rw [sameName, called]; rfl) sameName
  rw [isLost, known, there, Option.all_some, Option.any_some, roleChanged, matched]
  simp [style, partner, cardinality]

theorem flaggedClass_self (consistent : model.IsConsistent) (agreeing : model.HasAgreeingNames)
    (found : owner ∈ model.classes) : flaggedClass model model owner = owner := by
  have unflagged := consistent.unflagged owner found
  have known := Model.class?_of_mem consistent.distinct found
  have attributes : (owner.attributes.map fun property =>
      { property with modified := attributeChanged owner property }) = owner.attributes := by
    rw [List.map_congr_left (g := id), List.map_id]
    intro property inside
    rw [attributeChanged_self consistent found inside, ← unflagged.attributes property inside, id]
  have methods : (owner.methods.map fun method =>
      { method with modified := methodChanged owner method }) = owner.methods := by
    rw [List.map_congr_left (g := id), List.map_id]
    intro method inside
    rw [methodChanged_self inside, ← unflagged.methods method inside, id]
  have roles : (owner.roles.mapIdx fun index role =>
      { role with modified := isLost model model ⟨owner.name, index⟩
        || role.other.any (isLost model model) }) = owner.roles := by
    apply List.ext_getElem?
    intro index
    rw [List.getElem?_mapIdx]
    cases at_index : owner.roles[index]? with
    | none => rfl
    | some role =>
      have there := (Model.role?_of_mem consistent.distinct found index).trans at_index
      obtain ⟨partner, counterpart, linked, there', -⟩ :=
        consistent.exists_counterpart found at_index
      rw [Option.map_some, isLost_self consistent agreeing there, linked, Option.any_some,
        isLost_self consistent agreeing there', Bool.or_false, ← linked,
        ← unflagged.roles role (List.mem_of_getElem? at_index)]
  rw [flaggedClass, known]
  simp only [Option.all_some, attributes, methods, roles, Bool.not_and_self, ← unflagged.self]

theorem listingOf_of_isUnflagged (current : Model) (unflagged : owner.IsUnflagged) :
    listingOf current owner = [] := by
  have attributes : owner.attributes.filter (·.modified) = [] :=
    List.filter_eq_nil_iff.mpr fun property inside => by simp [unflagged.attributes property inside]
  have roles : owner.roles.filter (·.modified) = [] :=
    List.filter_eq_nil_iff.mpr fun role inside => by simp [unflagged.roles role inside]
  have methods : owner.methods.filter (·.modified) = [] :=
    List.filter_eq_nil_iff.mpr fun method inside => by simp [unflagged.methods method inside]
  rw [listingOf, unflagged.self, attributes, roles, methods]
  simp

/-- Comparing a model with itself flags nothing and lists nothing, unless two roles of a class share
a name and differ in how many partners they have: the first of them is taken for both. -/
theorem mark_self_iff (consistent : model.IsConsistent) :
    mark model model = (model, []) ↔ model.HasAgreeingNames := by
  have first := @mark_fst model model consistent.distinct consistent.isLinked
    consistent.isUnflagged
  constructor
  · intro clean owner found a insideA b insideB named same
    have known := Model.class?_of_mem consistent.distinct found
    have there : owner ∈ (mark model model).1.classes := by rwa [clean]
    have current := isCurrent_mark there known
    have bare := consistent.unflagged owner found
    obtain ⟨newA, foundA, cardinalityA, -⟩ :=
      exists_of_roleChanged (current.roles a insideA (bare.roles a insideA))
    obtain ⟨newB, foundB, cardinalityB, -⟩ :=
      exists_of_roleChanged (current.roles b insideB (bare.roles b insideB))
    rw [matching?, if_pos named] at foundA
    rw [matching?, if_pos (same ▸ named), ← same, foundA] at foundB
    rw [← cardinalityA, ← cardinalityB, Option.some.inj foundB]
  · intro agreeing
    have kept : model.classes.map (flaggedClass model model) = model.classes := by
      rw [List.map_congr_left (g := id), List.map_id]
      exact fun owner found => flaggedClass_self consistent agreeing found
    rw [kept] at first
    have listed := @mark_snd model model consistent.distinct consistent.isLinked
      consistent.isUnflagged
    have nothing : listing model model = [] := List.flatMap_eq_nil_iff.mpr fun owner found =>
      listingOf_of_isUnflagged model (consistent.unflagged owner found)
    rw [first, nothing] at listed
    exact Prod.ext first listed.eq_nil

end Marking

/-- Running again with the definition that the previous model was built from purges nothing, unless
the two ends of an association of a class with itself share a name and differ in how many partners
they have. -/
theorem ModelDefinition.mark_self_iff {definition : ModelDefinition} {model : Model}
    (built : definition.build = .ok model) :
    Marking.mark model model = (model, []) ↔ model.HasAgreeingNames :=
  Marking.mark_self_iff (isConsistent_build built)

end ClassWeaver
