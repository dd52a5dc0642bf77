import ClassWeaver.Model.Definition
import ClassWeaver.Proofs.Model.Marking
import ClassWeaver.Proofs.Steps

set_option autoImplicit false

/-!
What building a model keeps up from step to step. Main statements: joining two classes puts a pair of
roles that refer to each other at two places that were free before, every step of building keeps a
consistent model consistent, and the model of a definition is consistent. What its files have in their
heads are names.
-/

namespace ClassWeaver

theorem mem_modifyFirst_of_find? {α : Type} {p : α → Bool} {change : α → α} {list : List α} {a : α}
    (found : a ∈ modifyFirst p change list) :
    a ∈ list ∨ ∃ b, list.find? p = some b ∧ a = change b := by
  induction list with
  | nil => cases found
  | cons first rest ih =>
    rw [modifyFirst] at found
    rw [List.find?_cons]
    by_cases hit : p first = true
    · rw [if_pos hit] at found
      rw [hit]
      rcases List.mem_cons.mp found with rfl | later
      · exact .inr ⟨first, rfl, rfl⟩
      · exact .inl (List.mem_cons_of_mem _ later)
    · rw [if_neg hit] at found
      rw [Bool.eq_false_iff.mpr hit]
      rcases List.mem_cons.mp found with rfl | later
      · exact .inl List.mem_cons_self
      · exact (ih later).imp_left (List.mem_cons_of_mem _)

theorem of_getElem?_concat {α : Type} {list : List α} {last a : α} {index : Nat}
    (there : (list ++ [last])[index]? = some a) :
    list[index]? = some a ∨ index = list.length ∧ a = last := by
  rw [List.getElem?_append] at there
  split at there
  · exact .inl there
  · obtain ⟨at_end, same⟩ := List.getElem?_eq_some_iff.mp there
    rw [List.length_singleton] at at_end
    exact .inr ⟨by omega, by simpa using same.symm⟩

namespace ModelClass

/-- The names of a class and its members are in order. No two members have one name, but for the two
ends of an association of the class with itself, and no two methods have one signature. -/
structure IsSound (owner : ModelClass) : Prop where
  simple : Name.isSimple owner.name = true
  visible : owner.name ∉ Name.javaLang
  attributes : (owner.attributes.map (·.name)).Nodup
  apart : ∀ property ∈ owner.attributes, ∀ role ∈ owner.roles, role.name ≠ some property.name
  shared : ∀ (i j : Nat) (a b : Role), owner.roles[i]? = some a → owner.roles[j]? = some b → i ≠ j →
    a.name.isSome = true → a.name = b.name → a.other = some ⟨owner.name, j⟩
  methods : owner.methods.Pairwise fun a b => a.signature ≠ b.signature

structure IsUnflagged (owner : ModelClass) : Prop where
  self : owner.modified = false
  attributes : ∀ property ∈ owner.attributes, property.modified = false
  roles : ∀ role ∈ owner.roles, role.modified = false
  methods : ∀ method ∈ owner.methods, method.modified = false

variable {owner : ModelClass}

theorem isUnflagged_ofName (name : String) : (ofName name).IsUnflagged :=
  ⟨rfl, nofun, nofun, nofun⟩

theorem isSound_ofName {name : String} (simple : Name.isSimple name = true)
    (visible : name ∉ Name.javaLang) : (ofName name).IsSound :=
  ⟨simple, visible, List.nodup_nil, nofun, nofun, .nil⟩

theorem ne_of_hasMember {name : String} (free : Model.hasMember owner name = false) :
    (∀ property ∈ owner.attributes, property.name ≠ name) ∧
      ∀ role ∈ owner.roles, role.name ≠ some name := by
  rw [Model.hasMember, Bool.or_eq_false_iff, Option.isSome_eq_false_iff, Option.isNone_iff_eq_none,
    Option.isSome_eq_false_iff, Option.isNone_iff_eq_none, attribute?, role?, List.find?_eq_none,
    List.find?_eq_none] at free
  exact ⟨by simpa using free.1, by simpa using free.2⟩

theorem hasMember_addRole (owner : ModelClass) (role : Role) (name : String) :
    Model.hasMember { owner with roles := owner.roles ++ [role] } name =
      (Model.hasMember owner name || role.name == some name) := by
  by_cases same : role.name = some name
  · simp [Model.hasMember, role?, attribute?, List.find?_append, same]
  · simp [Model.hasMember, role?, attribute?, List.find?_append, same]

theorem IsSound.addRole (sound : owner.IsSound) {role : Role}
    (apart : ∀ property ∈ owner.attributes, role.name ≠ some property.name)
    (shared : ∀ (i : Nat) (other : Role), owner.roles[i]? = some other → role.name.isSome = true →
      other.name = role.name →
        other.other = some ⟨owner.name, owner.roles.length⟩ ∧ role.other = some ⟨owner.name, i⟩) :
    IsSound { owner with roles := owner.roles ++ [role] } where
  simple := sound.simple
  visible := sound.visible
  attributes := sound.attributes
  apart := by
    intro property found other inside
    rcases List.mem_append.mp inside with old | new
    · exact sound.apart property found other old
    · rw [List.mem_singleton.mp new]
      exact apart property found
  shared := by
    intro i j a b at_i at_j differ isNamed same
    rcases of_getElem?_concat at_i with oldA | ⟨rfl, rfl⟩
    · rcases of_getElem?_concat at_j with oldB | ⟨rfl, rfl⟩
      · exact sound.shared i j a b oldA oldB differ isNamed same
      · exact (shared i a oldA (same ▸ isNamed) same).1
    · rcases of_getElem?_concat at_j with oldB | ⟨rfl, rfl⟩
      · exact (shared j b oldB isNamed same.symm).2
      · exact absurd rfl differ
  methods := sound.methods

theorem IsUnflagged.addRole (unflagged : owner.IsUnflagged) {role : Role}
    (bare : role.modified = false) :
    IsUnflagged { owner with roles := owner.roles ++ [role] } where
  self := unflagged.self
  attributes := unflagged.attributes
  roles := by
    intro other found
    rcases List.mem_append.mp found with old | new
    · exact unflagged.roles other old
    · rw [List.mem_singleton.mp new, bare]
  methods := unflagged.methods

end ModelClass

namespace Model

variable {model after : Model} {className : String}

theorem class?_modifyClass {change : ModelClass → ModelClass}
    (named : ∀ owner, model.class? className = some owner → (change owner).name = className)
    (name : String) : (model.modifyClass className change).class? name =
      if name = className then (model.class? className).map change else model.class? name := by
  rw [class?] at named
  rw [class?, modifyClass, class?, class?]
  dsimp only
  generalize model.classes = classes at named ⊢
  induction classes with
  | nil => simp [modifyFirst]
  | cons first rest ih =>
    rw [modifyFirst]
    by_cases hit : first.name = className
    · have kept := named first (by simp [hit])
      by_cases same : name = className
      · simp [hit, same, kept]
      · simp [hit, same, kept, Ne.symm same]
    · have later := ih fun owner found => named owner (by simpa [hit] using found)
      by_cases same : name = className
      · simpa [hit, same] using later
      · by_cases other : first.name = name
        · simp [same, other]
        · simpa [hit, same, other] using later

theorem role?_modifyClass {change : ModelClass → ModelClass}
    (named : ∀ owner, model.class? className = some owner → (change owner).name = className)
    (place : RoleRef) : (model.modifyClass className change).role? place =
      if place.className = className then
        (model.class? className).bind fun owner => (change owner).roles[place.index]?
      else model.role? place := by
  rw [role?, class?_modifyClass named]
  by_cases here : place.className = className
  · rw [if_pos here, if_pos here, Option.bind_map]
    rfl
  · rw [if_neg here, if_neg here, role?]

theorem role?_length {owner : ModelClass} (known : model.class? className = some owner) :
    model.role? ⟨className, owner.roles.length⟩ = none := by
  simp [role?, known]

theorem class?_addRole (className : String) (role : Role) (name : String) :
    (model.addRole className role).class? name =
      if name = className then
        (model.class? className).map fun owner => { owner with roles := owner.roles ++ [role] }
      else model.class? name :=
  @class?_modifyClass model className (fun owner => { owner with roles := owner.roles ++ [role] })
    (fun _ known => (name_of_class? known).2) name

theorem role?_addRole {owner : ModelClass} (known : model.class? className = some owner)
    (role : Role) (place : RoleRef) : (model.addRole className role).role? place =
      if place = ⟨className, owner.roles.length⟩ then some role else model.role? place := by
  obtain ⟨name, index⟩ := place
  rw [addRole, @role?_modifyClass model className
    (fun owner => { owner with roles := owner.roles ++ [role] })
    fun _ known => (name_of_class? known).2]
  by_cases here : name = className
  · subst here
    rw [if_pos rfl, known, Option.bind_some, role?, known, Option.bind_some, List.getElem?_append]
    rcases Nat.lt_trichotomy index owner.roles.length with inside | rfl | outside
    · simp [inside, Nat.ne_of_lt inside]
    · simp
    · simp [Nat.not_lt_of_gt outside, Nat.ne_of_gt outside, Nat.sub_ne_zero_of_lt outside]
  · rw [if_neg here, if_neg fun same => here (RoleRef.mk.inj same).1]

/-- The names of the classes are unique, the members of each class are in order, every role has a
partner at another place whose partner it is in turn, and no flag is set. The two ends of an
association have one style, and one of them has a name. -/
structure IsConsistent (model : Model) : Prop where
  distinct : model.HasDistinctClasses
  classes : ∀ owner ∈ model.classes, owner.IsSound
  linked : ∀ place role, model.role? place = some role →
    ∃ partner counterpart, role.other = some partner ∧ partner ≠ place ∧
      model.role? partner = some counterpart ∧ counterpart.other = some place ∧
      (role.name.isSome = true ∨ counterpart.name.isSome = true) ∧ role.style = counterpart.style
  unflagged : ∀ owner ∈ model.classes, owner.IsUnflagged

theorem IsConsistent.isLinked (consistent : model.IsConsistent) : model.IsLinked := by
  intro place role partner there linked
  obtain ⟨other, counterpart, same, -, found, back, -⟩ := consistent.linked place role there
  obtain rfl : other = partner := Option.some.inj (same.symm.trans linked)
  exact ⟨counterpart, found, back⟩

theorem IsConsistent.isUnflagged (consistent : model.IsConsistent) : model.IsUnflagged where
  classes := fun owner found => (consistent.unflagged owner found).self
  attributes := fun owner found => (consistent.unflagged owner found).attributes
  roles := fun owner found => (consistent.unflagged owner found).roles
  methods := fun owner found => (consistent.unflagged owner found).methods

theorem IsConsistent.kept (consistent : model.IsConsistent) :
    ∀ owner ∈ model.classes, owner.IsSound ∧ owner.IsUnflagged :=
  fun owner found => ⟨consistent.classes owner found, consistent.unflagged owner found⟩

theorem isConsistent_of_classes_eq_nil (empty : model.classes = []) : model.IsConsistent where
  distinct := by simp [HasDistinctClasses, empty]
  classes := by simp [empty]
  linked := by
    intro place role there
    simp [role?, class?, empty] at there
  unflagged := by simp [empty]

theorem IsConsistent.congr (consistent : model.IsConsistent) (same : after.classes = model.classes) :
    after.IsConsistent := by
  have roles (place : RoleRef) : after.role? place = model.role? place := by
    rw [role?, role?, class?, class?, same]
  exact {
    distinct := by
      rw [HasDistinctClasses, same]
      exact consistent.distinct
    classes := same ▸ consistent.classes
    linked := by
      intro place role there
      obtain ⟨partner, counterpart, linked, apart, found, rest⟩ :=
        consistent.linked place role (roles place ▸ there)
      exact ⟨partner, counterpart, linked, apart, (roles partner).trans found, rest⟩
    unflagged := same ▸ consistent.unflagged }

private theorem modifyClass_keeps (distinct : model.HasDistinctClasses)
    (sound : ∀ owner ∈ model.classes, owner.IsSound ∧ owner.IsUnflagged)
    {change : ModelClass → ModelClass}
    (kept : ∀ owner, model.class? className = some owner → (change owner).name = owner.name ∧
      (change owner).IsSound ∧ (change owner).IsUnflagged) :
    (model.modifyClass className change).HasDistinctClasses ∧
      ∀ owner ∈ (model.modifyClass className change).classes, owner.IsSound ∧ owner.IsUnflagged := by
  constructor
  · have names : ((model.modifyClass className change).classes.map (·.name)) =
        model.classes.map (·.name) := by
      rw [distinct.modifyClass_eq, List.map_map]
      refine List.map_congr_left fun owner found => ?_
      rw [Function.comp_apply]
      split
      · next hit =>
        have known := class?_of_mem distinct found
        rw [eq_of_beq hit] at known
        exact (kept owner known).1
      · rfl
    rw [HasDistinctClasses, names]
    exact distinct
  · intro owner found
    rcases mem_modifyFirst_of_find? found with old | ⟨before, known, rfl⟩
    · exact sound owner old
    · exact (kept before known).2

theorem IsConsistent.modifyClass (consistent : model.IsConsistent)
    {change : ModelClass → ModelClass}
    (kept : ∀ owner, model.class? className = some owner →
      (change owner).name = owner.name ∧ (change owner).roles = owner.roles ∧
        (change owner).IsSound ∧ (change owner).IsUnflagged) :
    (model.modifyClass className change).IsConsistent := by
  have roles (place : RoleRef) :
      (model.modifyClass className change).role? place = model.role? place := by
    rw [role?_modifyClass fun owner known => ((kept owner known).1).trans (name_of_class? known).2]
    split
    · next here =>
      rw [role?, here]
      cases known : model.class? className with
      | none => rfl
      | some owner => rw [Option.bind_some, Option.bind_some, (kept owner known).2.1]
    · rfl
  obtain ⟨distinct, sound⟩ := modifyClass_keeps consistent.distinct consistent.kept
    fun owner known => ⟨(kept owner known).1, (kept owner known).2.2⟩
  exact {
    distinct := distinct
    classes := fun owner found => (sound owner found).1
    linked := by
      intro place role there
      obtain ⟨partner, counterpart, linked, apart, found, rest⟩ :=
        consistent.linked place role (roles place ▸ there)
      exact ⟨partner, counterpart, linked, apart, (roles partner).trans found, rest⟩
    unflagged := fun owner found => (sound owner found).2 }

theorem exists_of_editClass {step : ModelClass → Except Error ModelClass}
    (done : model.editClass className step = .ok after) :
    ∃ owner changed, model.class? className = some owner ∧ step owner = .ok changed ∧
      after = model.modifyClass className fun _ => changed := by
  rw [Model.editClass] at done
  split at done
  · cases done
  · next owner known =>
    obtain ⟨changed, stepped, same⟩ := exists_of_bind_eq_ok done
    exact ⟨owner, changed, known, stepped, (Except.ok.inj same).symm⟩

theorem IsConsistent.editClass (consistent : model.IsConsistent)
    {step : ModelClass → Except Error ModelClass}
    (kept : ∀ owner changed, step owner = .ok changed → owner.IsSound → owner.IsUnflagged →
      changed.name = owner.name ∧ changed.roles = owner.roles ∧ changed.IsSound ∧
        changed.IsUnflagged)
    (done : model.editClass className step = .ok after) : after.IsConsistent := by
  obtain ⟨owner, changed, known, stepped, rfl⟩ := exists_of_editClass done
  refine consistent.modifyClass fun other here => ?_
  obtain rfl : owner = other := Option.some.inj (known.symm.trans here)
  have found := (name_of_class? known).1
  exact kept owner changed stepped (consistent.classes owner found) (consistent.unflagged owner found)

section Members

variable {name : String}

theorem isSimple_of_checkSimple
    (checked : (Name.checkSimple name).mapError Error.invalidName = .ok ()) :
    Name.isSimple name = true := by
  rw [Name.checkSimple] at checked
  split at checked
  · assumption
  · cases checked

theorem notMem_javaLang_of_checkJavaLang
    (checked : (Name.checkJavaLang name).mapError Error.invalidName = .ok ()) :
    name ∉ Name.javaLang := by
  rw [Name.checkJavaLang] at checked
  split at checked
  · cases checked
  · next visible => simpa using visible

theorem exists_of_ensureClass (done : model.ensureClass name = .ok after) :
    (model.class? name).isSome = true ∧ after = model ∨
      model.class? name = none ∧ Name.isSimple name = true ∧ name ∉ Name.javaLang ∧
        after = { model with classes := model.classes ++ [.ofName name] } := by
  rw [Model.ensureClass] at done
  split at done
  · next known => exact .inl ⟨known, (Except.ok.inj done).symm⟩
  · next missing =>
    obtain ⟨_, simple, done⟩ := exists_of_bind_eq_ok done
    obtain ⟨_, visible, done⟩ := exists_of_bind_eq_ok done
    exact .inr ⟨by simpa using missing, isSimple_of_checkSimple simple,
      notMem_javaLang_of_checkJavaLang visible, (Except.ok.inj done).symm⟩

theorem role?_append_ofName (model : Model) (name : String) (place : RoleRef) :
    role? { model with classes := model.classes ++ [.ofName name] } place = model.role? place := by
  rw [role?, role?, class?, class?, List.find?_append]
  cases found : model.classes.find? (·.name == place.className) with
  | some owner => rfl
  | none =>
    by_cases here : name = place.className
    · simp [ModelClass.ofName, here]
    · simp [ModelClass.ofName, here]

theorem IsConsistent.ensureClass (consistent : model.IsConsistent)
    (done : model.ensureClass name = .ok after) : after.IsConsistent := by
  rcases exists_of_ensureClass done with ⟨-, rfl⟩ | ⟨missing, simple, visible, rfl⟩
  · exact consistent
  · have fresh : name ∉ model.classes.map (·.name) := by
      simpa [class?, List.find?_eq_none] using missing
    exact {
      distinct := by
        rw [HasDistinctClasses, List.map_append, List.map_singleton, ← List.concat_eq_append]
        exact consistent.distinct.concat fresh
      classes := by
        intro owner found
        rcases List.mem_append.mp found with old | new
        · exact consistent.classes owner old
        · rw [List.mem_singleton.mp new]
          exact ModelClass.isSound_ofName simple visible
      linked := by
        intro place role there
        rw [role?_append_ofName] at there
        obtain ⟨partner, counterpart, linked, apart, found, rest⟩ :=
          consistent.linked place role there
        exact ⟨partner, counterpart, linked, apart,
          (role?_append_ofName model name partner).trans found, rest⟩
      unflagged := by
        intro owner found
        rcases List.mem_append.mp found with old | new
        · exact consistent.unflagged owner old
        · rw [List.mem_singleton.mp new]
          exact ModelClass.isUnflagged_ofName name }

theorem IsConsistent.addAttribute (consistent : model.IsConsistent) {type : String}
    {initializer : Option String}
    (done : model.addAttribute className name type initializer = .ok after) :
    after.IsConsistent := by
  refine consistent.editClass (fun owner changed stepped sound unflagged => ?_) done
  obtain ⟨-, -, stepped⟩ := exists_of_bind_eq_ok stepped
  split at stepped
  · cases stepped
  · next free =>
    obtain ⟨noAttribute, noRole⟩ := ModelClass.ne_of_hasMember (Bool.eq_false_iff.mpr free)
    have fresh : name ∉ owner.attributes.map (·.name) := by simpa using noAttribute
    rw [← Except.ok.inj stepped]
    refine ⟨rfl, rfl, ?_, ?_⟩
    · exact { sound with
        attributes := by
          rw [List.map_append, List.map_singleton, ← List.concat_eq_append]
          exact sound.attributes.concat fresh
        apart := by
          intro property found role inside
          rcases List.mem_append.mp found with old | new
          · exact sound.apart property old role inside
          · rw [List.mem_singleton.mp new]
            exact noRole role inside }
    · exact { unflagged with
        attributes := by
          intro property found
          rcases List.mem_append.mp found with old | new
          · exact unflagged.attributes property old
          · rw [List.mem_singleton.mp new] }

theorem map_restyleLast {α : Type} {f : Attribute → α} (style : String)
    (kept : ∀ property : Attribute, f { property with style := style } = f property)
    (attributes : List Attribute) : (restyleLast style attributes).map f = attributes.map f := by
  fun_induction restyleLast style attributes with
  | case1 => rfl
  | case2 last => rw [List.map_singleton, kept, List.map_singleton]
  | case3 first second rest ih => rw [List.map_cons, ih, ← List.map_cons]

theorem IsConsistent.setStyle (consistent : model.IsConsistent) (style : String) :
    (model.setStyle className style).IsConsistent := by
  refine consistent.modifyClass fun owner known => ⟨rfl, rfl, ?_, ?_⟩
  · have sound := consistent.classes owner (name_of_class? known).1
    have names := map_restyleLast style (f := (·.name)) (fun _ => rfl) owner.attributes
    exact { sound with
      attributes := by
        rw [names]
        exact sound.attributes
      apart := by
        intro property found
        have named : property.name ∈ owner.attributes.map (·.name) :=
          names ▸ List.mem_map_of_mem found
        obtain ⟨old, inside, same⟩ := List.mem_map.mp named
        rw [← same]
        exact sound.apart old inside }
  · have unflagged := consistent.unflagged owner (name_of_class? known).1
    have flags := map_restyleLast style (f := (·.modified)) (fun _ => rfl) owner.attributes
    exact { unflagged with
      attributes := by
        intro property found
        have flag : property.modified ∈ owner.attributes.map (·.modified) :=
          flags ▸ List.mem_map_of_mem found
        obtain ⟨old, inside, same⟩ := List.mem_map.mp flag
        rw [← same]
        exact unflagged.attributes old inside }

theorem IsConsistent.addMethod (consistent : model.IsConsistent) {declaration body : String}
    (done : model.addMethod className declaration body = .ok after) : after.IsConsistent := by
  refine consistent.editClass (fun owner changed stepped sound unflagged => ?_) done
  dsimp only at stepped
  split at stepped
  · cases stepped
  · next free =>
    rw [← Except.ok.inj stepped]
    refine ⟨rfl, rfl, ?_, ?_⟩
    · exact { sound with
        methods := by
          refine List.pairwise_append.mpr ⟨sound.methods, List.pairwise_singleton _ _, ?_⟩
          intro old inside new found
          rw [List.mem_singleton.mp found]
          rw [Bool.not_eq_true, List.any_eq_false] at free
          simpa [Method.sameSignature] using free old inside }
    · exact { unflagged with
        methods := by
          intro method found
          rcases List.mem_append.mp found with old | new
          · exact unflagged.methods method old
          · rw [List.mem_singleton.mp new] }

theorem IsConsistent.setSuperclass (consistent : model.IsConsistent) {superclass : String}
    (done : model.setSuperclass className superclass = .ok after) : after.IsConsistent := by
  refine consistent.editClass (fun owner changed stepped sound unflagged => ?_) done
  obtain ⟨-, -, stepped⟩ := exists_of_bind_eq_ok stepped
  rw [← Except.ok.inj stepped]
  exact ⟨rfl, rfl, { sound with }, { unflagged with }⟩

end Members

section Associations

private theorem addRole_keeps (distinct : model.HasDistinctClasses)
    (sound : ∀ owner ∈ model.classes, owner.IsSound ∧ owner.IsUnflagged) {role : Role}
    (kept : ∀ owner, model.class? className = some owner →
      ModelClass.IsSound { owner with roles := owner.roles ++ [role] })
    (bare : role.modified = false) :
    (model.addRole className role).HasDistinctClasses ∧
      ∀ owner ∈ (model.addRole className role).classes, owner.IsSound ∧ owner.IsUnflagged := by
  refine modifyClass_keeps distinct sound fun owner known => ⟨rfl, kept owner known, ?_⟩
  exact (sound owner (name_of_class? known).1).2.addRole bare

theorem role?_addRoles {near far : String} {first : Role} (second : Role) {a b : ModelClass}
    (knownA : model.class? near = some a) (knownB : (model.addRole near first).class? far = some b) :
    (⟨far, b.roles.length⟩ : RoleRef) ≠ ⟨near, a.roles.length⟩ ∧
      model.role? ⟨near, a.roles.length⟩ = none ∧ model.role? ⟨far, b.roles.length⟩ = none ∧
        ∀ place, ((model.addRole near first).addRole far second).role? place =
          if place = ⟨far, b.roles.length⟩ then some second
          else if place = ⟨near, a.roles.length⟩ then some first else model.role? place := by
  have free := role?_length knownB
  rw [role?_addRole knownA] at free
  have apart : (⟨far, b.roles.length⟩ : RoleRef) ≠ ⟨near, a.roles.length⟩ := by
    intro same
    rw [if_pos same] at free
    cases free
  rw [if_neg apart] at free
  refine ⟨apart, role?_length knownA, free, fun place => ?_⟩
  rw [role?_addRole knownB, role?_addRole knownA]

theorem IsConsistent.addRoles (consistent : model.IsConsistent) {near far : String}
    {first second : Role} {a b : ModelClass} (knownA : model.class? near = some a)
    (knownB : (model.addRole near first).class? far = some b)
    (forth : first.other = some ⟨far, b.roles.length⟩)
    (back : second.other = some ⟨near, a.roles.length⟩)
    (named : first.name.isSome = true) (styled : first.style = second.style)
    (bareFirst : first.modified = false) (bareSecond : second.modified = false)
    (freeFirst : ∀ name ∈ first.name, hasMember a name = false)
    (freeSecond : ∀ name ∈ second.name, near = far ∧ first.name = some name ∨
      hasMember b name = false) :
    ((model.addRole near first).addRole far second).IsConsistent := by
  obtain ⟨apart, freeNear, freeFar, roles⟩ := role?_addRoles second knownA knownB
  obtain ⟨label, labelled⟩ := Option.isSome_iff_exists.mp named
  obtain ⟨noAttribute, noRole⟩ := ModelClass.ne_of_hasMember (freeFirst label labelled)
  have soundFirst : ∀ owner, model.class? near = some owner →
      ModelClass.IsSound { owner with roles := owner.roles ++ [first] } := by
    intro owner known
    obtain rfl : a = owner := Option.some.inj (knownA.symm.trans known)
    refine (consistent.classes a (name_of_class? knownA).1).addRole ?_ ?_
    · intro property found same
      exact noAttribute property found (Option.some.inj (labelled.symm.trans same)).symm
    · intro index other at_index _ same
      exact absurd (same.trans labelled) (noRole other (List.mem_of_getElem? at_index))
  obtain ⟨distinctMid, soundMid⟩ := addRole_keeps consistent.distinct consistent.kept soundFirst
    bareFirst
  have soundSecond : ∀ owner, (model.addRole near first).class? far = some owner →
      ModelClass.IsSound { owner with roles := owner.roles ++ [second] } := by
    intro owner known
    obtain rfl : b = owner := Option.some.inj (knownB.symm.trans known)
    obtain ⟨inside, nameB⟩ := name_of_class? knownB
    -- the second name is free, or both ends of an association of a class with itself have it
    have clash {name : String} (same : second.name = some name) :
        hasMember b name = false ∨ near = far ∧ name = label ∧
          b = { a with roles := a.roles ++ [first] } := by
      rcases freeSecond name same with ⟨rfl, alike⟩ | free
      · rw [class?_addRole, if_pos rfl, knownA] at knownB
        exact .inr ⟨rfl, Option.some.inj (alike.symm.trans labelled), (Option.some.inj knownB).symm⟩
      · exact .inl free
    refine (soundMid b inside).1.addRole ?_ ?_
    · intro property found same
      rcases clash same with free | ⟨-, alike, rfl⟩
      · exact (ModelClass.ne_of_hasMember free).1 property found rfl
      · exact noAttribute property found alike
    · intro index other at_index isNamed same
      obtain ⟨name, called⟩ := Option.isSome_iff_exists.mp isNamed
      rcases clash called with free | ⟨rfl, rfl, rfl⟩
      · have unlike := (ModelClass.ne_of_hasMember free).2 other (List.mem_of_getElem? at_index)
        exact absurd (same.trans called) unlike
      · rcases of_getElem?_concat at_index with old | ⟨rfl, rfl⟩
        · exact absurd (same.trans called) (noRole other (List.mem_of_getElem? old))
        · exact ⟨nameB ▸ forth, nameB ▸ back⟩
  obtain ⟨distinct, sound⟩ := addRole_keeps distinctMid soundMid soundSecond bareSecond
  exact {
    distinct := distinct
    classes := fun owner found => (sound owner found).1
    linked := by
      intro place role there
      rw [roles] at there
      split at there
      · next here =>
        obtain rfl : second = role := Option.some.inj there
        refine ⟨_, first, back, here ▸ apart.symm, ?_, here ▸ forth, .inr named, styled.symm⟩
        rw [roles, if_neg apart.symm, if_pos rfl]
      · split at there
        · next other here =>
          obtain rfl : first = role := Option.some.inj there
          refine ⟨_, second, forth, here ▸ apart, ?_, here ▸ back, .inl named, styled⟩
          rw [roles, if_pos rfl]
        · obtain ⟨partner, counterpart, linked, differ, found, rest⟩ :=
            consistent.linked place role there
          refine ⟨partner, counterpart, linked, differ, ?_, rest⟩
          rw [roles, if_neg, if_neg, found]
          · rintro rfl
            exact nomatch freeNear.symm.trans found
          · rintro rfl
            exact nomatch freeFar.symm.trans found
    unflagged := fun owner found => (sound owner found).2 }

theorem exists_of_knownClass {name : String} (known : model.knownClass name = .ok ()) :
    ∃ owner, model.class? name = some owner := by
  rw [knownClass] at known
  split at known
  · next found => exact Option.isSome_iff_exists.mp found
  · cases known

theorem hasMember_of_checkFree {name : String} {owner : ModelClass}
    (free : model.checkFree className name = .ok ()) (known : model.class? className = some owner) :
    hasMember owner name = false := by
  rw [checkFree, known, Option.any_some] at free
  refine Bool.eq_false_iff.mpr fun taken => ?_
  rw [if_pos taken] at free
  cases free

theorem exists_of_associate {near role : String} {cardinality : Cardinality} {far : End}
    (done : model.associate near role cardinality far = .ok after) :
    ∃ a b, model.class? near = some a ∧ model.class? far.className = some b ∧
      hasMember a role = false ∧
      (∀ name ∈ far.role, near = far.className ∧ role = name ∨ hasMember b name = false) ∧
      after = (model.addRole near (model.roleOf ⟨near, some role, cardinality⟩ ⟨far.className,
          if near = far.className then a.roles.length + 1 else b.roles.length⟩)).addRole
        far.className (model.roleOf far ⟨near, a.roles.length⟩) := by
  have whole {a b : ModelClass} (knownA : model.class? near = some a)
      (knownB : model.class? far.className = some b)
      (made : (model.addRole near (model.roleOf ⟨near, some role, cardinality⟩ ⟨far.className,
          if near == far.className then model.roleCount near + 1
          else model.roleCount far.className⟩)).addRole far.className
            (model.roleOf far ⟨near, model.roleCount near⟩) = after) :
      after = (model.addRole near (model.roleOf ⟨near, some role, cardinality⟩ ⟨far.className,
          if near = far.className then a.roles.length + 1 else b.roles.length⟩)).addRole
        far.className (model.roleOf far ⟨near, a.roles.length⟩) := by
    rw [← made, roleCount, roleCount, knownA, knownB]
    simp only [beq_iff_eq, Option.map_some, Option.getD_some]
  rw [Model.associate] at done
  cases called : far.role with
  | none =>
    rw [called] at done
    obtain ⟨_, -, done⟩ := exists_of_bind_eq_ok done
    obtain ⟨_, knownNear, done⟩ := exists_of_bind_eq_ok done
    obtain ⟨_, knownFar, done⟩ := exists_of_bind_eq_ok done
    obtain ⟨_, freeNear, done⟩ := exists_of_bind_eq_ok done
    obtain ⟨a, knownA⟩ := exists_of_knownClass knownNear
    obtain ⟨b, knownB⟩ := exists_of_knownClass knownFar
    exact ⟨a, b, knownA, knownB, hasMember_of_checkFree freeNear knownA, nofun,
      whole knownA knownB (Except.ok.inj done)⟩
  | some name =>
    rw [called] at done
    obtain ⟨_, -, done⟩ := exists_of_bind_eq_ok done
    obtain ⟨_, -, done⟩ := exists_of_bind_eq_ok done
    obtain ⟨_, knownNear, done⟩ := exists_of_bind_eq_ok done
    obtain ⟨_, knownFar, done⟩ := exists_of_bind_eq_ok done
    obtain ⟨_, freeNear, done⟩ := exists_of_bind_eq_ok done
    obtain ⟨a, knownA⟩ := exists_of_knownClass knownNear
    obtain ⟨b, knownB⟩ := exists_of_knownClass knownFar
    refine ⟨a, b, knownA, knownB, hasMember_of_checkFree freeNear knownA, ?_⟩
    dsimp only at done
    split at done
    · obtain ⟨_, freeFar, done⟩ := exists_of_bind_eq_ok done
      refine ⟨?_, whole knownA knownB (Except.ok.inj done)⟩
      rintro other ⟨⟩
      exact .inr (hasMember_of_checkFree freeFar knownB)
    · next alike =>
      refine ⟨?_, whole knownA knownB (Except.ok.inj done)⟩
      rintro other ⟨⟩
      exact .inl (by simpa using alike)

theorem IsConsistent.associate (consistent : model.IsConsistent) {near role : String}
    {cardinality : Cardinality} {far : End}
    (done : model.associate near role cardinality far = .ok after) : after.IsConsistent := by
  obtain ⟨a, b, knownA, knownB, freeA, freeB, rfl⟩ := exists_of_associate done
  have freeNear : ∀ name ∈ some role, hasMember a name = false := by
    rintro name ⟨⟩
    exact freeA
  by_cases self : near = far.className
  · -- the class has the first role when the second one joins it
    rw [if_pos self]
    obtain rfl : a = b := Option.some.inj (knownA.symm.trans (self ▸ knownB))
    let first := model.roleOf ⟨near, some role, cardinality⟩ ⟨far.className, a.roles.length + 1⟩
    have knownMid : (model.addRole near first).class? far.className =
        some { a with roles := a.roles ++ [first] } := by
      rw [class?_addRole, if_pos self.symm, knownA, Option.map_some]
    refine consistent.addRoles knownA knownMid (by simp [roleOf, first]) rfl rfl rfl rfl rfl freeNear ?_
    intro name called
    by_cases same : role = name
    · exact .inl ⟨self, congrArg some same⟩
    · rcases freeB name called with ⟨-, alike⟩ | free
      · exact absurd alike same
      · refine .inr ?_
        rw [ModelClass.hasMember_addRole, free]
        simpa [roleOf, first] using same
  · rw [if_neg self]
    have knownMid : (model.addRole near (model.roleOf ⟨near, some role, cardinality⟩
        ⟨far.className, b.roles.length⟩)).class? far.className = some b := by
      rw [class?_addRole, if_neg (Ne.symm self), knownB]
    refine consistent.addRoles knownA knownMid rfl rfl rfl rfl rfl rfl freeNear ?_
    intro name called
    rcases freeB name called with ⟨alike, -⟩ | free
    · exact absurd alike self
    · exact .inr free

end Associations

def HasSimpleNames (model : Model) : Prop :=
  ∀ owner ∈ model.classes, Name.isSimple owner.name = true

end Model

variable {model after : Model}

theorem AttributeDefinition.isConsistent_build {definition : AttributeDefinition}
    {className : String} (done : definition.build className model = .ok after)
    (consistent : model.IsConsistent) : after.IsConsistent := by
  obtain ⟨extended, added, done⟩ := exists_of_bind_eq_ok done
  have kept := consistent.addAttribute added
  split at done
  · rwa [← Except.ok.inj done]
  · rw [← Except.ok.inj done]
    exact kept.setStyle _

theorem ClassDefinition.isConsistent_build {definition : ClassDefinition}
    (done : definition.build model = .ok after) (consistent : model.IsConsistent) :
    after.IsConsistent := by
  obtain ⟨ensured, here, done⟩ := exists_of_bind_eq_ok done
  obtain ⟨attributed, properties, done⟩ := exists_of_bind_eq_ok done
  obtain ⟨complete, methods, done⟩ := exists_of_bind_eq_ok done
  have withClass := consistent.ensureClass here
  have withAttributes := foldlM_keeps Model.IsConsistent
    (fun _ _ _ _ added kept => AttributeDefinition.isConsistent_build added kept) properties
    withClass
  have withMethods := foldlM_keeps Model.IsConsistent
    (fun _ _ _ _ added kept => kept.addMethod added) methods withAttributes
  split at done
  · rwa [← Except.ok.inj done]
  · exact withMethods.setSuperclass done

theorem ModelDefinition.classes_of_start {definition : ModelDefinition}
    (begun : definition.start = .ok model) : model.classes = [] := by
  obtain ⟨blank, opened, same⟩ := exists_of_bind_eq_ok begun
  obtain ⟨-, -, same'⟩ := exists_of_bind_eq_ok opened
  rw [← Except.ok.inj same, ← Except.ok.inj same']
  rfl

/-- The model of a definition is consistent. -/
theorem ModelDefinition.isConsistent_build {definition : ModelDefinition}
    (built : definition.build = .ok model) : model.IsConsistent := by
  obtain ⟨started, begun, built⟩ := exists_of_bind_eq_ok built
  obtain ⟨filled, classes, built⟩ := exists_of_bind_eq_ok built
  obtain ⟨-, -, associations⟩ := exists_of_bind_eq_ok built
  have withClasses := foldlM_keeps Model.IsConsistent
    (fun _ _ _ _ added kept => ClassDefinition.isConsistent_build added kept) classes
    (Model.isConsistent_of_classes_eq_nil (classes_of_start begun))
  exact foldlM_keeps Model.IsConsistent (fun _ _ _ _ joined kept => kept.associate joined)
    associations withClasses

theorem ModelDefinition.hasSimpleNames_build {definition : ModelDefinition}
    (built : definition.build = .ok model) : model.HasSimpleNames :=
  fun owner found => ((isConsistent_build built).classes owner found).simple

namespace Model

/-- The package has a qualified name, and the superclasses have simple ones. -/
structure HasGoodHeads (model : Model) : Prop where
  package : Name.isQualified model.package = true
  superclasses : ∀ owner ∈ model.classes, ∀ parent ∈ owner.superclass, Name.isSimple parent = true

variable {className : String}

theorem HasGoodHeads.modifyClass (good : model.HasGoodHeads) {change : ModelClass → ModelClass}
    (kept : ∀ owner ∈ model.classes, ∀ parent ∈ (change owner).superclass,
      Name.isSimple parent = true) : (model.modifyClass className change).HasGoodHeads where
  package := good.package
  superclasses := by
    intro owner found
    rcases mem_modifyFirst_of_find? found with old | ⟨before, known, rfl⟩
    · exact good.superclasses owner old
    · exact kept before (List.mem_of_find?_eq_some known)

theorem HasGoodHeads.editClass (good : model.HasGoodHeads)
    {step : ModelClass → Except Error ModelClass}
    (kept : ∀ owner changed, step owner = .ok changed → changed.superclass = owner.superclass)
    (done : model.editClass className step = .ok after) : after.HasGoodHeads := by
  obtain ⟨owner, changed, known, stepped, rfl⟩ := exists_of_editClass done
  refine good.modifyClass fun _ _ => ?_
  rw [kept owner changed stepped]
  exact good.superclasses owner (name_of_class? known).1

theorem HasGoodHeads.setSuperclass (good : model.HasGoodHeads) {superclass : String}
    (done : model.setSuperclass className superclass = .ok after) : after.HasGoodHeads := by
  obtain ⟨owner, changed, -, stepped, rfl⟩ := exists_of_editClass done
  obtain ⟨_, checked, stepped⟩ := exists_of_bind_eq_ok stepped
  rw [← Except.ok.inj stepped]
  refine good.modifyClass fun _ _ parent same => ?_
  rw [← Option.some.inj same]
  exact isSimple_of_checkSimple checked

theorem HasGoodHeads.ensureClass (good : model.HasGoodHeads) {name : String}
    (done : model.ensureClass name = .ok after) : after.HasGoodHeads := by
  rcases exists_of_ensureClass done with ⟨-, rfl⟩ | ⟨-, -, -, rfl⟩
  · exact good
  · refine ⟨good.package, fun owner found => ?_⟩
    rcases List.mem_append.mp found with old | new
    · exact good.superclasses owner old
    · rw [List.mem_singleton.mp new]
      intro parent extended
      cases extended

theorem HasGoodHeads.addAttribute (good : model.HasGoodHeads) {name type : String}
    {initializer : Option String}
    (done : model.addAttribute className name type initializer = .ok after) :
    after.HasGoodHeads := by
  refine good.editClass (fun owner changed stepped => ?_) done
  obtain ⟨-, -, stepped⟩ := exists_of_bind_eq_ok stepped
  split at stepped
  · cases stepped
  · rw [← Except.ok.inj stepped]

theorem HasGoodHeads.addMethod (good : model.HasGoodHeads) {declaration body : String}
    (done : model.addMethod className declaration body = .ok after) : after.HasGoodHeads := by
  refine good.editClass (fun owner changed stepped => ?_) done
  dsimp only at stepped
  split at stepped
  · cases stepped
  · rw [← Except.ok.inj stepped]

theorem HasGoodHeads.addRole (good : model.HasGoodHeads) (className : String) (role : Role) :
    (model.addRole className role).HasGoodHeads :=
  good.modifyClass good.superclasses

theorem HasGoodHeads.associate (good : model.HasGoodHeads) {near role : String}
    {cardinality : Cardinality} {far : End}
    (done : model.associate near role cardinality far = .ok after) : after.HasGoodHeads := by
  obtain ⟨-, -, -, -, -, -, rfl⟩ := exists_of_associate done
  exact (good.addRole _ _).addRole _ _

end Model

theorem AttributeDefinition.hasGoodHeads_build {definition : AttributeDefinition}
    {className : String} (done : definition.build className model = .ok after)
    (good : model.HasGoodHeads) : after.HasGoodHeads := by
  obtain ⟨extended, added, done⟩ := exists_of_bind_eq_ok done
  have kept := good.addAttribute added
  split at done
  · rwa [← Except.ok.inj done]
  · rw [← Except.ok.inj done]
    exact kept.modifyClass kept.superclasses

theorem ClassDefinition.hasGoodHeads_build {definition : ClassDefinition}
    (done : definition.build model = .ok after) (good : model.HasGoodHeads) :
    after.HasGoodHeads := by
  obtain ⟨ensured, here, done⟩ := exists_of_bind_eq_ok done
  obtain ⟨attributed, properties, done⟩ := exists_of_bind_eq_ok done
  obtain ⟨complete, methods, done⟩ := exists_of_bind_eq_ok done
  have withAttributes := foldlM_keeps Model.HasGoodHeads
    (fun _ _ _ _ added kept => AttributeDefinition.hasGoodHeads_build added kept) properties
    (good.ensureClass here)
  have withMethods := foldlM_keeps Model.HasGoodHeads
    (fun _ _ _ _ added kept => kept.addMethod added) methods withAttributes
  split at done
  · rwa [← Except.ok.inj done]
  · exact withMethods.setSuperclass done

theorem ModelDefinition.hasGoodHeads_build {definition : ModelDefinition}
    (built : definition.build = .ok model) : model.HasGoodHeads := by
  obtain ⟨started, begun, built⟩ := exists_of_bind_eq_ok built
  obtain ⟨filled, classes, built⟩ := exists_of_bind_eq_ok built
  obtain ⟨-, -, associations⟩ := exists_of_bind_eq_ok built
  have first : started.HasGoodHeads := by
    obtain ⟨blank, opened, same⟩ := exists_of_bind_eq_ok begun
    obtain ⟨_, checked, same'⟩ := exists_of_bind_eq_ok opened
    rw [← Except.ok.inj same, ← Except.ok.inj same']
    refine ⟨?_, fun owner found => by cases found⟩
    rw [Name.checkQualified] at checked
    split at checked
    · assumption
    · cases checked
  have withClasses := foldlM_keeps Model.HasGoodHeads
    (fun _ _ _ _ added kept => ClassDefinition.hasGoodHeads_build added kept) classes first
  exact foldlM_keeps Model.HasGoodHeads (fun _ _ _ _ joined kept => kept.associate joined)
    associations withClasses

end ClassWeaver
