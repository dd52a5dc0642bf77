import ClassWeaver.Proofs.Model.Building

set_option autoImplicit false

/-!
What removing classes leaves behind. Main statement: the roles of the removed classes are gone, and a
role of another class is as it was, but for a partner in one of them.
-/

namespace ClassWeaver

/-- A role loses its partner if the partner belongs to one of the classes that go. -/
def Role.unlinkAll (names : List String) (role : Role) : Role :=
  { role with other := role.other.filter fun partner => !names.contains partner.className }

theorem Role.unlinkAll_nil (role : Role) : role.unlinkAll [] = role := by
  obtain ⟨_, _, _, _, _ | _, _⟩ := role <;> rfl

theorem Role.unlinkAll_unlink (name : String) (names : List String) (role : Role) :
    (Model.unlink name role).unlinkAll names = role.unlinkAll (name :: names) := by
  obtain ⟨label, cardinality, collection, style, _ | partner, flag⟩ := role
  · rfl
  · by_cases gone : partner.className = name
    · simp [Model.unlink, unlinkAll, gone, Option.filter_some]
    · simp [Model.unlink, unlinkAll, gone, Option.filter_some]

namespace Model

variable {model : Model} {name : String}

def removeClasses (names : List String) (model : Model) : Model :=
  names.foldl (fun model name => (model.removeClass name).2) model

theorem other_unlink (role : Role) (partner : RoleRef) :
    (unlink name role).other = some partner ↔
      role.other = some partner ∧ partner.className ≠ name := by
  rw [unlink]
  split
  · next gone =>
    refine ⟨nofun, ?_⟩
    rintro ⟨linked, apart⟩
    rw [linked, Option.any_some, beq_iff_eq] at gone
    exact absurd gone apart
  · next kept =>
    refine ⟨fun linked => ⟨linked, ?_⟩, And.left⟩
    rintro rfl
    exact kept (by simp [linked])

private theorem find?_eraseP {classes : List ModelClass} (distinct : (classes.map (·.name)).Nodup)
    (other : String) : (classes.eraseP (·.name == name)).find? (·.name == other) =
      if other = name then none else classes.find? (·.name == other) := by
  induction classes with
  | nil => simp
  | cons first rest ih =>
    obtain ⟨fresh, later⟩ := List.nodup_cons.mp distinct
    by_cases hit : first.name = name
    · rw [List.eraseP_cons_of_pos (by simpa using hit)]
      split
      · next same =>
        rw [List.find?_eq_none]
        intro owner found alike
        have clash : owner.name = first.name := by rw [eq_of_beq alike, same, hit]
        exact fresh (List.mem_map.mpr ⟨owner, found, clash⟩)
      · next apart => rw [List.find?_cons_of_neg (by simpa [hit] using Ne.symm apart)]
    · rw [List.eraseP_cons_of_neg (by simpa using hit), List.find?_cons, List.find?_cons, ih later]
      by_cases here : first.name = other
      · simp [here, here ▸ hit]
      · rw [beq_false_of_ne here]

private theorem class?_removeClass (distinct : model.HasDistinctClasses) {removed : ModelClass}
    (known : model.class? name = some removed) (other : String) :
    (model.removeClass name).2.class? other = if other = name then none else
      (model.class? other).map fun owner =>
        { owner with roles := owner.roles.map (unlink name) } := by
  rw [removeClass, known, class?, class?]
  dsimp only
  rw [List.find?_map, Function.comp_def]
  dsimp only
  rw [find?_eraseP distinct]
  split
  · rfl
  · rfl

theorem isSome_class?_of_other (linked : model.IsLinked) {place partner : RoleRef} {role : Role}
    (there : model.role? place = some role) (other : role.other = some partner) :
    (model.class? partner.className).isSome = true := by
  obtain ⟨counterpart, found, -⟩ := linked place role partner there other
  obtain ⟨owner, known, -⟩ := Option.bind_eq_some_iff.mp found
  rw [known, Option.isSome_some]

theorem role?_removeClass (distinct : model.HasDistinctClasses) (linked : model.IsLinked)
    (name : String) (place : RoleRef) : (model.removeClass name).2.role? place =
      if place.className = name then none else (model.role? place).map (unlink name) := by
  cases known : model.class? name with
  | some removed =>
    rw [role?, class?_removeClass distinct known]
    split
    · rfl
    · rw [role?, Option.bind_map, Option.map_bind]
      congr 1
      funext owner
      exact List.getElem?_map
  | none =>
    -- nothing is removed, and no role refers to the class that is missing
    have same : (model.removeClass name).2 = model := by rw [removeClass, known]
    rw [same]
    split
    · next here => rw [role?, here, known, Option.bind_none]
    · cases there : model.role? place with
      | none => rfl
      | some role =>
        have kept : unlink name role = role := by
          rw [unlink, if_neg]
          rw [Option.any_eq_true]
          rintro ⟨partner, other, gone⟩
          have present := isSome_class?_of_other linked there other
          rw [eq_of_beq gone, known] at present
          cases present
        rw [Option.map_some, kept]

theorem HasDistinctClasses.removeClass (distinct : model.HasDistinctClasses) (name : String) :
    (model.removeClass name).2.HasDistinctClasses := by
  rw [Model.removeClass]
  split
  · exact distinct
  · rw [HasDistinctClasses, List.map_map]
    exact (List.eraseP_sublist.map _).nodup distinct

theorem IsLinked.removeClass (linked : model.IsLinked) (distinct : model.HasDistinctClasses)
    (name : String) : (model.removeClass name).2.IsLinked := by
  intro place role partner there other
  rw [role?_removeClass distinct linked] at there
  split at there
  · cases there
  · next apart =>
    obtain ⟨before, found, rfl⟩ := Option.map_eq_some_iff.mp there
    obtain ⟨forth, stays⟩ := (other_unlink before partner).mp other
    obtain ⟨counterpart, present, back⟩ := linked place before partner found forth
    refine ⟨unlink name counterpart, ?_, (other_unlink counterpart place).mpr ⟨back, apart⟩⟩
    rw [role?_removeClass distinct linked, if_neg stays, present, Option.map_some]

theorem role?_removeClasses (distinct : model.HasDistinctClasses) (linked : model.IsLinked)
    (names : List String) (place : RoleRef) : (model.removeClasses names).role? place =
      if place.className ∈ names then none else (model.role? place).map (Role.unlinkAll names) := by
  rw [removeClasses]
  induction names generalizing model with
  | nil =>
    rw [List.foldl_nil, if_neg List.not_mem_nil, funext Role.unlinkAll_nil]
    exact (Option.map_id').symm
  | cons name rest ih =>
    rw [List.foldl_cons, ih (distinct.removeClass name) (linked.removeClass distinct name),
      role?_removeClass distinct linked]
    by_cases first : place.className = name
    · simp [first]
    · by_cases later : place.className ∈ rest
      · simp [later]
      · simp [first, later, Function.comp_def, Role.unlinkAll_unlink]

theorem IsLinked.removeClasses (linked : model.IsLinked) (distinct : model.HasDistinctClasses)
    (names : List String) : (model.removeClasses names).IsLinked := by
  rw [Model.removeClasses]
  induction names generalizing model with
  | nil => exact linked
  | cons name rest ih =>
    exact ih (linked.removeClass distinct name) (distinct.removeClass name)

end Model

end ClassWeaver
