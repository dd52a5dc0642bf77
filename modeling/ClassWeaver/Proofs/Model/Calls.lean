import ClassWeaver.Proofs.Model.Removal

set_option autoImplicit false

/-!
Sessions of building: calls in any order, of which some fail. Main statements: a call that fails
leaves the model as it was, apart from a class that it had just created, every session leaves a
consistent model, and removing classes afterwards unlinks the roles with partners in them and no
others.
-/

namespace ClassWeaver

inductive ClassCall where
  | property (name type : String) (initializer : Option String)
  | restyle (style : String)
  | method (declaration body : String)
  | extend (superclass : String)
  deriving DecidableEq, Repr

/-- A call in a session of building. An association that can be followed from one end only has no
name at the other end, which has one partner. -/
inductive BuildCall where
  | defaultStyle (style : String)
  | defaultCollection (collection : String)
  | createClass (name : String)
  | onClass (name : String) (call : ClassCall)
  | association (className role : String) (cardinality : Cardinality)
      (otherClass otherRole : String) (otherCardinality : Cardinality)
  | oneWay (className role : String) (cardinality : Cardinality) (otherClass : String)
  deriving DecidableEq, Repr

def ClassCall.apply (call : ClassCall) (className : String) (model : Model) : Except Error Model :=
  match call with
  | .property name type initializer => model.addAttribute className name type initializer
  | .restyle style => .ok (model.setStyle className style)
  | .method declaration body => model.addMethod className declaration body
  | .extend superclass => model.setSuperclass className superclass

namespace Model

def settle (before : Model) : Except Error Model → Model × Option Error
  | .ok after => (after, none)
  | .error cause => (before, some cause)

/-- Performs a call. A call on a class creates it first if need be, and the class stays even if the
rest of the call fails. -/
def perform (model : Model) : BuildCall → Model × Option Error
  | .defaultStyle style => ({ model with defaultStyle := style }, none)
  | .defaultCollection collection => ({ model with defaultCollection := collection }, none)
  | .createClass name => model.settle (model.ensureClass name)
  | .onClass name call =>
    match model.ensureClass name with
    | .ok ready => ready.settle (call.apply name ready)
    | .error cause => (model, some cause)
  | .association className role cardinality otherClass otherRole otherCardinality =>
    model.settle
      (model.associate className role cardinality ⟨otherClass, some otherRole, otherCardinality⟩)
  | .oneWay className role cardinality otherClass =>
    model.settle (model.associate className role cardinality ⟨otherClass, none, .one⟩)

/-- Performs the calls of a session, going on after those that fail. -/
def performAll (model : Model) (calls : List BuildCall) : Model :=
  calls.foldl (fun model call => (model.perform call).1) model

variable {model : Model}

theorem settle_keeps {keeps : Model → Prop} (before : keeps model) {result : Except Error Model}
    (success : ∀ after, result = .ok after → keeps after) : keeps (model.settle result).1 := by
  cases result with
  | ok after => exact success after rfl
  | error cause => exact before

theorem settle_failed {result : Except Error Model} {cause : Error}
    (failed : (model.settle result).2 = some cause) : (model.settle result).1 = model := by
  cases result with
  | ok after => cases failed
  | error cause => rfl

theorem IsConsistent.apply (consistent : model.IsConsistent) {call : ClassCall}
    {className : String} {after : Model} (done : call.apply className model = .ok after) :
    after.IsConsistent := by
  cases call with
  | property name type initializer => exact consistent.addAttribute done
  | restyle style =>
    rw [← Except.ok.inj done]
    exact consistent.setStyle style
  | method declaration body => exact consistent.addMethod done
  | extend superclass => exact consistent.setSuperclass done

theorem IsConsistent.perform (consistent : model.IsConsistent) (call : BuildCall) :
    (model.perform call).1.IsConsistent := by
  cases call with
  | defaultStyle style => exact consistent.congr rfl
  | defaultCollection collection => exact consistent.congr rfl
  | createClass name => exact settle_keeps consistent fun _ done => consistent.ensureClass done
  | onClass name call =>
    rw [Model.perform]
    split
    · next ready created =>
      have prepared := consistent.ensureClass created
      exact settle_keeps prepared fun _ done => prepared.apply done
    · exact consistent
  | association className role cardinality otherClass otherRole otherCardinality =>
    exact settle_keeps consistent fun _ done => consistent.associate done
  | oneWay className role cardinality otherClass =>
    exact settle_keeps consistent fun _ done => consistent.associate done

theorem IsConsistent.performAll (consistent : model.IsConsistent) (calls : List BuildCall) :
    (model.performAll calls).IsConsistent := by
  rw [Model.performAll]
  induction calls generalizing model with
  | nil => exact consistent
  | cons call rest ih => exact ih (consistent.perform call)

/-- A call that fails changes nothing, unless it is on a class that it has created. -/
theorem perform_failed {call : BuildCall} {cause : Error}
    (failed : (model.perform call).2 = some cause) :
    (model.perform call).1 = model ∨
      ∃ name step, call = .onClass name step ∧ model.class? name = none ∧
        (model.perform call).1 = { model with classes := model.classes ++ [.ofName name] } := by
  cases call with
  | defaultStyle style => cases failed
  | defaultCollection collection => cases failed
  | createClass name => exact .inl (settle_failed failed)
  | onClass name call =>
    rw [perform] at failed ⊢
    split at failed
    · next ready created =>
      rw [settle_failed failed]
      rcases exists_of_ensureClass created with ⟨-, rfl⟩ | ⟨missing, -, -, rfl⟩
      · exact .inl rfl
      · exact .inr ⟨name, call, rfl, missing, rfl⟩
    · exact .inl rfl
  | association className role cardinality otherClass otherRole otherCardinality =>
    exact .inl (settle_failed failed)
  | oneWay className role cardinality otherClass => exact .inl (settle_failed failed)

/-- After classes are removed from a consistent model, a role that is still there has its partner and
is the partner's partner, unless the partner went with its class. -/
theorem IsConsistent.removeClasses (consistent : model.IsConsistent) {names : List String}
    {place : RoleRef} {role : Role} (there : (model.removeClasses names).role? place = some role) :
    ∃ before partner, model.role? place = some before ∧ before.other = some partner ∧
      (partner.className ∈ names ∧ role.other = none ∨
        partner.className ∉ names ∧ role.other = some partner ∧
          ∃ counterpart, (model.removeClasses names).role? partner = some counterpart ∧
            counterpart.other = some place) := by
  have linked := consistent.isLinked.removeClasses consistent.distinct names
  have before := there
  rw [role?_removeClasses consistent.distinct consistent.isLinked] at before
  split at before
  · cases before
  · obtain ⟨old, found, rfl⟩ := Option.map_eq_some_iff.mp before
    obtain ⟨partner, -, other, -⟩ := consistent.linked place old found
    refine ⟨old, partner, found, other, ?_⟩
    by_cases gone : partner.className ∈ names
    · exact .inl ⟨gone, by simp [Role.unlinkAll, other, Option.filter_some, gone]⟩
    · have kept : (old.unlinkAll names).other = some partner := by
        simp [Role.unlinkAll, other, Option.filter_some, gone]
      exact .inr ⟨gone, kept, linked place _ partner there kept⟩

theorem isConsistent_of_start {package folder : String} (begun : start package folder = .ok model) :
    model.IsConsistent := by
  obtain ⟨-, -, same⟩ := exists_of_bind_eq_ok begun
  rw [← Except.ok.inj same]
  exact isConsistent_of_classes_eq_nil rfl

/-- Whatever is called on a new model, in whatever order and with whatever success, the model that
results is consistent, the next call that fails leaves it as it is but for a class that the call has
just created, and once classes are removed from it, exactly the roles with partners in them are
without partners, while the others are still joined in pairs. -/
theorem isConsistent_session {package folder : String} (begun : start package folder = .ok model)
    (calls : List BuildCall) :
    (model.performAll calls).IsConsistent ∧
      (∀ call cause, ((model.performAll calls).perform call).2 = some cause →
        ((model.performAll calls).perform call).1 = model.performAll calls ∨
          ∃ name step, call = .onClass name step ∧ (model.performAll calls).class? name = none ∧
            ((model.performAll calls).perform call).1 =
              { model.performAll calls with
                classes := (model.performAll calls).classes ++ [.ofName name] }) ∧
      ∀ names place role, ((model.performAll calls).removeClasses names).role? place = some role →
        ∃ before partner, (model.performAll calls).role? place = some before ∧
          before.other = some partner ∧
          (partner.className ∈ names ∧ role.other = none ∨
            partner.className ∉ names ∧ role.other = some partner ∧
              ∃ counterpart,
                ((model.performAll calls).removeClasses names).role? partner = some counterpart ∧
                  counterpart.other = some place) :=
  have consistent := (isConsistent_of_start begun).performAll calls
  ⟨consistent, fun _ _ failed => perform_failed failed,
    fun _ _ _ there => consistent.removeClasses there⟩

/-- People with friends among themselves, pets that do not know their owners, and calls that fail. -/
def friendsAndPets : List BuildCall :=
  [.createClass "Person", .onClass "Person" (.property "name" "String" none),
    .onClass "Person" (.property "name" "int" none),
    .association "Person" "friends" .many "Person" "friends" .many,
    .association "Person" "name" .one "Person" "boss" .many,
    .onClass "Pet" (.property "1st" "String" none),
    .oneWay "Person" "pets" .many "Pet", .createClass "String"]

theorem friends_stay_without_pets :
    ((ofPackage "p" "src").performAll friendsAndPets).IsConsistent ∧
      ((ofPackage "p" "src").performAll friendsAndPets).class? "Food" = none ∧
      (∃ before partner, ((ofPackage "p" "src").performAll friendsAndPets).role? ⟨"Person", 2⟩ =
        some before ∧ before.other = some partner ∧ partner.className ∈ ["Pet"]) ∧
      ∃ counterpart, (((ofPackage "p" "src").performAll friendsAndPets).removeClasses ["Pet"]).role?
        ⟨"Person", 1⟩ = some counterpart ∧ counterpart.other = some ⟨"Person", 0⟩ := by
  have begun : start "p" "src" = .ok (ofPackage "p" "src") := by decide
  obtain ⟨consistent, failing, removal⟩ := isConsistent_session begun friendsAndPets
  refine ⟨consistent, ?_, ?_, ?_⟩
  · -- a name with a blank is refused, but the class for it has been created
    have refused : (((ofPackage "p" "src").performAll friendsAndPets).perform
        (.onClass "Food" (.property "a b" "int" none))).2 =
          some (.invalidName (.notSimple "a b")) := by decide
    rcases failing _ _ refused with same | ⟨name, step, called, missing, -⟩
    · exact absurd same (by decide)
    · rw [(BuildCall.onClass.inj called).1]
      exact missing
  · let pets : Role := ⟨some "pets", .many, standardCollection, pojoStyle, none, false⟩
    have there : (((ofPackage "p" "src").performAll friendsAndPets).removeClasses ["Pet"]).role?
        ⟨"Person", 2⟩ = some pets := by decide
    obtain ⟨before, partner, found, other, ⟨gone, -⟩ | ⟨-, linked, -⟩⟩ := removal _ _ _ there
    · exact ⟨before, partner, found, other, gone⟩
    · cases linked
  · let friends : Role :=
      ⟨some "friends", .many, standardCollection, pojoStyle, some ⟨"Person", 1⟩, false⟩
    have there : (((ofPackage "p" "src").performAll friendsAndPets).removeClasses ["Pet"]).role?
        ⟨"Person", 0⟩ = some friends := by decide
    obtain ⟨_, _, _, _, ⟨-, alone⟩ | ⟨-, linked, counterpart, found, back⟩⟩ := removal _ _ _ there
    · cases alone
    · cases linked
      exact ⟨counterpart, found, back⟩

end Model

end ClassWeaver
