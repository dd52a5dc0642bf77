import ClassWeaver.Model.Builder
import ClassWeaver.Proofs.Name
import ClassWeaver.Proofs.TypeText

set_option autoImplicit false

/-!
Classes whose names, types and texts can be printed into source files and read back from there.
-/

namespace ClassWeaver

def Text.isDotted (text : String) : Bool :=
  text.toList.all fun c => isAlphabetic c || isNumeric c || c == '.'

def Name.isPlainClass (name : String) : Bool :=
  isPlain name && ! Text.contains name.toList "implements".toList

/-- An attribute with a plain name, a type of the usual form and a simple initializer. -/
structure Attribute.IsPlain (property : Attribute) : Prop where
  name : Name.isPlain property.name = true
  type : TypeText.IsType property.type.toList
  initializer : ∀ content ∈ property.initializer, Text.isDotted content = true

structure Role.IsPlain (role : Role) : Prop where
  name : ∀ name ∈ role.name, Name.isPlain name = true
  collection : Text.isDotted role.collection = true

/-- A class with plain names and members and without methods that were declared by hand. -/
structure ModelClass.IsPlain (owner : ModelClass) : Prop where
  name : Name.isPlainClass owner.name = true
  superclass : ∀ parent ∈ owner.superclass, Name.isPlainClass parent = true
  attributes : ∀ property ∈ owner.attributes, property.IsPlain
  roles : ∀ role ∈ owner.roles, role.IsPlain
  methods : owner.methods = []

namespace Text

open Fragment.Source (isNeutral)

theorem isNeutral_of_isDotted {text : String} (dotted : isDotted text = true) :
    ∀ c ∈ text.toList, isNeutral c = true := by
  intro c found
  have here := List.all_eq_true.mp dotted c found
  by_cases dot : c = '.'
  · rw [dot]
    decide
  · apply Name.isNeutral_of_isPart
    rw [Name.isPart]
    rw [beq_false_of_ne dot, Bool.or_false] at here
    rw [here]
    rfl

end Text

namespace Name

theorem isPlain_of_isPlainClass {name : String} (plain : isPlainClass name = true) :
    isPlain name = true :=
  (Bool.and_eq_true_iff.mp plain).1

theorem isDeclarable_of_isPlainClass {name : String} (plain : isPlainClass name = true) :
    Fragment.IsDeclarable name.toList := by
  obtain ⟨simple, noClause⟩ := Bool.and_eq_true_iff.mp plain
  exact isDeclarable_of_isPlain simple (by simpa using noClause)

theorem isType_of_isPlain {name : String} (plain : isPlain name = true) :
    TypeText.IsType name.toList :=
  .named (isQualified_of_isSimple (of_isPlain plain).1)

end Name

end ClassWeaver
