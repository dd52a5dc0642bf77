import ClassWeaver.Proofs.Generation.Completeness
import ClassWeaver.Proofs.Generation.Declarations
import ClassWeaver.Proofs.Model.Flags

set_option autoImplicit false

/-!
What generation asks for whatever the flags are. Flags say which members go, but a class addresses
the same members and imports with them as without them. Main statements: classes that differ in
their flags only have the same member keys and imports, and one is printable if the other one is.
-/

namespace ClassWeaver

open Fragment (Key)

namespace Element

def unmarked : Element → Element
  | ofAttribute property => ofAttribute property.unmarked
  | ofRole name role => ofRole name role.unmarked
  | ofMethod method => ofMethod method.unmarked

theorem keys_unmarked (kind : FileKind) (model later : Model) {owner now : ModelClass}
    (named : owner.name = now.name) (element : Element) :
    element.unmarked.keys kind model owner = element.keys kind later now := by
  cases element with
  | ofAttribute property => exact keys_ofAttribute rfl rfl
  | ofRole name role => exact keys_ofRole rfl rfl
  | ofMethod method => exact keys_ofMethod rfl named

theorem propertyName?_unmarked (element : Element) :
    element.unmarked.propertyName? = element.propertyName? := by
  cases element <;> rfl

end Element

namespace ModelClass

variable {a b owner : ModelClass}

theorem elements_unmarked (owner : ModelClass) :
    owner.unmarked.elements = owner.elements.map Element.unmarked := by
  simp only [elements, namedRoles_unmarked, List.map_append, List.map_map]
  simp only [unmarked, List.map_map]
  rfl

theorem elements_congr (alike : a.unmarked = b.unmarked) :
    a.elements.map Element.unmarked = b.elements.map Element.unmarked := by
  rw [← elements_unmarked, alike, elements_unmarked]

theorem IsSpent.isFlagged {element : Element} (spent : owner.IsSpent)
    (inside : element ∈ owner.elements) : element.isFlagged = true := by
  cases element with
  | ofAttribute property => exact spent.attributes property (mem_elements_ofAttribute.mp inside)
  | ofRole name role =>
    obtain ⟨there, named⟩ := mem_roles_of_mem_namedRoles (mem_elements_ofRole.mp inside)
    exact spent.roles role there (by rw [named]; rfl)
  | ofMethod method => exact spent.methods method (mem_elements_ofMethod.mp inside)

theorem IsPrintable.congr {model later : Model} (printable : a.IsPrintable model)
    (alike : b.unmarked = a.unmarked) (models : later.unmarked = model.unmarked) :
    b.IsPrintable later where
  name := name_congr alike ▸ printable.name
  superclass := by
    have same : b.superclass = a.superclass := (congrArg ModelClass.superclass alike :)
    exact same ▸ printable.superclass
  attributes := by
    intro property found
    obtain ⟨other, inside, same⟩ := exists_attribute_of_alike alike found
    obtain ⟨name, type, initializer⟩ := printable.attributes other inside
    have named : other.name = property.name := (congrArg Attribute.name same :)
    have typed : other.type = property.type := (congrArg Attribute.type same :)
    have set : other.initializer = property.initializer := (congrArg Attribute.initializer same :)
    exact ⟨named ▸ name, typed ▸ type, set ▸ initializer⟩
  roles := by
    intro role found
    obtain ⟨other, inside, same⟩ := exists_role_of_alike alike found
    obtain ⟨name, collection⟩ := printable.roles other inside
    have named : other.name = role.name := (congrArg Role.name same :)
    have kept : other.collection = role.collection := (congrArg Role.collection same :)
    exact ⟨named ▸ name, kept ▸ collection⟩
  methods := by
    have same : b.methods.map Method.unmarked = a.methods.map Method.unmarked :=
      (congrArg ModelClass.methods alike :)
    rwa [printable.methods, List.map_nil, List.map_eq_nil_iff] at same
  partner := by
    intro role found place linked
    obtain ⟨other, inside, same⟩ := exists_role_of_alike alike found
    exact printable.partner other inside place ((congrArg Role.other same).trans linked)
  counterpart := by
    intro role found place linked name named
    obtain ⟨other, inside, same⟩ := exists_role_of_alike alike found
    refine printable.counterpart other inside place ((congrArg Role.other same).trans linked) name ?_
    have names : ((later.role? place).map Role.unmarked).bind (·.name) =
        ((model.role? place).map Role.unmarked).bind (·.name) := by
      rw [Model.role?_congr models]
    rw [Option.bind_map, Option.bind_map] at names
    exact names.symm.trans named

end ModelClass

namespace FileKind

variable {kind : FileKind} {model later : Model} {owner a b : ModelClass}

def memberKeys (kind : FileKind) (model : Model) (owner : ModelClass) : List Key :=
  owner.elements.flatMap (·.keys kind model owner) ++ (kind.ownUpdates owner).map (·.key)

theorem mem_memberKeys {key : Key} (member : key.isMember = true) :
    key ∈ kind.memberKeys model owner ↔ ∃ update ∈ kind.updates model owner, update.key = key := by
  rw [memberKeys, List.mem_append, List.mem_flatMap, List.mem_map]
  constructor
  · rintro (⟨element, inside, its⟩ | ⟨update, own, same⟩)
    · obtain ⟨update, there, same⟩ := List.mem_map.mp its
      exact ⟨update, mem_updates.mpr (.inr (.inl ⟨element, inside, there⟩)), same⟩
    · exact ⟨update, mem_updates.mpr (.inr (.inr own)), same⟩
  · rintro ⟨update, found, rfl⟩
    rcases mem_updates.mp found with framed | ⟨element, inside, its⟩ | own
    · rw [isMember_of_mem_frameUpdates framed] at member
      cases member
    · exact .inl ⟨element, inside, List.mem_map_of_mem its⟩
    · exact .inr ⟨update, own, rfl⟩

theorem memberKeys_unmarked (kind : FileKind) (model later : Model) (owner : ModelClass) :
    kind.memberKeys later owner.unmarked = kind.memberKeys model owner := by
  have own : (kind.ownUpdates owner.unmarked).map (·.key) = (kind.ownUpdates owner).map (·.key) :=
    keys_ownUpdates rfl
  have each (element : Element) :
      element.unmarked.keys kind later owner.unmarked = element.keys kind model owner :=
    element.keys_unmarked kind later model rfl
  rw [memberKeys, memberKeys, own, ModelClass.elements_unmarked, List.flatMap_map]
  simp only [each]

theorem memberKeys_congr (kind : FileKind) (model later : Model) (alike : a.unmarked = b.unmarked) :
    kind.memberKeys later a = kind.memberKeys model b := by
  rw [← memberKeys_unmarked kind later later a, alike, memberKeys_unmarked]

theorem importNames_unmarked (kind : FileKind) (model : Model) (owner : ModelClass) :
    kind.importNames model owner.unmarked = kind.importNames model owner := by
  cases kind with
  | classFile =>
    have attributes : (owner.attributes.map Attribute.unmarked).isEmpty = owner.attributes.isEmpty :=
      List.isEmpty_map
    have listened : ClassFile.usesListeners owner.unmarked = ClassFile.usesListeners owner := by
      simp only [ClassFile.usesListeners, ModelClass.namedRoles_unmarked, List.any_map]
      simp only [ModelClass.unmarked, List.any_map]
      rfl
    simp only [importNames, ClassFile.imports, ModelClass.namedRoles_unmarked, List.flatMap_map,
      listened]
    simp only [ModelClass.unmarked, attributes]
    rfl
  | tableFile =>
    simp only [importNames, TableFile.imports, ModelClass.namedRoles_unmarked, List.filterMap_map]
    rfl

theorem importNames_congr (kind : FileKind) (packages : later.package = model.package)
    (alike : a.unmarked = b.unmarked) :
    kind.importNames later a = kind.importNames model b := by
  have reached : kind.importNames later b = kind.importNames model b := by
    cases kind with
    | classFile => rfl
    | tableFile => rw [importNames, importNames, TableFile.imports, TableFile.imports, packages]
  rw [← importNames_unmarked, alike, importNames_unmarked, reached]

theorem remove_of_modified {update : Update} (spent : owner.IsSpent) (modified : owner.modified = true)
    (found : update ∈ kind.updates later owner) (member : update.key.isMember = true) :
    update.remove = true := by
  rcases mem_updates.mp found with framed | ⟨element, inside, its⟩ | own
  · rw [isMember_of_mem_frameUpdates framed] at member
    cases member
  · rw [Element.remove_of_mem_updates its, spent.isFlagged inside]
  · cases kind with
    | classFile =>
      simp only [ownUpdates, ClassFile.listenerUpdates, List.mem_append, List.mem_cons,
        List.not_mem_nil, or_false] at own
      rcases own with (rfl | rfl | rfl) | rfl | rfl <;>
        simp [Update.ofMember, ClassFile.textUpdate, ClassFile.removeYouUpdate, modified]
    | tableFile =>
      simp only [ownUpdates, List.mem_append, List.mem_cons, List.mem_flatMap,
        TableFile.conversionUpdates, List.not_mem_nil, or_false] at own
      rcases own with (rfl | ⟨field, -, its⟩) | rfl | rfl
      · exact modified
      · simp only [TableFile.fieldUpdates, List.mem_cons, List.not_mem_nil, or_false] at its
        rcases its with rfl | rfl | rfl <;> exact modified
      · simp [Update.ofMember, modified]
      · exact modified

theorem remove_of_markAll {update : Update} (found : update ∈ kind.updates later owner.markAll)
    (member : update.key.isMember = true) : update.remove = true :=
  remove_of_modified owner.isSpent_markAll rfl found member

end FileKind

end ClassWeaver
