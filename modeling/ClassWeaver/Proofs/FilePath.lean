import ClassWeaver.FilePath
import ClassWeaver.Proofs.Text.Words

set_option autoImplicit false

/-!
Paths and their order. Main statements: a folder comes before everything below it, the last
component of a path ends like the path, and a file in a folder has one component more than the
folder.
-/

namespace ClassWeaver

namespace Text

variable {p : Char → Bool}

theorem exists_splitWhere_append {tail : List Char} (free : ∀ c ∈ tail, p c = false)
    (text : List Char) : ∃ parts front, splitWhere p (text ++ tail) = parts ++ [front ++ tail] := by
  induction text with
  | nil => exact ⟨[], [], splitWhere_of_forall free⟩
  | cons c text ih =>
    obtain ⟨parts, front, split⟩ := ih
    rw [List.cons_append, splitWhere, split]
    by_cases separates : p c = true
    · exact ⟨[] :: parts, front, by rw [if_pos separates, List.cons_append]⟩
    · rw [if_neg separates]
      cases parts with
      | nil => exact ⟨[], c :: front, rfl⟩
      | cons part parts => exact ⟨(c :: part) :: parts, front, rfl⟩

end Text

namespace FilePath

variable {a b c folder path : FilePath}

theorem same_iff_components : a.same b = true ↔ a.components = b.components :=
  beq_iff_eq

theorem same_refl (path : FilePath) : path.same path = true :=
  same_iff_components.mpr rfl

theorem same_symm (same : a.same b = true) : b.same a = true :=
  same_iff_components.mpr (same_iff_components.mp same).symm

theorem same_trans (first : a.same b = true) (second : b.same c = true) : a.same c = true :=
  same_iff_components.mpr ((same_iff_components.mp first).trans (same_iff_components.mp second))

theorem same_comm (a b : FilePath) : a.same b = b.same a :=
  Bool.eq_iff_iff.mpr ⟨same_symm, same_symm⟩

theorem same_congr (same : a.same b = true) (other : FilePath) : other.same a = other.same b := by
  rw [FilePath.same, FilePath.same, same_iff_components.mp same]

theorem same_congr_left (same : a.same b = true) (other : FilePath) :
    a.same other = b.same other := by
  rw [FilePath.same, FilePath.same, same_iff_components.mp same]

theorem isBelow_congr_left (same : a.same b = true) (other : FilePath) :
    a.isBelow other = b.isBelow other := by
  rw [isBelow, isBelow, same_congr_left same, same_iff_components.mp same]

theorem isBelow_congr (same : a.same b = true) (other : FilePath) :
    other.isBelow a = other.isBelow b := by
  rw [isBelow, isBelow, same_congr same, same_iff_components.mp same]

namespace Component

theorem lt_iff {a b : Component} :
    a < b ↔ a.rank < b.rank ∨ a.rank = b.rank ∧ a.label < b.label :=
  Iff.rfl

theorem lt_trans {a b c : Component} (first : a < b) (second : b < c) : a < c := by
  rw [lt_iff] at first second ⊢
  rcases first with lower | ⟨level, before⟩ <;> rcases second with lower' | ⟨level', before'⟩
  · exact .inl (Nat.lt_trans lower lower')
  · exact .inl (level' ▸ lower)
  · exact .inl (level ▸ lower')
  · exact .inr ⟨level.trans level', String.lt_trans before before'⟩

theorem lt_irrefl (a : Component) : ¬ a < a := by
  rw [lt_iff]
  rintro (lower | ⟨-, before⟩)
  · exact Nat.lt_irrefl _ lower
  · exact String.lt_irrefl _ before

instance : Std.Irrefl (fun a b : Component => a < b) :=
  ⟨lt_irrefl⟩

instance : Trans (fun a b : Component => a < b) (fun a b => a < b) (fun a b => a < b) :=
  ⟨lt_trans⟩

instance : Std.Trichotomous (fun a b : Component => a < b) := by
  refine ⟨fun a b notBefore notAfter => ?_⟩
  rw [lt_iff, not_or, not_and] at notBefore notAfter
  have level : a.rank = b.rank := by omega
  have label : a.label = b.label :=
    String.le_antisymm (notAfter.2 level.symm) (notBefore.2 level)
  cases a <;> cases b <;> first | rfl | exact congrArg named label | cases level

theorem ofPart?_of_length {part : List Char} (long : 3 ≤ part.length) :
    ofPart? part = some (.named (String.ofList part)) := by
  unfold ofPart?
  split <;> simp_all

end Component

theorem precedes_irrefl (path : FilePath) : path.precedes path = false :=
  decide_eq_false (List.lt_irrefl _)

theorem precedes_trans (first : a.precedes b = true) (second : b.precedes c = true) :
    a.precedes c = true := by
  rw [precedes, decide_eq_true_eq] at first second ⊢
  exact List.lt_trans first second

theorem not_precedes_of_precedes (early : a.precedes b = true) :
    b.precedes a = false := by
  refine Bool.eq_false_iff.mpr fun late => ?_
  have loop := precedes_trans early late
  rw [precedes_irrefl] at loop
  cases loop

theorem precedes_of_not_precedes (apart : a.same b = false)
    (late : a.precedes b = false) : b.precedes a = true := by
  by_contra notEarly
  rw [precedes, decide_eq_false_iff_not] at late
  rw [precedes, decide_eq_true_eq] at notEarly
  rw [same_iff_components.mpr (List.le_antisymm notEarly late)] at apart
  cases apart

theorem precedes_congr_left (same : a.same b = true) (other : FilePath) :
    a.precedes other = b.precedes other := by
  rw [precedes, precedes, same_iff_components.mp same]

theorem precedes_of_isBelow (below : path.isBelow folder = true) : folder.precedes path = true := by
  obtain ⟨inside, other⟩ := Bool.and_eq_true_iff.mp below
  obtain ⟨rest, whole⟩ := List.isPrefixOf_iff_prefix.mp inside
  rw [precedes, decide_eq_true_eq, ← whole]
  cases rest with
  | nil =>
    rw [List.append_nil] at whole
    rw [same_iff_components.mpr whole.symm] at other
    cases other
  | cons component rest =>
    induction folder.components with
    | nil => exact List.nil_lt_cons _ _
    | cons first components ih => exact List.cons_lt_cons_iff.mpr (.inr ⟨rfl, ih⟩)

private theorem getLast?_filterMap (parts : List (List Char)) {last : List Char}
    (long : 3 ≤ last.length) :
    ((parts ++ [last]).filterMap Component.ofPart?).getLast? =
      some (.named (String.ofList last)) := by
  simp [Component.ofPart?_of_length long]

theorem components_absolute (path : FilePath) {rest : List Char}
    (absolute : path.text.toList = '/' :: rest) :
    path.components =
      .root :: (Text.splitWhere (· == '/') rest).filterMap Component.ofPart? := by
  unfold components
  rw [absolute]
  rfl

theorem components_relative (path : FilePath)
    (relative : path.text.toList.head? ≠ some '/') :
    path.components =
      match Text.splitWhere (· == '/') path.text.toList with
      | ['.'] :: parts => .here :: parts.filterMap Component.ofPart?
      | parts => parts.filterMap Component.ofPart? := by
  unfold components
  split
  · next absolute => exact absurd (by rw [absolute]; rfl) relative
  · rfl

theorem exists_getLast_components {front tail : List Char}
    (whole : path.text.toList = front ++ tail) (free : ∀ c ∈ tail, (c == '/') = false)
    (long : 3 ≤ tail.length) :
    ∃ name, path.components.getLast? = some (.named name) ∧ tail <:+ name.toList := by
  have ending (start : List Char) : tail <:+ (String.ofList (start ++ tail)).toList := by
    rw [String.toList_ofList]
    exact List.suffix_append start tail
  have filled (start : List Char) : 3 ≤ (start ++ tail).length := by
    rw [List.length_append]
    exact Nat.le_add_left_of_le long
  by_cases absolute : path.text.toList.head? = some '/'
  · cases front with
    | nil =>
      have slash := free '/' (List.mem_of_head? (by rw [← List.nil_append tail, ← whole, absolute]))
      cases slash
    | cons c front =>
      rw [whole, List.cons_append, List.head?_cons, Option.some_inj] at absolute
      subst absolute
      obtain ⟨parts, start, split⟩ := Text.exists_splitWhere_append (p := (· == '/')) free front
      refine ⟨_, ?_, ending start⟩
      have begins : path.text.toList = '/' :: (front ++ tail) := whole
      rw [components_absolute path begins, split, List.getLast?_cons,
        getLast?_filterMap parts (filled start)]
      rfl
  · obtain ⟨parts, start, split⟩ := Text.exists_splitWhere_append (p := (· == '/')) free front
    refine ⟨_, ?_, ending start⟩
    rw [components_relative path absolute, whole, split]
    split
    · next rest dotted =>
      -- the last part is too long to be the dot in front
      cases parts with
      | nil =>
        have short := filled start
        rw [(List.cons.inj dotted).1] at short
        exact absurd short (by decide)
      | cons part parts =>
        have same : parts ++ [start ++ tail] = rest := (List.cons.inj dotted).2
        rw [← same, List.getLast?_cons, getLast?_filterMap parts (filled start)]
        rfl
    · exact getLast?_filterMap parts (filled start)

theorem components_of_append (folder path : FilePath) {text rest : List Char} (filled : text ≠ [])
    (front : folder.text.toList = text) (whole : path.text.toList = text ++ '/' :: rest) :
    path.components =
      folder.components ++ (Text.splitWhere (· == '/') rest).filterMap Component.ofPart? := by
  have split (text : List Char) : Text.splitWhere (· == '/') (text ++ '/' :: rest) =
      Text.splitWhere (· == '/') text ++ Text.splitWhere (· == '/') rest :=
    Text.splitWhere_append_cons rfl
  cases text with
  | nil => exact absurd rfl filled
  | cons c text =>
    by_cases absolute : c = '/'
    · subst absolute
      have begins : path.text.toList = '/' :: (text ++ '/' :: rest) := whole
      rw [components_absolute folder front, components_absolute path begins, split,
        List.filterMap_append, List.cons_append]
    · have begins : some c ≠ some '/' := fun same => absolute (Option.some.inj same)
      rw [components_relative folder (by rwa [front]), components_relative path (by rwa [whole]),
        front, whole, split]
      cases parts : Text.splitWhere (· == '/') (c :: text) with
      | nil => exact absurd parts (Text.splitWhere_ne_nil _ _)
      | cons part parts =>
        by_cases dot : part = ['.']
        · subst dot
          exact congrArg (Component.here :: ·) List.filterMap_append
        · cases shown : Component.ofPart? part <;> simp [dot, shown]

theorem components_join (folder : FilePath) {name : String}
    (free : ∀ c ∈ name.toList, (c == '/') = false) (long : 3 ≤ name.toList.length) :
    (folder.join name).components = folder.components ++ [.named name] := by
  have alone : (Text.splitWhere (· == '/') name.toList).filterMap Component.ofPart? =
      [.named name] := by
    rw [Text.splitWhere_of_forall free, List.filterMap_cons,
      Component.ofPart?_of_length long, String.ofList_toList]
    rfl
  have relative : name.toList.head? ≠ some '/' := by
    intro begins
    have slash := free '/' (List.mem_of_head? begins)
    cases slash
  rw [join, beq_eq_false_iff_ne.mpr relative, Bool.false_or]
  split
  · next blank =>
    have noFolder : folder.components = [] := by
      have unnamed : folder = ⟨""⟩ := congrArg FilePath.mk (String.isEmpty_iff.mp blank)
      rw [unnamed]
      rfl
    have noDot : name.toList ≠ ['.'] := by
      intro dot
      rw [dot] at long
      exact absurd long (by decide)
    rw [noFolder, components_relative ⟨name⟩ relative]
    rw [Text.splitWhere_of_forall free] at alone ⊢
    simpa [noDot] using alone
  · next filled =>
    split
    · next closed =>
      obtain ⟨start, whole⟩ := List.getLast?_eq_some_iff.mp (eq_of_beq closed)
      have joined : (folder.text ++ name).toList = start ++ '/' :: name.toList := by
        rw [String.toList_append, whole, List.append_assoc, List.singleton_append]
      cases start with
      | nil =>
        rw [components_absolute ⟨folder.text ++ name⟩ joined, alone,
          components_absolute folder whole]
        rfl
      | cons c start =>
        have opened : (⟨String.ofList (c :: start)⟩ : FilePath).text.toList = c :: start :=
          String.toList_ofList
        have filled : c :: start ≠ [] := List.cons_ne_nil c start
        rw [components_of_append _ ⟨folder.text ++ name⟩ filled opened joined, alone,
          components_of_append _ folder filled opened whole]
        simp [Text.splitWhere, Component.ofPart?]
    · have joined : (folder.text ++ "/" ++ name).toList =
          folder.text.toList ++ '/' :: name.toList := by
        simp
      have kept : folder.text.toList ≠ [] := by
        simpa using filled
      rw [components_of_append folder ⟨folder.text ++ "/" ++ name⟩ kept rfl joined, alone]

end FilePath

end ClassWeaver
