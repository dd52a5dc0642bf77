import ClassWeaver.Generation.FileKind
import ClassWeaver.Proofs.FilePath
import ClassWeaver.Proofs.Model.Building
import ClassWeaver.Proofs.Model.Marking
import ClassWeaver.Proofs.Name
import Mathlib.Data.List.Nodup

set_option autoImplicit false

/-!
Where the files of a model are. Main statements: no class has its file at the path of a snapshot,
and no class has its file below that of another one.
-/

namespace ClassWeaver

namespace FileKind

variable {kind : FileKind} {model : Model} {owner : ModelClass} {path : FilePath}

def folder (kind : FileKind) (model : Model) : FilePath :=
  match kind with
  | classFile => ⟨model.packageFolder⟩
  | tableFile => FilePath.join ⟨model.packageFolder⟩ TableFile.folder

def fileName (kind : FileKind) (owner : ModelClass) : String :=
  match kind with
  | classFile => owner.name ++ ".java"
  | tableFile => TableFile.tableName owner.name ++ ".java"

theorem path_eq_join (kind : FileKind) (model : Model) (owner : ModelClass) :
    kind.path model owner = (kind.folder model).join (kind.fileName owner) := by
  cases kind <;> rfl

/-- Says that a class of the previous or of the current model has its file at a path. -/
def IsClassPath (kind : FileKind) (previous : Option Model) (current : Model)
    (path : FilePath) : Prop :=
  ∃ model owner, (previous = some model ∨ model = current) ∧ owner ∈ model.classes ∧
    (kind.path model owner).same path = true

theorem exists_path_eq (kind : FileKind) {a b : Model} (alike : Marking.SameNames a b)
    (found : owner ∈ a.classes) : ∃ other ∈ b.classes, kind.path b other = kind.path a owner := by
  have named : owner.name ∈ b.classes.map (·.name) := alike.classes ▸ List.mem_map_of_mem found
  obtain ⟨other, inside, same⟩ := List.mem_map.mp named
  refine ⟨other, inside, ?_⟩
  cases kind <;> simp only [path, Model.packageFolder, alike.package, alike.sourceFolder, same]

theorem IsClassPath.of_same {previous : Option Model} {current : Model} {other : FilePath}
    (here : kind.IsClassPath previous current path) (same : path.same other = true) :
    kind.IsClassPath previous current other := by
  obtain ⟨model, owner, known, found, there⟩ := here
  exact ⟨model, owner, known, found, FilePath.same_trans there same⟩

theorem IsClassPath.of_sameNames {a b current : Model} (alike : Marking.SameNames a b)
    (here : kind.IsClassPath (some a) current path) : kind.IsClassPath (some b) current path := by
  obtain ⟨model, owner, known | rfl, found, same⟩ := here
  · rw [← Option.some.inj known] at found same
    obtain ⟨other, inside, equal⟩ := exists_path_eq kind alike found
    exact ⟨b, other, .inl rfl, inside, equal ▸ same⟩
  · exact ⟨model, owner, .inr rfl, found, same⟩

theorem isClassPath_mark {old current : Model} :
    kind.IsClassPath (some (Marking.mark old current).1) current path ↔
      kind.IsClassPath (some old) current path :=
  ⟨.of_sameNames (Marking.sameNames_mark old current),
    .of_sameNames (Marking.sameNames_mark old current).symm⟩

private theorem exists_join (folder : FilePath) (name : String) :
    ∃ front, (folder.join name).text.toList = front ++ name.toList := by
  rw [FilePath.join]
  split
  · exact ⟨[], rfl⟩
  · split
    · exact ⟨folder.text.toList, String.toList_append⟩
    · exact ⟨(folder.text ++ "/").toList, String.toList_append⟩

private theorem exists_getLast_join (folder : FilePath) {name : String} (start : List Char)
    {tail : List Char} (ending : name.toList = start ++ tail)
    (free : ∀ c ∈ tail, (c == '/') = false) (long : 3 ≤ tail.length) :
    ∃ last, (folder.join name).components.getLast? = some (.named last) ∧
      tail <:+ last.toList := by
  obtain ⟨front, whole⟩ := exists_join folder name
  have ends : (folder.join name).text.toList = front ++ start ++ tail := by
    rw [whole, ending, List.append_assoc]
  exact FilePath.exists_getLast_components ends free long

theorem path_not_same_snapshotPath (kind : FileKind) (model current : Model) (owner : ModelClass) :
    (kind.path model owner).same (kind.snapshotPath current) = false := by
  have source : ∃ last, (kind.path model owner).components.getLast? = some (.named last) ∧
      ['.', 'j', 'a', 'v', 'a'] <:+ last.toList := by
    cases kind <;>
      exact exists_getLast_join _ _ String.toList_append (by decide) (by decide)
  have snapshot : ∃ last, (kind.snapshotPath current).components.getLast? = some (.named last) ∧
      ['.', 'y', 'a', 'm', 'l'] <:+ last.toList := by
    cases kind with
    | classFile =>
      exact exists_getLast_join _ "classModel".toList (by decide) (by decide) (by decide)
    | tableFile =>
      exact exists_getLast_join _ "tablesClassModel".toList (by decide) (by decide) (by decide)
  obtain ⟨last, ends, java⟩ := source
  obtain ⟨last', ends', yaml⟩ := snapshot
  refine Bool.eq_false_iff.mpr fun same => ?_
  rw [FilePath.same_iff_components.mp same, ends', Option.some_inj, FilePath.Component.named.injEq]
    at ends
  rw [ends] at yaml
  have equal := (List.suffix_of_suffix_length_le java yaml (by decide)).eq_of_length rfl
  exact absurd equal (by decide)

theorem IsClassPath.not_same_snapshotPath {previous : Option Model} {current : Model}
    (here : kind.IsClassPath previous current path) :
    path.same (kind.snapshotPath current) = false := by
  obtain ⟨model, owner, -, -, same⟩ := here
  rw [← FilePath.same_congr_left same]
  exact path_not_same_snapshotPath kind model current owner

theorem components_path (kind : FileKind) (model : Model)
    (simple : Name.isSimple owner.name = true) :
    (kind.path model owner).components =
      (kind.folder model).components ++ [.named (kind.fileName owner)] := by
  have free : ∀ c ∈ owner.name.toList, (c == '/') = false := by
    intro c found
    have part := (Name.of_isSimple simple).2.1 c found
    refine beq_eq_false_iff_ne.mpr fun slash => ?_
    rw [slash] at part
    exact absurd part (by decide)
  rw [path_eq_join]
  refine FilePath.components_join _ ?_ ?_
  · cases kind <;>
      simp only [fileName, TableFile.tableName, String.toList_append, List.forall_mem_append]
    · exact ⟨free, by decide⟩
    · exact ⟨⟨free, by decide⟩, by decide⟩
  · cases kind <;>
      simp [fileName, TableFile.tableName]

theorem path_congr (kind : FileKind) {a b : Model} {other : ModelClass} (packages : a.package = b.package)
    (folders : a.sourceFolder = b.sourceFolder) (named : owner.name = other.name) :
    kind.path a owner = kind.path b other := by
  cases kind <;> simp only [path, Model.packageFolder, packages, folders, named]

theorem same_path_iff (kind : FileKind) {other : ModelClass}
    (simple : Name.isSimple owner.name = true) (simple' : Name.isSimple other.name = true) :
    (kind.path model owner).same (kind.path model other) = true ↔ owner.name = other.name := by
  constructor
  · intro same
    have components := FilePath.same_iff_components.mp same
    rw [kind.components_path model simple, kind.components_path model simple'] at components
    have files := (List.cons.inj (List.append_cancel_left components)).1
    have names : kind.fileName owner = kind.fileName other := by simpa using files
    cases kind <;> simpa [fileName, TableFile.tableName, ← String.toList_inj] using names
  · intro named
    rw [kind.path_congr rfl rfl named]
    exact FilePath.same_refl _

private theorem not_isBelow_of_length {below above : FilePath}
    (short : below.components.length ≤ above.components.length) : below.isBelow above = false := by
  refine Bool.eq_false_iff.mpr fun under => ?_
  obtain ⟨inside, differ⟩ := Bool.and_eq_true_iff.mp under
  have equal := (List.isPrefixOf_iff_prefix.mp inside).eq_of_length_le short
  rw [FilePath.same_iff_components.mpr equal.symm] at differ
  cases differ

theorem path_not_isBelow (kind : FileKind) {other : ModelClass}
    (simple : Name.isSimple owner.name = true) (simple' : Name.isSimple other.name = true) :
    (kind.path model owner).isBelow (kind.path model other) = false :=
  not_isBelow_of_length <| by
    rw [kind.components_path model simple, kind.components_path model simple', List.length_append,
      List.length_append, List.length_singleton, List.length_singleton]

theorem snapshotPath_not_isBelow (kind : FileKind) (simple : Name.isSimple owner.name = true) :
    (kind.snapshotPath model).isBelow (kind.path model owner) = false :=
  not_isBelow_of_length <| by
    rw [kind.components_path model simple]
    cases kind with
    | classFile =>
      rw [snapshotPath, folder, FilePath.components_join _ (by decide) (by decide)]
      simp
    | tableFile =>
      rw [snapshotPath, folder, FilePath.components_join _ (by decide) (by decide),
        FilePath.components_join _ (by decide) (by decide)]
      simp

theorem path_not_same (kind : FileKind) (simple : model.HasSimpleNames)
    (distinct : model.HasDistinctClasses) {other : ModelClass} (found : owner ∈ model.classes)
    (found' : other ∈ model.classes) (apart : owner ≠ other) :
    (kind.path model owner).same (kind.path model other) = false :=
  Bool.eq_false_iff.mpr fun same => apart <|
    List.inj_on_of_nodup_map distinct found found'
      ((same_path_iff kind (simple owner found) (simple other found')).mp same)

theorem filter_path (kind : FileKind) (simple : model.HasSimpleNames)
    (distinct : model.HasDistinctClasses) (named : Name.isSimple owner.name = true)
    (here : (kind.path model owner).same path = true) :
    (model.classes.filter fun other => (kind.path model other).same path) =
      (model.class? owner.name).toList := by
  have only : ∀ other ∈ model.classes,
      (kind.path model other).same path = (other.name == owner.name) := by
    intro other inside
    rw [← FilePath.same_congr here, Bool.eq_iff_iff, beq_iff_eq,
      same_path_iff kind (simple other inside) named]
  rw [List.filter_congr only]
  cases known : model.class? owner.name with
  | none =>
    exact List.filter_eq_nil_iff.mpr (List.find?_eq_none.mp known)
  | some first =>
    obtain ⟨found, same⟩ := Model.name_of_class? known
    have first : ∀ other ∈ model.classes, (other.name == owner.name) = (other == first) := by
      intro other inside
      rw [Bool.eq_iff_iff, beq_iff_eq, beq_iff_eq, ← same]
      exact ⟨List.inj_on_of_nodup_map distinct inside found, congrArg ModelClass.name⟩
    rw [List.filter_congr first, List.filter_beq,
      List.count_eq_one_of_mem (.of_map _ distinct) found]
    rfl

/-- Says that no class of two models has its file below that of another one. -/
def IsFlat (kind : FileKind) (previous : Option Model) (current : Model) : Prop :=
  ∀ a b : FilePath, kind.IsClassPath previous current a → kind.IsClassPath previous current b →
    a.isBelow b = false

theorem isFlat_of_same_folder {previous : Option Model} {current : Model}
    (simple : current.HasSimpleNames)
    (together : ∀ model, previous = some model →
      (kind.folder model).same (kind.folder current) = true ∧ model.HasSimpleNames) :
    kind.IsFlat previous current := by
  have inFolder {path : FilePath} (here : kind.IsClassPath previous current path) :
      ∃ name, path.components = (kind.folder current).components ++ [.named name] := by
    obtain ⟨model, owner, known, found, same⟩ := here
    have whole : model.HasSimpleNames ∧
        (kind.folder model).components = (kind.folder current).components := by
      rcases known with before | rfl
      · obtain ⟨folder, names⟩ := together model before
        exact ⟨names, FilePath.same_iff_components.mp folder⟩
      · exact ⟨simple, rfl⟩
    exact ⟨kind.fileName owner, by
      rw [← FilePath.same_iff_components.mp same, components_path kind model (whole.1 owner found),
        whole.2]⟩
  intro a b here there
  obtain ⟨name, components⟩ := inFolder here
  obtain ⟨name', components'⟩ := inFolder there
  exact not_isBelow_of_length (by simp [components, components'])

end FileKind

end ClassWeaver
