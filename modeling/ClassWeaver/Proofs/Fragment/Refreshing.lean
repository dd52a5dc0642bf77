import ClassWeaver.Proofs.Fragment.Rereading

set_option autoImplicit false

/-!
Generating a class into a file that holds its generated code already. Main statements: if the file
has what the calls leave under every key, and nothing that they remove, then they leave it as it is;
so calls that were carried out already do nothing to what is read back.
-/

namespace ClassWeaver.Fragment

namespace Entry

def frame (entry : Entry) : String × Key :=
  (entry.gap, entry.key)

/-- Entries that go on behind others under new keys. The others may have got new texts, which have
no blanks around them. -/
def Extends (base entries : List Entry) : Prop :=
  ∃ old new, entries = old ++ new ∧ old.map frame = base.map frame ∧
    (∀ entry ∈ old, Text.trimmed entry.text = entry.text) ∧ ∀ entry ∈ new, entry.key ∉ keys base

theorem Extends.refl {base : List Entry}
    (trimmed : ∀ entry ∈ base, Text.trimmed entry.text = entry.text) : Extends base base :=
  ⟨base, [], (List.append_nil base).symm, rfl, trimmed, by simp⟩

theorem content?_of_mem {entries : List Entry} (distinct : (keys entries).Nodup) {entry : Entry}
    (found : entry ∈ entries) : content? entries entry.key = some (Text.trimmed entry.text) := by
  obtain ⟨before, other, after, rfl, same, front, back⟩ :=
    exists_split distinct (List.mem_map_of_mem found)
  have here : entry = other := by
    rcases List.mem_append.mp found with early | late
    · exact absurd (List.mem_map_of_mem early) front
    · rcases List.mem_cons.mp late with same | late
      · exact same
      · exact absurd (List.mem_map_of_mem late) back
  have absent : content? before entry.key = none := by
    rw [← Option.not_isSome_iff_eq_none, content?_isSome_iff]
    exact front
  rw [content?_append, absent, Option.none_or, ← here]
  simp [content?]

theorem Extends.eq {base entries : List Entry} (extended : Extends base entries)
    (distinctBase : (keys base).Nodup) (distinct : (keys entries).Nodup)
    (trimmed : ∀ entry ∈ base, Text.trimmed entry.text = entry.text)
    (same : ∀ key, key ∈ keys entries ∨ key ∈ keys base →
      content? entries key = content? base key) : entries = base := by
  obtain ⟨old, new, rfl, frames, trimmedOld, fresh⟩ := extended
  have none : new = [] := by
    refine List.eq_nil_iff_forall_not_mem.mpr fun entry found => fresh entry found ?_
    have inside : entry ∈ old ++ new := List.mem_append_right old found
    have some := content?_of_mem distinct inside
    rw [same entry.key (.inl (List.mem_map_of_mem inside))] at some
    exact content?_isSome_iff.mp (by simp [some])
  subst none
  rw [List.append_nil] at distinct same ⊢
  have size : old.length = base.length := by simpa using congrArg List.length frames
  refine List.ext_getElem size fun index inOld inBase => ?_
  have framed : old[index].frame = base[index].frame := by
    have here := congrArg (·[index]?) frames
    simpa [inOld, inBase] using here
  have named : old[index].key = base[index].key := congrArg Prod.snd framed
  have texts := same old[index].key (.inl (List.mem_map_of_mem (List.getElem_mem inOld)))
  rw [content?_of_mem distinct (List.getElem_mem inOld), named,
    content?_of_mem distinctBase (List.getElem_mem inBase),
    trimmedOld _ (List.getElem_mem inOld), trimmed _ (List.getElem_mem inBase)] at texts
  cases one : old[index]
  cases two : base[index]
  simp_all [frame]

private theorem Extends.revise {base entries : List Entry} (extended : Extends base entries)
    {key : Key} {change : String → String}
    (trimmed : ∀ entry ∈ entries, entry.key = key →
      Text.trimmed (change entry.text) = change entry.text) :
    Extends base (revise key change entries) := by
  obtain ⟨old, new, rfl, frames, trimmedOld, fresh⟩ := extended
  refine ⟨Entry.revise key change old, Entry.revise key change new, revise_append _ _ _ _, ?_, ?_, ?_⟩
  · rw [← frames, Entry.revise, List.map_map]
    refine List.map_congr_left fun entry _ => ?_
    by_cases here : entry.key = key <;> simp [here, frame]
  · intro entry found
    obtain ⟨before, inside, rfl⟩ := List.mem_map.mp found
    by_cases here : before.key = key
    · simpa [here] using trimmed before (List.mem_append_left new inside) here
    · simpa [here] using trimmedOld before inside
  · intro entry found
    have inside : entry.key ∈ keys (Entry.revise key change new) := List.mem_map_of_mem found
    rw [keys_revise] at inside
    obtain ⟨before, there, named⟩ := List.mem_map.mp inside
    rw [← named]
    exact fresh before there

theorem Extends.keys_prefix {base entries : List Entry} (extended : Extends base entries) :
    keys base <+: keys entries := by
  obtain ⟨old, new, rfl, frames, -, -⟩ := extended
  have names := congrArg (List.map Prod.snd) frames
  rw [List.map_map, List.map_map] at names
  have same : keys old = keys base := names
  exact ⟨keys new, by rw [← same]; exact List.map_append.symm⟩

private theorem Extends.erase {base entries : List Entry} (extended : Extends base entries)
    {key : Key} (absent : key ∉ keys base) : Extends base (erase key entries) := by
  obtain ⟨old, new, rfl, frames, trimmedOld, fresh⟩ := extended
  have whole : Extends base old := ⟨old, [], (List.append_nil old).symm, frames, trimmedOld, by simp⟩
  have other : key ∉ keys old := by
    obtain ⟨more, same⟩ := whole.keys_prefix
    have size : (keys old).length = (keys base).length := by
      simpa using congrArg List.length frames
    have none : more = [] := by
      have sum := congrArg List.length same
      rw [List.length_append, size] at sum
      exact List.length_eq_zero_iff.mp (by omega)
    rwa [← same, none, List.append_nil]
  refine ⟨old, Entry.erase key new, ?_, frames, trimmedOld, ?_⟩
  · rw [erase_append, erase_of_notMem other]
  · exact fun entry found => fresh entry (List.mem_filter.mp found).1

private theorem Extends.concat {base entries : List Entry} (extended : Extends base entries)
    {entry : Entry} (absent : entry.key ∉ keys base) : Extends base (entries ++ [entry]) := by
  obtain ⟨old, new, rfl, frames, trimmedOld, fresh⟩ := extended
  refine ⟨old, new ++ [entry], List.append_assoc _ _ _, frames, trimmedOld, ?_⟩
  intro other found
  rcases List.mem_append.mp found with found | found
  · exact fresh other found
  · rw [List.mem_singleton.mp found]
    exact absent

end Entry

namespace Layout

open Entry (keys Extends)

variable {package name : List Char} {layout : Layout} {base : List Entry}

theorem extends_upsert {call : Upsert} (plain : layout.IsPlain package name)
    (generated : call.IsPlain package name) (extended : Extends base layout.members)
    (kept : call.remove = true → call.key ∉ keys base) :
    Extends base (layout.upsert call).members := by
  rcases Upsert.kind_of_isRegular generated.regular with
    kind | ⟨qualified, kind⟩ | kind | kind | member
  · rwa [upsert, kind]
  · rwa [upsert, kind]
  · rwa [upsert, kind]
  · rwa [upsert, kind]
  · rw [upsert_of_isMember member, upsertMember]
    split
    · next present =>
        dsimp only
        split
        · next remove => exact extended.erase (kept remove)
        · refine extended.revise fun entry found same => ?_
          rw [mergeText_of_isPlain plain generated member found same, Text.trimmed_trimmed]
    · next absent =>
        split
        · exact extended
        · exact extended.concat fun inside => absent (extended.keys_prefix.subset inside)

theorem extends_upsertAll (declarable : IsDeclarable name) {calls : List Upsert}
    (plain : layout.IsPlain package name) (generated : ∀ call ∈ calls, call.IsPlain package name)
    (extended : Extends base layout.members)
    (kept : ∀ call ∈ calls, call.remove = true → call.key ∉ keys base) :
    Extends base (layout.upsertAll calls).members := by
  induction calls generalizing layout with
  | nil => exact extended
  | cons call calls ih =>
      have here := generated call List.mem_cons_self
      have next := extends_upsert plain here extended (kept call List.mem_cons_self)
      exact ih (isPlain_upsert declarable plain here)
        (fun other found => generated other (List.mem_cons_of_mem _ found)) next
        (fun other found => kept other (List.mem_cons_of_mem _ found))

private theorem upsertMember_frame (layout : Layout) (call : Upsert) :
    (layout.upsertMember call).imports = layout.imports ∧
      (layout.upsertMember call).declaration = layout.declaration := by
  unfold upsertMember
  split
  · exact ⟨rfl, rfl⟩
  · split <;> exact ⟨rfl, rfl⟩

private theorem imports_upsert_of_ne {call : Upsert} (other : ∀ name, call.key ≠ .importOf name) :
    (layout.upsert call).imports = layout.imports := by
  unfold upsert
  split
  · rfl
  · next name kind => exact absurd kind (other name)
  · rfl
  · rfl
  · exact (upsertMember_frame layout call).1

private theorem declaration_upsert_of_ne {call : Upsert} (other : call.key ≠ .classDecl) :
    (layout.upsert call).declaration = layout.declaration := by
  unfold upsert
  split
  · rfl
  · rfl
  · next kind => exact absurd kind other
  · rfl
  · exact (upsertMember_frame layout call).2

private theorem keys_upsertImport (layout : Layout) (call : Upsert) :
    keys (layout.upsertImport call).imports =
      if call.key ∈ keys layout.imports then keys layout.imports
      else keys layout.imports ++ [call.key] := by
  unfold upsertImport
  by_cases present : call.key ∈ keys layout.imports
  · simp only [if_pos present, Entry.keys_revise]
  · simp only [if_neg present, keys, List.map_append, List.map_singleton]

private theorem upsert_of_import {call : Upsert} {name : String} (kind : call.key = .importOf name) :
    layout.upsert call = layout.upsertImport call := by
  rw [upsert, kind]

private theorem mem_keys_imports_upsert {call : Upsert} {name : String} :
    .importOf name ∈ keys (layout.upsert call).imports ↔
      .importOf name ∈ keys layout.imports ∨ .importOf name = call.key := by
  by_cases kind : ∃ other, call.key = .importOf other
  · obtain ⟨other, kind⟩ := kind
    rw [upsert_of_import kind, keys_upsertImport]
    split
    · next present =>
      exact ⟨.inl, fun found => found.elim id fun same => same ▸ present⟩
    · rw [List.mem_append, List.mem_singleton]
  · have outside : .importOf name ≠ call.key := fun same => kind ⟨name, same.symm⟩
    rw [imports_upsert_of_ne fun other same => kind ⟨other, same⟩, or_iff_left outside]

theorem mem_keys_imports_upsertAll {calls : List Upsert} {name : String} :
    .importOf name ∈ keys (layout.upsertAll calls).imports ↔
      .importOf name ∈ keys layout.imports ∨ .importOf name ∈ calls.map (·.key) := by
  induction calls generalizing layout with
  | nil => simp [upsertAll]
  | cons call calls ih =>
    rw [List.map_cons, List.mem_cons, ← or_assoc, ← mem_keys_imports_upsert]
    exact ih

theorem imports_upsertAll {calls : List Upsert} (declarable : IsDeclarable name)
    (plain : layout.IsPlain package name)
    (generated : ∀ call ∈ calls, call.IsPlain package name)
    (present : ∀ name, .importOf name ∈ calls.map (·.key) →
      .importOf name ∈ keys layout.imports) :
    (layout.upsertAll calls).imports = layout.imports := by
  induction calls generalizing layout with
  | nil => rfl
  | cons call calls ih =>
      have here := generated call List.mem_cons_self
      have same : (layout.upsert call).imports = layout.imports := by
        by_cases kind : ∃ other, call.key = .importOf other
        · obtain ⟨other, kind⟩ := kind
          have old := present other (by simp [kind])
          rw [upsert_of_import kind, upsertImport_of_mem plain here kind (kind ▸ old)]
        · exact imports_upsert_of_ne fun other same => kind ⟨other, same⟩
      have rest := ih (isPlain_upsert declarable plain here)
        (fun other found => generated other (List.mem_cons_of_mem _ found))
        (fun other found => same ▸ present other (List.mem_cons_of_mem _ found))
      exact rest.trans same

end Layout

namespace Upsert

theorem effectOfAll_idempotent (calls : List Upsert) (key : Key) (content : Option String) :
    effectOfAll calls key (effectOfAll calls key content) = effectOfAll calls key content := by
  by_cases called : key ∈ calls.map (·.key)
  · exact effectOfAll_of_mem called _ _
  · exact effectOfAll_of_notMem called _

def RemoveLast (calls : List Upsert) : Prop :=
  calls.Pairwise fun call later => call.remove = true → later.key ≠ call.key

theorem effectOfAll_of_remove {calls : List Upsert} (last : RemoveLast calls) {call : Upsert}
    (found : call ∈ calls) (removed : call.remove = true) (content : Option String) :
    effectOfAll calls call.key content = none := by
  obtain ⟨before, after, rfl⟩ := List.append_of_mem found
  have silent : call.key ∉ after.map (·.key) := by
    intro later
    obtain ⟨other, inside, same⟩ := List.mem_map.mp later
    have next := (List.pairwise_append.mp last).2.1
    exact (List.pairwise_cons.mp next).1 other inside removed same
  rw [effectOfAll, List.foldl_append, List.foldl_cons, ← effectOfAll, effectOfAll_of_notMem silent,
    effect, if_pos rfl, if_pos removed]

def declarationOfAll (calls : List Upsert) (declaration : String) : String :=
  calls.foldl (fun old call => if call.key = .classDecl then call.text else old) declaration

theorem declarationOfAll_idempotent (calls : List Upsert) (declaration : String) :
    declarationOfAll calls (declarationOfAll calls declaration) =
      declarationOfAll calls declaration := by
  have settled (a b : String) : declarationOfAll calls a = declarationOfAll calls b ∨
      ∀ old, declarationOfAll calls old = old := by
    induction calls generalizing a b with
    | nil => exact .inr fun _ => rfl
    | cons call calls ih =>
        by_cases here : call.key = .classDecl
        · exact .inl (by simp [declarationOfAll, here])
        · simpa [declarationOfAll, here] using ih a b
  rcases settled (declarationOfAll calls declaration) declaration with same | same
  · exact same
  · exact same _

end Upsert

namespace Layout

variable {package name : List Char} {layout : Layout}

theorem declaration_upsertAll {calls : List Upsert} (declarable : IsDeclarable name)
    (plain : layout.IsPlain package name)
    (generated : ∀ call ∈ calls, call.IsPlain package name) :
    (layout.upsertAll calls).declaration = Upsert.declarationOfAll calls layout.declaration := by
  induction calls generalizing layout with
  | nil => rfl
  | cons call calls ih =>
      have here := generated call List.mem_cons_self
      have same : (layout.upsert call).declaration =
          if call.key = .classDecl then call.text else layout.declaration := by
        by_cases kind : call.key = .classDecl
        · rw [upsert_classDecl declarable plain here kind, if_pos kind]
        · rw [declaration_upsert_of_ne kind, if_neg kind]
      have rest := ih (isPlain_upsert declarable plain here)
        (fun other found => generated other (List.mem_cons_of_mem _ found))
      rw [Upsert.declarationOfAll, List.foldl_cons, ← same]
      exact rest

theorem upsertAll_eq_self {calls : List Upsert} (declarable : IsDeclarable name)
    (plain : layout.IsPlain package name)
    (generated : ∀ call ∈ calls, call.IsPlain package name)
    (trimmed : ∀ entry ∈ layout.members, Text.trimmed entry.text = entry.text)
    (imported : ∀ name, .importOf name ∈ calls.map (·.key) →
      .importOf name ∈ Entry.keys layout.imports)
    (declared : Upsert.declarationOfAll calls layout.declaration = layout.declaration)
    (settled : ∀ key, key.isMember = true →
      Upsert.effectOfAll calls key (Entry.content? layout.members key) =
        Entry.content? layout.members key)
    (kept : ∀ call ∈ calls, call.remove = true → call.key ∉ Entry.keys layout.members) :
    layout.upsertAll calls = layout := by
  have after := isPlain_upsertAll declarable plain generated
  have imports := imports_upsertAll declarable plain generated imported
  have declaration := declaration_upsertAll declarable plain generated
  have extended := extends_upsertAll declarable plain generated (.refl trimmed) kept
  have members : (layout.upsertAll calls).members = layout.members := by
    refine extended.eq plain.distinctMembers after.distinctMembers trimmed fun key found => ?_
    have member : key.isMember = true := by
      rcases found with found | found
      · exact after.memberKeys key found
      · exact plain.memberKeys key found
    rw [content?_upsertAll declarable plain generated member, settled key member]
  have packaged : (layout.upsertAll calls).package = layout.package := by
    rw [after.packaged, plain.packaged]
  have classGap : (layout.upsertAll calls).classGap = layout.classGap := by
    rw [after.classGap, plain.classGap]
  have endGap : (layout.upsertAll calls).endGap = layout.endGap := by
    rw [after.endGap, plain.endGap]
  rw [declared] at declaration
  cases one : layout.upsertAll calls
  cases two : layout
  simp_all

/-- Calls that were carried out on a generated file leave it as it is after it was read again. -/
theorem upsertAll_reread {base : Layout} {calls : List Upsert} (declarable : IsDeclarable name)
    (plain : base.IsPlain package name) (generated : ∀ call ∈ calls, call.IsPlain package name)
    (last : Upsert.RemoveLast calls)
    (readable : ∀ entry ∈ (base.upsertAll calls).members, entry.IsReadable)
    (apart : (base.upsertAll calls).members.IsChain Entry.isApart) :
    (base.upsertAll calls).reread.upsertAll calls = (base.upsertAll calls).reread := by
  have after := isPlain_upsertAll declarable plain generated
  have again := isPlain_reread after readable
  have tidied := isTidy_reread readable
  have whole := reread_of_isChain apart
  have content {key : Key} (member : key.isMember = true) :
      Entry.content? (base.upsertAll calls).reread.members key =
        Upsert.effectOfAll calls key (Entry.content? base.members key) := by
    rw [whole, Entry.content?_map_tidy, content?_upsertAll declarable plain generated member]
  refine upsertAll_eq_self declarable again generated ?_ ?_ ?_ ?_ ?_
  · intro entry found
    obtain ⟨leading, reads⟩ := (tidied entry found).reads
    rw [Text.trimmed, Text.trim_of_isTrim reads.isTrim, String.ofList_toList]
  · intro qualified called
    exact mem_keys_imports_upsertAll.mpr (.inr called)
  · change Upsert.declarationOfAll calls (base.upsertAll calls).declaration =
      (base.upsertAll calls).declaration
    rw [declaration_upsertAll declarable plain generated, Upsert.declarationOfAll_idempotent]
  · intro key member
    rw [content member, Upsert.effectOfAll_idempotent]
  · intro call found removed there
    have member := again.memberKeys call.key there
    rw [← Entry.content?_isSome_iff, content member,
      Upsert.effectOfAll_of_remove last found removed] at there
    cases there

end Layout

end ClassWeaver.Fragment
