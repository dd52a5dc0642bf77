import ClassWeaver.Proofs.Fragment.Layout
import ClassWeaver.Proofs.Fragment.Merging
import ClassWeaver.Proofs.Fragment.Scan
import Mathlib.Data.List.Perm.Basic

set_option autoImplicit false

/-!
Rows of calls on a layout in which nothing was written by hand. Main statement: what stands under
the key of a member afterwards is what the last call with the key says, up to blanks around it, and
what stood there before if there is no such call.
-/

namespace ClassWeaver.Fragment

open Entry (keys revise erase)

def packageChars (package : List Char) : List Char :=
  "package ".toList ++ package ++ [';']

def importChars (name : List Char) : List Char :=
  "import ".toList ++ name ++ [';']

structure IsReference (name : List Char) : Prop where
  filled : name ≠ []
  neutral : ∀ c ∈ name, Source.isNeutral c = true
  visible : ∀ c ∈ name, Text.isBlank c = false

structure Upsert.IsPlain (package name : List Char) (call : Upsert) : Prop where
  regular : call.isRegular = true
  slashless : '/' ∉ call.text.toList
  packaged : call.key = .package → call.text = String.ofList (packageChars package)
  imported : ∀ qualified, call.key = .importOf qualified →
    IsReference qualified.toList ∧ call.text = String.ofList (importChars qualified.toList)
  declared : call.key = .classDecl → ∃ superclass, (∀ parent ∈ superclass, IsDeclarable parent) ∧
    call.text = String.ofList (declarationChars name superclass)
  bare : ∀ property, call.key = .attributeOf property → IsBareDeclaration property call.text.toList

def Entry.ofImport (qualified : String) : Entry :=
  ⟨"\n", .importOf qualified, String.ofList (importChars qualified.toList)⟩

/-- A layout of the file of a class in which everything was generated. -/
structure Layout.IsPlain (package name : List Char) (layout : Layout) : Prop where
  packaged : layout.package = String.ofList (packageChars package)
  imported : ∀ entry ∈ layout.imports, ∃ qualified : String, IsReference qualified.toList ∧
    entry = .ofImport qualified
  distinctImports : (keys layout.imports).Nodup
  classGap : layout.classGap = "\n\n"
  declared : ∃ superclass, (∀ parent ∈ superclass, IsDeclarable parent) ∧
    layout.declaration = String.ofList (declarationChars name superclass)
  memberKeys : ∀ key ∈ keys layout.members, key.isMember = true
  distinctMembers : (keys layout.members).Nodup
  slashless : ∀ entry ∈ layout.members, '/' ∉ entry.text.toList
  bare : ∀ entry ∈ layout.members, ∀ property, entry.key = .attributeOf property →
    IsBareDeclaration property entry.text.toList
  gaps : ∀ entry ∈ layout.members, IsGap entry.gap.toList
  endGap : layout.endGap = "\n\n"

theorem slash_notMem_of_isNeutral {text : List Char}
    (neutral : ∀ c ∈ text, Source.isNeutral c = true) : '/' ∉ text :=
  fun found => Bool.false_ne_true (neutral '/' found)

theorem slash_notMem_declaration {name : List Char} {superclass : Option (List Char)}
    (declarable : IsDeclarable name) (above : ∀ parent ∈ superclass, IsDeclarable parent) :
    '/' ∉ declarationChars name superclass := by
  have noWord : Text.isWord '/' = false := by
    rw [Text.isWord_of_isAscii (by decide)]
    decide
  have free {text : List Char} (declarable : IsDeclarable text) : '/' ∉ text := fun found =>
    Bool.false_ne_true (noWord ▸ declarable.word '/' found)
  have alone := free declarable
  unfold declarationChars
  simp only [String.reduceToList, List.cons_append, List.nil_append]
  cases superclass with
  | none => simp [alone]
  | some parent => simp [alone, free (above parent rfl)]

theorem slash_notMem_package {package : List Char} (reference : IsReference package) :
    '/' ∉ packageChars package := by
  unfold packageChars
  simp only [String.reduceToList]
  simp [slash_notMem_of_isNeutral reference.neutral]

theorem slash_notMem_import {name : List Char} (reference : IsReference name) :
    '/' ∉ importChars name := by
  unfold importChars
  simp only [String.reduceToList]
  simp [slash_notMem_of_isNeutral reference.neutral]

theorem Layout.IsPlain.isSound {package name : List Char} {layout : Layout}
    (reference : IsReference package) (declarable : IsDeclarable name)
    (plain : layout.IsPlain package name) : layout.IsSound where
  importKeys := by
    intro key found
    obtain ⟨entry, inside, rfl⟩ := List.mem_map.mp found
    obtain ⟨qualified, -, rfl⟩ := plain.imported entry inside
    exact ⟨qualified, rfl⟩
  distinctImports := plain.distinctImports
  memberKeys := plain.memberKeys
  distinctMembers := plain.distinctMembers
  packageText := by
    rw [plain.packaged, String.toList_ofList]
    exact slash_notMem_package reference
  importTexts := by
    intro entry inside
    obtain ⟨qualified, reference, rfl⟩ := plain.imported entry inside
    rw [Entry.ofImport, String.toList_ofList]
    exact slash_notMem_import reference
  declarationText := by
    obtain ⟨superclass, above, same⟩ := plain.declared
    rw [same, String.toList_ofList]
    exact slash_notMem_declaration declarable above
  memberTexts := plain.slashless

theorem slash_notMem_trimmed {text : String} (slashless : '/' ∉ text.toList) :
    '/' ∉ (Text.trimmed text).toList := by
  rw [Text.trimmed, String.toList_ofList]
  exact fun found => slashless ((Text.trim_isInfix text.toList).subset found)

theorem mergeText_member {key : Key} {old new : String} (member : key.isMember = true)
    (bareOld : ∀ property, key = .attributeOf property → IsBareDeclaration property old.toList)
    (bareNew : ∀ property, key = .attributeOf property → IsBareDeclaration property new.toList) :
    mergeText key old new = Text.trimmed new := by
  cases key with
  | attributeOf name => exact mergeText_attribute (bareOld name rfl) (bareNew name rfl)
  | methodOf signature => exact mergeText_of_replaced (by simp) (by simp) old new
  | constructorOf signature => exact mergeText_of_replaced (by simp) (by simp) old new
  | _ => simp [Key.isMember] at member

namespace Entry

def content? (entries : List Entry) (key : Key) : Option String :=
  (entries.find? (·.key == key)).map fun entry => Text.trimmed entry.text

theorem content?_isSome_iff {entries : List Entry} {key : Key} :
    (content? entries key).isSome = true ↔ key ∈ keys entries := by
  simp [content?, keys]

theorem content?_append (a b : List Entry) (key : Key) :
    content? (a ++ b) key = (content? a key).or (content? b key) := by
  rw [content?, List.find?_append, content?, content?]
  cases a.find? (·.key == key) <;> simp

theorem content?_singleton (entry : Entry) (key : Key) :
    content? [entry] key = if entry.key = key then some (Text.trimmed entry.text) else none := by
  by_cases same : entry.key = key <;> simp [content?, same]

theorem content?_revise {entries : List Entry} {key : Key} (change : String → String)
    {text : String} (changed : ∀ entry ∈ entries, entry.key = key → Text.trimmed (change entry.text) = text)
    (present : key ∈ keys entries) (other : Key) :
    content? (revise key change entries) other =
      if other = key then some text else content? entries other := by
  induction entries with
  | nil => simp at present
  | cons entry entries ih =>
      have later : ∀ entry ∈ entries, entry.key = key → Text.trimmed (change entry.text) = text :=
        fun entry found => changed entry (List.mem_cons_of_mem _ found)
      by_cases same : other = key
      · subst same
        by_cases here : entry.key = other
        · have first := changed entry List.mem_cons_self here
          simp [content?, revise, here, first]
        · have rest : other ∈ keys entries := by
            simpa [Ne.symm here] using present
          have found := ih later rest
          simp only [content?, revise, if_true] at found ⊢
          rw [List.map_cons, if_neg here, List.find?_cons_of_neg (by simpa using here)]
          exact found
      · rw [if_neg same]
        unfold content? revise
        rw [List.find?_map]
        have drop : ((fun entry : Entry => entry.key == other) ∘ fun entry : Entry =>
            if entry.key = key then { entry with text := change entry.text } else entry)
              = fun entry => entry.key == other := by
          funext entry
          by_cases here : entry.key = key <;> simp [here]
        rw [drop]
        cases found : (entry :: entries).find? (·.key == other) with
        | none => rfl
        | some hit =>
            have named : hit.key ≠ key := by
              have here : hit.key = other := by simpa using List.find?_some found
              rwa [here]
            simp [named]

theorem content?_erase (entries : List Entry) (key other : Key) :
    content? (erase key entries) other = if other = key then none else content? entries other := by
  unfold content? erase
  rw [List.find?_filter]
  by_cases same : other = key
  · subst same
    simp
  · have drop : (fun entry : Entry => decide ((entry.key != key) = true ∧ (entry.key == other) = true))
        = (·.key == other) := by
      funext entry
      by_cases here : entry.key = other <;> simp [here, same]
    rw [if_neg same, drop]

end Entry

namespace Layout

variable {package name : List Char} {layout : Layout} {call : Upsert}

private theorem mem_keys_concat {key : Key} {entries : List Entry} {entry : Entry}
    (found : key ∈ keys (entries ++ [entry])) : key ∈ keys entries ∨ key = entry.key := by
  simpa [or_comm] using found

private theorem nodup_keys_concat {entries : List Entry} {entry : Entry}
    (distinct : (keys entries).Nodup) (absent : entry.key ∉ keys entries) :
    (keys (entries ++ [entry])).Nodup := by
  rw [keys, List.map_append, List.map_singleton, ← List.concat_eq_append]
  exact distinct.concat absent

private theorem mem_revise {key : Key} {change : String → String} {entries : List Entry} {entry : Entry}
    (found : entry ∈ revise key change entries) :
    ∃ old ∈ entries, entry.key = old.key ∧ entry.gap = old.gap ∧
      (entry.text = old.text ∨ old.key = key ∧ entry.text = change old.text) := by
  obtain ⟨old, inside, rfl⟩ := List.mem_map.mp found
  refine ⟨old, inside, ?_⟩
  by_cases same : old.key = key
  · simp [same]
  · simp [same]

theorem mergeText_of_isPlain (plain : layout.IsPlain package name)
    (generated : call.IsPlain package name) (member : call.key.isMember = true) {entry : Entry}
    (found : entry ∈ layout.members) (same : entry.key = call.key) :
    mergeText call.key entry.text call.text = Text.trimmed call.text :=
  mergeText_member member (fun property here => plain.bare entry found property (same.trans here))
    generated.bare

theorem isPlain_upsertMember (plain : layout.IsPlain package name)
    (generated : call.IsPlain package name) (member : call.key.isMember = true) :
    (layout.upsertMember call).IsPlain package name := by
  unfold upsertMember
  split
  · split
    · exact { plain with
        memberKeys := by
          intro key found
          rw [Entry.keys_erase] at found
          exact plain.memberKeys key (List.mem_filter.mp found).1
        distinctMembers := by
          rw [Entry.keys_erase]
          exact plain.distinctMembers.filter _
        slashless := fun entry found => plain.slashless entry (List.mem_filter.mp found).1
        bare := fun entry found => plain.bare entry (List.mem_filter.mp found).1
        gaps := fun entry found => plain.gaps entry (List.mem_filter.mp found).1 }
    · have revised {entry : Entry}
          (found : entry ∈ revise call.key (mergeText call.key · call.text) layout.members) :
          ∃ old ∈ layout.members, entry.key = old.key ∧ entry.gap = old.gap ∧
            (entry.text = old.text ∨ old.key = call.key ∧ entry.text = Text.trimmed call.text) := by
        obtain ⟨old, inside, key, gap, same | ⟨here, same⟩⟩ := mem_revise found
        · exact ⟨old, inside, key, gap, .inl same⟩
        · exact ⟨old, inside, key, gap, .inr ⟨here, by
            rw [same, mergeText_of_isPlain plain generated member inside here]⟩⟩
      exact { plain with
        memberKeys := by simpa using plain.memberKeys
        distinctMembers := by simpa using plain.distinctMembers
        slashless := by
          intro entry found
          obtain ⟨old, inside, -, -, same | ⟨-, same⟩⟩ := revised found
          · exact same ▸ plain.slashless old inside
          · rw [same]
            exact slash_notMem_trimmed generated.slashless
        bare := by
          intro entry found property named
          obtain ⟨old, inside, key, -, same | ⟨here, same⟩⟩ := revised found
          · exact same ▸ plain.bare old inside property (key ▸ named)
          · rw [same, Text.trimmed, String.toList_ofList]
            exact (generated.bare property (by rw [← here, ← key, named])).trim
        gaps := by
          intro entry found
          obtain ⟨old, inside, -, gap, -⟩ := revised found
          exact gap ▸ plain.gaps old inside }
  · next absent =>
      split
      · exact plain
      · exact { plain with
          memberKeys := by
            intro key found
            rcases mem_keys_concat found with old | rfl
            · exact plain.memberKeys key old
            · exact member
          distinctMembers := nodup_keys_concat plain.distinctMembers absent
          slashless := by
            intro entry found
            rcases List.mem_append.mp found with old | new
            · exact plain.slashless entry old
            · rw [List.mem_singleton.mp new]
              exact generated.slashless
          bare := by
            intro entry found property named
            rcases List.mem_append.mp found with old | new
            · exact plain.bare entry old property named
            · rw [List.mem_singleton.mp new] at named ⊢
              exact generated.bare property named
          gaps := by
            intro entry found
            rcases List.mem_append.mp found with old | new
            · exact plain.gaps entry old
            · rw [List.mem_singleton.mp new, plain.endGap]
              exact isGap_blankLine
          endGap := rfl }

private theorem isTrim_package (package : List Char) :
    Text.isTrim (packageChars package) = true := by
  unfold packageChars Text.isTrim
  rw [List.getLast?_append]
  simp [Text.isBlank, Text.isAscii]

private theorem isTrim_import (qualified : List Char) :
    Text.isTrim (importChars qualified) = true := by
  unfold importChars Text.isTrim
  rw [List.getLast?_append]
  simp [Text.isBlank, Text.isAscii]

theorem upsert_package (plain : layout.IsPlain package name)
    (generated : call.IsPlain package name) (isPackage : call.key = .package) :
    layout.upsert call = layout := by
  have merged : mergeText .package layout.package call.text = layout.package := by
    rw [mergeText_of_replaced (by simp) (by simp), generated.packaged isPackage, Text.trimmed,
      String.toList_ofList, Text.trim_of_isTrim (isTrim_package package), plain.packaged]
  rw [upsert, isPackage]
  dsimp only
  rw [merged]

theorem upsertImport_of_mem (plain : layout.IsPlain package name)
    (generated : call.IsPlain package name) {qualified : String}
    (isImport : call.key = .importOf qualified) (present : call.key ∈ keys layout.imports) :
    layout.upsertImport call = layout := by
  have text := (generated.imported qualified isImport).2
  have merged (old : String) : mergeText call.key old call.text = call.text := by
    rw [mergeText_of_replaced (by simp [isImport]) (by simp [isImport]), text, Text.trimmed,
      String.toList_ofList, Text.trim_of_isTrim (isTrim_import qualified.toList)]
  have each : ∀ entry ∈ layout.imports, (if entry.key = call.key then
      { entry with text := mergeText call.key entry.text call.text } else entry) = entry := by
    intro entry found
    split
    · next here =>
        obtain ⟨other, -, rfl⟩ := plain.imported entry found
        rw [isImport] at here
        obtain rfl := Key.importOf.inj here
        rw [merged, text]
        rfl
    · rfl
  have same : revise call.key (mergeText call.key · call.text) layout.imports = layout.imports :=
    (List.map_congr_left each).trans (List.map_id' _)
  rw [upsertImport, if_pos present, same]

theorem upsert_classDecl (declarable : IsDeclarable name) (plain : layout.IsPlain package name)
    (generated : call.IsPlain package name) (isClass : call.key = .classDecl) :
    layout.upsert call = { layout with declaration := call.text } := by
  obtain ⟨before, above, old⟩ := plain.declared
  obtain ⟨after, above', new⟩ := generated.declared isClass
  have merged := mergeText_declaration declarable above above'
  rw [← old, ← new] at merged
  rw [upsert, isClass]
  dsimp only
  rw [merged]

theorem isPlain_upsertImport (plain : layout.IsPlain package name)
    (generated : call.IsPlain package name) {qualified : String}
    (isImport : call.key = .importOf qualified) :
    (layout.upsertImport call).IsPlain package name := by
  by_cases present : call.key ∈ keys layout.imports
  · rw [upsertImport_of_mem plain generated isImport present]
    exact plain
  · obtain ⟨reference, text⟩ := generated.imported qualified isImport
    rw [upsertImport, if_neg present]
    exact { plain with
      imported := by
        intro entry found
        rcases List.mem_append.mp found with old | new
        · exact plain.imported entry old
        · refine ⟨qualified, reference, ?_⟩
          rw [List.mem_singleton.mp new, isImport, text]
          rfl
      distinctImports := nodup_keys_concat plain.distinctImports present }

theorem isPlain_upsert (declarable : IsDeclarable name) (plain : layout.IsPlain package name)
    (generated : call.IsPlain package name) : (layout.upsert call).IsPlain package name := by
  rcases Upsert.kind_of_isRegular generated.regular with
    kind | ⟨qualified, kind⟩ | kind | kind | member
  · rw [upsert_package plain generated kind]
    exact plain
  · rw [upsert, kind]
    exact isPlain_upsertImport plain generated kind
  · rw [upsert_classDecl declarable plain generated kind]
    exact { plain with declared := generated.declared kind }
  · rw [upsert, kind]
    exact plain
  · rw [upsert_of_isMember member]
    exact isPlain_upsertMember plain generated member

def upsertAll (layout : Layout) (calls : List Upsert) : Layout :=
  calls.foldl upsert layout

theorem isPlain_upsertAll (declarable : IsDeclarable name) (plain : layout.IsPlain package name)
    {calls : List Upsert} (generated : ∀ call ∈ calls, call.IsPlain package name) :
    (layout.upsertAll calls).IsPlain package name := by
  induction calls generalizing layout with
  | nil => exact plain
  | cons call calls ih =>
      have next := isPlain_upsert declarable plain (generated call List.mem_cons_self)
      exact ih next fun other found => generated other (List.mem_cons_of_mem _ found)

theorem toStore_upsertAll (reference : IsReference package)
    (declarable : IsDeclarable name) (plain : layout.IsPlain package name)
    {calls : List Upsert} (generated : ∀ call ∈ calls, call.IsPlain package name) :
    layout.toStore.upsertAll calls = (layout.upsertAll calls).toStore := by
  induction calls generalizing layout with
  | nil => rfl
  | cons call calls ih =>
      have here := generated call List.mem_cons_self
      have next := isPlain_upsert declarable plain here
      rw [Store.upsertAll, toStore_upsert (plain.isSound reference declarable) here.regular]
      exact ih next fun other found => generated other (List.mem_cons_of_mem _ found)

end Layout

namespace Upsert

/-- What stands under a key after a call, if `content` stood there before. -/
def effect (call : Upsert) (key : Key) (content : Option String) : Option String :=
  if key = call.key then if call.remove then none else some (Text.trimmed call.text) else content

/-- What stands under a key after a row of calls, if `content` stood there before. -/
def effectOfAll (calls : List Upsert) (key : Key) (content : Option String) : Option String :=
  calls.foldl (fun content call => call.effect key content) content

theorem effectOfAll_of_mem {calls : List Upsert} {key : Key} (called : key ∈ calls.map (·.key))
    (a b : Option String) : effectOfAll calls key a = effectOfAll calls key b := by
  induction calls generalizing a b with
  | nil => simp at called
  | cons call calls ih =>
      rw [effectOfAll, List.foldl_cons, effectOfAll, List.foldl_cons]
      by_cases later : key ∈ calls.map (·.key)
      · exact ih later _ _
      · have here : key = call.key := by simpa [later] using called
        simp [effect, here]

theorem effectOfAll_of_notMem {calls : List Upsert} {key : Key} (absent : key ∉ calls.map (·.key))
    (content : Option String) : effectOfAll calls key content = content := by
  induction calls generalizing content with
  | nil => rfl
  | cons call calls ih =>
      rw [List.map_cons, List.mem_cons, not_or] at absent
      rw [effectOfAll, List.foldl_cons, effect, if_neg absent.1]
      exact ih absent.2 content

end Upsert

namespace Layout

variable {package name : List Char} {layout : Layout} {call : Upsert}

private theorem content?_upsertMember (plain : layout.IsPlain package name) (generated : call.IsPlain package name)
    (member : call.key.isMember = true) (key : Key) :
    Entry.content? (layout.upsertMember call).members key =
      call.effect key (Entry.content? layout.members key) := by
  have merged {entry : Entry} (found : entry ∈ layout.members) (same : entry.key = call.key) :
      Text.trimmed (mergeText call.key entry.text call.text) = Text.trimmed call.text := by
    rw [mergeText_of_isPlain plain generated member found same, Text.trimmed_trimmed]
  unfold upsertMember Upsert.effect
  by_cases present : call.key ∈ keys layout.members
  · rw [if_pos present]
    dsimp only
    by_cases remove : call.remove = true
    · rw [if_pos remove, if_pos remove]
      exact Entry.content?_erase layout.members call.key key
    · rw [if_neg remove, if_neg remove]
      exact Entry.content?_revise (mergeText call.key · call.text)
        (fun _ found same => merged found same) present key
  · rw [if_neg present]
    have none : Entry.content? layout.members call.key = none := by
      rw [← Option.not_isSome_iff_eq_none, Entry.content?_isSome_iff]
      exact present
    by_cases remove : call.remove = true
    · rw [if_pos remove, if_pos remove]
      split
      · next same => rw [same, none]
      · rfl
    · rw [if_neg remove, if_neg remove]
      dsimp only
      rw [Entry.content?_append, Entry.content?_singleton]
      by_cases same : key = call.key
      · simp [same, none]
      · simp [same, Ne.symm same]

theorem content?_upsert (plain : layout.IsPlain package name)
    (generated : call.IsPlain package name) {key : Key} (member : key.isMember = true) :
    Entry.content? (layout.upsert call).members key =
      call.effect key (Entry.content? layout.members key) := by
  have other (outside : call.key.isMember = false) (content : Option String) :
      call.effect key content = content := by
    rw [Upsert.effect, if_neg]
    rintro rfl
    rw [member] at outside
    exact Bool.noConfusion outside
  rcases Upsert.kind_of_isRegular generated.regular with
    kind | ⟨qualified, kind⟩ | kind | kind | inside
  · rw [other (by simp [kind, Key.isMember]), upsert, kind]
  · rw [other (by simp [kind, Key.isMember]), upsert, kind, upsertImport]
  · rw [other (by simp [kind, Key.isMember]), upsert, kind]
  · rw [other (by simp [kind, Key.isMember]), upsert, kind]
  · rw [upsert_of_isMember inside]
    exact content?_upsertMember plain generated inside key

/-- What stands under the key of a member after a row of calls is what the last call with the key
says. -/
theorem content?_upsertAll (declarable : IsDeclarable name) (plain : layout.IsPlain package name)
    {calls : List Upsert} (generated : ∀ call ∈ calls, call.IsPlain package name) {key : Key}
    (member : key.isMember = true) :
    Entry.content? (layout.upsertAll calls).members key =
      Upsert.effectOfAll calls key (Entry.content? layout.members key) := by
  induction calls generalizing layout with
  | nil => rfl
  | cons call calls ih =>
      have here := generated call List.mem_cons_self
      have next := isPlain_upsert declarable plain here
      rw [Upsert.effectOfAll, List.foldl_cons, ← content?_upsert plain here member]
      exact ih next fun other found => generated other (List.mem_cons_of_mem _ found)

end Layout

end ClassWeaver.Fragment
