import ClassWeaver.Proofs.Fragment.Frame
import Mathlib.Data.List.Nodup

set_option autoImplicit false

/-!
Stores in the order in which generation fills them: the package declaration, imports, the class
declaration, members and the end of the class, each with a gap in front. Main statement: a call on
such a store changes, adds or takes away one entry with its gap.
-/

namespace ClassWeaver.Fragment

structure IsGap (gap : List Char) : Prop where
  filled : gap ≠ []
  blank : ∀ c ∈ gap, Text.isAsciiBlank c = true

theorem isGap_blankLine : IsGap "\n\n".toList :=
  ⟨by decide, by simp [Text.isAsciiBlank]⟩

structure Entry where
  gap : String
  key : Key
  text : String
  deriving DecidableEq, Repr

namespace Entry

def fragments (entry : Entry) : List Fragment :=
  [⟨.gap, entry.gap⟩, ⟨entry.key, entry.text⟩]

def flat (entries : List Entry) : List Fragment :=
  entries.flatMap fragments

@[simp] theorem flat_nil : flat [] = [] := rfl

@[simp] theorem flat_cons (entry : Entry) (rest : List Entry) :
    flat (entry :: rest) = ⟨.gap, entry.gap⟩ :: ⟨entry.key, entry.text⟩ :: flat rest := rfl

@[simp] theorem flat_append (a b : List Entry) : flat (a ++ b) = flat a ++ flat b :=
  List.flatMap_append

abbrev keys (entries : List Entry) : List Key :=
  entries.map (·.key)

def revise (key : Key) (change : String → String) (entries : List Entry) : List Entry :=
  entries.map fun entry => if entry.key = key then { entry with text := change entry.text } else entry

def erase (key : Key) (entries : List Entry) : List Entry :=
  entries.filter (·.key != key)

@[simp] theorem keys_revise (key : Key) (change : String → String) (entries : List Entry) :
    keys (revise key change entries) = keys entries := by
  rw [keys, revise, List.map_map]
  refine List.map_congr_left fun entry _ => ?_
  by_cases same : entry.key = key <;> simp [same]

theorem keys_erase (key : Key) (entries : List Entry) :
    keys (erase key entries) = (keys entries).filter (· != key) := by
  rw [keys, erase, List.filter_map]
  rfl

theorem revise_of_notMem {key : Key} {change : String → String} {entries : List Entry}
    (absent : key ∉ keys entries) : revise key change entries = entries := by
  have same : ∀ entry ∈ entries,
      (if entry.key = key then { entry with text := change entry.text } else entry) = entry := by
    intro entry found
    have other : entry.key ≠ key := fun same => absent (same ▸ List.mem_map_of_mem found)
    exact if_neg other
  exact (List.map_congr_left same).trans (List.map_id' entries)

theorem erase_of_notMem {key : Key} {entries : List Entry} (absent : key ∉ keys entries) :
    erase key entries = entries := by
  refine List.filter_eq_self.mpr fun entry found => ?_
  have other : entry.key ≠ key := fun same => absent (same ▸ List.mem_map_of_mem found)
  simpa using other

@[simp] theorem revise_append (key : Key) (change : String → String) (a b : List Entry) :
    revise key change (a ++ b) = revise key change a ++ revise key change b :=
  List.map_append

@[simp] theorem erase_append (key : Key) (a b : List Entry) :
    erase key (a ++ b) = erase key a ++ erase key b :=
  List.filter_append a b

theorem exists_split {key : Key} {entries : List Entry} (distinct : (keys entries).Nodup)
    (found : key ∈ keys entries) :
    ∃ before entry after, entries = before ++ entry :: after ∧ entry.key = key ∧
      key ∉ keys before ∧ key ∉ keys after := by
  obtain ⟨entry, inside, rfl⟩ := List.mem_map.mp found
  obtain ⟨before, after, rfl⟩ := List.append_of_mem inside
  have once : entry.key ∉ keys before ++ keys after := by
    rw [keys, List.map_append, List.map_cons] at distinct
    exact (List.nodup_cons.mp (List.nodup_middle.mp distinct)).1
  rw [List.mem_append, not_or] at once
  exact ⟨before, entry, after, rfl, rfl, once.1, once.2⟩

theorem key_ne_of_mem_flat {key : Key} {entries : List Entry} (gap : key ≠ .gap)
    (absent : key ∉ keys entries) : ∀ fragment ∈ flat entries, fragment.key ≠ key := by
  intro fragment found same
  obtain ⟨entry, inside, here⟩ := List.mem_flatMap.mp found
  rcases List.mem_cons.mp here with rfl | here
  · exact gap same.symm
  · obtain rfl := List.mem_singleton.mp here
    exact absent (same ▸ List.mem_map_of_mem inside)

end Entry

namespace Store

theorem cut?_append {key : Key} {a b : List Fragment}
    (absent : ∀ fragment ∈ a, fragment.key ≠ key) :
    cut? key (a ++ b) = (cut? key b).map fun (before, found, after) => (a ++ before, found, after) := by
  induction a with
  | nil => simp
  | cons fragment a ih =>
      have other : fragment.key ≠ key := absent fragment List.mem_cons_self
      rw [List.cons_append, cut?, if_neg other,
        ih fun later found => absent later (List.mem_cons_of_mem _ found), Option.map_map]
      rfl

theorem cut?_append_cons {key : Key} {a b : List Fragment} {found : Fragment}
    (absent : ∀ fragment ∈ a, fragment.key ≠ key) (same : found.key = key) :
    cut? key (a ++ found :: b) = some (a, found, b) := by
  rw [cut?_append absent, cut?, if_pos same]
  simp

theorem dropLastGap_concat (fragments : List Fragment) (gap : String) :
    dropLastGap (fragments ++ [⟨.gap, gap⟩]) = fragments := by
  simp [dropLastGap]

theorem cut?_eq_none {key : Key} {a : List Fragment}
    (absent : ∀ fragment ∈ a, fragment.key ≠ key) : cut? key a = none := by
  have whole := cut?_append (b := []) absent
  rwa [List.append_nil, cut?, Option.map_none] at whole

theorem insert_of_isMember {store : Store} {before after : List Fragment} {fragment ended : Fragment}
    (member : fragment.key.isMember = true)
    (cut : store.find? .classEnd = some (before, ended, after)) (blank : Nat) :
    store.insert fragment blank = ⟨before ++ [fragment, blankLines blank] ++ ended :: after⟩ := by
  rw [insert]
  split
  · next name same =>
    rw [same] at member
    cases member
  · rw [if_pos member, cut]

end Store

open Entry (flat keys revise erase)

structure Layout where
  package : String
  imports : List Entry
  classGap : String
  declaration : String
  members : List Entry
  endGap : String
  deriving DecidableEq, Repr

namespace Layout

def front (layout : Layout) : List Fragment :=
  ⟨.start, ""⟩ :: ⟨.package, layout.package⟩ :: flat layout.imports
    ++ [⟨.gap, layout.classGap⟩, ⟨.classDecl, layout.declaration⟩]

def back (layout : Layout) : List Fragment :=
  [⟨.gap, layout.endGap⟩, ⟨.classEnd, "\x7d"⟩, ⟨.gap, "\n"⟩]

def toStore (layout : Layout) : Store :=
  ⟨layout.front ++ flat layout.members ++ layout.back⟩

/-- Every part of a layout is of its kind and has a key of its own, and nothing is protected. -/
structure IsSound (layout : Layout) : Prop where
  importKeys : ∀ key ∈ keys layout.imports, ∃ name, key = .importOf name
  distinctImports : (keys layout.imports).Nodup
  memberKeys : ∀ key ∈ keys layout.members, key.isMember = true
  distinctMembers : (keys layout.members).Nodup
  packageText : '/' ∉ layout.package.toList
  importTexts : ∀ entry ∈ layout.imports, '/' ∉ entry.text.toList
  declarationText : '/' ∉ layout.declaration.toList
  memberTexts : ∀ entry ∈ layout.members, '/' ∉ entry.text.toList

def upsertMember (layout : Layout) (call : Upsert) : Layout :=
  if call.key ∈ keys layout.members then
    { layout with
      members :=
        if call.remove then erase call.key layout.members
        else revise call.key (mergeText call.key · call.text) layout.members }
  else if call.remove then layout
  else
    { layout with
      members := layout.members ++ [⟨layout.endGap, call.key, call.text⟩]
      endGap := "\n\n" }

def upsertImport (layout : Layout) (call : Upsert) : Layout :=
  { layout with
    imports :=
      if call.key ∈ keys layout.imports then
        revise call.key (mergeText call.key · call.text) layout.imports
      else layout.imports ++ [⟨"\n", call.key, call.text⟩] }

def upsert (layout : Layout) (call : Upsert) : Layout :=
  match call.key with
  | .package => { layout with package := mergeText .package layout.package call.text }
  | .importOf _ => layout.upsertImport call
  | .classDecl =>
    { layout with declaration := mergeText .classDecl layout.declaration call.text }
  | .classEnd => layout
  | _ => layout.upsertMember call

end Layout

/-- The calls that generation makes: only members are removed, and the blank lines beside new
fragments are those of their kinds. -/
def Upsert.isRegular (call : Upsert) : Bool :=
  match call.key with
  | .package | .classDecl => ! call.remove
  | .importOf _ => ! call.remove && call.blank == 1
  | .classEnd => ! call.remove && call.text == "\x7d"
  | key => key.isMember && call.blank == 2

theorem Upsert.kind_of_isRegular {call : Upsert} (regular : call.isRegular = true) :
    call.key = .package ∨ (∃ name, call.key = .importOf name) ∨ call.key = .classDecl ∨
      call.key = .classEnd ∨ call.key.isMember = true := by
  cases kind : call.key <;> simp_all [isRegular, Key.isMember]

theorem Layout.upsert_of_isMember {layout : Layout} {call : Upsert}
    (member : call.key.isMember = true) : layout.upsert call = layout.upsertMember call := by
  cases kind : call.key <;> simp_all [Key.isMember, upsert]

theorem isProtected_of_slash_notMem {fragment : Fragment}
    (slashless : '/' ∉ fragment.text.toList) : fragment.isProtected = false := by
  unfold isProtected Text.contains
  cases cut : Text.splitBefore? protectionMark.toList fragment.text.toList with
  | none => rfl
  | some parts =>
      have front := (Text.isPrefix_of_splitBefore? cut).subset
      have whole := Text.append_of_splitBefore? cut
      have inside : '/' ∈ parts.2 := front (by decide)
      exact absurd (whole ▸ List.mem_append_right parts.1 inside) slashless

namespace Layout

variable {layout : Layout} {call : Upsert}

theorem key_ne_of_mem_front (sound : layout.IsSound) {key : Key} (member : key.isMember = true) :
    ∀ fragment ∈ layout.front, fragment.key ≠ key := by
  have absent : key ∉ keys layout.imports := by
    intro found
    obtain ⟨name, rfl⟩ := sound.importKeys key found
    simp [Key.isMember] at member
  have imports := Entry.key_ne_of_mem_flat (by rintro rfl; simp [Key.isMember] at member) absent
  intro fragment found
  simp only [front, List.cons_append, List.mem_cons, List.mem_append, List.not_mem_nil,
    or_false] at found
  rcases found with rfl | rfl | found | rfl | rfl
  · rintro rfl; simp [Key.isMember] at member
  · rintro rfl; simp [Key.isMember] at member
  · exact imports fragment found
  · rintro rfl; simp [Key.isMember] at member
  · rintro rfl; simp [Key.isMember] at member

theorem key_ne_of_mem_back {key : Key} (member : key.isMember = true) :
    ∀ fragment ∈ layout.back, fragment.key ≠ key := by
  intro fragment found
  simp only [back, List.mem_cons, List.not_mem_nil, or_false] at found
  rcases found with rfl | rfl | rfl
  all_goals rintro rfl; simp [Key.isMember] at member

private theorem isIndexed_of_isMember {key : Key} (member : key.isMember = true) :
    key.isIndexed = true ∧ key ≠ .gap := by
  cases key <;> simp [Key.isMember] at member <;> exact ⟨rfl, by simp⟩

private theorem revise_split {key : Key} {change : String → String} {before after : List Entry}
    {entry : Entry} (same : entry.key = key) (front : key ∉ keys before) (back : key ∉ keys after) :
    revise key change (before ++ entry :: after) =
      before ++ ⟨entry.gap, key, change entry.text⟩ :: after := by
  have here : revise key change (entry :: after)
      = ⟨entry.gap, key, change entry.text⟩ :: revise key change after := by
    simp [revise, same]
  rw [Entry.revise_append, here, Entry.revise_of_notMem front, Entry.revise_of_notMem back]

theorem erase_split {key : Key} {before after : List Entry} {entry : Entry}
    (same : entry.key = key) (front : key ∉ keys before) (back : key ∉ keys after) :
    erase key (before ++ entry :: after) = before ++ after := by
  have here : erase key (entry :: after) = erase key after := by
    simp [erase, same]
  rw [Entry.erase_append, here, Entry.erase_of_notMem front, Entry.erase_of_notMem back]

theorem find?_entry {store : Store} {front back : List Fragment} {before after : List Entry}
    {entry : Entry} {key : Key} (whole : store.fragments = front ++ flat (before ++ entry :: after) ++ back)
    (indexed : key.isIndexed = true) (gap : key ≠ .gap) (same : entry.key = key)
    (outside : ∀ fragment ∈ front, fragment.key ≠ key) (absent : key ∉ keys before) :
    store.find? key =
      some (front ++ flat before ++ [⟨.gap, entry.gap⟩], ⟨key, entry.text⟩, flat after ++ back) := by
  have list : store.fragments =
      (front ++ flat before ++ [⟨.gap, entry.gap⟩]) ++ ⟨key, entry.text⟩ :: (flat after ++ back) := by
    simp [whole, same]
  rw [Store.find?, if_pos indexed, list]
  refine Store.cut?_append_cons ?_ rfl
  intro fragment found
  rw [List.mem_append, List.mem_append, List.mem_singleton] at found
  rcases found with (found | found) | rfl
  · exact outside fragment found
  · exact Entry.key_ne_of_mem_flat gap absent fragment found
  · exact gap.symm

theorem find?_classEnd (sound : layout.IsSound) :
    layout.toStore.find? .classEnd =
      some (layout.front ++ flat layout.members ++ [⟨.gap, layout.endGap⟩], ⟨.classEnd, "\x7d"⟩,
        [⟨.gap, "\n"⟩]) := by
  have list : layout.toStore.fragments = (layout.front ++ flat layout.members
      ++ [⟨.gap, layout.endGap⟩]) ++ ⟨.classEnd, "\x7d"⟩ :: [⟨.gap, "\n"⟩] := by
    simp [toStore, back]
  have noImport : Key.classEnd ∉ keys layout.imports := by
    intro found
    obtain ⟨name, same⟩ := sound.importKeys _ found
    simp at same
  have noMember : Key.classEnd ∉ keys layout.members := fun found =>
    Bool.false_ne_true (sound.memberKeys _ found)
  rw [Store.find?, if_pos (by rfl), list]
  refine Store.cut?_append_cons ?_ rfl
  intro fragment found
  simp only [front, List.cons_append, List.mem_cons, List.mem_append, List.not_mem_nil,
    or_false] at found
  rcases found with rfl | rfl | ((found | rfl | rfl) | found) | rfl
  · simp
  · simp
  · exact Entry.key_ne_of_mem_flat (by simp) noImport fragment found
  · simp
  · simp
  · exact Entry.key_ne_of_mem_flat (by simp) noMember fragment found
  · simp

private theorem insert_member (sound : layout.IsSound) {key : Key} (member : key.isMember = true)
    (text : String) :
    layout.toStore.insert ⟨key, text⟩ 2 = toStore { layout with
      members := layout.members ++ [⟨layout.endGap, key, text⟩]
      endGap := "\n\n" } := by
  have lines : blankLines 2 = ⟨.gap, "\n\n"⟩ := by decide
  rw [Store.insert_of_isMember member (find?_classEnd sound)]
  simp [toStore, front, back, lines]

theorem toStore_upsertMember (sound : layout.IsSound) (member : call.key.isMember = true)
    (blank : call.blank = 2) :
    (layout.toStore.upsert call.key call.text call.blank call.remove).2 =
      (layout.upsertMember call).toStore := by
  obtain ⟨indexed, gap⟩ := isIndexed_of_isMember member
  have outside := key_ne_of_mem_front sound member
  unfold upsertMember
  by_cases present : call.key ∈ keys layout.members
  · obtain ⟨before, entry, after, whole, same, absent, once⟩ :=
      Entry.exists_split sound.distinctMembers present
    have list : layout.toStore.fragments =
        layout.front ++ flat (before ++ entry :: after) ++ layout.back := by
      rw [toStore, whole]
    have cut := find?_entry list indexed gap same outside absent
    have bare : isProtected ⟨call.key, entry.text⟩ = false :=
      isProtected_of_slash_notMem (sound.memberTexts entry (by simp [whole]))
    rw [if_pos present, Store.upsert, cut]
    dsimp only
    rw [bare, if_neg Bool.false_ne_true]
    by_cases remove : call.remove = true
    · rw [if_pos remove, if_pos remove, whole, erase_split same absent once,
        Store.dropLastGap_concat]
      simp [toStore, front, back]
    · rw [if_neg remove, if_neg remove, whole, revise_split same absent once]
      simp [toStore, front, back]
  · have nowhere : layout.toStore.find? call.key = none := by
      rw [Store.find?, if_pos indexed]
      refine Store.cut?_eq_none ?_
      intro fragment found
      rw [toStore, List.mem_append, List.mem_append] at found
      rcases found with (found | found) | found
      · exact outside fragment found
      · exact Entry.key_ne_of_mem_flat gap present fragment found
      · exact key_ne_of_mem_back member fragment found
    rw [if_neg present, Store.upsert, nowhere]
    dsimp only
    by_cases remove : call.remove = true
    · rw [if_pos remove, if_pos remove]
    · rw [if_neg remove, if_neg remove, blank]
      exact insert_member sound member call.text

theorem find?_classDecl (sound : layout.IsSound) :
    layout.toStore.find? .classDecl =
      some (⟨.start, ""⟩ :: ⟨.package, layout.package⟩ :: flat layout.imports
          ++ [⟨.gap, layout.classGap⟩], ⟨.classDecl, layout.declaration⟩,
        flat layout.members ++ layout.back) := by
  have list : layout.toStore.fragments =
      (⟨.start, ""⟩ :: ⟨.package, layout.package⟩ :: flat layout.imports
        ++ [⟨.gap, layout.classGap⟩])
        ++ ⟨.classDecl, layout.declaration⟩ :: (flat layout.members ++ layout.back) := by
    simp [toStore, front]
  have noImport : Key.classDecl ∉ keys layout.imports := by
    intro found
    obtain ⟨name, same⟩ := sound.importKeys _ found
    simp at same
  rw [Store.find?, if_pos (by rfl), list]
  refine Store.cut?_append_cons ?_ rfl
  intro fragment found
  simp only [List.cons_append, List.mem_cons, List.mem_append, List.not_mem_nil,
    or_false] at found
  rcases found with rfl | rfl | found | rfl
  · simp
  · simp
  · exact Entry.key_ne_of_mem_flat (by simp) noImport fragment found
  · simp

theorem find?_package (layout : Layout) :
    ∃ after, layout.toStore.find? .package = some ([⟨.start, ""⟩], ⟨.package, layout.package⟩, after) ∧
      ∀ text, toStore { layout with package := text } =
        ⟨[⟨.start, ""⟩] ++ ⟨.package, text⟩ :: after⟩ := by
  refine ⟨flat layout.imports ++ [⟨.gap, layout.classGap⟩, ⟨.classDecl, layout.declaration⟩]
    ++ flat layout.members ++ layout.back, ?_, fun text => by simp [toStore, front, back]⟩
  rw [Store.find?, if_pos (by rfl)]
  have list : layout.toStore.fragments = [⟨.start, ""⟩] ++ ⟨.package, layout.package⟩ ::
      (flat layout.imports ++ [⟨.gap, layout.classGap⟩, ⟨.classDecl, layout.declaration⟩]
        ++ flat layout.members ++ layout.back) := by
    simp [toStore, front]
  rw [list]
  exact Store.cut?_append_cons (by simp) rfl

theorem toStore_upsertImport (sound : layout.IsSound) {name : String}
    (isImport : call.key = .importOf name) (remove : call.remove = false) (blank : call.blank = 1) :
    (layout.toStore.upsert call.key call.text call.blank call.remove).2 =
      (layout.upsertImport call).toStore := by
  have gap : call.key ≠ .gap := by simp [isImport]
  have indexed : call.key.isIndexed = true := by simp [isImport, Key.isIndexed]
  unfold upsertImport
  by_cases present : call.key ∈ keys layout.imports
  · obtain ⟨before, entry, after, whole, same, absent, once⟩ :=
      Entry.exists_split sound.distinctImports present
    have list : layout.toStore.fragments =
        [⟨.start, ""⟩, ⟨.package, layout.package⟩] ++ flat (before ++ entry :: after)
          ++ ([⟨.gap, layout.classGap⟩, ⟨.classDecl, layout.declaration⟩] ++ flat layout.members
            ++ layout.back) := by
      simp [toStore, front, whole]
    have cut := find?_entry list indexed gap same (by simp [isImport]) absent
    have bare : isProtected ⟨call.key, entry.text⟩ = false :=
      isProtected_of_slash_notMem (sound.importTexts entry (by simp [whole]))
    rw [if_pos present, Store.upsert, cut]
    dsimp only
    rw [bare, if_neg Bool.false_ne_true, remove, if_neg Bool.false_ne_true, whole,
      revise_split same absent once]
    simp [toStore, front, back]
  · have nowhere : layout.toStore.find? call.key = none := by
      rw [Store.find?, if_pos indexed]
      refine Store.cut?_eq_none ?_
      intro fragment found
      have noMember : call.key ∉ keys layout.members := fun found => by
        have member := sound.memberKeys _ found
        simp [isImport, Key.isMember] at member
      simp only [toStore, front, back, List.cons_append, List.mem_cons, List.mem_append,
        List.not_mem_nil, or_false] at found
      rcases found with rfl | rfl | ((found | rfl | rfl) | found) | rfl | rfl | rfl
      · simp [isImport]
      · simp [isImport]
      · exact Entry.key_ne_of_mem_flat gap present fragment found
      · simp [isImport]
      · simp [isImport]
      · exact Entry.key_ne_of_mem_flat gap noMember fragment found
      · simp [isImport]
      · simp [isImport]
      · simp [isImport]
    have lines : blankLines 1 = ⟨.gap, "\n"⟩ := by decide
    rw [if_neg present, Store.upsert, nowhere]
    dsimp only
    rw [remove, if_neg Bool.false_ne_true, blank, isImport, Store.insert]
    dsimp only
    rw [find?_classDecl sound]
    dsimp only
    rw [List.dropLast_concat, List.getLast?_concat, lines]
    simp [toStore, front, back]

/-- A regular call on the store of a layout does to the store what it does to the layout. -/
theorem toStore_upsert (sound : layout.IsSound) (regular : call.isRegular = true) :
    (layout.toStore.upsert call.key call.text call.blank call.remove).2 =
      (layout.upsert call).toStore := by
  unfold Upsert.isRegular at regular
  unfold upsert
  split at regular
  · next same =>
      have remove : call.remove = false := by simpa using regular
      obtain ⟨after, cut, made⟩ := find?_package layout
      have bare : isProtected ⟨.package, layout.package⟩ = false :=
        isProtected_of_slash_notMem sound.packageText
      rw [same]
      dsimp only
      rw [Store.upsert, cut]
      dsimp only
      rw [bare, remove]
      exact (made _).symm
  · next same =>
      have remove : call.remove = false := by simpa using regular
      have cut := find?_classDecl sound
      have bare : isProtected ⟨.classDecl, layout.declaration⟩ = false :=
        isProtected_of_slash_notMem sound.declarationText
      rw [same]
      dsimp only
      rw [Store.upsert, cut]
      dsimp only
      rw [bare, remove]
      simp [toStore, front, back]
  · next name same =>
      obtain ⟨remove, blank⟩ := Bool.and_eq_true_iff.mp regular
      rw [toStore_upsertImport sound same (by simpa using remove) (by simpa using blank), same]
  · next same =>
      obtain ⟨remove, text⟩ := Bool.and_eq_true_iff.mp regular
      have remove : call.remove = false := by simpa using remove
      have text : call.text = "\x7d" := by simpa using text
      have merged : mergeText .classEnd "\x7d" "\x7d" = "\x7d" := by decide
      have cut := find?_classEnd sound
      have bare : isProtected ⟨.classEnd, "\x7d"⟩ = false := by decide
      rw [same]
      dsimp only
      rw [Store.upsert, cut]
      dsimp only
      rw [bare, remove, text, merged]
      simp [toStore, back]
  · next noPackage noClass noImport noEnd =>
      obtain ⟨member, blank⟩ := Bool.and_eq_true_iff.mp regular
      rw [toStore_upsertMember sound member (by simpa using blank)]
      split
      · next same => exact absurd same noPackage
      · next name same => exact absurd same (noImport name)
      · next same => exact absurd same noClass
      · next same => exact absurd same noEnd
      · rfl

end Layout

end ClassWeaver.Fragment
