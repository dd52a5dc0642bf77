import ClassWeaver.Proofs.Fragment.Assembly
import ClassWeaver.Proofs.Fragment.Refreshing

set_option autoImplicit false

/-!
Generated files that one version of a class leaves to the next one. Main statements: if the first
calls take away every old member that the next ones do not ask for, then the members of the file are
those of a new file, whatever the file has been through; and calls leave a file as it is that has
the members of a new file already.
-/

namespace ClassWeaver.Fragment

open Entry (keys)

/-- The members of a file with their texts, apart from the blanks around them. -/
def Store.members (store : Store) : List (Key × String) :=
  (store.fragments.filter (·.key.isMember)).map fun fragment =>
    (fragment.key, Text.trimmed fragment.text)

namespace Entry

def member (entry : Entry) : Key × String :=
  (entry.key, Text.trimmed entry.text)

theorem mem_map_member {entries : List Entry} (distinct : (keys entries).Nodup) {key : Key}
    {text : String} : (key, text) ∈ entries.map member ↔ content? entries key = some text := by
  induction entries with
  | nil => simp [content?]
  | cons entry rest ih =>
    obtain ⟨absent, distinct⟩ := List.nodup_cons.mp distinct
    rw [List.map_cons, List.mem_cons, ih distinct, ← List.singleton_append, content?_append,
      content?_singleton, member, Prod.mk.injEq]
    by_cases same : entry.key = key
    · have none : content? rest key = none := by
        rw [← Option.not_isSome_iff_eq_none, content?_isSome_iff]
        exact same ▸ absent
      simp [same, none, eq_comm]
    · simp [same, Ne.symm same]

theorem perm_of_content? {a b : List Entry} (distinctA : (keys a).Nodup) (distinctB : (keys b).Nodup)
    (same : ∀ key, content? a key = content? b key) : (a.map member).Perm (b.map member) := by
  have once {entries : List Entry} (distinct : (keys entries).Nodup) :
      (entries.map member).Nodup := by
    refine List.Nodup.of_map Prod.fst ?_
    rw [List.map_map]
    exact distinct
  refine (List.perm_ext_iff_of_nodup (once distinctA) (once distinctB)).mpr fun ⟨key, text⟩ => ?_
  rw [mem_map_member distinctA, mem_map_member distinctB, same]

end Entry

namespace Upsert

theorem effectOfAll_of_removes {calls : List Upsert} {key : Key}
    (called : key ∈ calls.map (·.key))
    (removes : ∀ call ∈ calls, call.key = key → call.remove = true) (content : Option String) :
    effectOfAll calls key content = none := by
  induction calls generalizing content with
  | nil => cases called
  | cons call rest ih =>
    have later := fun other found => removes other (List.mem_cons_of_mem call found)
    rw [effectOfAll, List.foldl_cons]
    change effectOfAll rest key _ = none
    by_cases again : key ∈ rest.map (·.key)
    · exact ih again later _
    · have here : key = call.key := by
        rw [List.map_cons, List.mem_cons] at called
        exact called.resolve_right again
      rw [effectOfAll_of_notMem again, effect, if_pos here,
        removes call List.mem_cons_self here.symm, if_pos rfl]

theorem declarationOfAll_eq {calls : List Upsert} {text : String}
    (called : .classDecl ∈ calls.map (·.key))
    (each : ∀ call ∈ calls, call.key = .classDecl → call.text = text) (declaration : String) :
    declarationOfAll calls declaration = text := by
  have kept : ∀ calls : List Upsert, (∀ call ∈ calls, call.key = .classDecl → call.text = text) →
      declarationOfAll calls text = text := by
    intro calls each
    induction calls with
    | nil => rfl
    | cons call rest ih =>
      have later := ih fun other found => each other (List.mem_cons_of_mem _ found)
      rw [declarationOfAll, List.foldl_cons]
      split
      · next declares => rwa [each call List.mem_cons_self declares]
      · exact later
  obtain ⟨call, found, declares⟩ := List.mem_map.mp called
  obtain ⟨before, after, rfl⟩ := List.append_of_mem found
  rw [declarationOfAll, List.foldl_append, List.foldl_cons, if_pos declares,
    each call found declares]
  exact kept after fun other inside =>
    each other (List.mem_append_right _ (List.mem_cons_of_mem _ inside))

/-- Says of a call that it belongs to generation: its text is plain and read back under its key, and
it declares nothing that is named like the constant of a property. -/
structure IsGenerated (package name : List Char) (call : Upsert) : Prop
    extends call.IsPlain package name where
  reads : call.key.isMember = true → call.IsReadable
  unmistaken : ∀ property, call.key ≠ .attributeOf ("PROPERTY_" ++ property)

end Upsert

namespace Layout

variable {package name : List Char} {layout : Layout} {calls : List Upsert}

/-- Says that nothing in a file was written by hand, that its members are read back under their
keys, and that none of them is named like the constant of a property. -/
structure IsGenerated (package name : List Char) (layout : Layout) : Prop
    extends layout.IsPlain package name where
  readable : ∀ entry ∈ layout.members, entry.IsReadable
  unmistaken : ∀ property, .attributeOf ("PROPERTY_" ++ property) ∉ keys layout.members

namespace IsGenerated

theorem upsertAll (generated : layout.IsGenerated package name) (declarable : IsDeclarable name)
    (each : ∀ call ∈ calls, call.IsGenerated package name) :
    (layout.upsertAll calls).IsGenerated package name where
  toIsPlain := isPlain_upsertAll declarable generated.toIsPlain fun call found =>
    (each call found).toIsPlain
  readable := isReadable_upsertAll declarable generated.toIsPlain
    (fun call found => (each call found).toIsPlain) (fun call found => (each call found).reads)
    generated.readable
  unmistaken := by
    intro property found
    rcases mem_keys_upsertAll declarable generated.toIsPlain
      (fun call found => (each call found).toIsPlain) found with old | called
    · exact generated.unmistaken property old
    · obtain ⟨call, inside, same⟩ := List.mem_map.mp called
      exact (each call inside).unmistaken property same

theorem isChain (generated : layout.IsGenerated package name) :
    layout.members.IsChain Entry.isApart := by
  refine List.Pairwise.isChain (List.pairwise_of_forall_mem_list fun first inside other _ => ?_)
  refine Bool.eq_false_iff.mpr fun mistaken => ?_
  obtain ⟨property, constant, -⟩ := Entry.isMistaken_iff.mp mistaken
  exact generated.unmistaken property (constant ▸ List.mem_map_of_mem inside)

theorem reread_eq (generated : layout.IsGenerated package name) :
    layout.reread = { layout with members := layout.members.map Entry.tidy } :=
  reread_of_isChain generated.isChain

theorem keys_reread (generated : layout.IsGenerated package name) :
    keys layout.reread.members = keys layout.members := by
  rw [generated.reread_eq]
  exact List.map_map

theorem content?_reread (generated : layout.IsGenerated package name) (key : Key) :
    Entry.content? layout.reread.members key = Entry.content? layout.members key := by
  rw [generated.reread_eq]
  exact Entry.content?_map_tidy _ _

theorem trimmed_of_mem_reread (generated : layout.IsGenerated package name) :
    ∀ entry ∈ layout.reread.members, Text.trimmed entry.text = entry.text := by
  intro entry found
  obtain ⟨leading, reads⟩ := (isTidy_reread generated.readable entry found).reads
  rw [Text.trimmed, Text.trim_of_isTrim reads.isTrim, String.ofList_toList]

theorem reread (generated : layout.IsGenerated package name) :
    layout.reread.IsGenerated package name where
  toIsPlain := isPlain_reread generated.toIsPlain generated.readable
  readable := by
    intro entry found
    obtain ⟨leading, reads⟩ := (isTidy_reread generated.readable entry found).reads
    exact .of_reads (isTidy_reread generated.readable entry found).gap (List.nil_append _).symm
      nofun reads
  unmistaken := by
    rw [generated.keys_reread]
    exact generated.unmistaken

/-- What one version of a class leaves to the next one. If the first calls take away every old
member that the next ones do not ask for, then these leave under every key what they leave in a new
file. -/
theorem content?_succession (generated : layout.IsGenerated package name)
    (declarable : IsDeclarable name) {stale : List Upsert}
    (purges : ∀ call ∈ stale, call.IsGenerated package name)
    (each : ∀ call ∈ calls, call.IsGenerated package name)
    (gone : ∀ call ∈ stale, call.key.isMember = true → call.key ∉ calls.map (·.key) →
      call.remove = true)
    (left : ∀ key ∈ keys layout.members, key ∈ stale.map (·.key) ∨ key ∈ calls.map (·.key))
    {key : Key} (member : key.isMember = true) :
    Entry.content? ((layout.upsertAll stale).reread.upsertAll calls).members key =
      Upsert.effectOfAll calls key none := by
  have purged := generated.upsertAll declarable purges
  rw [content?_upsertAll declarable purged.reread.toIsPlain
    (fun call found => (each call found).toIsPlain) member, purged.content?_reread,
    content?_upsertAll declarable generated.toIsPlain
      (fun call found => (purges call found).toIsPlain) member]
  by_cases called : key ∈ calls.map (·.key)
  · exact Upsert.effectOfAll_of_mem called _ _
  rw [Upsert.effectOfAll_of_notMem called, Upsert.effectOfAll_of_notMem called]
  by_cases stays : key ∈ stale.map (·.key)
  · refine Upsert.effectOfAll_of_removes stays (fun call found same => ?_) _
    exact gone call found (same ▸ member) (same ▸ called)
  · rw [Upsert.effectOfAll_of_notMem stays, ← Option.not_isSome_iff_eq_none,
      Entry.content?_isSome_iff]
    exact fun found => (left key found).elim stays called

theorem upsertAll_reread_eq_self (generated : layout.IsGenerated package name)
    (declarable : IsDeclarable name) (each : ∀ call ∈ calls, call.IsGenerated package name)
    (last : Upsert.RemoveLast calls)
    (imported : ∀ name, .importOf name ∈ calls.map (·.key) → .importOf name ∈ keys layout.imports)
    (declared : Upsert.declarationOfAll calls layout.declaration = layout.declaration)
    (content : ∀ key, key.isMember = true →
      Entry.content? layout.members key = Upsert.effectOfAll calls key none) :
    layout.reread.upsertAll calls = layout.reread := by
  have same {key : Key} (member : key.isMember = true) :
      Entry.content? layout.reread.members key = Upsert.effectOfAll calls key none := by
    rw [generated.content?_reread, content key member]
  refine upsertAll_eq_self declarable generated.reread.toIsPlain
    (fun call found => (each call found).toIsPlain) generated.trimmed_of_mem_reread imported declared
    (fun key member => ?_) fun call found removed there => ?_
  · rw [same member, Upsert.effectOfAll_idempotent]
  · have member := generated.reread.memberKeys call.key there
    rw [← Entry.content?_isSome_iff, same member,
      Upsert.effectOfAll_of_remove last found removed] at there
    cases there

end IsGenerated

theorem isBodyEmpty_toStore (sound : layout.IsSound) :
    layout.toStore.isBodyEmpty = layout.members.isEmpty := by
  have size : (layout.front ++ Entry.flat layout.members
        ++ [Fragment.mk .gap layout.endGap]).length
      - ((Fragment.mk .start "" :: .mk .package layout.package :: Entry.flat layout.imports
        ++ [Fragment.mk .gap layout.classGap]).length + 1) =
      (Entry.flat layout.members ++ [Fragment.mk .gap layout.endGap]).length := by
    simp only [front, List.length_append, List.length_cons, List.length_nil]
    omega
  have between : Entry.flat layout.members ++ layout.back =
      (Entry.flat layout.members ++ [Fragment.mk .gap layout.endGap])
        ++ [.mk .classEnd "\x7d", .mk .gap "\n"] := by
    rw [List.append_assoc]
    rfl
  rw [Store.isBodyEmpty, find?_classDecl sound, find?_classEnd sound]
  dsimp only
  rw [size, between, List.take_left]
  cases members : layout.members with
  | nil => rfl
  | cons entry rest =>
    have member := sound.memberKeys entry.key (by simp [members])
    have solid : (entry.key == Key.gap) = false := by
      refine beq_eq_false_iff_ne.mpr fun same => ?_
      rw [same] at member
      cases member
    simp [solid]

theorem get?_classDecl (sound : layout.IsSound) :
    layout.toStore.get? .classDecl = some ⟨.classDecl, layout.declaration⟩ := by
  rw [Store.get?, find?_classDecl sound]
  rfl

theorem importOf_mem_keys_toStore (sound : layout.IsSound) {name : String} :
    .importOf name ∈ layout.toStore.keys ↔ .importOf name ∈ keys layout.imports := by
  have apart : .importOf name ∉ keys layout.members := fun found =>
    absurd (sound.memberKeys _ found) Bool.false_ne_true
  simp [keys_toStore sound, apart]

theorem get?_eq_none_of_members (sound : layout.IsSound) (empty : layout.members = []) {key : Key}
    (member : key.isMember = true) : layout.toStore.get? key = none := by
  have absent : ∀ fragment ∈ layout.toStore.fragments, fragment.key ≠ key := by
    intro fragment found
    rw [toStore, empty, List.mem_append, List.mem_append] at found
    rcases found with (front | none) | back
    · exact key_ne_of_mem_front sound member fragment front
    · cases none
    · exact key_ne_of_mem_back member fragment back
  rw [Store.get?, Store.find?, Store.cut?_eq_none absent]
  split <;> rfl

theorem render_ne (layout : Layout) : layout.toStore.render ≠ "" := by
  have closed : '\x7d' ∈ layout.toStore.render.toList := by
    rw [toList_render, toStore, charsOf_append]
    exact List.mem_append_right _ (by simp [back, charsOf])
  intro empty
  rw [empty] at closed
  cases closed

theorem members_toStore (sound : layout.IsSound) :
    layout.toStore.members = layout.members.map Entry.member := by
  have apart {fragments : List Fragment}
      (none : ∀ key, key.isMember = true → ∀ fragment ∈ fragments, fragment.key ≠ key) :
      fragments.filter (·.key.isMember) = [] := by
    refine List.filter_eq_nil_iff.mpr fun fragment found member => ?_
    exact none fragment.key member fragment found rfl
  have inside : ∀ entries : List Entry, (∀ key ∈ keys entries, key.isMember = true) →
      (Entry.flat entries).filter (·.key.isMember) =
        entries.map fun entry => ⟨entry.key, entry.text⟩ := by
    intro entries members
    induction entries with
    | nil => rfl
    | cons entry rest ih =>
      have here : entry.key.isMember = true := members entry.key List.mem_cons_self
      have later := ih fun key found => members key (List.mem_cons_of_mem _ found)
      rw [Entry.flat_cons, List.filter_cons_of_neg Bool.false_ne_true, List.filter_cons, if_pos here,
        later, List.map_cons]
  rw [Store.members, toStore, List.filter_append, List.filter_append,
    apart fun key member => key_ne_of_mem_front sound member,
    apart fun key member => key_ne_of_mem_back member, inside _ sound.memberKeys,
    List.nil_append, List.append_nil, List.map_map]
  rfl

end Layout

end ClassWeaver.Fragment
