import ClassWeaver.Proofs.Fragment.Rereading

set_option autoImplicit false

/-!
Files that calls put together from nothing. Main statements: every member of such a file is found again
when its text is read, and the keys that are found are those of the file if and only if no declaration
is mistaken for a constant.
-/

namespace ClassWeaver.Fragment

open Entry (keys flat revise erase)
open Source (Reads IsMember)

theorem Source.Reads.slash_notMem {key leading : Key} {text : List Char}
    (reads : Reads key leading text) : '/' ∉ text := by
  induction reads with
  | member whole => exact whole.slashless
  | property first between second ih =>
    rw [List.mem_append, List.mem_append, not_or, not_or]
    refine ⟨⟨ih, fun found => ?_⟩, second.slashless⟩
    exact absurd (between.blank '/' found) (by decide)

/-- A call with a text that is read under its key, after some white space. -/
def Upsert.IsReadable (call : Upsert) : Prop :=
  ∃ blanks chars leading, call.text.toList = blanks ++ chars ∧
    (∀ c ∈ blanks, Text.isAsciiBlank c = true) ∧ Reads call.key leading chars

namespace Entry

theorem IsReadable.of_reads {gap : String} {key leading : Key} {text : String}
    {blanks chars : List Char} (between : IsGap gap.toList) (whole : text.toList = blanks ++ chars)
    (blank : ∀ c ∈ blanks, Text.isAsciiBlank c = true) (reads : Reads key leading chars) :
    IsReadable ⟨gap, key, text⟩ where
  gap := between
  reads := by
    have filled := reads.startsFilled []
    rw [List.append_nil] at filled
    have dropped : text.toList.dropWhile Text.isAsciiBlank = chars := by
      rw [whole, List.dropWhile_append_of_pos blank]
      cases chars with
      | nil => rfl
      | cons c rest =>
        have first : Text.isAsciiBlank c = false := by simpa [Fragment.startsFilled] using filled
        simp [first]
    exact ⟨leading, by rwa [tidy, String.toList_ofList, dropped]⟩

end Entry

namespace Layout

variable {package name : List Char} {layout : Layout} {call : Upsert}

theorem isReadable_upsert (plain : layout.IsPlain package name)
    (generated : call.IsPlain package name)
    (reads : call.key.isMember = true → call.IsReadable)
    (readable : ∀ entry ∈ layout.members, entry.IsReadable) :
    ∀ entry ∈ (layout.upsert call).members, entry.IsReadable := by
  rcases Upsert.kind_of_isRegular generated.regular with
    kind | ⟨qualified, kind⟩ | kind | kind | member
  · rwa [upsert, kind]
  · rwa [upsert, kind]
  · rwa [upsert, kind]
  · rwa [upsert, kind]
  · obtain ⟨blanks, chars, leading, whole, blank, read⟩ := reads member
    rw [upsert_of_isMember member, upsertMember]
    split
    · dsimp only
      split
      · exact fun entry found => readable entry (List.mem_filter.mp found).1
      · intro entry found
        obtain ⟨old, inside, rfl⟩ := List.mem_map.mp found
        split
        · next same =>
          have merged := mergeText_of_isPlain plain generated member inside same
          have trimmed : (Text.trimmed call.text).toList = [] ++ chars := by
            have visible : ∀ c ∈ blanks, Text.isBlank c = true := fun c inside =>
              Text.isBlank_of_isAsciiBlank (blank c inside)
            rw [Text.trimmed, String.toList_ofList, whole, Text.trim_blanks_append visible,
              Text.trim_of_isTrim read.isTrim, List.nil_append]
          rw [← same] at merged read
          rw [← same]
          dsimp only
          rw [merged]
          exact .of_reads (plain.gaps old inside) trimmed (by simp) read
        · exact readable old inside
    · split
      · exact readable
      · intro entry found
        rcases List.mem_append.mp found with old | new
        · exact readable entry old
        · rw [List.mem_singleton.mp new, plain.endGap]
          exact .of_reads isGap_blankLine whole blank read

theorem isReadable_upsertAll (declarable : IsDeclarable name) (plain : layout.IsPlain package name)
    {calls : List Upsert} (generated : ∀ call ∈ calls, call.IsPlain package name)
    (reads : ∀ call ∈ calls, call.key.isMember = true → call.IsReadable)
    (readable : ∀ entry ∈ layout.members, entry.IsReadable) :
    ∀ entry ∈ (layout.upsertAll calls).members, entry.IsReadable := by
  induction calls generalizing layout with
  | nil => exact readable
  | cons call calls ih =>
    have here := generated call List.mem_cons_self
    have next := isPlain_upsert declarable plain here
    have after := isReadable_upsert plain here (reads call List.mem_cons_self) readable
    exact ih next (fun other found => generated other (List.mem_cons_of_mem _ found))
      (fun other found => reads other (List.mem_cons_of_mem _ found)) after

theorem mem_keys_upsertAll (declarable : IsDeclarable name) (plain : layout.IsPlain package name)
    {calls : List Upsert} (generated : ∀ call ∈ calls, call.IsPlain package name) {key : Key}
    (found : key ∈ keys (layout.upsertAll calls).members) :
    key ∈ keys layout.members ∨ key ∈ calls.map (·.key) := by
  have member := (isPlain_upsertAll declarable plain generated).memberKeys key found
  by_cases called : key ∈ calls.map (·.key)
  · exact .inr called
  · have content := content?_upsertAll declarable plain generated member
    rw [Upsert.effectOfAll_of_notMem called] at content
    rw [← Entry.content?_isSome_iff, content, Entry.content?_isSome_iff] at found
    exact .inl found

def new (package declaration : String) : Layout :=
  ⟨package, [], "\n\n", declaration, [], "\n\n"⟩

/-- The calls that declare the package and the class of a file and end the class. -/
def framing (package declaration : String) : List Upsert :=
  [⟨.package, package, 2, false⟩, ⟨.classDecl, declaration, 2, false⟩, ⟨.classEnd, "\x7d", 1, false⟩]

theorem toStore_new (package declaration : String) :
    Store.empty.upsertAll (framing package declaration) = (new package declaration).toStore := by
  have two : blankLines 2 = ⟨.gap, "\n\n"⟩ := by decide
  have one : blankLines 1 = ⟨.gap, "\n"⟩ := by decide
  simp [framing, Store.upsertAll, Store.upsert, Store.empty, Store.find?, Store.cut?, Store.insert,
    Key.isIndexed, Key.isMember, two, one, new, toStore, front, back]

theorem upsertAll_framing {declaration : String} (declarable : IsDeclarable name)
    (plain : layout.IsPlain package name) (same : layout.declaration = declaration)
    (generated : ∀ call ∈ framing (String.ofList (packageChars package)) declaration,
      call.IsPlain package name) :
    layout.upsertAll (framing (String.ofList (packageChars package)) declaration) = layout := by
  rw [framing, List.forall_mem_cons, List.forall_mem_cons, List.forall_mem_singleton] at generated
  obtain ⟨first, second, -⟩ := generated
  rw [framing, upsertAll, List.foldl_cons, List.foldl_cons, List.foldl_cons, List.foldl_nil,
    upsert_package plain first rfl, upsert_classDecl declarable plain second rfl]
  subst same
  rfl

theorem upsertAll_append (layout : Layout) (calls others : List Upsert) :
    layout.upsertAll (calls ++ others) = (layout.upsertAll calls).upsertAll others :=
  List.foldl_append

theorem isPlain_new {superclass : Option (List Char)}
    (above : ∀ parent ∈ superclass, IsDeclarable parent) :
    (new (String.ofList (packageChars package))
      (String.ofList (declarationChars name superclass))).IsPlain package name where
  packaged := rfl
  imported := nofun
  distinctImports := List.nodup_nil
  classGap := rfl
  declared := ⟨superclass, above, rfl⟩
  memberKeys := nofun
  distinctMembers := List.nodup_nil
  slashless := nofun
  bare := nofun
  gaps := nofun
  endGap := rfl

end Layout

def Store.keys (store : Store) : List Key :=
  (store.fragments.map (·.key)).filter (· != .gap)

namespace Layout

variable {package name : List Char} {layout : Layout}

private theorem keys_flat {entries : List Entry} (solid : .gap ∉ keys entries) :
    ((flat entries).map (·.key)).filter (· != .gap) = keys entries := by
  induction entries with
  | nil => rfl
  | cons entry rest ih =>
    rw [keys, List.map_cons, List.mem_cons, not_or] at solid
    rw [Entry.flat_cons]
    simp [Ne.symm solid.1, ih solid.2]

theorem keys_toStore (sound : layout.IsSound) :
    layout.toStore.keys = Key.start :: .package :: keys layout.imports
      ++ Key.classDecl :: keys layout.members ++ [Key.classEnd] := by
  have imports : .gap ∉ keys layout.imports := by
    intro found
    obtain ⟨name, same⟩ := sound.importKeys _ found
    cases same
  have members : .gap ∉ keys layout.members := fun found => by cases sound.memberKeys _ found
  simp [Store.keys, toStore, front, back, keys_flat imports, keys_flat members]

/-- Of a file that is read again only keys of members can be missing. -/
theorem keys_parse_render (reference : IsReference package) (declarable : IsDeclarable name)
    (plain : layout.IsPlain package name)
    (readable : ∀ entry ∈ layout.members, entry.IsReadable) :
    (Store.parse layout.toStore.render).keys.Sublist layout.toStore.keys ∧
      ((Store.parse layout.toStore.render).keys = layout.toStore.keys ↔
        layout.members.IsChain Entry.isApart) := by
  have again := isPlain_reread plain readable
  have read : (Store.parse layout.toStore.render).keys =
      Key.start :: .package :: keys layout.imports
        ++ Key.classDecl :: keys layout.reread.members ++ [Key.classEnd] := by
    rw [parse_render reference declarable plain readable,
      keys_toStore (again.isSound reference declarable)]
    rfl
  rw [read, keys_toStore (plain.isSound reference declarable)]
  constructor
  · exact (((layout.keys_reread_sublist.cons_cons _).append_left _).append_right _)
  · simp only [List.append_cancel_left_eq, List.append_cancel_right_eq, List.cons.injEq, true_and]
    constructor
    · intro same
      have size := congrArg List.length same
      have all : (Entry.absorbAll [] layout.members).length = layout.members.length := by
        simpa [keys, reread] using size
      exact (@Entry.isChain_of_length [] layout.members (by simpa using all)).1
    · intro apart
      rw [reread_of_isChain apart]
      simp [keys, Entry.tidy]

end Layout

end ClassWeaver.Fragment
