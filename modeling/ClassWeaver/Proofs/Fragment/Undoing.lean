import ClassWeaver.Proofs.Fragment.Commuting

set_option autoImplicit false

/-!
Members that come into a store and go again. Main statement: members that calls insert in front of the
end of the class, with the blank lines that stand there, leave the store as it was once they are removed,
in whatever order.
-/

namespace ClassWeaver.Fragment

open Entry (flat keys erase)

/-- Says that a call inserts a member into a store, with blank lines and without a mark. -/
structure Upsert.Inserts (call : Upsert) (store : Store) (blank : Nat) : Prop where
  member : call.key.isMember = true
  absent : store.get? call.key = none
  bare : isProtected ⟨call.key, call.text⟩ = false
  lines : call.blank = blank
  stays : call.remove = false

/-- The fragment that a call inserts, with the blank lines that end up in front of it. -/
def Upsert.entry (call : Upsert) : Entry :=
  ⟨(blankLines call.blank).text, call.key, call.text⟩

@[simp] theorem keys_map_entry (calls : List Upsert) :
    keys (calls.map Upsert.entry) = calls.map (·.key) := by
  rw [keys, List.map_map]
  rfl

namespace Store

variable {store : Store} {call : Upsert} {insertions removals : List Upsert}
  {before after : List Fragment} {ended : Fragment} {blank : Nat}

theorem upsert_inserts (cut : store.find? .classEnd = some (before, ended, after))
    (inserts : call.Inserts store blank) :
    (store.upsert call.key call.text call.blank call.remove).2 =
      ⟨before ++ [⟨call.key, call.text⟩, blankLines blank] ++ ended :: after⟩ := by
  have missing : store.find? call.key = none := Option.map_eq_none_iff.mp inserts.absent
  rw [upsert, missing, inserts.stays, inserts.lines]
  exact insert_of_isMember inserts.member cut blank

theorem find?_classEnd_upsert (cut : store.find? .classEnd = some (before, ended, after))
    (inserts : call.Inserts store blank) :
    (store.upsert call.key call.text call.blank call.remove).2.find? .classEnd =
      some (before ++ [⟨call.key, call.text⟩, blankLines blank], ended, after) := by
  obtain ⟨indexed, -, same, unseen⟩ := find?_eq_some_iff.mp cut
  have other : call.key ≠ .classEnd := by
    intro same
    have member := inserts.member
    rw [same] at member
    cases member
  rw [upsert_inserts cut inserts]
  refine find?_eq_some_iff.mpr ⟨indexed, rfl, same, List.forall_mem_append.mpr ⟨unseen, ?_⟩⟩
  simp [other, blankLines]

theorem upsertAll_insertions
    (cut : store.find? .classEnd = some (before ++ [blankLines blank], ended, after))
    (inserts : ∀ call ∈ insertions, call.Inserts store blank)
    (distinct : (insertions.map (·.key)).Nodup) :
    store.upsertAll insertions =
      ⟨before ++ flat (insertions.map Upsert.entry) ++ (blankLines blank :: ended :: after)⟩ := by
  induction insertions generalizing store before with
  | nil =>
    obtain ⟨fragments⟩ := store
    have whole : fragments = before ++ [blankLines blank] ++ ended :: after := (find?_eq_some cut).1
    simp [upsertAll, whole]
  | cons call rest ih =>
    obtain ⟨here, later⟩ := List.forall_mem_cons.mp inserts
    obtain ⟨unused, others⟩ := List.nodup_cons.mp distinct
    have moved := find?_classEnd_upsert cut here
    have shape : before ++ [blankLines blank] ++ [⟨call.key, call.text⟩, blankLines blank] =
        (before ++ [blankLines blank, ⟨call.key, call.text⟩]) ++ [blankLines blank] := by simp
    rw [shape] at moved
    have still : ∀ other ∈ rest,
        other.Inserts (store.upsert call.key call.text call.blank call.remove).2 blank := by
      intro other found
      have unlike : call.key ≠ other.key := fun same =>
        unused (List.mem_map.mpr ⟨other, found, same.symm⟩)
      have texts := @get?_upsert_of_ne store call other unlike
      rw [(later other found).absent, Option.map_none, Option.map_eq_none_iff] at texts
      exact { later other found with absent := texts }
    rw [upsertAll, ih moved still others]
    simp [Upsert.entry, here.lines, blankLines]

theorem upsertAll_removals {entries : List Entry} {back : List Fragment}
    (whole : store.fragments = before ++ flat entries ++ back)
    (outside : ∀ key ∈ keys entries, ∀ fragment ∈ before, fragment.key ≠ key)
    (indexed : ∀ key ∈ keys entries, key.isIndexed = true)
    (bare : ∀ entry ∈ entries, isProtected ⟨entry.key, entry.text⟩ = false)
    (distinct : (keys entries).Nodup) (removes : ∀ call ∈ removals, call.remove = true)
    (same : (removals.map (·.key)).Perm (keys entries)) :
    store.upsertAll removals = ⟨before ++ back⟩ := by
  induction removals generalizing store entries with
  | nil =>
    obtain ⟨fragments⟩ := store
    obtain rfl : entries = [] := List.map_eq_nil_iff.mp (List.nil_perm.mp same)
    simpa [upsertAll] using whole
  | cons call rest ih =>
    obtain ⟨here, later⟩ := List.forall_mem_cons.mp removes
    have listed : call.key ∈ keys entries := same.subset List.mem_cons_self
    obtain ⟨front, entry, last, rfl, named, first, once⟩ := Entry.exists_split distinct listed
    have solid : call.key ≠ .gap := Key.ne_gap_of_isIndexed (indexed call.key listed)
    have cut := Layout.find?_entry whole (indexed call.key listed) solid named
      (outside call.key listed) first
    have unmarked : isProtected ⟨call.key, entry.text⟩ = false := bare entry (by simp)
    have left : (store.upsert call.key call.text call.blank call.remove).2.fragments =
        before ++ flat (front ++ last) ++ back := by
      rw [upsert_of_found cut, Upsert.front, unmarked, here, dropLastGap_concat]
      simp
    have fewer : keys (front ++ last) ⊆ keys (front ++ entry :: last) := by simp
    have middle : (keys (front ++ entry :: last)).Perm (call.key :: keys (front ++ last)) := by
      simp [keys, named]
    rw [upsertAll]
    refine ih left (fun key found => outside key (fewer found))
      (fun key found => indexed key (fewer found)) (fun other found => bare other ?_) ?_ later ?_
    · rw [List.mem_append] at found
      rw [List.mem_append, List.mem_cons]
      exact found.imp_right .inr
    · exact (List.nodup_cons.mp (middle.nodup_iff.mp distinct)).2
    · exact (same.trans middle).cons_inv

/-- Removal undoes insertion. The first end of the class has blank lines before it; members that are
inserted with as many blank lines and removed again, in whatever order, leave the same fragments. -/
theorem upsertAll_undone
    (cut : store.find? .classEnd = some (before ++ [blankLines blank], ended, after))
    (inserts : ∀ call ∈ insertions, call.Inserts store blank)
    (distinct : (insertions.map (·.key)).Nodup) (removes : ∀ call ∈ removals, call.remove = true)
    (same : (removals.map (·.key)).Perm (insertions.map (·.key))) :
    store.upsertAll (insertions ++ removals) = store := by
  obtain ⟨-, whole, -, -⟩ := find?_eq_some_iff.mp cut
  have absent : ∀ key ∈ insertions.map (·.key), ∀ fragment ∈ before, fragment.key ≠ key := by
    intro key found fragment inside
    obtain ⟨call, listed, rfl⟩ := List.mem_map.mp found
    have indexed := Key.isIndexed_of_isMember (inserts call listed).member
    refine (get?_eq_none_iff indexed).mp (inserts call listed).absent fragment ?_
    rw [whole]
    simp [inside]
  have indexed : ∀ key ∈ insertions.map (·.key), key.isIndexed = true := by
    intro key found
    obtain ⟨call, listed, rfl⟩ := List.mem_map.mp found
    exact Key.isIndexed_of_isMember (inserts call listed).member
  have bare : ∀ entry ∈ insertions.map Upsert.entry, isProtected ⟨entry.key, entry.text⟩ = false := by
    intro entry found
    obtain ⟨call, listed, rfl⟩ := List.mem_map.mp found
    exact (inserts call listed).bare
  rw [← keys_map_entry insertions] at absent indexed distinct same
  calc store.upsertAll (insertions ++ removals)
    _ = (store.upsertAll insertions).upsertAll removals := upsertAll_append store insertions removals
    _ = ⟨before ++ blankLines blank :: ended :: after⟩ := by
        rw [upsertAll_insertions cut inserts (by rwa [keys_map_entry] at distinct)]
        exact upsertAll_removals rfl absent indexed bare distinct removes same
    _ = store := by
        obtain ⟨fragments⟩ := store
        obtain rfl : fragments = before ++ [blankLines blank] ++ ended :: after := whole
        simp

/-- Three members of a class with blank lines in front of its end come and go, the last one last. -/
theorem upsertAll_three_members :
    let store : Store := ⟨[⟨.classDecl, "class A \x7b"⟩, ⟨.text "text:", "int z;"⟩, blankLines 2,
      ⟨.classEnd, "\x7d"⟩, ⟨.gap, "\n"⟩]⟩
    let insertions : List Upsert := [⟨.attributeOf "x", "int x = 1;", 2, false⟩,
      ⟨.constructorOf "A()", "A() \x7b\x7d", 2, false⟩, ⟨.methodOf "f()", "void f();", 2, false⟩]
    let removals : List Upsert := [⟨.constructorOf "A()", "", 0, true⟩, ⟨.attributeOf "x", "", 0, true⟩,
      ⟨.methodOf "f()", "", 0, true⟩]
    store.upsertAll (insertions ++ removals) = store := by
  intro store insertions removals
  have cut : store.find? .classEnd = some ([⟨.classDecl, "class A \x7b"⟩, ⟨.text "text:", "int z;"⟩]
      ++ [blankLines 2], ⟨.classEnd, "\x7d"⟩, [⟨.gap, "\n"⟩]) := by decide
  have inserts : ∀ call ∈ insertions, call.Inserts store 2 := by
    simp only [insertions, List.forall_mem_cons]
    exact ⟨⟨rfl, by decide, by decide, rfl, rfl⟩, ⟨rfl, by decide, by decide, rfl, rfl⟩,
      ⟨rfl, by decide, by decide, rfl, rfl⟩, by simp⟩
  exact upsertAll_undone cut inserts (by decide) (by decide) (by decide)

/-- Blank lines in front of a later end of the class do not help: new members go in front of the first
one, and the blank lines behind them stay. -/
theorem later_end_is_not_undone :
    ¬ ∀ (store : Store) (before after : List Fragment) (ended : Fragment) (blank : Nat)
      (insertions removals : List Upsert),
      store.fragments = before ++ [blankLines blank] ++ ended :: after → ended.key = .classEnd →
      (∀ call ∈ insertions, call.Inserts store blank) → (insertions.map (·.key)).Nodup →
      (∀ call ∈ removals, call.remove = true) →
      (removals.map (·.key)).Perm (insertions.map (·.key)) →
      store.upsertAll (insertions ++ removals) = store := by
  intro undone
  let store : Store := ⟨[⟨.classDecl, "class A \x7b"⟩, ⟨.classEnd, "\x7d"⟩, blankLines 2,
    ⟨.classEnd, "\x7d"⟩]⟩
  have inserts : ∀ call ∈ [⟨.methodOf "f()", "void f();", 2, false⟩], Upsert.Inserts call store 2 := by
    rintro call (_ | ⟨_, ⟨⟩⟩)
    exact ⟨rfl, by decide, by decide, rfl, rfl⟩
  have same := undone store [⟨.classDecl, "class A \x7b"⟩, ⟨.classEnd, "\x7d"⟩] [] ⟨.classEnd, "\x7d"⟩ 2
    [⟨.methodOf "f()", "void f();", 2, false⟩] [⟨.methodOf "f()", "", 0, true⟩] rfl rfl inserts
    (by decide) (by decide) (by decide)
  revert same
  decide

end Store

end ClassWeaver.Fragment
