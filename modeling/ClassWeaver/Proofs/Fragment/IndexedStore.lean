import ClassWeaver.Fragment.IndexedStore
import ClassWeaver.Proofs.Fragment.Lookup

set_option autoImplicit false

/-!
The index of a store and its fragments. Main statements: whatever calls a store has been through, its
index leads to the first fragment under each key that can be looked up and nowhere else, the calls have
done what they do without an index, and a key that was there at most once still is.
-/

namespace ClassWeaver.Fragment

variable {key : Key} {fragments : List Fragment} {position : Nat}

/-- The position of the first fragment with a key, if the key can be looked up. -/
def positionOf? (key : Key) (fragments : List Fragment) : Option Nat :=
  if key.isIndexed then fragments.findIdx? (·.key == key) else none

theorem positionOf?_nil (key : Key) : positionOf? key [] = none := by
  simp [positionOf?]

theorem positionOf?_cons (key : Key) (fragment : Fragment) (rest : List Fragment) :
    positionOf? key (fragment :: rest) =
      if fragment.key = key ∧ key.isIndexed = true then some 0
      else (positionOf? key rest).map (· + 1) := by
  by_cases indexed : key.isIndexed = true
  · by_cases same : fragment.key = key <;> simp [positionOf?, List.findIdx?_cons, indexed, same]
  · simp [positionOf?, indexed]

theorem positionOf?_congr {others : List Fragment}
    (alike : fragments.map (·.key) = others.map (·.key)) :
    positionOf? key fragments = positionOf? key others := by
  have keyed (list : List Fragment) :
      list.findIdx? (·.key == key) = (list.map (·.key)).findIdx? (· == key) := by
    rw [List.findIdx?_map]
    rfl
  rw [positionOf?, positionOf?, keyed, keyed, alike]

namespace Index

theorem lookup_note (index : Index) (noted key : Key) (position : Nat) :
    (index.note noted position).lookup key =
      (index.lookup key).or
        (if noted = key ∧ key.isIndexed = true then some position else none) := by
  rw [note]
  by_cases same : noted = key
  · subst same
    by_cases indexed : noted.isIndexed = true
    · cases known : index.lookup noted <;> simp [indexed, known]
    · simp [indexed]
  · have other : (key == noted) = false := beq_false_of_ne (Ne.symm same)
    split <;> simp [List.lookup_cons, other, same]

/-- The induction is on the fragments that are still to be noted, which begin at `first`. -/
private theorem lookup_foldl_note (key : Key) (fragments : List Fragment) (index : Index)
    (first : Nat) :
    ((fragments.zipIdx first).foldl
        (fun index (fragment, position) => index.note fragment.key position) index).lookup key =
      (index.lookup key).or ((positionOf? key fragments).map (· + first)) := by
  induction fragments generalizing index first with
  | nil => simp [positionOf?_nil]
  | cons fragment rest ih =>
    rw [List.zipIdx_cons, List.foldl_cons, ih, lookup_note, positionOf?_cons, Option.or_assoc]
    congr 1
    split
    · simp
    · rw [Option.none_or, Option.map_map]
      congr 1
      funext position
      simp only [Function.comp_apply]
      omega

theorem lookup_ofFragments (key : Key) (fragments : List Fragment) :
    (ofFragments fragments).lookup key = positionOf? key fragments := by
  rw [ofFragments, lookup_foldl_note]
  simp

end Index

namespace Store

private theorem cut?_eq (key : Key) (fragments : List Fragment) :
    cut? key fragments = (fragments.findIdx? (·.key == key)).bind fun position =>
      fragments[position]?.map fun found =>
        (fragments.take position, found, fragments.drop (position + 1)) := by
  induction fragments with
  | nil => rfl
  | cons fragment rest ih =>
    rw [cut?, List.findIdx?_cons]
    by_cases same : fragment.key = key
    · simp [same]
    · simp only [same, if_false, beq_iff_eq, ih, Option.map_bind, Option.bind_map]
      congr 1
      funext position
      simp [Function.comp_def]

theorem find?_eq (store : Store) (key : Key) :
    store.find? key = (positionOf? key store.fragments).bind fun position =>
      store.fragments[position]?.map fun found =>
        (store.fragments.take position, found, store.fragments.drop (position + 1)) := by
  rw [find?, positionOf?]
  split
  · exact cut?_eq key store.fragments
  · rfl

end Store

namespace IndexedStore

variable {store : IndexedStore}

/-- Says that the index has the position of the first fragment under each key that can be looked up,
and nothing else. -/
def IsTracked (store : IndexedStore) : Prop :=
  ∀ key, store.index.lookup key = positionOf? key store.fragments

theorem isTracked_ofFragments (fragments : List Fragment) : (ofFragments fragments).IsTracked :=
  fun key => Index.lookup_ofFragments key fragments

section Tracked

variable (tracked : store.IsTracked)

include tracked

theorem IsTracked.get?_eq (key : Key) :
    store.get? key = if key.isIndexed then store.fragments.find? (·.key == key) else none := by
  rw [get?, tracked, positionOf?]
  split
  · rw [List.find?_eq_bind_findIdx?_getElem?]
  · rfl

theorem IsTracked.find?_eq_none (missing : store.index.lookup key = none) :
    store.toStore.find? key = none := by
  rw [Store.find?_eq, toStore, ← tracked, missing]
  rfl

theorem IsTracked.exists_found (known : store.index.lookup key = some position) :
    ∃ before found after, store.toStore.find? key = some (before, found, after) ∧
      store.fragments = before ++ found :: after ∧ before.length = position ∧ found.key = key := by
  have here : positionOf? key store.fragments = some position := (tracked key).symm.trans known
  have inside : position < store.fragments.length := by
    rw [positionOf?] at here
    split at here
    · exact (List.findIdx?_eq_some_iff_getElem.mp here).1
    · cases here
  have cut : store.toStore.find? key = some (store.fragments.take position,
      store.fragments[position], store.fragments.drop (position + 1)) := by
    rw [Store.find?_eq, toStore, here, Option.bind_some, List.getElem?_eq_getElem inside]
    rfl
  obtain ⟨whole, same⟩ := Store.find?_eq_some cut
  exact ⟨_, _, _, cut, whole, List.length_take_of_le (Nat.le_of_lt inside), same⟩

end Tracked

private theorem getElem?_middle (before after : List Fragment) (found : Fragment) :
    (before ++ found :: after)[before.length]? = some found := by
  simp

private theorem set_middle (before after : List Fragment) (found other : Fragment) :
    (before ++ found :: after).set before.length other = before ++ other :: after := by
  simp

private theorem toStore_insertPair {front back : List Fragment}
    (whole : store.fragments = front ++ back) (first second : Fragment) :
    (store.insertPair front.length first second).toStore =
      ⟨front ++ first :: second :: back⟩ := by
  have placed : ((front ++ back).insertIdx front.length first).insertIdx (front.length + 1) second =
      front ++ first :: second :: back := by
    clear whole
    induction front with
    | nil => rfl
    | cons fragment front ih =>
      simpa only [List.cons_append, List.length_cons, List.insertIdx_succ_cons] using
        congrArg (fragment :: ·) ih
  rw [insertPair, whole, placed]
  rfl

private theorem eraseIdx_middle (before after : List Fragment) (found : Fragment) :
    (before ++ found :: after).eraseIdx before.length = before ++ after := by
  rw [List.eraseIdx_append_of_length_le (Nat.le_refl _), Nat.sub_self, List.eraseIdx_cons_zero]

private theorem toStore_insert_import (tracked : store.IsTracked) (name text : String)
    (blank : Nat) : (store.insert ⟨.importOf name, text⟩ blank).toStore =
      store.toStore.insert ⟨.importOf name, text⟩ blank := by
  rw [insert, Store.insert]
  dsimp only
  cases known : store.index.lookup .classDecl with
  | none =>
    rw [tracked.find?_eq_none known]
    rfl
  | some position =>
    obtain ⟨before, found, after, cut, whole, rfl, -⟩ := tracked.exists_found known
    rw [cut]
    dsimp only
    cases before using List.reverseRecOn with
    | nil => exact @toStore_insertPair store [] (found :: after) whole _ _
    | append_singleton front last _ =>
      rw [List.append_assoc] at whole
      rw [List.length_append, List.length_singleton, Nat.add_sub_cancel, toStore_insertPair whole]
      simp

private theorem toStore_insert (tracked : store.IsTracked) (fragment : Fragment) (blank : Nat) :
    (store.insert fragment blank).toStore = store.toStore.insert fragment blank := by
  obtain ⟨key, text⟩ := fragment
  cases key with
  | importOf name => exact toStore_insert_import tracked name text blank
  | constructorOf | attributeOf | methodOf =>
    simp only [insert, Store.insert, Key.isMember, if_true]
    cases known : store.index.lookup .classEnd with
    | none =>
      rw [tracked.find?_eq_none known]
      rfl
    | some position =>
      obtain ⟨before, found, after, cut, whole, rfl, -⟩ := tracked.exists_found known
      rw [cut]
      dsimp only
      rw [toStore_insertPair whole]
      simp
  | start | package | classDecl | classEnd | gap | text => rfl

private theorem toStore_remove {before after : List Fragment} {found : Fragment}
    (whole : store.fragments = before ++ found :: after) :
    (store.remove before.length).toStore = ⟨Store.dropLastGap before ++ after⟩ := by
  rw [remove, whole, eraseIdx_middle, Store.dropLastGap]
  cases before using List.reverseRecOn with
  | nil => rfl
  | append_singleton front last _ =>
    have there : (front ++ [last] ++ after)[(front ++ [last]).length - 1]? = some last := by
      simp
    have erased : (front ++ [last] ++ after).eraseIdx ((front ++ [last]).length - 1) =
        front ++ after := by
      simpa using eraseIdx_middle front after last
    rw [there, erased, List.getLast?_concat, List.dropLast_concat]
    by_cases gap : last.key = .gap <;> simp [gap, ofFragments, toStore]

theorem isTracked_insert (store : IndexedStore) (fragment : Fragment) (blank : Nat) :
    (store.insert fragment blank).IsTracked := by
  rw [insert]
  split <;> split <;> exact isTracked_ofFragments _

theorem isTracked_remove (store : IndexedStore) (position : Nat) :
    (store.remove position).IsTracked := by
  rw [remove]
  split <;> exact isTracked_ofFragments _

private theorem IsTracked.setText (tracked : store.IsTracked) {before after : List Fragment}
    {found : Fragment} (whole : store.fragments = before ++ found :: after) (text : String) :
    IsTracked { store with fragments := before ++ { found with text := text } :: after } := by
  intro key
  rw [tracked key, whole]
  exact positionOf?_congr (by simp)

/-- One call gives the answer that it gives without an index, and keeps the index right. -/
theorem IsTracked.exists_upsert (tracked : store.IsTracked) (call : Upsert) :
    ∃ answer after, store.upsert call.key call.text call.blank call.remove = (answer, after) ∧
      after.IsTracked ∧ store.toStore.upsert call.key call.text call.blank call.remove =
        (answer, after.toStore) := by
  rw [IndexedStore.upsert, Store.upsert]
  cases known : store.index.lookup call.key with
  | none =>
    rw [tracked.find?_eq_none known]
    dsimp only
    split
    · exact ⟨_, _, rfl, tracked, rfl⟩
    · exact ⟨_, _, rfl, isTracked_insert _ _ _, by rw [toStore_insert tracked]⟩
  | some position =>
    obtain ⟨before, found, after, cut, whole, rfl, same⟩ := tracked.exists_found known
    rw [cut]
    dsimp only
    rw [whole, getElem?_middle]
    dsimp only
    split
    · exact ⟨_, _, rfl, tracked, rfl⟩
    · split
      · exact ⟨_, _, rfl, isTracked_remove _ _, by rw [toStore_remove whole]⟩
      · rw [set_middle]
        refine ⟨_, _, rfl, tracked.setText whole (mergeText call.key found.text call.text), ?_⟩
        rw [toStore, same]

def upsertAll (store : IndexedStore) : List Upsert → IndexedStore
  | [] => store
  | call :: rest => (store.upsert call.key call.text call.blank call.remove).2.upsertAll rest

theorem IsTracked.upsertAll (tracked : store.IsTracked) (calls : List Upsert) :
    (store.upsertAll calls).IsTracked ∧
      (store.upsertAll calls).toStore = store.toStore.upsertAll calls := by
  induction calls generalizing store with
  | nil => exact ⟨tracked, rfl⟩
  | cons call rest ih =>
    obtain ⟨answer, after, here, still, same⟩ := tracked.exists_upsert call
    rw [IndexedStore.upsertAll, Store.upsertAll, here, same]
    exact ih still

theorem IsTracked.isBodyEmpty_eq (tracked : store.IsTracked) :
    store.isBodyEmpty = store.toStore.isBodyEmpty := by
  rw [isBodyEmpty, Store.isBodyEmpty]
  cases first : store.index.lookup .classDecl with
  | none => rw [tracked.find?_eq_none first]
  | some start =>
    obtain ⟨before, declared, after, cut, whole, rfl, -⟩ := tracked.exists_found first
    rw [cut]
    cases last : store.index.lookup .classEnd with
    | none => rw [tracked.find?_eq_none last]
    | some stop =>
      obtain ⟨front, ended, back, cut', -, rfl, -⟩ := tracked.exists_found last
      have behind : store.fragments.drop (before.length + 1) = after := by
        rw [whole, ← List.drop_drop, List.drop_left, List.drop_one, List.tail_cons]
      rw [cut']
      dsimp only
      rw [List.drop_take, behind]
      by_cases early : front.length ≤ before.length
      · have none : front.length - (before.length + 1) = 0 := by omega
        simp [early, none]
      · simp [early]

end IndexedStore

/-- Says that every key that can be looked up is there at most once. -/
def HasUniqueKeys (fragments : List Fragment) : Prop :=
  ((fragments.map (·.key)).filter Key.isIndexed).Nodup

instance (fragments : List Fragment) : Decidable (HasUniqueKeys fragments) :=
  inferInstanceAs (Decidable (List.Nodup _))

theorem hasUniqueKeys_iff {store : Store} : HasUniqueKeys store.fragments ↔
    ∀ key, key.isIndexed = true → (store.textsAt key).length ≤ 1 := by
  rw [HasUniqueKeys, List.nodup_iff_count_le_one]
  refine forall_congr' fun key => ?_
  by_cases indexed : key.isIndexed = true
  · have counted : ((store.fragments.map (·.key)).filter Key.isIndexed).count key =
        (store.textsAt key).length := by
      rw [List.count_filter indexed, Store.textsAt, List.length_map, List.count_eq_countP,
        List.countP_map, List.countP_eq_length_filter]
      rfl
    rw [counted]
    exact ⟨fun few _ => few, fun few => few indexed⟩
  · have absent : key ∉ (store.fragments.map (·.key)).filter Key.isIndexed := fun found =>
      indexed (List.mem_filter.mp found).2
    rw [List.count_eq_zero.mpr absent]
    exact iff_of_true (Nat.zero_le 1) fun sure => absurd sure indexed

private theorem length_settle_le (call : Upsert) {texts : List String} (few : texts.length ≤ 1) :
    (call.settle texts).length ≤ 1 := by
  cases texts with
  | nil =>
    rw [Upsert.settle]
    split <;> simp
  | cons old rest =>
    rw [Upsert.settle]
    split
    · exact few
    · split
      · exact Nat.le_of_succ_le few
      · exact few

private theorem length_foldl_settle_le (calls : List Upsert) {texts : List String}
    (few : texts.length ≤ 1) :
    (calls.foldl (fun texts call => call.settle texts) texts).length ≤ 1 := by
  induction calls generalizing texts with
  | nil => exact few
  | cons call rest ih => exact ih (length_settle_le call few)

theorem length_textsAt_upsertAll {store : Store} {key : Key} (indexed : key.isIndexed = true)
    (few : (store.textsAt key).length ≤ 1) (calls : List Upsert) :
    ((store.upsertAll calls).textsAt key).length ≤ 1 := by
  rw [Store.textsAt_upsertAll indexed]
  exact length_foldl_settle_le _ few

theorem HasUniqueKeys.upsertAll {store : Store} (unique : HasUniqueKeys store.fragments)
    (calls : List Upsert) : HasUniqueKeys (store.upsertAll calls).fragments := by
  rw [hasUniqueKeys_iff] at unique ⊢
  exact fun key indexed => length_textsAt_upsertAll indexed (unique key indexed) calls

namespace IndexedStore

/-- The index and the fragments never disagree. From whatever fragments a store is made and whatever
calls it has been through, the calls have done what they do without an index, the index has the
position of the first fragment under each key that can be looked up and no other position, what is
looked up is that fragment, and keys that were unique still are. -/
theorem index_agrees (fragments : List Fragment) (calls : List Upsert) :
    let store := (ofFragments fragments).upsertAll calls
    store.toStore = Store.upsertAll ⟨fragments⟩ calls ∧
      (∀ key, store.index.lookup key =
        if key.isIndexed then store.fragments.findIdx? (·.key == key) else none) ∧
      (∀ key, store.get? key =
        if key.isIndexed then store.fragments.find? (·.key == key) else none) ∧
      (HasUniqueKeys fragments → HasUniqueKeys store.fragments) := by
  intro store
  obtain ⟨tracked, same⟩ := (isTracked_ofFragments fragments).upsertAll calls
  refine ⟨same, tracked, tracked.get?_eq, fun unique => ?_⟩
  have still := @HasUniqueKeys.upsertAll ⟨fragments⟩ unique calls
  have whole : store.fragments = (Store.upsertAll ⟨fragments⟩ calls).fragments :=
    congrArg Store.fragments same
  rwa [whole]

/-- A class gets an import, two members and a new text for one of them, and loses the other one. -/
theorem index_agrees_five_calls :
    let fragments : List Fragment := [⟨.start, ""⟩, ⟨.package, "package p;"⟩, blankLines 2,
      ⟨.classDecl, "class A \x7b"⟩, ⟨.unclassified, "int z;"⟩, blankLines 2, ⟨.classEnd, "\x7d"⟩]
    let calls : List Upsert := [⟨.importOf "q.B", "import q.B;", 1, false⟩,
      ⟨.attributeOf "x", "int x;", 2, false⟩, ⟨.methodOf "f()", "void f();", 2, false⟩,
      ⟨.methodOf "f()", "int f();", 2, false⟩, ⟨.attributeOf "x", "", 2, true⟩]
    let store := (ofFragments fragments).upsertAll calls
    HasUniqueKeys fragments ∧ HasUniqueKeys store.fragments ∧
      store.get? (.methodOf "f()") = some ⟨.methodOf "f()", "int f();"⟩ ∧
      store.index.lookup .classEnd = some 10 := by
  intro fragments calls store
  have unique : HasUniqueKeys fragments := by decide
  obtain ⟨-, positions, found, still⟩ := index_agrees fragments calls
  refine ⟨unique, still unique, (found _).trans ?_, (positions _).trans ?_⟩ <;> decide

end IndexedStore

end ClassWeaver.Fragment
