set_option autoImplicit false

/-!
Sequences of steps that may fail. Main statements: what every step keeps up holds after all of them,
the failure of a sequence is that of one of its steps, and sequences match if their steps do.
-/

namespace ClassWeaver

variable {ε α β : Type}

theorem exists_of_bind_eq_ok {x : Except ε α} {f : α → Except ε β} {b : β}
    (done : x >>= f = .ok b) : ∃ a, x = .ok a ∧ f a = .ok b := by
  cases x with
  | error e => cases done
  | ok a => exact ⟨a, rfl, done⟩

theorem of_bind_eq_error {x : Except ε α} {f : α → Except ε β} {e : ε}
    (failed : x >>= f = .error e) : x = .error e ∨ ∃ a, x = .ok a ∧ f a = .error e := by
  cases x with
  | error e => exact .inl (congrArg Except.error (Except.error.inj failed))
  | ok a => exact .inr ⟨a, rfl, failed⟩

theorem bind_of_eq_ok {x : Except ε α} {a : α} (done : x = .ok a) (f : α → Except ε β) :
    x >>= f = f a := by
  rw [done]
  rfl

theorem map_bind_eq {γ : Type} (x : Except ε α) (f : α → Except ε β) (outer : β → γ) :
    (x >>= f).map outer = x >>= fun a => (f a).map outer := by
  cases x <;> rfl

theorem bind_eq_map_bind {γ δ : Type} {x : Except ε α} {y : Except ε β} {inner : β → α}
    {outer : δ → γ} {f : α → Except ε γ} {g : β → Except ε δ} (first : x = y.map inner)
    (next : ∀ b, y = .ok b → f (inner b) = (g b).map outer) : x >>= f = (y >>= g).map outer := by
  subst first
  cases y with
  | error e => rfl
  | ok b => exact next b rfl

section Lists

variable {step : β → α → Except ε β} {list : List α} {first last : β}

theorem foldlM_keeps (keeps : β → Prop)
    (each : ∀ a ∈ list, ∀ b after, step b a = .ok after → keeps b → keeps after)
    (done : list.foldlM step first = .ok last) (start : keeps first) : keeps last := by
  induction list generalizing first with
  | nil => rwa [← Except.ok.inj done]
  | cons a rest ih =>
    obtain ⟨next, here, later⟩ := exists_of_bind_eq_ok done
    exact ih (fun b found => each b (List.mem_cons_of_mem a found)) later
      (each a List.mem_cons_self first next here start)

theorem exists_of_foldlM_eq_error {e : ε} (failed : list.foldlM step first = .error e) :
    ∃ a ∈ list, ∃ b, step b a = .error e := by
  induction list generalizing first with
  | nil => cases failed
  | cons a rest ih =>
    rcases of_bind_eq_error failed with here | ⟨next, -, later⟩
    · exact ⟨a, List.mem_cons_self, first, here⟩
    · obtain ⟨b, found, there⟩ := ih later
      exact ⟨b, List.mem_cons_of_mem a found, there⟩

theorem exists_foldlM_of_related {related : β → β → Prop}
    (each : ∀ a ∈ list, ∀ b c after, related b c → step b a = .ok after →
      ∃ there, step c a = .ok there ∧ related after there)
    (done : list.foldlM step first = .ok last) {other : β} (start : related first other) :
    ∃ there, list.foldlM step other = .ok there ∧ related last there := by
  induction list generalizing first other with
  | nil => exact ⟨other, rfl, Except.ok.inj done ▸ start⟩
  | cons a rest ih =>
    obtain ⟨next, here, later⟩ := exists_of_bind_eq_ok done
    obtain ⟨there, same, close⟩ := each a List.mem_cons_self first other next start here
    rw [List.foldlM_cons, same]
    exact ih (fun b found => each b (List.mem_cons_of_mem a found)) later close

theorem exists_foldlM_eq_ok
    (anyway : ∀ a b after other, step b a = .ok after → ∃ there, step other a = .ok there)
    (done : list.foldlM step first = .ok last) (start : β) :
    ∃ there, list.foldlM step start = .ok there := by
  have each : ∀ a ∈ list, ∀ b c after, True → step b a = .ok after →
      ∃ there, step c a = .ok there ∧ True := by
    intro a _ b c after _ here
    obtain ⟨there, same⟩ := anyway a b after c here
    exact ⟨there, same, trivial⟩
  obtain ⟨there, same, -⟩ := exists_foldlM_of_related each done trivial
  exact ⟨there, same⟩

theorem foldlM_map {γ : Type} {inner : γ → α → Except ε γ} (whole : γ → β) (holds : γ → Prop)
    (each : ∀ a ∈ list, ∀ c, holds c → step (whole c) a = (inner c a).map whole)
    (keeps : ∀ a ∈ list, ∀ c after, inner c a = .ok after → holds c → holds after) {c : γ}
    (start : holds c) : list.foldlM step (whole c) = (list.foldlM inner c).map whole := by
  induction list generalizing c with
  | nil => rfl
  | cons a rest ih =>
    rw [List.foldlM_cons, List.foldlM_cons]
    refine bind_eq_map_bind (each a List.mem_cons_self c start) fun next stepped => ?_
    exact ih (fun b found => each b (List.mem_cons_of_mem a found))
      (fun b found => keeps b (List.mem_cons_of_mem a found))
      (keeps a List.mem_cons_self c next stepped start)

theorem eq_of_foldlM_concat {γ : Type} (whole : List γ → β) (item : α → γ)
    (each : ∀ items a after, step (whole items) a = .ok after → after = whole (items ++ [item a]))
    {items : List γ} (done : list.foldlM step (whole items) = .ok last) :
    last = whole (items ++ list.map item) := by
  induction list generalizing items with
  | nil => rw [List.map_nil, List.append_nil, ← Except.ok.inj done]
  | cons a rest ih =>
    obtain ⟨next, here, later⟩ := exists_of_bind_eq_ok done
    rw [each items a next here] at later
    rw [ih later, List.map_cons, List.append_assoc, List.singleton_append]

theorem forM_eq_ok_iff {check : α → Except ε Unit} :
    list.forM check = .ok () ↔ ∀ a ∈ list, check a = .ok () := by
  induction list with
  | nil => exact ⟨fun _ => List.forall_mem_nil _, fun _ => rfl⟩
  | cons a rest ih =>
    rw [List.forall_mem_cons, ← ih]
    constructor
    · intro done
      obtain ⟨_, here, later⟩ := exists_of_bind_eq_ok done
      exact ⟨here, later⟩
    · rintro ⟨here, later⟩
      exact (bind_of_eq_ok here _).trans later

end Lists

end ClassWeaver
