import ClassWeaver.Proofs.Fragment.Reading
import Mathlib.Data.List.Chain

set_option autoImplicit false

/-!
What a generated file loses when its text is read again: nothing, unless an attribute stands right in
front of a declaration that begins with a constant of the name that belongs to it. Main statements:
the result is a generated file again with no new keys, and it has all the old ones if and only if no
declaration is mistaken for a constant.
-/

namespace ClassWeaver.Fragment

open Source (Reads)

namespace Entry

/-- An entry whose text is one fragment without white space in front. -/
structure IsTidy (entry : Entry) : Prop where
  gap : IsGap entry.gap.toList
  reads : ∃ leading, Reads entry.key leading entry.text.toList

theorem IsReadable.isTidy {entry : Entry} (readable : entry.IsReadable) : entry.tidy.IsTidy where
  gap := isGap_tidy readable.gap
  reads := ⟨entry.leading, readable.reads_leading⟩

theorem isMistaken_iff {first leading : Key} :
    isMistaken first leading = true ↔
      ∃ name, first = .attributeOf ("PROPERTY_" ++ name) ∧ leading = .attributeOf name := by
  constructor
  · intro mistaken
    unfold isMistaken at mistaken
    split at mistaken
    · next constant name => exact ⟨name, by simpa using mistaken, rfl⟩
    · simp at mistaken
  · rintro ⟨name, rfl, rfl⟩
    exact isMistaken_constant name

theorem absorbAll_cons (done : List Entry) (entry : Entry) (entries : List Entry) :
    absorbAll done (entry :: entries) = absorbAll (absorb done entry.leading entry.tidy) entries :=
  rfl

/-- What holds of every entry that is read alone, and of two that are put together if it holds of the
first, holds of all that is read. -/
theorem absorbAll_induction {p : Entry → Prop} {entries : List Entry}
    (alone : ∀ entry ∈ entries, p entry.tidy)
    (together : ∀ last entry, p last → entry ∈ entries → isMistaken last.key entry.leading = true →
      p ⟨last.gap, entry.key, last.text ++ entry.tidy.gap ++ entry.tidy.text⟩)
    (done : List Entry) (before : ∀ entry ∈ done, p entry) :
    ∀ entry ∈ absorbAll done entries, p entry := by
  induction entries generalizing done with
  | nil => exact before
  | cons entry entries ih =>
      have here := alone entry List.mem_cons_self
      have next : ∀ other ∈ absorb done entry.leading entry.tidy, p other := by
        intro other found
        unfold absorb at found
        split at found
        · rw [List.mem_singleton.mp found]
          exact here
        · next last rest =>
            split at found
            · next mistaken =>
                rcases List.mem_cons.mp found with rfl | found
                · exact together last entry (before last List.mem_cons_self) List.mem_cons_self
                    mistaken
                · exact before other (List.mem_cons_of_mem _ found)
            · rcases List.mem_cons.mp found with rfl | found
              · exact here
              · exact before other found
      exact ih (fun other found => alone other (List.mem_cons_of_mem _ found))
        (fun last other ready found => together last other ready (List.mem_cons_of_mem _ found)) _ next

private theorem keys_absorb_sublist (done : List Entry) (leading : Key) (entry : Entry) :
    (keys (absorb done leading entry)).Sublist (entry.key :: keys done) := by
  unfold absorb
  split
  · exact List.Sublist.refl _
  · split
    · exact (List.sublist_cons_self _ _).cons_cons _
    · exact List.Sublist.refl _

theorem keys_absorbAll_sublist (done entries : List Entry) :
    (keys (absorbAll done entries)).Sublist ((keys entries).reverse ++ keys done) := by
  induction entries generalizing done with
  | nil => exact List.Sublist.refl _
  | cons entry entries ih =>
      have first := keys_absorb_sublist done entry.leading entry.tidy
      have rest := ih (absorb done entry.leading entry.tidy)
      have whole : (keys (entry :: entries)).reverse ++ keys done =
          (keys entries).reverse ++ entry.key :: keys done := by simp
      rw [absorbAll_cons, whole]
      exact rest.trans (first.append_left _)

/-- The first of two entries is not taken for the constant of the second one. -/
def isApart (first second : Entry) : Prop :=
  isMistaken first.key second.leading = false

theorem absorbAll_of_isChain {done entries : List Entry}
    (apart : (done.head?.toList ++ entries).IsChain isApart) :
    absorbAll done entries = (entries.map tidy).reverse ++ done := by
  induction entries generalizing done with
  | nil => rfl
  | cons entry entries ih =>
      have alone : absorb done entry.leading entry.tidy = entry.tidy :: done := by
        cases done with
        | nil => rfl
        | cons last done =>
            have first : isMistaken last.key entry.leading = false :=
              (List.isChain_cons_cons.mp apart).1
            simp [absorb, first]
      have rest : (entry :: entries).IsChain isApart := apart.right_of_append
      have next : ((entry.tidy :: done).head?.toList ++ entries).IsChain isApart := by
        obtain ⟨first, later⟩ := List.isChain_cons.mp rest
        exact List.isChain_cons.mpr ⟨first, later⟩
      rw [absorbAll_cons, alone, ih next]
      simp

private theorem length_absorb (done : List Entry) (leading : Key) (entry : Entry) :
    (absorb done leading entry).length =
      if done.head?.any (isMistaken ·.key leading) then done.length else done.length + 1 := by
  unfold absorb
  split
  · rfl
  · next last rest => by_cases mistaken : isMistaken last.key leading = true <;> simp [mistaken]

theorem length_absorbAll_le (done entries : List Entry) :
    (absorbAll done entries).length ≤ done.length + entries.length := by
  have size := (keys_absorbAll_sublist done entries).length_le
  simp only [List.length_append, List.length_reverse, keys, List.length_map] at size
  omega

theorem isChain_of_length {done entries : List Entry}
    (all : (absorbAll done entries).length = done.length + entries.length) :
    entries.IsChain isApart ∧
      ∀ last ∈ done.head?, ∀ first ∈ entries.head?, isApart last first := by
  induction entries generalizing done with
  | nil => simp
  | cons entry entries ih =>
      rw [absorbAll_cons] at all
      have size := length_absorb done entry.leading entry.tidy
      have rest := length_absorbAll_le (absorb done entry.leading entry.tidy) entries
      rw [List.length_cons] at all
      have alone : done.head?.any (isMistaken ·.key entry.leading) = false := by
        by_contra mistaken
        rw [Bool.not_eq_false] at mistaken
        rw [mistaken, if_pos rfl] at size
        omega
      rw [alone, if_neg (by simp)] at size
      obtain ⟨chain, first⟩ := @ih (absorb done entry.leading entry.tidy) (by omega)
      have apart : ∀ last ∈ done.head?, isApart last entry := by
        intro last found
        have other := alone
        rw [Option.mem_def] at found
        rw [found] at other
        simpa [isApart] using other
      have head : (absorb done entry.leading entry.tidy).head? = some entry.tidy := by
        cases done with
        | nil => rfl
        | cons last done =>
            have other : isMistaken last.key entry.leading = false := apart last rfl
            simp [absorb, other]
      refine ⟨List.isChain_cons.mpr ⟨fun next found => first entry.tidy head next found, chain⟩, ?_⟩
      intro last found next here
      obtain rfl : entry = next := by simpa using here
      exact apart last found

theorem content?_map_tidy (entries : List Entry) (key : Key) :
    content? (entries.map tidy) key = content? entries key := by
  have trimmed (entry : Entry) : Text.trimmed entry.tidy.text = Text.trimmed entry.text := by
    have blank : ∀ c ∈ entry.text.toList.takeWhile Text.isAsciiBlank, Text.isBlank c = true :=
      fun c found => Text.isBlank_of_isAsciiBlank (List.mem_takeWhile_imp found)
    have same := Text.trim_blanks_append blank (entry.text.toList.dropWhile Text.isAsciiBlank)
    rw [List.takeWhile_append_dropWhile] at same
    rw [Text.trimmed, Text.trimmed, same, tidy, String.toList_ofList]
  have texts : (fun entry : Entry => Text.trimmed entry.text) ∘ tidy =
      fun entry => Text.trimmed entry.text := funext trimmed
  have same : (fun entry : Entry => entry.key == key) ∘ tidy = fun entry => entry.key == key := rfl
  rw [content?, content?, List.find?_map, Option.map_map, texts, same]

end Entry

namespace Layout

open Entry (keys absorbAll)

variable {package name : List Char} {layout : Layout}

theorem keys_reread_sublist (layout : Layout) :
    (keys layout.reread.members).Sublist (keys layout.members) := by
  have reversed := Entry.keys_absorbAll_sublist [] layout.members
  have whole : keys layout.reread.members = (keys (absorbAll [] layout.members)).reverse :=
    List.map_reverse
  rw [whole]
  simpa using reversed.reverse

private theorem forall_mem_reread {p : Entry → Prop}
    (alone : ∀ entry ∈ layout.members, p entry.tidy)
    (together : ∀ last entry, p last → entry ∈ layout.members →
      Entry.isMistaken last.key entry.leading = true →
        p ⟨last.gap, entry.key, last.text ++ entry.tidy.gap ++ entry.tidy.text⟩) :
    ∀ entry ∈ layout.reread.members, p entry := by
  intro entry found
  exact Entry.absorbAll_induction alone together [] (by simp) entry (List.mem_reverse.mp found)

theorem isTidy_reread (readable : ∀ entry ∈ layout.members, entry.IsReadable) :
    ∀ entry ∈ layout.reread.members, entry.IsTidy := by
  refine forall_mem_reread (fun entry found => (readable entry found).isTidy) ?_
  intro last entry tidied found mistaken
  have tidy := (readable entry found).isTidy
  obtain ⟨before, first⟩ := tidied.reads
  obtain ⟨name, constant, leading⟩ := Entry.isMistaken_iff.mp mistaken
  refine ⟨tidied.gap, before, ?_⟩
  rw [String.toList_append, String.toList_append]
  rw [constant] at first
  exact first.absorb tidy.gap (readable entry found).reads_leading leading

theorem isPlain_reread (plain : layout.IsPlain package name)
    (readable : ∀ entry ∈ layout.members, entry.IsReadable) :
    layout.reread.IsPlain package name := by
  have keys := layout.keys_reread_sublist
  exact { plain with
    memberKeys := fun key found => plain.memberKeys key (keys.subset found)
    distinctMembers := keys.nodup plain.distinctMembers
    gaps := fun entry found => (isTidy_reread readable entry found).gap
    slashless := by
      have free (entry : Entry) (found : entry ∈ layout.members) :
          '/' ∉ entry.tidy.text.toList := by
        rw [Entry.tidy, String.toList_ofList]
        exact fun slash => plain.slashless entry found ((List.dropWhile_suffix _).subset slash)
      refine forall_mem_reread free ?_
      intro last entry first found mistaken slash
      rw [String.toList_append, String.toList_append, List.mem_append, List.mem_append] at slash
      rcases slash with (slash | slash) | slash
      · exact first slash
      · have blank := (Entry.isGap_tidy (readable entry found).gap).blank '/' slash
        exact absurd blank (by decide)
      · exact free entry found slash
    bare := by
      refine forall_mem_reread ?_ ?_
      · intro entry found property named
        have bare := plain.bare entry found property named
        have blank : ∀ c ∈ entry.text.toList.takeWhile Text.isAsciiBlank, Text.isBlank c = true :=
          fun c found => Text.isBlank_of_isAsciiBlank (List.mem_takeWhile_imp found)
        have whole : entry.text.toList.takeWhile Text.isAsciiBlank
            ++ entry.text.toList.dropWhile Text.isAsciiBlank = entry.text.toList :=
          List.takeWhile_append_dropWhile
        rw [← whole] at bare
        rw [Entry.tidy, String.toList_ofList]
        exact bare.of_append blank
      · intro last entry first found mistaken property named
        obtain ⟨label, constant, -⟩ := Entry.isMistaken_iff.mp mistaken
        rw [String.toList_append, String.toList_append, List.append_assoc]
        exact (first _ constant).append _ property }

theorem reread_of_isChain (apart : layout.members.IsChain Entry.isApart) :
    layout.reread = { layout with members := layout.members.map Entry.tidy } := by
  rw [reread, @Entry.absorbAll_of_isChain [] _ apart, List.append_nil, List.reverse_reverse]

end Layout

end ClassWeaver.Fragment
