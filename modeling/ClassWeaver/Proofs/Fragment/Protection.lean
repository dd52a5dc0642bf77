import ClassWeaver.Proofs.Fragment.IndexedStore
import ClassWeaver.Proofs.Fragment.Thinning

set_option autoImplicit false

/-!
Hand-written code inside a class. Main statement: if members are taken out of a file with such code, the
file is read again, and calls are carried out that keep the class, then the class still has a body.
-/

namespace ClassWeaver.Fragment

namespace Store

/-- What stands between the class declaration and the end of the class. -/
def classBody (store : Store) : List Fragment :=
  match store.find? .classDecl, store.find? .classEnd with
  | some (beforeDecl, _, afterDecl), some (beforeEnd, _, _) =>
    afterDecl.take (beforeEnd.length - (beforeDecl.length + 1))
  | _, _ => []

theorem isBodyEmpty_eq (store : Store) :
    store.isBodyEmpty = store.classBody.all (·.key == .gap) := by
  rw [isBodyEmpty, classBody]
  cases store.find? .classDecl <;> cases store.find? .classEnd <;> rfl

/-- Says what a file has in front of its class, in its body and behind its end. -/
structure Encloses (store : Store) (front : List Fragment) (declaration : String)
    (inner behind : List Fragment) : Prop where
  whole : store.fragments =
    front ++ ⟨.classDecl, declaration⟩ :: (inner ++ ⟨.classEnd, "\x7d"⟩ :: behind)
  before : ∀ fragment ∈ front, fragment.key.isOuter = true
  inside : ∀ fragment ∈ inner, fragment.key.isInner = true
  after : ∀ fragment ∈ behind, fragment.key.isOuter = true

section Encloses

variable {store : Store} {front inner behind : List Fragment} {declaration : String}

theorem ne_of_isOuter {fragments : List Fragment} {key : Key} (inner : key.isOuter = false)
    (outer : ∀ fragment ∈ fragments, fragment.key.isOuter = true) :
    ∀ fragment ∈ fragments, fragment.key ≠ key := by
  rintro fragment found rfl
  rw [outer fragment found] at inner
  cases inner

theorem ne_of_isInner {fragments : List Fragment} {key : Key} (outside : key.isInner = false)
    (inside : ∀ fragment ∈ fragments, fragment.key.isInner = true) :
    ∀ fragment ∈ fragments, fragment.key ≠ key := by
  rintro fragment found rfl
  rw [inside fragment found] at outside
  cases outside

section

variable (encloses : store.Encloses front declaration inner behind)
include encloses

theorem Encloses.find?_classDecl : store.find? .classDecl =
    some (front, ⟨.classDecl, declaration⟩, inner ++ ⟨.classEnd, "\x7d"⟩ :: behind) :=
  find?_eq_some_iff.mpr ⟨rfl, encloses.whole, rfl, ne_of_isOuter rfl encloses.before⟩

theorem Encloses.find?_classEnd : store.find? .classEnd =
    some (front ++ ⟨.classDecl, declaration⟩ :: inner, ⟨.classEnd, "\x7d"⟩, behind) := by
  refine find?_eq_some_iff.mpr ⟨rfl, ?_, rfl, List.forall_mem_append.mpr
    ⟨ne_of_isOuter rfl encloses.before, List.forall_mem_cons.mpr
      ⟨by simp, ne_of_isInner rfl encloses.inside⟩⟩⟩
  rw [encloses.whole, List.append_assoc, List.cons_append]

theorem Encloses.classBody_eq : store.classBody = inner := by
  rw [classBody, encloses.find?_classDecl, encloses.find?_classEnd]
  dsimp only
  have size : (front ++ ⟨.classDecl, declaration⟩ :: inner).length - (front.length + 1) =
      inner.length := by
    rw [List.length_append, List.length_cons]
    omega
  rw [size, List.take_left]

theorem Encloses.exists_upsert_removed {key : Key} (member : key.isMember = true) (text : String)
    (blank : Nat) : ∃ fewer, fewer.Sublist inner ∧
      (HasHandWritten inner → HasHandWritten fewer) ∧
      (store.upsert key text blank true).2.Encloses front declaration fewer behind := by
  rw [upsert]
  cases cut : store.find? key with
  | none => exact ⟨inner, .refl _, id, encloses⟩
  | some parts =>
    obtain ⟨before, found, after⟩ := parts
    dsimp only
    by_cases marked : found.isProtected = true
    · rw [if_pos marked]
      exact ⟨inner, .refl _, id, encloses⟩
    rw [if_neg marked, if_pos rfl]
    obtain ⟨indexed, whole, rfl, -⟩ := find?_eq_some_iff.mp cut
    have outside {fragments : List Fragment}
        (outer : ∀ fragment ∈ fragments, fragment.key.isOuter = true) : found ∉ fragments := by
      intro there
      rw [Key.isMember_of_isOuter (outer found there)] at member
      cases member
    have noDeclaration : found ≠ ⟨.classDecl, declaration⟩ := by
      rintro rfl
      cases member
    have noEnd : found ≠ ⟨.classEnd, "\x7d"⟩ := by
      rintro rfl
      cases member
    have unwritten : found.isHandWritten = false := by simp [isHandWritten, marked, indexed]
    rw [encloses.whole] at whole
    obtain ⟨between, rfl, rest⟩ :=
      Key.exists_of_append_eq whole (outside encloses.before) noDeclaration
    obtain ⟨left, rfl, rfl⟩ := Key.exists_of_eq_append rest (outside encloses.after) noEnd
    have dropped : dropLastGap (front ++ ⟨.classDecl, declaration⟩ :: between) =
        front ++ ⟨.classDecl, declaration⟩ :: dropLastGap between := by
      rw [List.append_cons, dropLastGap_append (endsSolid_concat (by simp)), List.append_assoc]
      rfl
    refine ⟨dropLastGap between ++ left, ?_, ?_, ?_, encloses.before, ?_, encloses.after⟩
    · exact (dropLastGap_sublist between).append (List.sublist_cons_self found left)
    · rintro ⟨fragment, there, written⟩
      refine ⟨fragment, ?_, written⟩
      have gap (fragment : Fragment) (same : fragment.key = .gap) : fragment.isHandWritten = false := by
        simp [isHandWritten, same]
      have kept := List.mem_filter.mpr ⟨there, written⟩
      rw [List.filter_append, List.filter_cons_of_neg (by simp [unwritten]), ← filter_dropLastGap gap,
        ← List.filter_append] at kept
      exact (List.mem_filter.mp kept).1
    · rw [dropped]
      simp
    · intro fragment there
      refine encloses.inside fragment (((dropLastGap_sublist between).append ?_).subset there)
      exact List.sublist_cons_self found left

end

/-- Says that a fragment stands between a class declaration and an end of a class. -/
def HoldsInside (store : Store) (fragment : Fragment) : Prop :=
  ∃ before after, store.fragments = before ++ fragment :: after ∧
    .classDecl ∈ before.map (·.key) ∧ .classEnd ∈ after.map (·.key)

theorem Encloses.holdsInside (encloses : store.Encloses front declaration inner behind)
    {fragment : Fragment} (found : fragment ∈ inner) : store.HoldsInside fragment := by
  obtain ⟨early, late, rfl⟩ := List.append_of_mem found
  refine ⟨front ++ ⟨.classDecl, declaration⟩ :: early, late ++ ⟨.classEnd, "\x7d"⟩ :: behind, ?_,
    by simp, by simp⟩
  rw [encloses.whole]
  simp

private theorem mem_map_key_front {call : Upsert} {before after : List Fragment} {found : Fragment}
    {key : Key} (solid : key ≠ .gap) (same : found.key = call.key)
    (stays : call.key = key → call.remove = false)
    (there : key ∈ (before ++ found :: after).map (·.key)) :
    key ∈ (call.front before found ++ after).map (·.key) := by
  rw [Upsert.front]
  split
  · rwa [List.append_assoc]
  · split
    · next remove =>
      obtain ⟨fragment, inside, rfl⟩ := List.mem_map.mp there
      have other : fragment ≠ found := by
        rintro rfl
        rw [stays same.symm] at remove
        cases remove
      have kept : fragment ∈ (dropLastGap before).filter (·.key != .gap) ∨ fragment ∈ after := by
        rw [filter_dropLastGap fun fragment gap => by simp [gap]]
        refine (List.mem_append.mp inside).imp (fun early => ?_) fun late => ?_
        · exact List.mem_filter.mpr ⟨early, bne_iff_ne.mpr solid⟩
        · exact (List.mem_cons.mp late).resolve_left other
      refine List.mem_map_of_mem (List.mem_append.mpr (kept.imp_left fun early => ?_))
      exact (List.mem_filter.mp early).1
    · simpa [same] using there

private theorem exists_first {fragments : List Fragment} {key : Key} (indexed : key.isIndexed = true)
    (there : key ∈ fragments.map (·.key)) : ∃ before found after,
      fragments = before ++ found :: after ∧ found.key = key ∧
        ∀ fragment ∈ before, fragment.key ≠ key := by
  cases cut : find? ⟨fragments⟩ key with
  | none => exact absurd there (notMem_of_find?_eq_none indexed cut)
  | some parts =>
    obtain ⟨-, whole, same, unseen⟩ := find?_eq_some_iff.mp cut
    exact ⟨_, _, _, whole, same, unseen⟩

section HoldsInside

variable {fragment : Fragment} (holds : store.HoldsInside fragment)
include holds

theorem HoldsInside.upsert (written : fragment.isHandWritten = true) {call : Upsert}
    (stays : call.key = .classDecl ∨ call.key = .classEnd → call.remove = false) :
    (store.upsert call.key call.text call.blank call.remove).2.HoldsInside fragment := by
  obtain ⟨before, after, whole, declared, ended⟩ := holds
  cases cut : store.find? call.key with
  | none =>
    rw [Store.upsert, cut]
    dsimp only
    split
    · exact ⟨before, after, whole, declared, ended⟩
    · obtain ⟨front, back, pieces, parts, inserted, -⟩ :=
        exists_insert store ⟨call.key, call.text⟩ call.blank
      rcases List.append_eq_append_iff.mp (whole.symm.trans parts) with
        ⟨more, rfl, same⟩ | ⟨more, rfl, rfl⟩
      · cases more with
        | nil =>
          refine ⟨before ++ pieces, after, ?_, by simp [declared], ended⟩
          rw [inserted, List.append_nil, same, List.nil_append]
        | cons first more =>
          obtain ⟨rfl, rfl⟩ := List.cons.inj same
          refine ⟨before, more ++ pieces ++ back, ?_, declared, ?_⟩
          · simp [inserted]
          · change Key.classEnd ∈ (more ++ back).map (·.key) at ended
            rw [List.map_append, List.mem_append] at ended
            rcases ended with there | there <;> simp [there]
      · refine ⟨front ++ pieces ++ more, after, by simp [inserted], ?_, ended⟩
        rw [List.map_append, List.mem_append] at declared
        rcases declared with there | there <;> simp [there]
  | some parts =>
    obtain ⟨early, found, late⟩ := parts
    obtain ⟨indexed, split, same, -⟩ := find?_eq_some_iff.mp cut
    rw [upsert_of_found cut]
    have noGap : fragment.key ≠ .gap := by
      rintro gap
      simp [isHandWritten, gap] at written
    by_cases here : found = fragment
    · have marked : found.isProtected = true := by
        rw [← here] at written
        simpa [isHandWritten, same, indexed, Key.ne_gap_of_isIndexed indexed] using written
      refine ⟨before, after, ?_, declared, ended⟩
      rw [Upsert.front, if_pos marked, List.append_assoc, ← whole, split]
      rfl
    rcases List.append_eq_append_iff.mp (split.symm.trans whole) with ⟨more, rfl, rest⟩ | ⟨more, rfl, rest⟩
    · cases more with
      | nil => exact absurd (List.cons.inj rest).1 here
      | cons first more =>
        obtain ⟨rfl, rfl⟩ := List.cons.inj rest
        refine ⟨call.front early found ++ more, after, by simp, ?_, ended⟩
        exact mem_map_key_front (by simp) same (fun declares => stays (.inl declares)) declared
    · cases more with
      | nil => exact absurd (List.cons.inj rest).1.symm here
      | cons first more =>
        obtain ⟨rfl, rfl⟩ := List.cons.inj rest
        refine ⟨before, call.front more found ++ late, ?_, declared, ?_⟩
        · rw [List.append_cons, front_append (endsSolid_concat noGap)]
          simp
        · exact mem_map_key_front (by simp) same (fun ends => stays (.inr ends)) ended

theorem HoldsInside.upsertAll (written : fragment.isHandWritten = true) {calls : List Upsert}
    (stays : ∀ call ∈ calls, call.key = .classDecl ∨ call.key = .classEnd → call.remove = false) :
    (store.upsertAll calls).HoldsInside fragment := by
  induction calls generalizing store with
  | nil => exact holds
  | cons call rest ih =>
    obtain ⟨here, later⟩ := List.forall_mem_cons.mp stays
    exact ih (holds.upsert written here) later

theorem HoldsInside.mem_classBody (inside : fragment.key.isInner = true)
    (once : (store.textsAt .classEnd).length ≤ 1) : fragment ∈ store.classBody := by
  obtain ⟨before, after, whole, declared, ended⟩ := holds
  obtain ⟨front, declaration, early, rfl, named, undeclared⟩ := exists_first rfl declared
  obtain ⟨late, last, behind, rfl, closes, unended⟩ := exists_first rfl ended
  have unclosed : ∀ other ∈ front ++ declaration :: early, other.key ≠ .classEnd := by
    intro other found closing
    rw [textsAt, whole, List.length_map] at once
    have two : [other, last].Sublist
        (front ++ declaration :: early ++ fragment :: (late ++ last :: behind)) := by
      refine (List.singleton_sublist.mpr found).append (List.singleton_sublist.mpr ?_)
      simp
    have least := ((two.filter (·.key == .classEnd)).length_le).trans once
    simp [closing, closes] at least
  have opening : store.find? .classDecl =
      some (front, declaration, early ++ fragment :: (late ++ last :: behind)) :=
    find?_eq_some_iff.mpr ⟨rfl, by simp [whole], named, undeclared⟩
  have closing : store.find? .classEnd =
      some (front ++ declaration :: early ++ fragment :: late, last, behind) := by
    refine find?_eq_some_iff.mpr ⟨rfl, by simp [whole], closes, List.forall_mem_append.mpr
      ⟨unclosed, List.forall_mem_cons.mpr ⟨?_, unended⟩⟩⟩
    intro same
    rw [same] at inside
    cases inside
  have size : (front ++ declaration :: early ++ fragment :: late).length - (front.length + 1) =
      (early ++ fragment :: late).length := by
    simp only [List.length_append, List.length_cons]
    omega
  have parts : early ++ fragment :: (late ++ last :: behind) =
      (early ++ fragment :: late) ++ last :: behind := by simp
  rw [classBody, opening, closing]
  dsimp only
  rw [size, parts, List.take_left]
  simp

end HoldsInside

theorem Encloses.exists_upsertAll_removed (encloses : store.Encloses front declaration inner behind)
    {calls : List Upsert} (removed : ∀ call ∈ calls, call.key.isMember = true ∧ call.remove = true) :
    ∃ fewer, fewer.Sublist inner ∧ (HasHandWritten inner → HasHandWritten fewer) ∧
      (store.upsertAll calls).Encloses front declaration fewer behind := by
  induction calls generalizing store inner with
  | nil => exact ⟨inner, .refl _, id, encloses⟩
  | cons call rest ih =>
    obtain ⟨⟨member, remove⟩, later⟩ := List.forall_mem_cons.mp removed
    obtain ⟨some, thinner, kept, still⟩ :=
      encloses.exists_upsert_removed member call.text call.blank
    obtain ⟨fewer, thinnest, stays, whole⟩ := ih still later
    refine ⟨fewer, thinnest.trans thinner, stays ∘ kept, ?_⟩
    rw [upsertAll, remove]
    exact whole

end Encloses

open Source (afterBlanks blanks body)

private theorem encloses_of_body {store : Store} {front inner : List Fragment} {declaration : String}
    {lexemes behind : List Lexeme}
    (whole : store.fragments = front ++ ⟨.classDecl, declaration⟩ :: (body [] lexemes).reverse)
    (before : ∀ fragment ∈ front, fragment.key.isOuter = true)
    (read : body [] lexemes = Source.fragments .unclassified (afterBlanks behind)
      ++ Source.fragments .gap (blanks behind) ++ ⟨.classEnd, "\x7d"⟩ :: inner) :
    store.Encloses front declaration inner.reverse
      (Source.fragments .unclassified (afterBlanks behind) ++ Source.fragments .gap (blanks behind)).reverse where
  whole := by
    rw [whole, read]
    simp
  before := before
  inside := by
    have shape := @Source.areBody_body lexemes [] (List.forall_mem_nil _)
    rw [read, List.reverse_append, List.reverse_cons, List.append_assoc, List.map_append,
      List.singleton_append, List.map_cons] at shape
    intro fragment found
    have key : fragment.key ∈ inner.reverse.map (·.key) := List.mem_map_of_mem found
    rcases shape.isInner_or _ (List.mem_append_left _ key) with inside | closing
    · exact inside
    · have few := shape.count_classEnd_le
      have here := List.count_pos_iff.mpr (closing ▸ key)
      rw [List.count_append, List.count_cons_self] at few
      omega
  after := by
    intro fragment found
    rw [List.mem_reverse, List.mem_append] at found
    rcases found with found | found <;> rw [Source.key_of_mem_fragments found] <;> rfl

/-- A file with the end of a class encloses the body of it, and if members are taken out of the body,
then what is left of the hand-written code in it is found when the file is read again. -/
theorem exists_encloses_parse {source : String}
    (ended : ∃ fragment ∈ (parse source).fragments, fragment.key = .classEnd) :
    ∃ front declaration inner behind, (parse source).Encloses front declaration inner behind ∧
      ∀ (store : Store) (fewer : List Fragment), fewer.Sublist inner →
        store.Encloses front declaration fewer behind → HasHandWritten fewer →
          ∃ again back, (parse store.render).Encloses front declaration again back ∧
            HasHandWritten again := by
  obtain ⟨front, declaration, opened, rest, opens⟩ := Source.exists_opens ended
  have scanned : Lexeme.ofSource (Lexeme.textOf rest) = rest := Lexeme.ofSource_textOf opens.whole
  have parsed := opens.fragments_parse
  rw [List.append_assoc, List.singleton_append] at parsed
  obtain ⟨inner, behind, shown, read⟩ :=
    Source.exists_shown scanned .nil (List.forall_mem_nil _) (opens.mem_body ended)
  refine ⟨front, declaration, inner.reverse, _,
    encloses_of_body parsed opens.outer read, ?_⟩
  intro store fewer thinner whole has
  have fewest : fewer.reverse.Sublist inner := by simpa using thinner.reverse
  obtain ⟨done, gap, blank, kept, again⟩ := (shown.sublist fewest).exists_body
  rw [List.reverse_reverse] at again
  obtain ⟨first, opening⟩ := opens.ends
  have cut : Lexeme.ofSource source.toList = first ++ .code '\x7b' :: rest := by
    rw [opens.whole, opening, List.append_assoc, List.singleton_append]
  -- up to the opening brace the text is the old one
  have early : charsOf (front ++ [⟨.classDecl, declaration⟩]) = Lexeme.textOf opened := by
    have alone := opens.reads []
    rw [List.append_nil, body] at alone
    rw [← Source.charsOf_parseLexemes, alone]
    rfl
  obtain ⟨tail, text⟩ : ∃ tail, store.render.toList =
      Lexeme.textOf first ++ '\x7b' :: (charsOf fewer ++ '\x7d' :: tail) := by
    rw [toList_render, whole.whole, List.append_cons, charsOf_append, early, opening,
      Lexeme.textOf_append, charsOf_append, charsOf_cons, List.append_assoc]
    exact ⟨_, rfl⟩
  have parsed : (parse store.render).fragments = front ++ ⟨.classDecl, declaration⟩
      :: (body [] (Lexeme.ofSource (charsOf fewer ++ '\x7d' :: tail))).reverse := by
    rw [parse, text, Lexeme.ofSource_of_cut (by decide) cut, List.append_cons, ← opening]
    exact opens.reads _
  have read : body [] (Lexeme.ofSource (charsOf fewer ++ '\x7d' :: tail)) =
      Source.fragments .unclassified (afterBlanks (Lexeme.ofSource tail))
        ++ Source.fragments .gap (blanks (Lexeme.ofSource tail))
        ++ ⟨.classEnd, "\x7d"⟩ :: (Segment.gapOf gap ++ done) := by
    rw [again _ ⟨tail, rfl⟩, Segment.body_gapOf done blank rfl,
      Lexeme.ofSource_cons_of_isBare (by decide), Source.body_brace]
  refine ⟨_, _, encloses_of_body parsed opens.outer read, ?_⟩
  obtain ⟨fragment, found, written⟩ := has
  obtain ⟨other, there, still⟩ := kept ⟨fragment, List.mem_reverse.mpr found, written⟩
  exact ⟨other, List.mem_reverse.mpr (List.mem_append_right _ there), still⟩

/-- Says that a file has what a call asks for: what is found is protected, or its text stays the same when
the text of the call is merged into it. -/
def Agrees (store : Store) (call : Upsert) : Prop :=
  ∃ found, store.get? call.key = some found ∧ (found.isProtected = true ∨
    call.remove = false ∧ mergeText call.key found.text call.text = found.text)

instance (store : Store) (call : Upsert) : Decidable (store.Agrees call) :=
  decidable_of_iff ((store.get? call.key).any fun found => found.isProtected
      || (! call.remove && mergeText call.key found.text call.text == found.text)) (by
    simp [Agrees, Option.any_eq_true])

theorem Agrees.upsert_eq {store : Store} {call : Upsert} (agrees : store.Agrees call) :
    (store.upsert call.key call.text call.blank call.remove).2 = store := by
  obtain ⟨found, known, same⟩ := agrees
  obtain ⟨⟨before, fragment, after⟩, cut, rfl⟩ := Option.map_eq_some_iff.mp known
  obtain ⟨whole, named⟩ := find?_eq_some cut
  rw [upsert_of_found cut, Upsert.front]
  by_cases marked : fragment.isProtected = true
  · rw [if_pos marked, List.append_assoc, List.singleton_append, ← whole]
  · obtain ⟨stays, text⟩ := same.resolve_left marked
    rw [if_neg marked, stays, if_neg Bool.false_ne_true, text, ← named, List.append_assoc,
      List.singleton_append, ← whole]

theorem upsertAll_eq_self {store : Store} {calls : List Upsert}
    (agrees : ∀ call ∈ calls, store.Agrees call) : store.upsertAll calls = store := by
  induction calls with
  | nil => rfl
  | cons call rest ih =>
    obtain ⟨here, later⟩ := List.forall_mem_cons.mp agrees
    rw [upsertAll, here.upsert_eq, ih later]

theorem exists_of_mem_classBody {store : Store} {fragment : Fragment}
    (inside : fragment ∈ store.classBody) :
    ∃ fragment ∈ store.fragments, fragment.key = .classEnd := by
  rw [classBody] at inside
  split at inside
  · next closing =>
    obtain ⟨whole, same⟩ := find?_eq_some closing
    exact ⟨_, whole ▸ List.mem_append_right _ List.mem_cons_self, same⟩
  · cases inside

theorem isBodyEmpty_eq_false_of_hasHandWritten {source : String}
    (has : HasHandWritten (parse source).classBody) {purge calls : List Upsert}
    (removed : ∀ call ∈ purge, call.key.isMember = true ∧ call.remove = true)
    (stays : ∀ call ∈ calls, call.key = .classDecl ∨ call.key = .classEnd → call.remove = false) :
    ((parse ((parse source).upsertAll purge).render).upsertAll calls).isBodyEmpty = false := by
  have ended : ∃ fragment ∈ (parse source).fragments, fragment.key = .classEnd := by
    obtain ⟨fragment, found, -⟩ := has
    exact exists_of_mem_classBody found
  obtain ⟨front, declaration, inner, behind, encloses, again⟩ := exists_encloses_parse ended
  rw [encloses.classBody_eq] at has
  obtain ⟨fewer, thinner, kept, whole⟩ := encloses.exists_upsertAll_removed removed
  obtain ⟨left, back, still, fragment, found, written⟩ := again _ fewer thinner whole (kept has)
  have once := (isSourceFile_parse ((parse source).upsertAll purge).render).1.ordered.endOnce
  have counted (store : Store) (key : Key) :
      (store.fragments.map (·.key)).count key = (store.textsAt key).length := by
    rw [textsAt, List.length_map, List.count_eq_countP, List.countP_map, List.countP_eq_length_filter]
    rfl
  rw [counted] at once
  have inside := ((still.holdsInside found).upsertAll written stays).mem_classBody
    (still.inside fragment found) (length_textsAt_upsertAll rfl once calls)
  rw [isBodyEmpty_eq, List.all_eq_false]
  refine ⟨fragment, inside, fun gap => ?_⟩
  simp [isHandWritten, eq_of_beq gap] at written

end Store

end ClassWeaver.Fragment
