import ClassWeaver.Fragment.Source

set_option autoImplicit false

/-!
Nothing is lost when a source text is taken apart. Main statement: the fragments of a text joined
together are the text, and each of them lies between two of its character boundaries.
-/

namespace ClassWeaver.Fragment

def charsOf (fragments : List Fragment) : List Char :=
  fragments.flatMap (·.text.toList)

@[simp] theorem charsOf_nil : charsOf [] = [] := rfl

@[simp] theorem charsOf_cons (fragment : Fragment) (rest : List Fragment) :
    charsOf (fragment :: rest) = fragment.text.toList ++ charsOf rest := rfl

@[simp] theorem charsOf_append (a b : List Fragment) :
    charsOf (a ++ b) = charsOf a ++ charsOf b :=
  List.flatMap_append

theorem toList_render (store : Store) : store.render.toList = charsOf store.fragments := by
  rw [Store.render, String.toList_join, List.flatMap_map]
  rfl

namespace Source

open Lexeme (code textOf)

@[simp] theorem charsOf_fragments (key : Key) (lexemes : List Lexeme) :
    charsOf (fragments key lexemes) = textOf lexemes := by
  unfold fragments
  split
  · next blank => simp [List.isEmpty_iff.mp blank]
  · simp

private theorem textOf_blanks_append (lexemes : List Lexeme) :
    textOf (blanks lexemes) ++ textOf (afterBlanks lexemes) = textOf lexemes := by
  rw [← Lexeme.textOf_append, blanks_append_afterBlanks]

private theorem charsOf_pushMember (done : List Fragment) (member : Fragment) :
    charsOf (pushMember done member).reverse = charsOf done.reverse ++ member.text.toList := by
  unfold pushMember
  split
  · split
    · simp
    · simp
  · simp

private theorem charsOf_body (done : List Fragment) (lexemes : List Lexeme) :
    charsOf (body done lexemes).reverse = charsOf done.reverse ++ textOf lexemes := by
  fun_induction body done lexemes with
  | case1 done => simp
  | case2 done lexeme rest _ ih =>
      have gap := textOf_blanks_append rest
      rw [ih]
      simp [gap]
  | case3 done lexeme rest _ _ =>
      have gap := textOf_blanks_append rest
      have order (key : Key) (part : List Lexeme) :
          (fragments key part).reverse = fragments key part := by
        unfold fragments
        split <;> rfl
      simp [order, gap]
  | case4 done lexeme rest _ _ member text ih =>
      have whole := congrArg textOf (append_splitMember .start (lexeme :: rest))
      rw [Lexeme.textOf_append] at whole
      rw [ih, charsOf_pushMember, ← whole]
      simp [text, member]

private theorem charsOf_header (lexemes : List Lexeme) : charsOf (header lexemes) = textOf lexemes := by
  fun_induction header lexemes with
  | case1 => rfl
  | case2 lexeme rest _ ih =>
      have gap := textOf_blanks_append rest
      simp [ih, gap]
  | case3 lexeme rest _ comments next _ statement ih =>
      have first := congrArg textOf (append_splitComments (lexeme :: rest))
      have second := textOf_blanks_append comments.2
      have third := congrArg textOf (append_splitStatement next)
      rw [Lexeme.textOf_append] at first third
      calc
        charsOf (fragments .unclassified comments.1 ++ fragments .gap (blanks comments.2)
            ++ ⟨statementKey statement.1, Lexeme.stringOf statement.1⟩ :: header statement.2)
          = textOf comments.1 ++ (textOf (blanks comments.2)
              ++ (textOf statement.1 ++ textOf statement.2)) := by
            simp [ih]
        _ = textOf comments.1 ++ (textOf (blanks comments.2) ++ textOf next) := by rw [third]
        _ = textOf (lexeme :: rest) := by rw [second, first]
  | case4 lexeme rest _ comments next _ cut => rw [charsOf_fragments]
  | case5 lexeme rest _ comments next _ declaration rest' cut =>
      have whole := congrArg textOf (append_of_splitTopLevel? cut)
      rw [Lexeme.textOf_append] at whole
      rw [charsOf_cons, charsOf_body, ← whole]
      simp

theorem append_opening (lexemes : List Lexeme) :
    (opening lexemes).1 ++ (opening lexemes).2 = lexemes := by
  have whole := append_splitComments (afterBlanks lexemes)
  unfold opening
  cases cut : splitComments (afterBlanks lexemes) with
  | mk comments rest =>
      rw [cut] at whole
      dsimp only at whole ⊢
      split
      · rw [List.append_assoc, whole, blanks_append_afterBlanks]
      · rfl

theorem charsOf_parseLexemes (lexemes : List Lexeme) :
    charsOf (parseLexemes lexemes).fragments = textOf lexemes := by
  have whole := congrArg textOf (append_opening lexemes)
  rw [Lexeme.textOf_append] at whole
  simp [parseLexemes, charsOf_header, whole]

end Source

theorem charsOf_parse (source : String) :
    charsOf (Store.parse source).fragments = source.toList := by
  rw [Store.parse, Source.charsOf_parseLexemes, Lexeme.textOf_ofSource]

theorem render_parse (source : String) : (Store.parse source).render = source := by
  apply String.toList_inj.mp
  rw [toList_render, charsOf_parse]

private theorem extract_middle (before middle after : String) :
    ∃ first last : (before ++ middle ++ after).Pos,
      first.offset.byteIdx = before.utf8ByteSize ∧
        last.offset.byteIdx = before.utf8ByteSize + middle.utf8ByteSize ∧
          (before ++ middle ++ after).extract first last = middle := by
  have start : before.rawEndPos.IsValid (before ++ middle ++ after) :=
    (String.Pos.Raw.isValid_rawEndPos.append_right middle).append_right after
  have stop : (before ++ middle).rawEndPos.IsValid (before ++ middle ++ after) :=
    String.Pos.Raw.isValid_rawEndPos.append_right after
  refine ⟨⟨_, start⟩, ⟨_, stop⟩, rfl, by simp, ?_⟩
  apply String.toByteArray_inj.mp
  have bounds : (before ++ middle).rawEndPos.byteIdx
      = before.toByteArray.size + middle.toByteArray.size := by
    simp
  calc
    ((before ++ middle ++ after).extract ⟨_, start⟩ ⟨_, stop⟩).toByteArray
      = (before.toByteArray ++ (middle.toByteArray ++ after.toByteArray)).extract
          (before.toByteArray.size + 0) (before.toByteArray.size + middle.toByteArray.size) := by
        rw [String.toByteArray_extract, String.toByteArray_append, String.toByteArray_append,
          ByteArray.append_assoc, bounds]
        simp
    _ = (middle.toByteArray ++ after.toByteArray).extract 0 middle.toByteArray.size :=
        ByteArray.extract_append_size_add
    _ = middle.toByteArray := ByteArray.extract_append_eq_left rfl

/-- Taking a text apart loses nothing: the texts of the fragments one after the other are the text,
and every fragment is what stands between two character boundaries of it, the first of which comes
right after the fragments before. -/
theorem parse_lossless (source : String) :
    (Store.parse source).render = source ∧
      ∀ (before : List Fragment) (fragment : Fragment) (after : List Fragment),
        (Store.parse source).fragments = before ++ fragment :: after →
          ∃ first last : source.Pos,
            first.offset.byteIdx = (Store.render ⟨before⟩).utf8ByteSize ∧
              last.offset.byteIdx = first.offset.byteIdx + fragment.text.utf8ByteSize ∧
                source.extract first last = fragment.text := by
  refine ⟨render_parse source, ?_⟩
  intro before fragment after cut
  have whole : Store.render ⟨before⟩ ++ fragment.text ++ Store.render ⟨after⟩ = source := by
    rw [← render_parse source]
    simp [Store.render, cut, String.append_assoc]
  subst whole
  obtain ⟨first, last, at_first, at_last, text⟩ :=
    extract_middle (Store.render ⟨before⟩) fragment.text (Store.render ⟨after⟩)
  exact ⟨first, last, at_first, by rw [at_last, at_first], text⟩

end ClassWeaver.Fragment
