import ClassWeaver.Proofs.Signature.Nesting
import ClassWeaver.Proofs.Text.Occurrence

set_option autoImplicit false

/-!
Signatures of declarations that were put together from types and names. Main statement: the
signature of such a declaration has the name and the types from which it was made.
-/

namespace ClassWeaver

open TypeText (IsTypeText isNamePart isLevel structural pushAll)

theorem Annotations.replaceAll_append {spaced : Bool} {filling front : List Char}
    (absent : '@' ∉ front) (rest : List Char) :
    replaceAll spaced filling (front ++ rest) = front ++ replaceAll spaced filling rest := by
  induction front with
  | nil => rfl
  | cons c front ih =>
    rw [List.mem_cons, not_or] at absent
    have other : (c == '@') = false := beq_false_of_ne (Ne.symm absent.1)
    rw [List.cons_append, replaceAll, other, Bool.false_and, if_neg Bool.false_ne_true,
      ih absent.2, List.cons_append]

theorem Annotations.replaceAll_of_notMem {spaced : Bool} {filling text : List Char}
    (absent : '@' ∉ text) : replaceAll spaced filling text = text := by
  have whole := @replaceAll_append spaced filling text absent []
  rwa [replaceAll, List.append_nil] at whole

namespace Signature

theorem isLevel_of_isPart {c : Char} (part : Name.isPart c = true) : isLevel c = true :=
  TypeText.isLevel_of_isNamePart (by simp [isNamePart, part])

theorem isLevel_of_isBlank {c : Char} (blank : Text.isBlank c = true) : isLevel c = true := by
  have each : ∀ c ∈ [',', '<', '(', '[', '>', ')', ']'], Text.isBlank c = false := by decide
  have apart (d : Char) (found : d ∈ [',', '<', '(', '[', '>', ')', ']']) : c ≠ d := by
    rintro rfl
    rw [each c found] at blank
    exact Bool.false_ne_true blank
  simp [isLevel, nesting, apart]

theorem depthAfter?_filter_visible (depth : Int) (text : List Char) :
    depthAfter? depth (text.filter (! Text.isBlank ·)) = depthAfter? depth text :=
  depthAfter?_filter (fun c hidden => isLevel_of_isBlank (by simpa using hidden)) depth text

theorem depthAfter?_trim (depth : Int) (text : List Char) :
    depthAfter? depth (Text.trim text) = depthAfter? depth text := by
  rw [← depthAfter?_filter_visible depth (Text.trim text), Text.filter_trim,
    depthAfter?_filter_visible]

theorem withoutBlanks_trim (text : List Char) : withoutBlanks (Text.trim text) = withoutBlanks text := by
  rw [withoutBlanks, Text.filter_trim, ← withoutBlanks]

abbrev Param :=
  List Char × List Char

def Param.text (param : Param) : List Char :=
  param.1 ++ ' ' :: param.2

/-- A parameter whose type and name are told apart: the type does not begin with the word `final`,
and all its brackets are closed and hold its commas. -/
structure Param.IsReadable (param : Param) : Prop where
  visible : param.1.any (! Text.isBlank ·) = true
  noFinal : (Text.words param.1).head? ≠ some "final".toList
  closed : depthAfter? 0 param.1 = some 0
  plain : ∀ c ∈ ['(', ')', '@'], c ∉ param.1
  filled : param.2 ≠ []
  parts : ∀ c ∈ param.2, Name.isPart c = true

/-- A parameter whose type and name are read as such. -/
structure Param.IsSound (param : Param) : Prop where
  type : IsTypeText param.1
  filled : param.2 ≠ []
  parts : ∀ c ∈ param.2, Name.isPart c = true
  free : String.ofList param.2 ∉ structural

def paramsText : List Param → List Char
  | [] => []
  | [param] => param.text
  | first :: second :: rest => first.text ++ ',' :: ' ' :: paramsText (second :: rest)

theorem dropFinal_of_words {text : List Char}
    (noFinal : (Text.words text).head? ≠ some "final".toList) : dropFinal text = text := by
  unfold dropFinal
  split
  · next c rest =>
      split
      · next blank =>
          have word : Text.words "final".toList = ["final".toList] :=
            Text.words_of_visible (by decide) (by decide)
          have first : (Text.words ("final".toList ++ c :: rest)).head? = some "final".toList := by
            rw [Text.words_append_cons blank, word]
            rfl
          exact absurd first noFinal
      · rfl
  · rfl

theorem isBlank_of_isPart_getLast {name : List Char} (parts : ∀ c ∈ name, Name.isPart c = true) :
    name.getLast?.all (! Text.isBlank ·) = true := by
  cases shown : name.getLast? with
  | none => rfl
  | some c => simpa using Name.isBlank_of_isPart (parts c (List.mem_of_getLast? shown))

theorem dropWhileEnd_isPart {name : List Char} (parts : ∀ c ∈ name, Name.isPart c = true)
    (front : List Char) {c : Char} (apart : Name.isPart c = false) :
    Text.dropWhileEnd Name.isPart (front ++ c :: name) = front ++ [c] := by
  have back : ∀ d ∈ name.reverse, Name.isPart d = true := fun d found =>
    parts d (List.mem_reverse.mp found)
  rw [Text.dropWhileEnd, List.reverse_append, List.reverse_cons, List.append_assoc,
    List.dropWhile_append_of_pos back]
  simp [apart]

theorem takeWhileEnd_isPart {front name : List Char}
    (ends : front.getLast?.all (! Name.isPart ·) = true) (parts : ∀ c ∈ name, Name.isPart c = true) :
    Text.takeWhileEnd Name.isPart (front ++ name) = name := by
  have back : ∀ d ∈ name.reverse, Name.isPart d = true := fun d found =>
    parts d (List.mem_reverse.mp found)
  rw [Text.takeWhileEnd, List.reverse_append, List.takeWhile_append_of_pos back]
  cases shown : front.reverse with
  | nil => simp
  | cons c rest =>
      have last : front.getLast? = some c := by
        rw [← List.head?_reverse, shown]
        rfl
      rw [last, Option.all_some, Bool.not_eq_true'] at ends
      simp [ends]

namespace Param

variable {param : Param}

theorem IsReadable.words_ne_nil (readable : param.IsReadable) : Text.words param.1 ≠ [] := by
  obtain ⟨c, found, visible⟩ := List.any_eq_true.mp readable.visible
  obtain ⟨word, inside, here⟩ :=
    Text.exists_part_of_mem (p := Text.isBlank) found (by simpa using visible)
  have filled : word ≠ [] := List.ne_nil_of_mem here
  exact List.ne_nil_of_mem (List.mem_filter.mpr ⟨inside, by simpa using filled⟩)

theorem IsReadable.trim_text (readable : param.IsReadable) :
    Text.trim param.text = Text.trimStart param.1 ++ ' ' :: param.2 := by
  obtain ⟨c, found, visible⟩ := List.any_eq_true.mp readable.visible
  rw [Bool.not_eq_true'] at visible
  obtain ⟨front, back, whole⟩ := List.append_of_mem found
  have last := isBlank_of_isPart_getLast readable.parts
  have ends : (Text.trimStart param.1 ++ ' ' :: param.2).getLast?.all (! Text.isBlank ·) = true := by
    rw [List.getLast?_append_cons, List.getLast?_cons]
    cases shown : param.2.getLast? with
    | none => exact absurd (List.getLast?_eq_none_iff.mp shown) readable.filled
    | some d => simpa [shown] using last
  have begins : Text.trimStart param.text = Text.trimStart param.1 ++ ' ' :: param.2 := by
    rw [text, whole, List.append_assoc, List.cons_append, Text.trimStart_append_cons visible,
      Text.trimStart_append_cons visible, List.append_assoc, List.cons_append]
  rw [Text.trim, begins, Text.trimEnd_of_filled ends]

theorem IsReadable.notMem_text (readable : param.IsReadable) {c : Char}
    (special : c ∈ ['(', ')', '@']) : c ∉ param.text := by
  have each : ∀ c ∈ ['(', ')', '@'], Name.isPart c = false ∧ c ≠ ' ' := by decide
  rw [text, List.mem_append, List.mem_cons, not_or, not_or]
  refine ⟨readable.plain c special, (each c special).2, fun found => ?_⟩
  have part := readable.parts c found
  rw [(each c special).1] at part
  exact Bool.false_ne_true part

theorem IsReadable.paramTypeChars_text (readable : param.IsReadable) :
    paramTypeChars (Text.trim param.text) = withoutBlanks param.1 := by
  have trimmed := readable.trim_text
  have bare : Annotations.replaceAll false [] (Text.trim param.text) = Text.trim param.text := by
    refine Annotations.replaceAll_of_notMem fun found => ?_
    exact readable.notMem_text (by simp) ((Text.trim_isInfix _).subset found)
  have final : dropFinal (Text.trim param.text) = Text.trim param.text := by
    refine dropFinal_of_words ?_
    rw [trimmed, Text.words_append_cons (by decide), Text.words_trimStart,
      List.head?_append_of_ne_nil _ readable.words_ne_nil]
    exact readable.noFinal
  have dropped : Text.dropWhileEnd Name.isPart (Text.trim param.text) =
      Text.trimStart param.1 ++ [' '] := by
    rw [trimmed, dropWhileEnd_isPart readable.parts _ (by decide)]
  have type : Text.trim (Text.trimStart param.1 ++ [' ']) = Text.trim param.1 := by
    rw [Text.trim_append_blanks _ (by decide), Text.trim, Text.trimStart_trimStart, ← Text.trim]
  have filled := Text.trim_ne_nil readable.visible
  unfold paramTypeChars
  rw [bare, Text.trim_trim, final]
  dsimp only
  rw [dropped, type, if_neg (by simpa using filled), withoutBlanks_trim]

theorem IsReadable.depthAfter?_text (readable : param.IsReadable) :
    depthAfter? 0 param.text = some 0 := by
  have level : ∀ c ∈ ' ' :: param.2, isLevel c = true :=
    List.forall_mem_cons.mpr ⟨by decide, fun c found => isLevel_of_isPart (readable.parts c found)⟩
  rw [text, depthAfter?_append_level _ level, readable.closed]

end Param

theorem paramsText_cons (first : Param) (rest : List Param) :
    paramsText (first :: rest) =
      [','].intercalate (first.text :: rest.map fun param => ' ' :: param.text) := by
  have spaced (part : List Char) (parts : List (List Char)) :
      [','].intercalate ((' ' :: part) :: parts) = ' ' :: [','].intercalate (part :: parts) := by
    cases parts with
    | nil => simp
    | cons second parts => rw [List.intercalate_cons_cons, List.intercalate_cons_cons]; rfl
  induction rest generalizing first with
  | nil => simp [paramsText]
  | cons second rest ih =>
      rw [paramsText, ih, List.map_cons, List.intercalate_cons_cons, spaced, List.append_assoc]
      rfl

theorem splitParams_paramsText {params : List Param}
    (readable : ∀ param ∈ params, param.IsReadable) :
    splitParams (paramsText params) = params.map fun param => Text.trim param.text := by
  cases params with
  | nil => decide
  | cons first rest =>
      obtain ⟨here, later⟩ := List.forall_mem_cons.mp readable
      have closed : ∀ part ∈ first.text :: rest.map (fun param => ' ' :: param.text),
          depthAfter? 0 part = some 0 := by
        refine List.forall_mem_cons.mpr ⟨here.depthAfter?_text, List.forall_mem_map.mpr ?_⟩
        intro param found
        rw [depthAfter?_cons_of_isLevel (by decide), (later param found).depthAfter?_text]
      have cut : IsCut (first.text :: rest.map fun param => ' ' :: param.text) :=
        ⟨fun part found => by rw [closed part found]; rfl,
          fun part found => closed part (List.dropLast_subset _ found)⟩
      have spaced (param : Param) : Text.trim (' ' :: param.text) = Text.trim param.text :=
        Text.trim_blanks_append (by decide : ∀ c ∈ [' '], Text.isBlank c = true) param.text
      have parts : (splitCommas 0 (paramsText (first :: rest))).map Text.trim =
          (first :: rest).map fun param => Text.trim param.text := by
        rw [paramsText_cons, splitCommas_intercalate (List.cons_ne_nil _ _) cut, List.map_cons,
          List.map_map, List.map_cons]
        exact congrArg _ (List.map_congr_left fun param _ => spaced param)
      have last : ((first :: rest).map fun param => Text.trim param.text).getLast?.all
          (·.isEmpty) = false := by
        obtain ⟨param, shown⟩ := Option.isSome_iff_exists.mp
          (show ((first :: rest).getLast?).isSome = true by simp)
        have found := List.mem_of_getLast? shown
        rw [List.getLast?_map, shown, Option.map_some, Option.all_some,
          (readable param found).trim_text]
        simp
      rw [splitParams, parts, last, if_neg Bool.false_ne_true]

theorem untilClosed?_append {params : List Char} (opened : '(' ∉ params) (closed : ')' ∉ params)
    (rest : List Char) : untilClosed? 0 (params ++ ')' :: rest) = some params := by
  induction params with
  | nil => simp [untilClosed?]
  | cons c params ih =>
      rw [List.mem_cons, not_or] at opened closed
      have other : (c == '(') = false ∧ (c == ')') = false :=
        ⟨beq_false_of_ne (Ne.symm opened.1), beq_false_of_ne (Ne.symm closed.1)⟩
      rw [List.cons_append, untilClosed?, other.1, other.2, ih opened.2 closed.2]
      rfl

theorem notMem_paramsText_of_forall {params : List Param} {c : Char}
    (absent : ∀ param ∈ params, c ∉ param.text) (other : c ∉ [',', ' ']) : c ∉ paramsText params := by
  induction params with
  | nil => simp [paramsText]
  | cons first rest ih =>
      obtain ⟨here, later⟩ := List.forall_mem_cons.mp absent
      cases rest with
      | nil => exact here
      | cons second rest =>
          have inner := ih later
          simp only [List.mem_cons, List.not_mem_nil, or_false, not_or] at other
          simp [paramsText, here, inner, other]

theorem ofDeclarationChars?_append {front name gap params rest : List Char} (outside : '(' ∉ front)
    (apart : front.getLast?.all (! Name.isPart ·) = true) (filled : name ≠ [])
    (parts : ∀ c ∈ name, Name.isPart c = true) (blank : ∀ c ∈ gap, Text.isBlank c = true)
    (closed : untilClosed? 0 rest = some params) :
    ofDeclarationChars? (front ++ name ++ gap ++ '(' :: rest) =
      some ⟨String.ofList name, (splitParams params).map paramTypeChars⟩ := by
  have free : ∀ c ∈ front ++ name ++ gap, (c != '(') = true := by
    intro c found
    rw [bne_iff_ne]
    rintro rfl
    rcases List.mem_append.mp found with found | found
    · rcases List.mem_append.mp found with found | found
      · exact outside found
      · exact absurd (parts _ found) (by decide)
    · exact absurd (blank _ found) (by decide)
  have trimmed : Text.trimEnd (front ++ name ++ gap) = front ++ name := by
    rw [Text.trimEnd_append blank]
    refine Text.trimEnd_of_filled ?_
    have last := isBlank_of_isPart_getLast parts
    rw [List.getLast?_append]
    cases shown : name.getLast? with
    | none => exact absurd (List.getLast?_eq_none_iff.mp shown) filled
    | some c => simpa [shown] using last
  have found := takeWhileEnd_isPart apart parts
  rw [ofDeclarationChars?, List.dropWhile_append_of_pos free, List.takeWhile_append_of_pos free,
    List.dropWhile_cons_of_neg (by simp), List.takeWhile_cons_of_neg (by simp), List.append_nil]
  simp only [trimmed, found, closed, filled, List.isEmpty_iff, if_false, Option.map_some]

/-- A declaration with a name in front of its parameters, whatever stands in front of the name and
behind the parameters, has the signature of the name and the types of the parameters. -/
theorem ofDeclarationChars?_written {front name : List Char} {params : List Param}
    (outside : '(' ∉ front) (ends : front.getLast?.all Text.isBlank = true) (filled : name ≠ [])
    (parts : ∀ c ∈ name, Name.isPart c = true)
    (readable : ∀ param ∈ params, param.IsReadable) (rest : List Char) :
    ofDeclarationChars? (front ++ name ++ '(' :: (paramsText params ++ ')' :: rest)) =
      some (ofTypes (String.ofList name) (params.map fun param => String.ofList param.1)) := by
  have apart : front.getLast?.all (! Name.isPart ·) = true := by
    cases shown : front.getLast? with
    | none => rfl
    | some c =>
        have blank : Text.isBlank c = true := by simpa [shown] using ends
        simp [Name.isPart_of_isBlank blank]
  have types : (splitParams (paramsText params)).map paramTypeChars =
      (params.map fun param => String.ofList param.1).map normalizeType := by
    rw [splitParams_paramsText readable, List.map_map, List.map_map]
    refine List.map_congr_left fun param inside => ?_
    simp [(readable param inside).paramTypeChars_text, normalizeType]
  have closed : untilClosed? 0 (paramsText params ++ ')' :: rest) = some (paramsText params) := by
    refine untilClosed?_append ?_ ?_ rest
    · exact notMem_paramsText_of_forall (fun param inside => (readable param inside).notMem_text (by simp))
        (by decide)
    · exact notMem_paramsText_of_forall (fun param inside => (readable param inside).notMem_text (by simp))
        (by decide)
  have whole := @ofDeclarationChars?_append _ _ [] _ _ outside apart filled parts nofun closed
  rwa [List.append_nil, types] at whole

section Sound

variable {param : Param}

theorem notMem_param (sound : param.IsSound) {c : Char} (other : isNamePart c = false)
    (special : c ∉ ['<', '>', ',', '[', ']', '?', ' ']) : c ∉ param.text := by
  unfold Param.text
  rw [List.mem_append, List.mem_cons, not_or, not_or]
  refine ⟨sound.type.notMem other special, ?_, ?_⟩
  · rintro rfl
    simp at special
  · intro found
    have part := sound.parts c found
    simp [isNamePart, part] at other

theorem notMem_paramsText {params : List Param} (sound : ∀ param ∈ params, param.IsSound) {c : Char}
    (other : isNamePart c = false) (special : c ∉ ['<', '>', ',', '[', ']', '?', ' ']) :
    c ∉ paramsText params := by
  refine notMem_paramsText_of_forall (fun param found => notMem_param (sound param found) other special) ?_
  simp only [List.mem_cons, List.not_mem_nil, or_false, not_or] at special ⊢
  exact ⟨special.2.2.1, special.2.2.2.2.2.2⟩

theorem Param.IsSound.isReadable (sound : param.IsSound) : param.IsReadable where
  visible := by
    obtain ⟨first, -⟩ := Bool.and_eq_true_iff.mp sound.type.isTrim
    cases shown : param.1 with
    | nil => exact absurd shown sound.type.ne_nil
    | cons c rest => exact List.any_eq_true.mpr ⟨c, List.mem_cons_self, by simpa [shown] using first⟩
  noFinal := by
    intro first
    have word := (List.mem_filter.mp (List.mem_of_head? first)).1
    have finer (c : Char) (blank : Text.isBlank c = true) : (! isNamePart c) = true := by
      rw [Bool.not_eq_true', ← Bool.not_eq_true]
      intro part
      rw [TypeText.isBlank_of_isNamePart part] at blank
      exact Bool.false_ne_true blank
    have inside := Text.mem_splitWhere_of_finer finer word (by decide)
    exact absurd (by decide) (sound.type.names _ inside)
  closed := depthAfter?_of_splitCommas fun rest => sound.type.commas 0 rest (Int.le_refl 0)
  plain := by
    have each : ∀ c ∈ ['(', ')', '@'], isNamePart c = false ∧
        c ∉ ['<', '>', ',', '[', ']', '?', ' '] := by decide
    exact fun c found => sound.type.notMem (each c found).1 (each c found).2
  filled := sound.filled
  parts := sound.parts

theorem ofDeclarationChars?_header {front name : List Char} {params : List Param}
    (outside : '(' ∉ front) (filled : name ≠ []) (parts : ∀ c ∈ name, Name.isPart c = true)
    (sound : ∀ param ∈ params, param.IsSound) (rest : List Char) :
    ofDeclarationChars? (front ++ ' ' :: (name ++ '(' :: (paramsText params ++ ')' :: rest))) =
      some (ofTypes (String.ofList name) (params.map fun param => String.ofList param.1)) := by
  have whole : front ++ ' ' :: (name ++ '(' :: (paramsText params ++ ')' :: rest)) =
      (front ++ [' ']) ++ name ++ '(' :: (paramsText params ++ ')' :: rest) := by simp
  have outside' : '(' ∉ front ++ [' '] := by simpa using outside
  rw [whole]
  exact ofDeclarationChars?_written outside' (by simp [Text.isBlank, Text.isAscii]) filled parts
    (fun param found => (sound param found).isReadable) rest

end Sound

end Signature

end ClassWeaver
