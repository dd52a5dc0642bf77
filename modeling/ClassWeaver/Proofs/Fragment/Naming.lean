import ClassWeaver.Proofs.Signature

set_option autoImplicit false

/-!
The keys of members whose headers were put together from words, types and names. Main statements: a
field has the key of its name, and a method or a constructor that of its name and the types of its
parameters.
-/

namespace ClassWeaver

open TypeText (IsTypeText isNamePart structural)

namespace TypeText

theorem IsTypeText.notMem_structural {type : List Char} (given : IsTypeText type)
    {word : List Char} (found : word ∈ Text.words type) : String.ofList word ∉ structural := by
  have parts : ∀ word ∈ structural, ∀ c ∈ word.toList, isNamePart c = true := by decide
  intro inside
  have free : ∀ c ∈ word, (! isNamePart c) = false := by
    intro c here
    have part := parts _ inside c (by rwa [String.toList_ofList])
    simp [part]
  have finer (c : Char) (blank : Text.isBlank c = true) : (! isNamePart c) = true := by
    rw [Bool.not_eq_true', ← Bool.not_eq_true]
    intro part
    rw [isBlank_of_isNamePart part] at blank
    exact Bool.false_ne_true blank
  have whole := (List.mem_filter.mp found).1
  exact given.names word (Text.mem_splitWhere_of_finer finer whole free) inside

theorem IsTypeText.exists_word {type : List Char} (given : IsTypeText type) :
    ∃ word ∈ Text.words type, Fragment.Member.isTypeParameters word = false := by
  obtain ⟨first, -⟩ := Bool.and_eq_true_iff.mp given.isTrim
  obtain ⟨word, found, same⟩ := Text.exists_word first
  refine ⟨word, found, ?_⟩
  have begins := given.begins
  have other : word.head? ≠ some '<' := by
    intro known
    rw [← same, known] at begins
    exact absurd begins (by decide)
  simp [Fragment.Member.isTypeParameters, other]

end TypeText

namespace Fragment.Member

open Signature (Param paramsText)

theorem blankComments_append {front : List Char} (slashless : '/' ∉ front) (rest : List Char) :
    blankComments (front ++ rest) = front ++ blankComments rest := by
  induction front with
  | nil => rfl
  | cons c front ih =>
      rw [List.mem_cons, not_or] at slashless
      have later := ih slashless.2
      have other : c ≠ '/' := Ne.symm slashless.1
      rw [List.cons_append, blankComments, later, List.cons_append]
      · rintro more rfl
        exact absurd rfl other
      · rintro more rfl
        exact absurd rfl other

theorem blankComments_of_notMem {text : List Char} (slashless : '/' ∉ text) :
    blankComments text = text := by
  have whole := blankComments_append slashless []
  rwa [blankComments, List.append_nil] at whole

/-- Characters that neither end the header of a member nor count as parentheses. -/
def isHeaderPart (c : Char) : Bool :=
  ! ['\x7b', '=', ';', '(', ')'].contains c

theorem splitHeader_append_count {front : List Char}
    (endless : ∀ c ∈ ['\x7b', '=', ';'], c ∉ front) (depth : Int) (rest : List Char) :
    splitHeader depth (front ++ rest) =
      (front ++ (splitHeader (depth + front.count '(' - front.count ')') rest).1,
        (splitHeader (depth + front.count '(' - front.count ')') rest).2) := by
  induction front generalizing depth with
  | nil => simp
  | cons c front ih =>
      have later := ih fun d known found => endless d known (List.mem_cons_of_mem c found)
      have here : ∀ d ∈ ['\x7b', '=', ';'], c ≠ d := fun d known same =>
        endless d known (same ▸ List.mem_cons_self)
      simp only [List.mem_cons, List.not_mem_nil, or_false, forall_eq_or_imp, forall_eq] at here
      have depths : (if c == '(' then depth + 1 else if c == ')' then depth - 1 else depth)
          + front.count '(' - front.count ')' =
          depth + (c :: front).count '(' - (c :: front).count ')' := by
        simp only [List.count_cons, beq_iff_eq]
        by_cases opening : c = '('
        · subst opening
          simp
          omega
        · by_cases closing : c = ')'
          · subst closing
            simp
            omega
          · simp [opening, closing]
      rw [List.cons_append, splitHeader]
      simp only [here, beq_false_of_ne, later, depths, Bool.and_false, Bool.or_false,
        Bool.false_eq_true, if_false, ne_eq, not_false_eq_true, List.cons_append]

theorem splitHeader_append {front : List Char} (quiet : ∀ c ∈ front, isHeaderPart c = true)
    (depth : Int) (rest : List Char) :
    splitHeader depth (front ++ rest) =
      (front ++ (splitHeader depth rest).1, (splitHeader depth rest).2) := by
  have absent (c : Char) (known : isHeaderPart c = false) : c ∉ front := fun found =>
    Bool.false_ne_true (known.symm.trans (quiet c found))
  have endless : ∀ c ∈ ['\x7b', '=', ';'], c ∉ front := fun c known => absent c <| by
    simp only [List.mem_cons, List.not_mem_nil, or_false] at known
    rcases known with rfl | rfl | rfl <;> decide
  rw [splitHeader_append_count endless, List.count_eq_zero.mpr (absent '(' (by decide)),
    List.count_eq_zero.mpr (absent ')' (by decide))]
  simp

theorem header_of_splitHeader {text front blanks : List Char} {hasBody : Bool} (slashless : '/' ∉ text)
    (bare : '@' ∉ text) (trimmed : Text.isTrim front = true)
    (blank : ∀ c ∈ blanks, Text.isBlank c = true)
    (cut : splitHeader 0 text = (front ++ blanks, hasBody)) : header text = (front, hasBody) := by
  have same : Text.trim (front ++ blanks) = front := by
    rw [Text.trim_append_blanks front blank, Text.trim_of_isTrim trimmed]
  rw [header, blankComments_of_notMem slashless, Annotations.replaceAll_of_notMem bare, cut]
  dsimp only
  rw [same]

theorem header_append {blanks : List Char} (blank : ∀ c ∈ blanks, Text.isBlank c = true)
    (text : List Char) : header (blanks ++ text) = header text := by
  have each : ∀ c ∈ ['/', '@', '\x7b', '=', ';', '(', ')'], Text.isBlank c = false := by decide
  have absent (c : Char) (known : c ∈ ['/', '@', '\x7b', '=', ';', '(', ')']) : c ∉ blanks :=
    fun found => Bool.false_ne_true ((each c known).symm.trans (blank c found))
  have quiet : ∀ c ∈ blanks, isHeaderPart c = true := by
    intro c found
    rw [isHeaderPart, Bool.not_eq_true', ← Bool.not_eq_true, List.contains_iff_mem]
    exact fun known => absent c (List.mem_cons_of_mem _ (List.mem_cons_of_mem _ known)) found
  rw [header, blankComments_append (absent '/' (by simp)),
    Annotations.replaceAll_append (absent '@' (by simp)), splitHeader_append quiet]
  dsimp only
  rw [Text.trim_blanks_append blank]
  rfl

theorem key_append {blanks : List Char} (blank : ∀ c ∈ blanks, Text.isBlank c = true)
    (text : List Char) : key (blanks ++ text) = key text := by
  rw [key, header_append blank, ← key]

/-- Words in front of the name of a member that do not make it a nested type. -/
structure IsFront (front : List Char) : Prop where
  quiet : ∀ c ∈ front, isHeaderPart c = true
  trimmed : Text.isTrim front = true
  free : ∀ word ∈ Text.words front, String.ofList word ∉ typeKeywords

theorem isFront_type {word type : List Char} (front : IsFront word) (given : IsTypeText type) :
    IsFront (word ++ ' ' :: type) where
  quiet := by
    intro c found
    rcases List.mem_append.mp found with found | found
    · exact front.quiet c found
    · rcases List.mem_cons.mp found with rfl | found
      · decide
      · have absent : ∀ d ∈ ['\x7b', '=', ';', '(', ')'], d ∉ type := by
          have each : ∀ d ∈ ['\x7b', '=', ';', '(', ')'], isNamePart d = false ∧
              d ∉ ['<', '>', ',', '[', ']', '?', ' '] := by decide
          exact fun d known => given.notMem (each d known).1 (each d known).2
        rw [isHeaderPart, Bool.not_eq_true', ← Bool.not_eq_true, List.contains_iff_mem]
        exact fun known => absent c known found
  trimmed := by
    obtain ⟨first, -⟩ := Bool.and_eq_true_iff.mp front.trimmed
    obtain ⟨-, last⟩ := Bool.and_eq_true_iff.mp given.isTrim
    refine Bool.and_eq_true_iff.mpr ⟨?_, ?_⟩
    · cases shown : word with
      | nil => simp [shown] at first
      | cons c rest => simpa [shown] using first
    · rw [List.getLast?_append_cons, List.getLast?_cons]
      cases shown : type.getLast? with
      | none => simp [shown] at last
      | some c => simpa [shown] using last
  free := by
    intro word found
    rw [Text.words_append_cons (by decide), List.mem_append] at found
    rcases found with found | found
    · exact front.free word found
    · exact fun known => given.notMem_structural found (List.mem_append_right _ known)

structure IsMemberName (name : List Char) : Prop where
  filled : name ≠ []
  parts : ∀ c ∈ name, Name.isPart c = true
  free : String.ofList name ∉ typeKeywords

theorem words_of_isMemberName {name : List Char} (named : IsMemberName name) :
    Text.words name = [name] :=
  Text.words_of_visible named.filled fun c found => Name.isBlank_of_isPart (named.parts c found)

theorem isHeaderPart_of_isPart {c : Char} (part : Name.isPart c = true) : isHeaderPart c = true := by
  have each : ∀ d ∈ ['\x7b', '=', ';', '(', ')'], Name.isPart d = false := by decide
  rw [isHeaderPart, Bool.not_eq_true', ← Bool.not_eq_true, List.contains_iff_mem]
  intro known
  rw [each c known] at part
  exact Bool.false_ne_true part

theorem isTrim_append_name {front name : List Char} (trimmed : Text.isTrim front = true)
    (named : IsMemberName name) : Text.isTrim (front ++ ' ' :: name) = true := by
  obtain ⟨first, -⟩ := Bool.and_eq_true_iff.mp trimmed
  have last := Signature.isBlank_of_isPart_getLast named.parts
  refine Bool.and_eq_true_iff.mpr ⟨?_, ?_⟩
  · cases shown : front with
    | nil => simp [shown] at first
    | cons c rest => simpa [shown] using first
  · rw [List.getLast?_append_cons, List.getLast?_cons]
    cases shown : name.getLast? with
    | none => exact absurd (List.getLast?_eq_none_iff.mp shown) named.filled
    | some c => simpa [shown] using last

private theorem noType_of_isFront {front name : List Char} (isFront : IsFront front)
    (named : IsMemberName name) :
    (Text.words (front ++ ' ' :: name)).any
      (fun word => typeKeywords.contains (String.ofList word)) = false := by
  rw [Text.words_append_cons (by decide), words_of_isMemberName named, List.any_append,
    Bool.or_eq_false_iff]
  constructor
  · rw [List.any_eq_false]
    intro word inside known
    exact isFront.free word inside (List.contains_iff_mem.mp known)
  · simpa using named.free

private theorem isHeaderPart_of_mem {front name : List Char} (isFront : IsFront front)
    (named : IsMemberName name) : ∀ c ∈ front ++ ' ' :: name, isHeaderPart c = true := by
  intro c found
  rcases List.mem_append.mp found with found | found
  · exact isFront.quiet c found
  · rcases List.mem_cons.mp found with rfl | found
    · decide
    · exact isHeaderPart_of_isPart (named.parts c found)

private theorem takeWhile_header {front name : List Char} (isFront : IsFront front)
    (named : IsMemberName name) (rest : List Char) :
    (front ++ ' ' :: name ++ rest).takeWhile (· != '(') =
      front ++ ' ' :: name ++ rest.takeWhile (· != '(') := by
  refine List.takeWhile_append_of_pos fun c found => ?_
  rw [bne_iff_ne]
  rintro rfl
  exact absurd (isHeaderPart_of_mem isFront named '(' found) (by decide)

theorem key_field {front name blanks rest : List Char} {stop : Char} (isFront : IsFront front)
    (named : IsMemberName name) (plain : isFieldName name = true)
    (blank : ∀ c ∈ blanks, c = ' ') (ends : stop = ';' ∨ stop = '=')
    (slashless : '/' ∉ front ++ ' ' :: (name ++ (blanks ++ stop :: rest)))
    (bare : '@' ∉ front ++ ' ' :: (name ++ (blanks ++ stop :: rest))) :
    key (front ++ ' ' :: (name ++ (blanks ++ stop :: rest))) = .attributeOf (String.ofList name) := by
  have quiet : ∀ c ∈ front ++ ' ' :: name ++ blanks, isHeaderPart c = true := by
    intro c found
    rcases List.mem_append.mp found with found | found
    · exact isHeaderPart_of_mem isFront named c found
    · rw [blank c found]
      decide
  have whole : front ++ ' ' :: (name ++ (blanks ++ stop :: rest)) =
      front ++ ' ' :: name ++ blanks ++ stop :: rest := by simp
  have last : splitHeader 0 (stop :: rest) = ([], false) := by
    rcases ends with rfl | rfl <;> simp [splitHeader]
  have cut := splitHeader_append quiet 0 (stop :: rest)
  rw [last, List.append_nil, ← whole] at cut
  have found := header_of_splitHeader slashless bare (isTrim_append_name isFront.trimmed named)
    (fun c inside => by rw [blank c inside]; decide) cut
  have noParen : '(' ∉ front ++ ' ' :: name := fun inside =>
    absurd (isHeaderPart_of_mem isFront named '(' inside) (by decide)
  have before := takeWhile_header isFront named []
  rw [List.append_nil, List.takeWhile_nil, List.append_nil] at before
  have several : 2 ≤ (Text.words front ++ [name]).length := by
    obtain ⟨first, -⟩ := Bool.and_eq_true_iff.mp isFront.trimmed
    obtain ⟨word, found, -⟩ := Text.exists_word first
    have size := List.length_pos_of_mem found
    rw [List.length_append, List.length_singleton]
    omega
  rw [key, found]
  dsimp only
  rw [before, noType_of_isFront isFront named, if_neg (by simp), if_neg (by simpa using noParen),
    if_neg (by simp), fieldKey, Text.words_append_cons (by decide), words_of_isMemberName named]
  rw [List.getLast?_concat]
  dsimp only
  rw [plain, Bool.true_and, if_pos (by simpa using several)]

theorem dropEnd_append (front ending : List Char) : dropEnd ending (front ++ ending) = front := by
  rw [dropEnd, List.reverse_append, Text.dropStart?_append]
  simp

theorem key_invocable {front name blanks rest : List Char} {params : List Param}
    (isFront : IsFront front) (named : IsMemberName name) (sound : ∀ param ∈ params, param.IsSound)
    (blank : ∀ c ∈ blanks, Text.isAsciiBlank c = true)
    (slashless : '/' ∉ front ++ ' ' :: (name ++ '(' ::
      (paramsText params ++ ')' :: (blanks ++ '\x7b' :: rest))))
    (bare : '@' ∉ front ++ ' ' :: (name ++ '(' ::
      (paramsText params ++ ')' :: (blanks ++ '\x7b' :: rest)))) :
    key (front ++ ' ' :: (name ++ '(' :: (paramsText params ++ ')' :: (blanks ++ '\x7b' :: rest)))) =
      if (Text.words front).all fun word =>
          modifiers.contains (String.ofList word) || isTypeParameters word then
        .ofConstructor (.ofTypes (String.ofList name) (params.map fun param => String.ofList param.1))
      else .ofMethod (.ofTypes (String.ofList name) (params.map fun param => String.ofList param.1)) := by
  have head := isHeaderPart_of_mem isFront named
  have inside : ∀ c ∈ paramsText params, isHeaderPart c = true := by
    have each : ∀ d ∈ ['\x7b', '=', ';', '(', ')'], isNamePart d = false ∧
        d ∉ ['<', '>', ',', '[', ']', '?', ' '] := by decide
    intro c found
    rw [isHeaderPart, Bool.not_eq_true', ← Bool.not_eq_true, List.contains_iff_mem]
    exact fun known =>
      Signature.notMem_paramsText sound (each c known).1 (each c known).2 found
  have gap : ∀ c ∈ blanks, isHeaderPart c = true := by
    intro c found
    have known := blank c found
    simp only [Text.isAsciiBlank, Bool.or_eq_true, beq_iff_eq] at known
    rcases known with (((rfl | rfl) | rfl) | rfl) | rfl <;> decide
  have whole : front ++ ' ' :: (name ++ '(' :: (paramsText params ++ ')' :: (blanks ++ '\x7b' :: rest)))
      = front ++ ' ' :: name ++ '(' :: (paramsText params ++ ')' :: (blanks ++ '\x7b' :: rest)) := by
    simp
  have cut : splitHeader 0 (front ++ ' ' :: name
        ++ '(' :: (paramsText params ++ ')' :: (blanks ++ '\x7b' :: rest))) =
      (front ++ ' ' :: name ++ '(' :: (paramsText params ++ [')']) ++ blanks, true) := by
    have closing : splitHeader 1 (')' :: (blanks ++ '\x7b' :: rest)) = (')' :: blanks, true) := by
      have last : splitHeader 0 ('\x7b' :: rest) = ([], true) := by simp [splitHeader]
      rw [splitHeader]
      simp [splitHeader_append gap, last]
    have opening : splitHeader 0 ('(' :: (paramsText params ++ ')' :: (blanks ++ '\x7b' :: rest))) =
        ('(' :: (paramsText params ++ ')' :: blanks), true) := by
      rw [splitHeader]
      simp [splitHeader_append inside, closing]
    rw [splitHeader_append head, opening]
    simp
  have trimmed : Text.isTrim (front ++ ' ' :: name ++ '(' :: (paramsText params ++ [')'])) = true := by
    obtain ⟨first, -⟩ := Bool.and_eq_true_iff.mp (isTrim_append_name isFront.trimmed named)
    refine Bool.and_eq_true_iff.mpr ⟨?_, ?_⟩
    · cases shown : front ++ ' ' :: name with
      | nil => simp at shown
      | cons c more => simpa [shown] using first
    · rw [List.getLast?_append_cons, List.getLast?_cons]
      simp [Text.isBlank, Text.isAscii]
  rw [whole] at slashless bare ⊢
  have found := header_of_splitHeader slashless bare trimmed
    (fun c here => Text.isBlank_of_isAsciiBlank (blank c here)) cut
  have before := takeWhile_header isFront named ('(' :: (paramsText params ++ [')']))
  rw [List.takeWhile_cons_of_neg (by simp), List.append_nil] at before
  have outside : '(' ∉ front := fun here => absurd (isFront.quiet '(' here) (by decide)
  have signature := Signature.ofDeclarationChars?_header outside named.filled named.parts sound []
  have same : front ++ ' ' :: (name ++ '(' :: (paramsText params ++ [')'])) =
      front ++ ' ' :: name ++ '(' :: (paramsText params ++ [')']) := by simp
  rw [same] at signature
  have ends : Text.trimEnd (front ++ ' ' :: name) = front ++ ' ' :: name := by
    obtain ⟨-, last⟩ := Bool.and_eq_true_iff.mp (isTrim_append_name isFront.trimmed named)
    refine Text.trimEnd_of_filled ?_
    cases shown : (front ++ ' ' :: name).getLast? with
    | none => rfl
    | some c => simpa [shown] using last
  have dropped : dropEnd name (Text.trimEnd (front ++ ' ' :: name)) = front ++ [' '] := by
    have split : front ++ ' ' :: name = front ++ [' '] ++ name := by simp
    rw [ends, split, dropEnd_append]
  have words : Text.words (front ++ [' ']) = Text.words front := by
    rw [Text.words_append_cons (by decide)]
    simp [Text.words, Text.splitWhere]
  rw [key, found]
  dsimp only
  rw [before, noType_of_isFront isFront named, if_neg (by simp), if_pos (by simp), invocableKey,
    signature]
  dsimp only
  rw [Signature.ofTypes, String.toList_ofList, dropped, words]

end Fragment.Member

end ClassWeaver
