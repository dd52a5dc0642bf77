import ClassWeaver.Proofs.Fragment.Lossless
import ClassWeaver.Proofs.Fragment.Updating
import ClassWeaver.Proofs.Fragment.Scan

set_option autoImplicit false

/-!
Reading a source text whose parts are known. Main statement: a text made of a package declaration,
imports, a class declaration and members, with white space between them, is taken apart into exactly
these, but for declarations that are put together with the one in front of them.
-/

namespace ClassWeaver.Fragment

namespace Lexeme

@[simp] theorem isBlank_code (c : Char) : (code c).isBlank = Text.isAsciiBlank c := rfl

theorem isBare_of_isAsciiBlank {c : Char} (blank : Text.isAsciiBlank c = true) :
    isBare c = true := by
  simp only [Text.isAsciiBlank, Bool.or_eq_true, beq_iff_eq] at blank
  rcases blank with (((rfl | rfl) | rfl) | rfl) | rfl <;> decide

theorem split_fst (c : Char) (rest : List Char) :
    (split c rest).1 = code c ∨
      isBare c = false ∧ (split c rest).1.isBlank = false ∧ ∀ d, (split c rest).1 ≠ code d := by
  by_cases bare : isBare c = true
  · exact .inl (by rw [split_of_isBare bare])
  · rw [Bool.not_eq_true] at bare
    unfold split
    split
    · exact .inr ⟨bare, rfl, by simp⟩
    · exact .inr ⟨bare, rfl, by simp⟩
    · exact .inr ⟨bare, rfl, by simp⟩
    · split
      · exact .inr ⟨bare, rfl, by simp⟩
      · exact .inl rfl

theorem isBlank_split (c : Char) (rest : List Char) :
    (split c rest).1.isBlank = Text.isAsciiBlank c := by
  rcases split_fst c rest with same | ⟨bare, filled, -⟩
  · rw [same, isBlank_code]
  · rw [filled, eq_comm, ← Bool.not_eq_true]
    intro blank
    rw [isBare_of_isAsciiBlank blank] at bare
    exact Bool.noConfusion bare

end Lexeme

/-- Says whether a text begins with a character that is no white space, or is empty. -/
def startsFilled (text : List Char) : Bool :=
  text.head?.all (! Text.isAsciiBlank ·)

theorem isAsciiBlank_eq_false {c : Char} (visible : Text.isBlank c = false) :
    Text.isAsciiBlank c = false := by
  rw [← Bool.not_eq_true] at visible ⊢
  exact fun blank => visible (Text.isBlank_of_isAsciiBlank blank)

namespace Source

open Lexeme (code ofSource isBare)

theorem blanks_ofSource {text : List Char} (filled : startsFilled text = true) :
    blanks (ofSource text) = [] ∧ afterBlanks (ofSource text) = ofSource text := by
  cases text with
  | nil => simp [ofSource, blanks, afterBlanks]
  | cons c rest =>
      have first : Text.isAsciiBlank c = false := by simpa [startsFilled] using filled
      rw [ofSource, blanks, afterBlanks, List.takeWhile_cons, List.dropWhile_cons,
        Lexeme.isBlank_split, first]
      simp

theorem blanks_gap {gap : List Char} (text : List Char) (blank : ∀ c ∈ gap, Text.isAsciiBlank c = true)
    (filled : startsFilled text = true) :
    blanks (ofSource (gap ++ text)) = ofSource gap ∧
      afterBlanks (ofSource (gap ++ text)) = ofSource text := by
  have bare : ∀ c ∈ gap, isBare c = true := fun c found =>
    Lexeme.isBare_of_isAsciiBlank (blank c found)
  have all : ∀ lexeme ∈ gap.map code, lexeme.isBlank = true := by
    intro lexeme found
    obtain ⟨c, inside, rfl⟩ := List.mem_map.mp found
    exact blank c inside
  obtain ⟨none, rest⟩ := blanks_ofSource filled
  rw [Lexeme.ofSource_append_of_isBare bare, Lexeme.ofSource_of_isBare bare]
  constructor
  · rw [blanks, List.takeWhile_append_of_pos all, ← blanks, none, List.append_nil]
  · rw [afterBlanks, List.dropWhile_append_of_pos all, ← afterBlanks, rest]

theorem body_gap (done : List Fragment) {gap text : List Char} (some : gap ≠ [])
    (blank : ∀ c ∈ gap, Text.isAsciiBlank c = true) (filled : startsFilled text = true) :
    body done (ofSource (gap ++ text)) =
      body (⟨.gap, String.ofList gap⟩ :: done) (ofSource text) := by
  cases gap with
  | nil => exact absurd rfl some
  | cons c gap =>
      have first : Text.isAsciiBlank c = true := blank c List.mem_cons_self
      obtain ⟨inside, after⟩ :=
        blanks_gap text (fun d found => blank d (List.mem_cons_of_mem c found)) filled
      have bare := Lexeme.isBare_of_isAsciiBlank first
      rw [List.cons_append, Lexeme.ofSource_cons_of_isBare bare, body, Lexeme.isBlank_code,
        if_pos first, inside, after]
      simp [Lexeme.stringOf, Lexeme.text, Lexeme.textOf_ofSource]

theorem body_brace (done : List Fragment) (behind : List Lexeme) :
    body done (code '\x7d' :: behind) =
      fragments .unclassified (afterBlanks behind) ++ fragments .gap (blanks behind)
        ++ ⟨.classEnd, "\x7d"⟩ :: done := by
  rw [body, Lexeme.isBlank_code, if_neg (by decide), if_pos (by decide)]
  rfl

theorem body_classEnd (done : List Fragment) {gap : List Char} (some : gap ≠ [])
    (blank : ∀ c ∈ gap, Text.isAsciiBlank c = true) :
    body done (ofSource ('\x7d' :: gap)) =
      ⟨.gap, String.ofList gap⟩ :: ⟨.classEnd, "\x7d"⟩ :: done := by
  have bare : isBare '\x7d' = true := by decide
  obtain ⟨inside, after⟩ := blanks_gap [] blank rfl
  rw [List.append_nil] at inside after
  have listed : ofSource gap ≠ [] := by
    cases gap with
    | nil => exact absurd rfl some
    | cons c gap => simp [ofSource]
  rw [Lexeme.ofSource_cons_of_isBare bare, body_brace, inside, after]
  simp [fragments, ofSource, listed, Lexeme.stringOf, Lexeme.textOf_ofSource]

structure IsMember (key : Key) (text : List Char) : Prop where
  filled : text.head?.all (! Text.isBlank ·) = true
  notEnd : text.head? ≠ some '\x7d'
  whole : ∀ rest, splitMember .start (ofSource (text ++ rest)) = (ofSource text, ofSource rest)
  ends : text.getLast? = some ';' ∨ text.getLast? = some '\x7d'
  slashless : '/' ∉ text
  named : Member.key text = key

theorem body_cons (done : List Fragment) {c : Char} (filled : Text.isAsciiBlank c = false)
    (noEnd : c ≠ '\x7d') (rest : List Char) :
    body done (ofSource (c :: rest)) =
      let member := splitMember .start (ofSource (c :: rest))
      let text := Lexeme.textOf member.1
      body (pushMember done ⟨Member.key text, String.ofList text⟩) member.2 := by
  have inside : ((Lexeme.split c rest).1 == code '\x7d') = false := by
    rw [beq_eq_false_iff_ne]
    rcases Lexeme.split_fst c rest with same | ⟨-, -, other⟩
    · rw [same]
      simpa using noEnd
    · exact other _
  rw [ofSource, body, Lexeme.isBlank_split, filled, if_neg (by simp), inside, if_neg (by simp)]

theorem body_member (done : List Fragment) {key : Key} {text : List Char}
    (member : IsMember key text) (rest : List Char) :
    body done (ofSource (text ++ rest)) =
      body (pushMember done ⟨key, String.ofList text⟩) (ofSource rest) := by
  have cut := member.whole rest
  cases text with
  | nil => rcases member.ends with none | none <;> simp at none
  | cons c text =>
      have filled : Text.isAsciiBlank c = false :=
        isAsciiBlank_eq_false (by simpa using member.filled)
      have noEnd : c ≠ '\x7d' := by simpa using member.notEnd
      rw [List.cons_append, body_cons done filled noEnd, ← List.cons_append, cut]
      simp only [Lexeme.textOf_ofSource]
      rw [member.named]

/-- A text that is read as one fragment, with its key and the key of the first declaration in it: a
member, or what is taken for a constant with the name of a property and the field of that name. -/
inductive Reads : Key → Key → List Char → Prop where
  | member {key : Key} {text : List Char} (whole : IsMember key text) : Reads key key text
  | property {name : String} {leading : Key} {constant gap field : List Char}
      (first : Reads (.attributeOf ("PROPERTY_" ++ name)) leading constant) (between : IsGap gap)
      (second : IsMember (.attributeOf name) field) :
      Reads (.attributeOf name) leading (constant ++ gap ++ field)

def leadingKey (text : List Char) : Key :=
  Member.key (Lexeme.textOf (splitMember .start (afterBlanks (ofSource text))).1)

theorem IsMember.ne_nil {key : Key} {text : List Char} (member : IsMember key text) : text ≠ [] := by
  rintro rfl
  rcases member.ends with none | none <;> simp at none

namespace Reads

variable {key leading : Key} {text : List Char}

theorem ne_nil (reads : Reads key leading text) : text ≠ [] := by
  cases reads with
  | member whole => exact whole.ne_nil
  | property first between second => simp [second.ne_nil]

theorem isTrim (reads : Reads key leading text) : Text.isTrim text = true := by
  have last {key : Key} {text : List Char} (member : IsMember key text) :
      text.getLast?.any (! Text.isBlank ·) = true := by
    rcases member.ends with ends | ends <;> rw [ends] <;> decide
  induction reads with
  | @member key text whole =>
      refine Bool.and_eq_true_iff.mpr ⟨?_, last whole⟩
      have filled := whole.filled
      cases text with
      | nil => exact absurd rfl whole.ne_nil
      | cons c text => simpa using filled
  | @property name leading constant gap field first between second ih =>
      obtain ⟨front, -⟩ := Bool.and_eq_true_iff.mp ih
      refine Bool.and_eq_true_iff.mpr ⟨?_, ?_⟩
      · cases constant with
        | nil => exact absurd rfl first.ne_nil
        | cons c constant => simpa using front
      · rw [List.getLast?_append_of_ne_nil _ second.ne_nil]
        exact last second

theorem startsFilled (reads : Reads key leading text) (rest : List Char) :
    startsFilled (text ++ rest) = true := by
  obtain ⟨front, -⟩ := Bool.and_eq_true_iff.mp reads.isTrim
  cases text with
  | nil => exact absurd rfl reads.ne_nil
  | cons c text =>
      have visible : Text.isBlank c = false := by simpa using front
      simp [Fragment.startsFilled, isAsciiBlank_eq_false visible]

theorem leadingKey (reads : Reads key leading text) {blanks : List Char}
    (blank : ∀ c ∈ blanks, Text.isAsciiBlank c = true) (rest : List Char) :
    leadingKey (blanks ++ (text ++ rest)) = leading := by
  have first : Member.key (Lexeme.textOf (splitMember .start (ofSource (text ++ rest))).1) =
      leading := by
    clear blank
    induction reads generalizing rest with
    | member whole => rw [whole.whole, Lexeme.textOf_ofSource, whole.named]
    | property first between second ih =>
        rw [List.append_assoc, List.append_assoc]
        exact ih _
  rw [Source.leadingKey, (blanks_gap _ blank (reads.startsFilled rest)).2, first]

theorem absorb {name : String} {first between : List Char} {before : Key}
    (front : Reads (.attributeOf ("PROPERTY_" ++ name)) before first) (gap : IsGap between)
    (reads : Reads key leading text) (mistaken : leading = .attributeOf name) :
    Reads key before (first ++ between ++ text) := by
  induction reads with
  | member whole =>
      subst mistaken
      exact property front gap whole
  | @property label leading constant inner field _ space last ih =>
      have whole := property (ih mistaken) space last
      simpa only [List.append_assoc] using whole

end Reads

end Source

namespace Entry

open Source (Reads IsMember body pushMember)
open Lexeme (ofSource)

def flatReverse (entries : List Entry) : List Fragment :=
  entries.flatMap fun entry => [⟨entry.key, entry.text⟩, ⟨.gap, entry.gap⟩]

theorem reverse_flatReverse (entries : List Entry) :
    (flatReverse entries).reverse = flat entries.reverse := by
  induction entries with
  | nil => rfl
  | cons entry entries ih =>
      rw [flatReverse, List.flatMap_cons, List.reverse_append, ← flatReverse, ih,
        List.reverse_cons (a := entry), flat_append]
      rfl

/-- Says whether a declaration is taken for the constant of the one behind it, which begins with a
declaration under the key `leading`. -/
def isMistaken (first : Key) (leading : Key) : Bool :=
  match first, leading with
  | .attributeOf constant, .attributeOf name => constant == "PROPERTY_" ++ name
  | _, _ => false

theorem isMistaken_constant (name : String) :
    isMistaken (.attributeOf ("PROPERTY_" ++ name)) (.attributeOf name) = true := by
  simp [isMistaken]

theorem pushMember_gap (first member : Fragment) (gap : String) (done : List Fragment) :
    pushMember (⟨.gap, gap⟩ :: first :: done) member =
      if isMistaken first.key member.key then
        ⟨member.key, first.text ++ gap ++ member.text⟩ :: done
      else member :: ⟨.gap, gap⟩ :: first :: done := by
  obtain ⟨firstKey, firstText⟩ := first
  obtain ⟨key, text⟩ := member
  unfold pushMember isMistaken
  cases key with
  | attributeOf name =>
      cases firstKey with
      | attributeOf constant => by_cases same : constant = "PROPERTY_" ++ name <;> simp [same]
      | _ => simp
  | _ => simp

/-- Puts an entry in front of others, or together with the first one if that is taken for its
constant. -/
def absorb (done : List Entry) (leading : Key) (entry : Entry) : List Entry :=
  match done with
  | [] => [entry]
  | last :: rest =>
    if isMistaken last.key leading then
      ⟨last.gap, entry.key, last.text ++ entry.gap ++ entry.text⟩ :: rest
    else entry :: last :: rest

theorem pushMember_flatReverse (done : List Entry) (entry : Entry) :
    pushMember (⟨.gap, entry.gap⟩ :: flatReverse done) ⟨entry.key, entry.text⟩ =
      flatReverse (absorb done entry.key entry) := by
  cases done with
  | nil => cases kind : entry.key <;> simp [pushMember, flatReverse, absorb, kind]
  | cons last done =>
      have pushed := pushMember_gap ⟨last.key, last.text⟩ ⟨entry.key, entry.text⟩ entry.gap
        (⟨.gap, last.gap⟩ :: flatReverse done)
      rw [absorb]
      refine Eq.trans pushed ?_
      split <;> rfl

private theorem absorb_absorb (done : List Entry) (leading : Key) (name gap between : String)
    (constant field : String) :
    absorb (absorb done leading ⟨gap, .attributeOf ("PROPERTY_" ++ name), constant⟩)
        (.attributeOf name) ⟨between, .attributeOf name, field⟩ =
      absorb done leading ⟨gap, .attributeOf name, constant ++ between ++ field⟩ := by
  cases done with
  | nil => simp [absorb, isMistaken_constant]
  | cons last done =>
      by_cases mistaken : isMistaken last.key leading = true
      · simp [absorb, mistaken, isMistaken_constant, String.append_assoc]
      · simp [absorb, mistaken, isMistaken_constant]

private theorem body_reads (done : List Entry) (gap : String) {key leading : Key} {text : List Char}
    (reads : Reads key leading text) (rest : List Char) :
    body (⟨.gap, gap⟩ :: flatReverse done) (ofSource (text ++ rest)) =
      body (flatReverse (absorb done leading ⟨gap, key, String.ofList text⟩)) (ofSource rest) := by
  induction reads generalizing rest with
  | @member key text whole =>
      rw [Source.body_member _ whole]
      exact congrArg (body · _) (pushMember_flatReverse done ⟨gap, key, String.ofList text⟩)
  | @property name leading constant between field first blank second ih =>
      have field_ := Source.body_member (⟨.gap, String.ofList between⟩ :: flatReverse (absorb done
        leading ⟨gap, .attributeOf ("PROPERTY_" ++ name), String.ofList constant⟩)) second rest
      have filled := (Reads.member second).startsFilled rest
      rw [List.append_assoc, List.append_assoc, ih,
        Source.body_gap _ blank.filled blank.blank filled, field_]
      have together := pushMember_flatReverse (absorb done leading
          ⟨gap, .attributeOf ("PROPERTY_" ++ name), String.ofList constant⟩)
        ⟨String.ofList between, .attributeOf name, String.ofList field⟩
      rw [together, absorb_absorb, String.ofList_append, String.ofList_append]

theorem body_entry (done : List Entry) {entry : Entry} {leading : Key} (gap : IsGap entry.gap.toList)
    (reads : Reads entry.key leading entry.text.toList) (rest : List Char) :
    body (flatReverse done) (ofSource (entry.gap.toList ++ entry.text.toList ++ rest)) =
      body (flatReverse (absorb done leading entry)) (ofSource rest) := by
  rw [List.append_assoc, Source.body_gap _ gap.filled gap.blank (reads.startsFilled rest),
    String.ofList_toList, body_reads done entry.gap reads, String.ofList_toList]

/-- The entry with the white space in front of its text counted to the gap. -/
def tidy (entry : Entry) : Entry where
  gap := entry.gap ++ String.ofList (entry.text.toList.takeWhile Text.isAsciiBlank)
  key := entry.key
  text := String.ofList (entry.text.toList.dropWhile Text.isAsciiBlank)

def leading (entry : Entry) : Key :=
  Source.leadingKey entry.text.toList

structure IsReadable (entry : Entry) : Prop where
  gap : IsGap entry.gap.toList
  reads : ∃ leading, Reads entry.key leading entry.tidy.text.toList

theorem toList_tidy (entry : Entry) :
    entry.tidy.gap.toList ++ entry.tidy.text.toList = entry.gap.toList ++ entry.text.toList := by
  simp [tidy]

theorem isGap_tidy {entry : Entry} (gap : IsGap entry.gap.toList) :
    IsGap entry.tidy.gap.toList where
  filled := by
    have filled := gap.filled
    simp [tidy] at filled ⊢
    simp [filled]
  blank := by
    intro c found
    simp only [tidy, String.toList_append, String.toList_ofList, List.mem_append] at found
    rcases found with found | found
    · exact gap.blank c found
    · exact List.mem_takeWhile_imp found

theorem IsReadable.reads_leading {entry : Entry} (readable : entry.IsReadable) :
    Reads entry.key entry.leading entry.tidy.text.toList := by
  obtain ⟨leading, reads⟩ := readable.reads
  have front : ∀ c ∈ entry.text.toList.takeWhile Text.isAsciiBlank, Text.isAsciiBlank c = true :=
    fun c found => List.mem_takeWhile_imp found
  have named := reads.leadingKey front []
  rw [tidy, String.toList_ofList, List.append_nil, List.takeWhile_append_dropWhile] at named
  rwa [Entry.leading, named]

def absorbAll (done entries : List Entry) : List Entry :=
  entries.foldl (fun done entry => absorb done entry.leading entry.tidy) done

theorem body_entries (done : List Entry) {entries : List Entry}
    (readable : ∀ entry ∈ entries, entry.IsReadable) (rest : List Char) :
    body (flatReverse done) (ofSource (charsOf (flat entries) ++ rest)) =
      body (flatReverse (absorbAll done entries)) (ofSource rest) := by
  induction entries generalizing done with
  | nil => rfl
  | cons entry entries ih =>
      have here := readable entry List.mem_cons_self
      have first := body_entry done (isGap_tidy here.gap) here.reads_leading
        (charsOf (flat entries) ++ rest)
      rw [toList_tidy] at first
      rw [flat_cons, charsOf_cons, charsOf_cons, ← List.append_assoc, List.append_assoc, first]
      exact ih _ fun other found => readable other (List.mem_cons_of_mem _ found)

end Entry

namespace Source

open Entry (flat flatReverse absorbAll)
open Lexeme (code ofSource isBare textOf stringOf)

theorem reverse_body {entries : List Entry} (readable : ∀ entry ∈ entries, entry.IsReadable)
    {gap : String} (blank : IsGap gap.toList) :
    (body [] (ofSource (charsOf (flat entries) ++ gap.toList ++ ['\x7d', '\n']))).reverse =
      flat (absorbAll [] entries).reverse ++ [⟨.gap, gap⟩, ⟨.classEnd, "\x7d"⟩, ⟨.gap, "\n"⟩] := by
  have inside := Entry.body_entries [] readable (gap.toList ++ ['\x7d', '\n'])
  have newline : ∀ c ∈ ['\n'], Text.isAsciiBlank c = true := by decide
  have last := body_classEnd (⟨.gap, gap⟩ :: flatReverse (absorbAll [] entries)) (by simp) newline
  rw [List.append_assoc]
  refine (congrArg List.reverse inside).trans ?_
  rw [body_gap _ blank.filled blank.blank (by decide), String.ofList_toList, last]
  simp only [List.reverse_cons, Entry.reverse_flatReverse, List.append_assoc, List.cons_append,
    List.nil_append]

theorem isBare_of_isNeutral {c : Char} (neutral : isNeutral c = true) : isBare c = true := by
  simp only [isNeutral, List.contains_cons, List.contains_nil, Bool.or_false, Bool.not_eq_true',
    Bool.or_eq_false_iff, beq_eq_false_iff_ne] at neutral
  simp [isBare, neutral]

theorem splitTopLevel?_map (target : Char) {text : List Char} (absent : target ∉ text)
    (opened : '(' ∉ text) (closed : ')' ∉ text) (rest : List Lexeme) :
    splitTopLevel? target 0 (text.map code ++ code target :: rest) =
      some (text.map code ++ [code target], rest) := by
  induction text with
  | nil => simp [splitTopLevel?]
  | cons c text ih =>
      simp only [List.mem_cons, not_or] at absent opened closed
      have other : (code c == code target) = false := by simpa using Ne.symm absent.1
      have same : parensAfter 0 (code c) = 0 := by
        simp [parensAfter, Ne.symm opened.1, Ne.symm closed.1]
      rw [List.map_cons, List.cons_append, splitTopLevel?, other, same,
        ih absent.2 opened.2 closed.2]
      simp

private theorem textOf_map (text : List Char) : textOf (text.map code) = text := by
  induction text with
  | nil => rfl
  | cons c text ih => rw [List.map_cons, Lexeme.textOf_cons, ih]; rfl

theorem startsWithWord_map {word : String} {front : List Char} (size : front.length = word.length + 1)
    (rest : List Lexeme) :
    startsWithWord word (front.map code ++ rest) = startsWithWord word (front.map code) := by
  have short : (front.map code).length = word.length + 1 := by simpa using size
  unfold startsWithWord
  rw [← short, List.take_left', List.take_length]
  rfl

theorem startsWithWord_of_ne {word : String} {c d : Char} {tail : List Char}
    (begins : word.toList = d :: tail) (other : c ≠ d) (rest : List Lexeme) :
    startsWithWord word (code c :: rest) = false := by
  unfold startsWithWord
  rw [begins, List.take_succ_cons, Lexeme.textOf_cons]
  simp [Lexeme.text, Text.dropStart?, Ne.symm other]

theorem header_code {c : Char} (filled : Text.isAsciiBlank c = false) (rest : List Lexeme) :
    header (code c :: rest) =
      if isStatement (code c :: rest) then
        ⟨statementKey (splitStatement (code c :: rest)).1,
          stringOf (splitStatement (code c :: rest)).1⟩ ::
          header (splitStatement (code c :: rest)).2
      else
        match splitTopLevel? '\x7b' 0 (code c :: rest) with
        | none => fragments .unclassified (code c :: rest)
        | some (declaration, rest) =>
          ⟨.classDecl, stringOf declaration⟩ :: (body [] rest).reverse := by
  have none : splitComments (code c :: rest) = ([], code c :: rest) := by simp [splitComments]
  have blanks : blanks (code c :: rest) = [] ∧ afterBlanks (code c :: rest) = code c :: rest := by
    simp [Source.blanks, afterBlanks, filled]
  rw [header, Lexeme.isBlank_code, filled]
  simp only [none, blanks]
  exact if_neg Bool.false_ne_true

theorem header_gap {gap text : List Char} (blank : IsGap gap) (filled : startsFilled text = true) :
    header (ofSource (gap ++ text)) = ⟨.gap, String.ofList gap⟩ :: header (ofSource text) := by
  obtain ⟨some, blank⟩ := blank
  cases gap with
  | nil => exact absurd rfl some
  | cons c gap =>
      have first : Text.isAsciiBlank c = true := blank c List.mem_cons_self
      obtain ⟨inside, after⟩ :=
        blanks_gap text (fun d found => blank d (List.mem_cons_of_mem c found)) filled
      have bare := Lexeme.isBare_of_isAsciiBlank first
      rw [List.cons_append, Lexeme.ofSource_cons_of_isBare bare, header, Lexeme.isBlank_code,
        if_pos first, inside, after]
      simp [Lexeme.stringOf, Lexeme.text, Lexeme.textOf_ofSource]

theorem header_statement {text : List Char} (filled : startsFilled text = true) (some : text ≠ [])
    (bare : ∀ c ∈ text, isBare c = true) (absent : ';' ∉ text) (opened : '(' ∉ text)
    (closed : ')' ∉ text) (statement : ∀ rest, isStatement (text.map code ++ rest) = true)
    (rest : List Char) :
    header (ofSource (text ++ ';' :: rest)) =
      ⟨statementKey ((text ++ [';']).map code), String.ofList (text ++ [';'])⟩
        :: header (ofSource rest) := by
  have split : ofSource (text ++ ';' :: rest) = text.map code ++ code ';' :: ofSource rest := by
    rw [Lexeme.ofSource_append_of_isBare bare, Lexeme.ofSource_cons_of_isBare (by decide)]
  have cut := splitTopLevel?_map ';' absent opened closed (ofSource rest)
  have found := statement (code ';' :: ofSource rest)
  cases text with
  | nil => exact absurd rfl some
  | cons c text =>
      have first : Text.isAsciiBlank c = false := by simpa [startsFilled] using filled
      rw [split]
      rw [List.map_cons, List.cons_append] at cut found ⊢
      rw [header_code first, if_pos found, splitStatement, cut]
      simp [Lexeme.stringOf, textOf_map, Lexeme.text]

private structure IsKeyword (word : List Char) : Prop where
  filled : word.head?.any (! Text.isAsciiBlank ·) = true
  bare : ∀ c ∈ word, isBare c = true
  whole : ';' ∉ word
  opened : '(' ∉ word
  closed : ')' ∉ word
  statement : ∀ rest, isStatement (word.map code ++ rest) = true

private theorem header_keyword {word name : List Char} (keyword : IsKeyword word)
    (reference : IsReference name) (rest : List Char) :
    header (ofSource (word ++ name ++ [';'] ++ rest)) =
      ⟨statementKey ((word ++ name ++ [';']).map code), String.ofList (word ++ name ++ [';'])⟩
        :: header (ofSource rest) := by
  have absent {c : Char} (other : c ∉ word) (special : isNeutral c = false) : c ∉ word ++ name := by
    rw [List.mem_append, not_or]
    exact ⟨other, fun found => Bool.false_ne_true (special ▸ reference.neutral c found)⟩
  have first := keyword.filled
  have filled : startsFilled (word ++ name) = true ∧ word ++ name ≠ [] := by
    cases word with
    | nil => simp at first
    | cons c word => simpa [startsFilled] using first
  have bare : ∀ c ∈ word ++ name, isBare c = true := by
    intro c found
    rcases List.mem_append.mp found with front | back
    · exact keyword.bare c front
    · exact isBare_of_isNeutral (reference.neutral c back)
  have statement (more : List Lexeme) : isStatement ((word ++ name).map code ++ more) = true := by
    rw [List.map_append, List.append_assoc]
    exact keyword.statement _
  have cut := header_statement filled.1 filled.2 bare (absent keyword.whole (by decide))
    (absent keyword.opened (by decide)) (absent keyword.closed (by decide)) statement rest
  rwa [List.append_assoc (word ++ name)]

private theorem isKeyword_package : IsKeyword "package ".toList where
  filled := by decide
  bare := by decide
  whole := by decide
  opened := by decide
  closed := by decide
  statement rest := by
    rw [isStatement, startsWithWord_map (by decide), show startsWithWord "package" _ = true by decide,
      Bool.true_or]

private theorem isKeyword_import : IsKeyword "import ".toList where
  filled := by decide
  bare := by decide
  whole := by decide
  opened := by decide
  closed := by decide
  statement rest := by
    have word : startsWithWord "import" ("import ".toList.map code ++ rest) = true := by
      rw [startsWithWord_map (by decide)]
      decide
    rw [isStatement, word, Bool.or_true]

private theorem startsWithWord_package (package : List Char) :
    startsWithWord "package" ((packageChars package).map code) = true := by
  have word : startsWithWord "package" ("package ".toList.map code) = true := by decide
  have whole : (packageChars package).map code =
      "package ".toList.map code ++ (package ++ [';']).map code := by
    unfold packageChars
    rw [List.append_assoc, List.map_append]
  rw [whole, startsWithWord_map (by decide), word]

theorem header_package {package : List Char} (reference : IsReference package) (rest : List Char) :
    header (ofSource (packageChars package ++ rest)) =
      ⟨.package, String.ofList (packageChars package)⟩ :: header (ofSource rest) := by
  have key : statementKey ((packageChars package).map code) = .package := by
    rw [statementKey, if_pos (startsWithWord_package package)]
  have cut := header_keyword isKeyword_package reference rest
  exact cut.trans (congrArg (⟨·, String.ofList (packageChars package)⟩ :: header (ofSource rest)) key)

private theorem words_of_visible {name : List Char} (filled : name ≠ [])
    (visible : ∀ c ∈ name, Text.isBlank c = false) : Text.words (' ' :: name) = [name] := by
  have whole : Text.splitWhere Text.isBlank name = [name] := by
    clear filled
    induction name with
    | nil => rfl
    | cons c name ih =>
        have here : Text.isBlank c = false := visible c List.mem_cons_self
        rw [Text.splitWhere, here, if_neg (by simp), ih fun d found =>
          visible d (List.mem_cons_of_mem c found)]
        rfl
  have blank : Text.isBlank ' ' = true := by decide
  rw [Text.words, Text.splitWhere, if_pos blank, whole]
  simp [filled]

private theorem statementKey_import {name : List Char} (reference : IsReference name) :
    statementKey ((importChars name).map code) = .importOf (String.ofList name) := by
  have other : startsWithWord "package" ((importChars name).map code) = false := by
    unfold importChars
    simp only [String.reduceToList, List.cons_append, List.map_cons]
    have begins : "package".toList = 'p' :: "ackage".toList := by decide
    exact startsWithWord_of_ne begins (by decide) _
  have dropped : Text.dropStart? "import".toList (importChars name) = some (' ' :: name ++ [';']) := by
    unfold importChars
    simp [Text.dropStart?]
  have ended : Text.dropWhileEnd (· == ';') (' ' :: name ++ [';']) = ' ' :: name := by
    have stays : (' ' :: name).reverse.dropWhile (· == ';') = (' ' :: name).reverse := by
      refine List.dropWhile_eq_self_iff.mpr fun some => ?_
      have inside : (' ' :: name).reverse[0] ∈ (' ' :: name) :=
        List.mem_reverse.mp (List.getElem_mem some)
      rw [beq_iff_eq]
      intro same
      rw [same] at inside
      rcases List.mem_cons.mp inside with blank | found
      · exact absurd blank (by decide)
      · exact Bool.false_ne_true (reference.neutral ';' found)
    rw [Text.dropWhileEnd, List.reverse_append, List.reverse_singleton, List.singleton_append,
      List.dropWhile_cons_of_pos (by simp), stays, List.reverse_reverse]
  unfold statementKey
  rw [other, textOf_map]
  dsimp only
  rw [dropped, Option.getD_some, ended, words_of_visible reference.filled reference.visible]
  simp

theorem header_import {name : List Char} (reference : IsReference name) (rest : List Char) :
    header (ofSource (importChars name ++ rest)) =
      ⟨.importOf (String.ofList name), String.ofList (importChars name)⟩
        :: header (ofSource rest) := by
  have cut := header_keyword isKeyword_import reference rest
  exact cut.trans (congrArg (⟨·, String.ofList (importChars name)⟩ :: header (ofSource rest))
    (statementKey_import reference))

private theorem isWord_of_mem_declaration {name : List Char} {superclass : Option (List Char)}
    (declarable : IsDeclarable name) (above : ∀ parent ∈ superclass, IsDeclarable parent) {c : Char}
    (found : c ∈ "public class ".toList ++ name
      ++ (superclass.map (" extends ".toList ++ ·)).getD [] ++ ['\n']) :
    Text.isWord c = true ∨ c = ' ' ∨ c = '\n' := by
  have words : ∀ c ∈ "public class ".toList, Text.isWord c = true ∨ c = ' ' := by decide
  have clause : ∀ c ∈ " extends ".toList, Text.isWord c = true ∨ c = ' ' := by decide
  rw [List.mem_append, List.mem_append, List.mem_append, List.mem_singleton] at found
  rcases found with ((found | found) | found) | rfl
  · exact (words c found).imp_right .inl
  · exact .inl (declarable.word c found)
  · cases superclass with
    | none => simp at found
    | some parent =>
        rw [Option.map_some, Option.getD_some, List.mem_append] at found
        rcases found with found | found
        · exact (clause c found).imp_right .inl
        · exact .inl ((above parent rfl).word c found)
  · exact .inr (.inr rfl)

theorem header_class {name : List Char} {superclass : Option (List Char)}
    (declarable : IsDeclarable name) (above : ∀ parent ∈ superclass, IsDeclarable parent)
    (rest : List Char) :
    header (ofSource (declarationChars name superclass ++ rest)) =
      ⟨.classDecl, String.ofList (declarationChars name superclass)⟩
        :: (body [] (ofSource rest)).reverse := by
  obtain ⟨front, same⟩ : ∃ front, front = "public class ".toList ++ name
      ++ (superclass.map (" extends ".toList ++ ·)).getD [] ++ ['\n'] := ⟨_, rfl⟩
  have whole : declarationChars name superclass = front ++ ['\x7b'] := by
    subst same
    unfold declarationChars
    simp only [List.append_assoc, List.cons_append, List.nil_append]
  have known {c : Char} (found : c ∈ front) : Text.isWord c = true ∨ c = ' ' ∨ c = '\n' :=
    isWord_of_mem_declaration declarable above (same ▸ found)
  have special {c : Char} (other : (Text.isWord c || c == ' ' || c == '\n') = false) : c ∉ front := by
    intro found
    rcases known found with word | rfl | rfl
    · simp [word] at other
    · simp at other
    · simp at other
  have bare : ∀ c ∈ front, isBare c = true := by
    intro c found
    have slash : c ≠ '/' := fun same => special (by decide) (same ▸ found)
    have quote : c ≠ '"' := fun same => special (by decide) (same ▸ found)
    have tick : c ≠ '\'' := fun same => special (by decide) (same ▸ found)
    simp [isBare, slash, quote, tick]
  have cut := splitTopLevel?_map '\x7b' (special (by decide)) (special (by decide)) (special (by decide))
    (ofSource rest)
  have split : ofSource (declarationChars name superclass ++ rest) =
      front.map code ++ code '\x7b' :: ofSource rest := by
    rw [whole, List.append_assoc, Lexeme.ofSource_append_of_isBare bare, List.singleton_append,
      Lexeme.ofSource_cons_of_isBare (by decide)]
  obtain ⟨tail, begins⟩ : ∃ tail, front = 'p' :: 'u' :: tail :=
    ⟨"blic class ".toList ++ name ++ (superclass.map (" extends ".toList ++ ·)).getD [] ++ ['\n'], by
      subst same
      simp only [String.reduceToList, List.cons_append]⟩
  have noStatement (more : List Lexeme) :
      isStatement (code 'p' :: code 'u' :: more) = false := by
    have package : startsWithWord "package" (code 'p' :: code 'u' :: more) = false := by
      have size : "package".length = 6 + 1 := by decide
      unfold startsWithWord
      rw [size, List.take_succ_cons, List.take_succ_cons, Lexeme.textOf_cons, Lexeme.textOf_cons]
      simp [Lexeme.text, Text.dropStart?]
    have import_ : startsWithWord "import" (code 'p' :: code 'u' :: more) = false := by
      unfold startsWithWord
      rw [List.take_succ_cons, Lexeme.textOf_cons]
      simp [Lexeme.text, Text.dropStart?]
    simp only [isStatement, package, import_, Bool.or_false]
  rw [split, whole]
  rw [begins, List.map_cons, List.map_cons, List.cons_append, List.cons_append] at cut ⊢
  rw [header_code (by decide), if_neg (by simp [noStatement]), cut]
  simp [Lexeme.stringOf, textOf_map, Lexeme.text]

theorem header_imports {imports : List Entry} (imported : ∀ entry ∈ imports,
    ∃ qualified : String, IsReference qualified.toList ∧ entry = .ofImport qualified)
    (rest : List Char) :
    header (ofSource (charsOf (flat imports) ++ rest)) =
      flat imports ++ header (ofSource rest) := by
  induction imports with
  | nil => rfl
  | cons entry imports ih =>
      obtain ⟨qualified, reference, rfl⟩ := imported entry List.mem_cons_self
      have later := ih fun other found => imported other (List.mem_cons_of_mem _ found)
      have filled (more : List Char) : startsFilled (importChars qualified.toList ++ more) = true := by
        unfold importChars
        simp only [String.reduceToList, List.cons_append]
        rfl
      have gap : IsGap "\n".toList := ⟨by decide, by decide⟩
      have first := header_import reference (charsOf (flat imports) ++ rest)
      rw [String.ofList_toList] at first
      have whole : charsOf (flat (.ofImport qualified :: imports)) ++ rest =
          "\n".toList ++ (importChars qualified.toList ++ (charsOf (flat imports) ++ rest)) := by
        simp [Entry.ofImport]
      rw [whole, header_gap gap (filled _), first, later, String.ofList_toList]
      rfl

theorem opening_code {c : Char} (filled : Text.isAsciiBlank c = false) (rest : List Lexeme) :
    opening (code c :: rest) = ([], code c :: rest) := by
  have after : afterBlanks (code c :: rest) = code c :: rest := by simp [afterBlanks, filled]
  have none : splitComments (code c :: rest) = ([], code c :: rest) := by simp [splitComments]
  simp [opening, after, none]

end Source

/-- A layout as it is found again: what stands under the constants that are taken for those of the
attributes behind them belongs to these. -/
def Layout.reread (layout : Layout) : Layout :=
  { layout with members := (Entry.absorbAll [] layout.members).reverse }

open Entry (flat)
open Source (header body opening)
open Lexeme (ofSource code)

private def bodyChars (layout : Layout) : List Char :=
  charsOf (flat layout.members) ++ layout.endGap.toList ++ ['\x7d', '\n']

private theorem toList_render_toStore {package name : List Char} {superclass : Option (List Char)}
    {layout : Layout} (plain : layout.IsPlain package name)
    (declared : layout.declaration = String.ofList (declarationChars name superclass)) :
    layout.toStore.render.toList = packageChars package ++ (charsOf (flat layout.imports)
      ++ ("\n\n".toList ++ (declarationChars name superclass ++ bodyChars layout))) := by
  rw [toList_render, Layout.toStore, Layout.front, Layout.back, plain.packaged, plain.classGap,
    declared]
  simp [bodyChars]

private theorem startsFilled_declaration (name : List Char) (superclass : Option (List Char))
    (rest : List Char) : startsFilled (declarationChars name superclass ++ rest) = true := by
  unfold declarationChars
  simp only [String.reduceToList, List.cons_append]
  rfl

/-- The text of a generated file is taken apart into what it was made of, but for the declarations
that are put together. -/
theorem parse_render {package name : List Char} {layout : Layout} (reference : IsReference package)
    (declarable : IsDeclarable name) (plain : layout.IsPlain package name)
    (readable : ∀ entry ∈ layout.members, entry.IsReadable) :
    Store.parse layout.toStore.render = layout.reread.toStore := by
  obtain ⟨superclass, above, declared⟩ := plain.declared
  have whole := toList_render_toStore plain declared
  have gap : IsGap layout.endGap.toList := plain.endGap ▸ isGap_blankLine
  have members : (body [] (ofSource (bodyChars layout))).reverse =
      flat layout.reread.members ++ layout.reread.back := Source.reverse_body readable gap
  have list : header (ofSource layout.toStore.render.toList) =
      layout.reread.toStore.fragments.tail := by
    rw [whole, Source.header_package reference, Source.header_imports plain.imported,
      Source.header_gap isGap_blankLine (startsFilled_declaration name superclass _),
      Source.header_class declarable above, members, String.ofList_toList]
    simp [Layout.toStore, Layout.front, Layout.reread, plain.packaged, plain.classGap, declared]
  have front : opening (ofSource layout.toStore.render.toList) =
      ([], ofSource layout.toStore.render.toList) := by
    have begins : ∃ rest, ofSource layout.toStore.render.toList = code 'p' :: rest := by
      rw [whole]
      unfold packageChars
      simp only [String.reduceToList, List.cons_append]
      exact ⟨_, Lexeme.ofSource_cons_of_isBare (by decide) _⟩
    obtain ⟨rest, begins⟩ := begins
    rw [begins, Source.opening_code (by decide)]
  rw [Store.parse, Source.parseLexemes, front]
  dsimp only
  rw [list]
  rfl

end ClassWeaver.Fragment
