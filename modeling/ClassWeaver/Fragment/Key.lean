import ClassWeaver.Signature

set_option autoImplicit false

/-!
Keys of fragments: what a piece of a source file is. Main statement: a key read from its text is
written as the same text.
-/

namespace ClassWeaver.Fragment

inductive Key where
  /-- The front of the file with its leading comment. -/
  | start
  /-- The package declaration. -/
  | package
  /-- The import of a qualified name. -/
  | importOf (name : String)
  /-- The class declaration up to the opening brace. -/
  | classDecl
  /-- The constructor of a signature. -/
  | constructorOf (signature : String)
  /-- The attribute of a name. -/
  | attributeOf (name : String)
  /-- The method of a signature. -/
  | methodOf (signature : String)
  /-- The closing brace of the class body. -/
  | classEnd
  /-- White space between fragments. -/
  | gap
  /-- Hand-written text, under any label that denotes nothing else. -/
  | text (label : String)
  deriving DecidableEq, Repr

namespace Key

/-- The key of text that is nothing that has a key of its own. -/
def unclassified : Key :=
  .text "text:"

def ofMethod (signature : Signature) : Key :=
  .methodOf signature.text

def ofConstructor (signature : Signature) : Key :=
  .constructorOf signature.text

/-- Members stand inside the class body. -/
def isMember : Key → Bool
  | attributeOf _ | methodOf _ | constructorOf _ => true
  | _ => false

/-- Keys under which a fragment can be looked up. -/
def isIndexed : Key → Bool
  | start | gap | text _ => false
  | _ => true

def written : Key → String
  | start => "start:"
  | package => "package"
  | importOf name => "import:" ++ name
  | classDecl => "class"
  | constructorOf signature => "constructor:" ++ signature
  | attributeOf name => "attribute:" ++ name
  | methodOf signature => "method:" ++ signature
  | classEnd => "classEnd"
  | gap => "gap:"
  | text label => label

private def labelled? (label : String) (make : String → Key) (written : String) : Option Key :=
  (Text.dropStart? label.toList written.toList).map fun rest => make (String.ofList rest)

def ofWritten (written : String) : Key :=
  if written = "package" then package
  else if written = "class" then classDecl
  else if written = "classEnd" then classEnd
  else if written = "gap:" then gap
  else if written = "start:" then start
  else
    (labelled? "import:" importOf written
      <|> labelled? "attribute:" attributeOf written
      <|> labelled? "method:" methodOf written
      <|> labelled? "constructor:" constructorOf written).getD (text written)

private theorem append_of_dropStart? {start text rest : List Char}
    (found : Text.dropStart? start text = some rest) : start ++ rest = text := by
  induction start generalizing text with
  | nil => simpa [Text.dropStart?] using found.symm
  | cons c start ih =>
    cases text with
    | nil => simp [Text.dropStart?] at found
    | cons d text =>
      simp only [Text.dropStart?] at found
      split at found
      · next same => simp [same, ih found]
      · simp at found

private theorem written_of_labelled? {label : String} {make : String → Key} {text : String}
    {key : Key} (form : ∀ name, (make name).written = label ++ name)
    (found : labelled? label make text = some key) :
    key.written = text := by
  obtain ⟨rest, cut, rfl⟩ := Option.map_eq_some_iff.1 found
  rw [form]
  apply String.toList_inj.1
  simp [append_of_dropStart? cut]

theorem written_ofWritten (text : String) : (ofWritten text).written = text := by
  unfold ofWritten
  split
  · next same => simp [written, same]
  split
  · next same => simp [written, same]
  split
  · next same => simp [written, same]
  split
  · next same => simp [written, same]
  split
  · next same => simp [written, same]
  cases imports : labelled? "import:" importOf text with
  | some key => simpa using written_of_labelled? (fun _ => rfl) imports
  | none =>
    cases attributes : labelled? "attribute:" attributeOf text with
    | some key => simpa using written_of_labelled? (fun _ => rfl) attributes
    | none =>
      cases methods : labelled? "method:" methodOf text with
      | some key => simpa using written_of_labelled? (fun _ => rfl) methods
      | none =>
        cases constructors : labelled? "constructor:" constructorOf text with
        | some key => simpa using written_of_labelled? (fun _ => rfl) constructors
        | none => simp [written]

end Key

end ClassWeaver.Fragment
