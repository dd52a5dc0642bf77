import ClassWeaver.Error
import ClassWeaver.Template.Reading
import ClassWeaver.Template.Standard
import ClassWeaver.Yaml.Shape

set_option autoImplicit false

/-!
Templates by name. The standard ones are always there; a document can replace them and add others.
Main statement: a template that has been put in is found under its name.
-/

namespace ClassWeaver

/-- Puts an entry into a list that is ordered by names; an entry of the same name is replaced. -/
def putByName {α : Type} (name : String) (value : α) : List (String × α) → List (String × α)
  | [] => [(name, value)]
  | (label, old) :: rest =>
    if name = label then (name, value) :: rest
    else if name < label then (name, value) :: (label, old) :: rest
    else (label, old) :: putByName name value rest

theorem lookup_putByName {α : Type} (name : String) (value : α) (entries : List (String × α)) :
    (putByName name value entries).lookup name = some value := by
  induction entries with
  | nil => simp [putByName]
  | cons entry rest ih =>
    obtain ⟨label, old⟩ := entry
    unfold putByName
    split
    · simp
    · next other =>
      split
      · simp
      · rw [List.lookup_cons, beq_false_of_ne other]
        exact ih

structure Catalog where
  templates : List (String × Template)

namespace Catalog

def standard : Catalog :=
  ⟨Template.Standard.all.map fun entry => (entry.name, entry.template)⟩

def put (catalog : Catalog) (name : String) (template : Template) : Catalog :=
  ⟨putByName name template catalog.templates⟩

def find? (catalog : Catalog) (name : String) : Option Template :=
  catalog.templates.lookup name

theorem find?_put (catalog : Catalog) (name : String) (template : Template) :
    (catalog.put name template).find? name = some template :=
  lookup_putByName name template catalog.templates

def define (catalog : Catalog) (name text : String) : Except Error Catalog :=
  match Template.parse? text with
  | some template => .ok (catalog.put name template)
  | none => .error (.template name)

/-- Takes a node as texts by name, in the order of the names; of several with one name the last
counts. -/
def textsByName? (node : Yaml.Node) : Option (List (String × String)) := do
  let record ← node.record?
  let texts ← record.mapM fun (name, value) => value.text?.map (name, ·)
  return texts.foldl (fun found (name, text) => putByName name text found) []

def parse (text : String) : Except Error Catalog :=
  match (Yaml.Node.read text.toList).bind textsByName? with
  | none => .error .unreadableDocument
  | some texts => texts.foldlM (fun catalog (name, text) => catalog.define name text) standard

def render (catalog : Catalog) (name : String) (value : Template.Value) : Except Error String :=
  match (catalog.find? name).bind (·.render value) with
  | some text => .ok text
  | none => .error (.template name)

private def quoted (name : String) : String :=
  let escaped (c : Char) :=
    if c == '"' || c == '\\' then ['\\', c]
    else if c == '\n' then ['\\', 'n']
    else if c == '\r' then ['\\', 'r']
    else if c == '\t' then ['\\', 't']
    else if c == '\x00' then ['\\', '0']
    else if c.toNat < 0x20 || 0x7F ≤ c.toNat && c.toNat < 0xA0 then
      "\\u\x7b".toList ++ Nat.toDigits 16 c.toNat ++ ['\x7d']
    else [c]
  String.ofList ('"' :: name.toList.flatMap escaped ++ ['"'])

def listing (catalog : Catalog) : String :=
  "TemplateRenderer \x7b templates: ["
    ++ ", ".intercalate (catalog.templates.map fun entry => quoted entry.1) ++ "] \x7d"

end Catalog

end ClassWeaver
