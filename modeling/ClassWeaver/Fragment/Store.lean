import ClassWeaver.Fragment.Merge

set_option autoImplicit false

/-!
A source file as the list of its fragments. The text of the file is the texts of the fragments one
after the other; a fragment is looked up as the first one with its key. Main statement: what is
looked up has the key and is in the list.
-/

namespace ClassWeaver

structure Fragment where
  key : Fragment.Key
  text : String
  deriving DecidableEq, Repr

namespace Fragment

def blankLines (count : Nat) : Fragment :=
  ⟨.gap, String.ofList (List.replicate count '\n')⟩

def isProtected (fragment : Fragment) : Bool :=
  Text.contains fragment.text.toList protectionMark.toList

structure Store where
  fragments : List Fragment
  deriving DecidableEq, Repr

namespace Store

/-- The store of a file that does not exist: its front without text. -/
def empty : Store :=
  ⟨[⟨.start, ""⟩]⟩

def cut? (key : Key) : List Fragment → Option (List Fragment × Fragment × List Fragment)
  | [] => none
  | fragment :: rest =>
    if fragment.key = key then some ([], fragment, rest)
    else (cut? key rest).map fun (before, found, after) => (fragment :: before, found, after)

/-- Cuts the store at the fragment under a key; nothing is found under a key that is not indexed. -/
def find? (store : Store) (key : Key) : Option (List Fragment × Fragment × List Fragment) :=
  if key.isIndexed then cut? key store.fragments else none

def get? (store : Store) (key : Key) : Option Fragment :=
  (store.find? key).map (·.2.1)

private theorem cut?_eq_some {key : Key} {fragments before after : List Fragment} {found : Fragment}
    (cut : cut? key fragments = some (before, found, after)) :
    fragments = before ++ found :: after ∧ found.key = key := by
  induction fragments generalizing before with
  | nil => simp [cut?] at cut
  | cons fragment rest ih =>
    simp only [cut?] at cut
    split at cut
    · next same => simp_all
    · obtain ⟨⟨front, hit, back⟩, inner, same⟩ := Option.map_eq_some_iff.1 cut
      simp only [Prod.mk.injEq] at same
      obtain ⟨rfl, rfl, rfl⟩ := same
      simpa using ih inner

theorem find?_eq_some {store : Store} {key : Key} {before after : List Fragment} {found : Fragment}
    (cut : store.find? key = some (before, found, after)) :
    store.fragments = before ++ found :: after ∧ found.key = key := by
  unfold find? at cut
  split at cut
  · exact cut?_eq_some cut
  · simp at cut

def dropLastGap (fragments : List Fragment) : List Fragment :=
  if fragments.getLast?.any (·.key == .gap) then fragments.dropLast else fragments

/-- Puts a new fragment where its kind belongs, with blank lines beside it: members before the end
of the class, imports before the gap in front of the class, everything else at the end. -/
def insert (store : Store) (fragment : Fragment) (blank : Nat) : Store :=
  match fragment.key with
  | .importOf _ =>
    match store.find? .classDecl with
    | some (before, found, after) =>
      ⟨before.dropLast ++ [blankLines blank, fragment] ++ before.getLast?.toList
        ++ found :: after⟩
    | none => ⟨store.fragments ++ [fragment, blankLines blank]⟩
  | key =>
    match if key.isMember then store.find? .classEnd else none with
    | some (before, found, after) => ⟨before ++ [fragment, blankLines blank] ++ found :: after⟩
    | none => ⟨store.fragments ++ [fragment, blankLines blank]⟩

/-- Brings the fragment under a key up to date and returns it. A missing fragment is inserted. A
protected one stays. With `remove` a fragment goes together with the gap in front of it, and a
missing one stays missing. Otherwise the new text is merged into the old one. -/
def upsert (store : Store) (key : Key) (text : String) (blank : Nat) (remove : Bool) :
    Option Fragment × Store :=
  match store.find? key with
  | none => if remove then (none, store) else (some ⟨key, text⟩, store.insert ⟨key, text⟩ blank)
  | some (before, found, after) =>
    if found.isProtected then (some found, store)
    else if remove then (some found, ⟨dropLastGap before ++ after⟩)
    else
      let merged : Fragment := ⟨key, mergeText key found.text text⟩
      (some merged, ⟨before ++ merged :: after⟩)

/-- Says whether there is nothing but gaps between the class declaration and the end of the class.
Without a declaration and an end after it there is no body. -/
def isBodyEmpty (store : Store) : Bool :=
  match store.find? .classDecl, store.find? .classEnd with
  | some (beforeDecl, _, afterDecl), some (beforeEnd, _, _) =>
    (afterDecl.take (beforeEnd.length - (beforeDecl.length + 1))).all (·.key == .gap)
  | _, _ => true

def render (store : Store) : String :=
  String.join (store.fragments.map (·.text))

end Store

end Fragment

end ClassWeaver
