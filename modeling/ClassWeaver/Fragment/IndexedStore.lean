import ClassWeaver.Fragment.Store

set_option autoImplicit false

/-!
The fragments of a file together with an index, so that a fragment is found without going through all
of them. The index is made anew when fragments come or go, and it stays as it is when only the text of
a fragment changes.
-/

namespace ClassWeaver.Fragment

abbrev Index :=
  List (Key × Nat)

namespace Index

/-- Notes the position of a fragment, unless it cannot be looked up or its key is noted already. -/
def note (index : Index) (key : Key) (position : Nat) : Index :=
  if key.isIndexed && (index.lookup key).isNone then (key, position) :: index else index

def ofFragments (fragments : List Fragment) : Index :=
  fragments.zipIdx.foldl (fun index (fragment, position) => index.note fragment.key position) []

end Index

structure IndexedStore where
  fragments : List Fragment
  index : Index
  deriving DecidableEq, Repr

namespace IndexedStore

def ofFragments (fragments : List Fragment) : IndexedStore :=
  ⟨fragments, .ofFragments fragments⟩

def toStore (store : IndexedStore) : Store :=
  ⟨store.fragments⟩

def get? (store : IndexedStore) (key : Key) : Option Fragment :=
  (store.index.lookup key).bind fun position => store.fragments[position]?

def insertPair (store : IndexedStore) (position : Nat) (first second : Fragment) : IndexedStore :=
  ofFragments ((store.fragments.insertIdx position first).insertIdx (position + 1) second)

/-- Puts a new fragment where its kind belongs, with blank lines beside it: a member in the place of
the end of the class, an import in the place of what is in front of the class, everything else at the
end. -/
def insert (store : IndexedStore) (fragment : Fragment) (blank : Nat) : IndexedStore :=
  match fragment.key with
  | .importOf _ =>
    match store.index.lookup .classDecl with
    | some position => store.insertPair (position - 1) (blankLines blank) fragment
    | none => ofFragments (store.fragments ++ [fragment, blankLines blank])
  | key =>
    match if key.isMember then store.index.lookup .classEnd else none with
    | some position => store.insertPair position fragment (blankLines blank)
    | none => ofFragments (store.fragments ++ [fragment, blankLines blank])

/-- Takes out the fragment at a position, and then a gap that was in front of it. -/
def remove (store : IndexedStore) (position : Nat) : IndexedStore :=
  let rest := store.fragments.eraseIdx position
  if 0 < position && rest[position - 1]?.any (·.key == .gap) then
    ofFragments (rest.eraseIdx (position - 1))
  else ofFragments rest

/-- Brings the fragment under a key up to date and returns it, as a store without an index does. -/
def upsert (store : IndexedStore) (key : Key) (text : String) (blank : Nat) (remove : Bool) :
    Option Fragment × IndexedStore :=
  match store.index.lookup key with
  | none => if remove then (none, store) else (some ⟨key, text⟩, store.insert ⟨key, text⟩ blank)
  | some position =>
    match store.fragments[position]? with
    | none => (none, store)
    | some found =>
      if found.isProtected then (some found, store)
      else if remove then (some found, store.remove position)
      else
        let merged : Fragment := { found with text := mergeText key found.text text }
        (some merged, { store with fragments := store.fragments.set position merged })

/-- Says whether there is nothing but gaps between the class declaration and the end of the class.
Without a declaration and an end after it there is no body. -/
def isBodyEmpty (store : IndexedStore) : Bool :=
  match store.index.lookup .classDecl, store.index.lookup .classEnd with
  | some start, some stop =>
    stop ≤ start || ((store.fragments.take stop).drop (start + 1)).all (·.key == .gap)
  | _, _ => true

end IndexedStore

end ClassWeaver.Fragment
