import ClassWeaver.FilePath

set_option autoImplicit false

/-!
What a run needs to do with files, wherever they are. An operation that fails says why in words.
-/

namespace ClassWeaver

class Files (m : Type → Type) where
  /-- The text of a file. -/
  readText : FilePath → m (Except String String)
  /-- Says whether there is a file or folder. -/
  holds : FilePath → m Bool
  /-- Replaces a file as a whole; the folders that it needs are made. -/
  writeText : FilePath → String → m (Except String Unit)
  /-- Removes a file; a missing one is no failure. -/
  remove : FilePath → m (Except String Unit)

def attempt {σ ε : Type} (change : σ → Except ε σ) : StateM σ (Except ε Unit) := do
  match change (← get) with
  | .ok after => set after; return .ok ()
  | .error cause => return .error cause

end ClassWeaver
