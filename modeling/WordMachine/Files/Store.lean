import WordMachine.Image
import WordMachine.Table

/-!
# Saving an image

`FileStore.save` writes an image under its `temporaryName` and then renames it, so that nobody finds
half of it under its own name. The operations on files are those of a `FileStore`; the store in
memory, which can be made to fail, keeps a history of its states.
-/

namespace WordMachine

/-- The operations on files that saving needs. -/
structure FileStore (m : Type → Type) where
  /-- Makes a file to write to, in place of any other of that name. -/
  create : Text → m (Except Failure Sink)
  /-- Ends the writing of a file, and stores what it took. -/
  close : Text → Sink → m (Option Failure)
  /-- Moves a file to a name, in place of any other of that name. -/
  rename : Text → Text → m (Option Failure)
  /-- Deletes a file. -/
  remove : Text → m Unit

/-- Why an image cannot be saved. -/
inductive SaveError where
  | image (e : ImageError)
  | file (failure : Failure)
  deriving DecidableEq, Repr

/-- The words that report the error. -/
def SaveError.message : SaveError → Text
  | .image e => e.message
  | .file failure => failure.reason

namespace FileStore

/-- The name that the file `name` has while it is written: a dot before it, and `.tmp` after it. -/
def temporaryName (name : Text) : Text :=
  "." ++ name ++ ".tmp"

variable {m : Type → Type} [Monad m]

/-- Saves the image of `words` under `name`; if that fails after the temporary file was made, the
file is removed. -/
def save (fs : FileStore m) (name : Text) (layout : Layout) (words : Array Word) :
    m (Option SaveError) := do
  let tmp := temporaryName name
  match ← fs.create tmp with
  | .error failure => return some (.file failure)
  | .ok sink =>
    let written := Image.write layout words sink
    let closed ← fs.close tmp written.sink
    match written.error, closed with
    | some e, _ =>
      fs.remove tmp
      return some (.image e)
    | none, some failure =>
      fs.remove tmp
      return some (.file failure)
    | none, none =>
      match ← fs.rename tmp name with
      | some failure =>
        fs.remove tmp
        return some (.file failure)
      | none => return none

end FileStore

/-! ## A store in memory -/

/-- A call of an operation on files. -/
inductive FileCall where
  | create (name : Text)
  | close (name : Text)
  | rename (old new : Text)
  | remove (name : Text)
  deriving DecidableEq, Repr

/-- The call in words. -/
def FileCall.text : FileCall → Text
  | .create name => "create " ++ name
  | .close name => "close " ++ name
  | .rename old new => "rename " ++ old ++ " " ++ new
  | .remove name => "remove " ++ name

/-- The contents of files under their names. -/
abbrev Files := Table Text Text

/-- Files in memory, and all calls so far with the files after each of them, the last one first. -/
structure Store where
  files : Files := {}
  history : List (FileCall × Files) := []

/-- How a store misbehaves: the operations that fail, and the `bound` of files that are written. -/
structure Faults where
  create : Option Failure := none
  close : Option Failure := none
  rename : Option Failure := none
  bound : Option Bound := none

namespace Store

/-- The store after a `call` that left the `files`, which is added to the history. -/
def record (s : Store) (call : FileCall) (files : Files) : Store :=
  ⟨files, (call, files) :: s.history⟩

/-- The calls so far, in order. -/
def calls (s : Store) : List FileCall :=
  (s.history.map (·.1)).reverse

/-- The files after `old` was renamed to `new`. -/
def moved (files : Files) (old new : Text) : Files :=
  match files.get? old with
  | some t => (files.erase old).insert new t
  | none => files

/-- The operations of a store that misbehaves. Files appear when they are closed, also if the
closing fails; a rename that fails moves nothing. -/
def operations (faults : Faults) : FileStore (StateM Store) where
  create name := do
    modify fun s => s.record (.create name) s.files
    match faults.create with
    | some failure => return .error failure
    | none => return .ok { bound := faults.bound }
  close name sink := do
    modify fun s => s.record (.close name) (s.files.insert name sink.text)
    return faults.close
  rename old new := do
    modify fun s => s.record (.rename old new)
      (if faults.rename.isSome then s.files else moved s.files old new)
    return faults.rename
  remove name :=
    modify fun s => s.record (.remove name) (s.files.erase name)

end Store

end WordMachine
