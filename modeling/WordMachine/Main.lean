import WordMachine.Command.Assemble
import WordMachine.Command.Emulate

/-!
# The program

`assemble` and `emulate`, followed by the arguments of the command, on the files of the host.
-/

namespace WordMachine.Main

/-- The path that the text `t` names. -/
def pathOf (t : Text) : String :=
  (String.fromUTF8? t.toByteArray).getD ""

/-- The fault that an error of the host stands for; `none` if commands do not tell it from
others. -/
def faultOf? : IO.Error → Option HostFault
  | .noFileOrDirectory .. => some .notFound
  | .inappropriateType _ 20 _ => some .notDirectory
  | .inappropriateType _ 21 _ => some .isDirectory
  | _ => none

/-- What the host says about an `operation` on some `paths` that it refuses. -/
def failureOf (operation : Text) (paths : List Text) (e : IO.Error) : Failure :=
  match faultOf? e with
  | some fault => fault.failure operation paths
  | none => ⟨Text.join " " (operation :: paths) ++ ": " ++ Text.ofString e.toString⟩

/-- The files of the directory `dir` of the host. -/
def store (dir : Text) : FileStore IO where
  create name := do
    let path := Path.join dir name
    try
      IO.FS.writeBinFile (pathOf path) ByteArray.empty
      return .ok {}
    catch e => return .error (failureOf "open" [path] e)
  close name sink := do
    let path := Path.join dir name
    try
      IO.FS.writeBinFile (pathOf path) ⟨sink.taken⟩
      return none
    catch e => return some (failureOf "close" [path] e)
  rename old new := do
    let (source, target) := (Path.join dir old, Path.join dir new)
    try
      IO.FS.rename (pathOf source) (pathOf target)
      return none
    catch e =>
      if faultOf? e == some .isDirectory then
        return some (HostFault.alreadyExists.failure "rename" [source, target])
      else return some (failureOf "rename" [source, target] e)
  remove name := do
    try IO.FS.removeFile (pathOf (Path.join dir name))
    catch _ => return

/-- The host. -/
def host : Host IO where
  openFile path := do
    try
      return .ok { bytes := (← IO.FS.readBinFile (pathOf path)).data.toList }
    catch e =>
      if faultOf? e == some .isDirectory then
        return .ok { bytes := [], failure := some (failureOf "read" [path] e) }
      else return .error (failureOf "open" [path] e)
  store := store

/-- Writes what a command left behind, and gives the exit status of its `outcome`. -/
def report (outcome : Command.Outcome) : IO UInt32 := do
  (← IO.getStdout).write ⟨outcome.stdout.taken⟩
  (← IO.getStderr).write outcome.stderr.toByteArray
  return outcome.status.toUInt32

end WordMachine.Main

open WordMachine in
/-- Runs the command that the first argument names. -/
def main (arguments : List String) : IO UInt32 := do
  let texts := arguments.map Text.ofString
  match arguments with
  | "assemble" :: _ => Main.report (← Command.assemble Main.host texts {})
  | "emulate" :: _ =>
    match ← Command.emulate Main.host texts {} with
    | some outcome => Main.report outcome
    | none => return 1
  | _ =>
    IO.eprintln "usage: assemble|emulate [arguments]"
    return 1
