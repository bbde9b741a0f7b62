import WordMachine.Asm.Assembler
import WordMachine.Command.Flag
import WordMachine.Command.Outcome
import WordMachine.Machine.Emulator

/-!
# The emulating command

`emulate` runs a source file or an image file, and shows the registers and the number of ticks at
the end. A program that never ends has no outcome.
-/

namespace WordMachine.Command

/-- The options of the command. -/
structure EmulateOptions where
  /-- The source file; empty if there is none. -/
  source : Text := []
  /-- The image file; empty if there is none. -/
  image : Text := []
  /-- The most ticks to make; `0` is no limit. -/
  maxTicks : Int := 1000000
  /-- The words of the data memory. -/
  dataSize : Nat := 4096
  verbose : Bool := false

namespace EmulateOptions

/-- The flags of the command. -/
def flags : List (Flag EmulateOptions) :=
  [⟨"c", .text fun t o => { o with source := t }, "Assembly source file to compile and run"⟩,
   ⟨"m", .text fun t o => { o with image := t }, "Memory image file to run"⟩,
   ⟨"n", .int 1000000 fun i o => { o with maxTicks := i },
    "Maximum instructions to execute, 0 for no limit"⟩,
   ⟨"ram", .nat 4096 fun n o => { o with dataSize := n }, "Data memory size, in words"⟩,
   ⟨"v", .switch fun b o => { o with verbose := b }, "Verbose mode"⟩]

/-- How to use the command, which is called `name`. -/
def usage (name : Text) : Text :=
  let head : Text := if name.isEmpty then "Usage" else "Usage of " ++ name
  line (head ++ ":") ++ helpText flags

end EmulateOptions

/-- A program to run, and what has been written to the error output about it before. -/
structure Loaded where
  program : Except Unit Program
  stderr : Text

/-- The program in a source `file`, with the warnings about it and, if `verbose`, the log. -/
def loadSource (verbose : Bool) (file : Text) (input : Input) : Loaded :=
  let run := { verbose := verbose : Assembler }.parse input
  let log := logText run.log
  match run.result with
  | .error e => ⟨.error (), log ++ about file e.message⟩
  | .ok program => ⟨.ok program, log ++ warningLines file program.warnings⟩

/-- The program in an image `file`, read by `Image.read` into an empty memory. -/
def loadImage (file : Text) (input : Input) : Loaded :=
  let read := Image.read {} #[] input
  match read.error with
  | some e => ⟨.error (), about file e.message⟩
  | none => ⟨.ok (Program.ofImage read.words), []⟩

/-- Runs a program; `stderr` is what has been written before. The outcome is `none` if the program
never ends. -/
def runProgram (options : EmulateOptions) (program : Program) (stdout : Sink) (stderr : Text) :
    Option Outcome :=
  let start : Emulator :=
    { Emulator.new options.dataSize with program := program, verbose := options.verbose }
  let (e, ending) := start.reset.run options.maxTicks
  let stdout := (stdout.write e.machine.text).1
  let stdout := (stdout.write (line (Message.format "ticks: %d" [.int e.machine.ticks]))).1
  let stderr := stderr ++ logText e.log.toList
  match ending with
  | .done => some ⟨0, stdout, stderr⟩
  | .failed error => some ⟨1, stdout, stderr ++ line error.message⟩
  | .endless => none

variable {m : Type → Type} [Monad m]

/-- Runs the program in the file that the `options` name. -/
def emulateFile (host : Host m) (options : EmulateOptions) (stdout : Sink) :
    m (Option Outcome) := do
  let file := if options.source.isEmpty then options.image else options.source
  match ← host.openFile file with
  | .error failure => return some ⟨1, stdout, line failure.reason⟩
  | .ok input =>
    let loaded :=
      if options.source.isEmpty then loadImage file input
      else loadSource options.verbose file input
    match loaded.program with
    | .error () => return some ⟨1, stdout, loaded.stderr⟩
    | .ok program => return runProgram options program stdout loaded.stderr

/-- The emulating command; the first of the `arguments` is the name of the command. -/
def emulate (host : Host m) (arguments : List Text) (stdout : Sink) : m (Option Outcome) := do
  let name := arguments.headD []
  match parseFlags EmulateOptions.flags arguments.tail {} with
  | .error e =>
    return some ⟨1, stdout, (e.message?.map line).getD [] ++ EmulateOptions.usage name⟩
  | .ok (options, []) =>
    if options.source.isEmpty == options.image.isEmpty then
      return some ⟨1, stdout,
        line (Message.format "%v: exactly one of -c or -m is required" [.text name])⟩
    else emulateFile host options stdout
  | .ok (_, rest) =>
    return some ⟨1, stdout,
      line (Message.format "%v: Unknown arguments: %v" [.text name, .list rest])⟩

end WordMachine.Command
