import WordMachine.Asm.Assembler
import WordMachine.Command.Flag
import WordMachine.Command.Outcome
import WordMachine.Program.Listing

/-!
# The assembling command

`assemble` reads a source file, assembles it, lists the program if that is asked for, and saves the
image, in this order. The output file is only touched once everything else has succeeded.
-/

namespace WordMachine.Command

/-- The options of the command. -/
structure AssembleOptions where
  verbose : Bool := false
  strict : Bool := false
  listing : Bool := false

namespace AssembleOptions

/-- The flags of the command. -/
def flags : List (Flag AssembleOptions) :=
  [⟨"l", .switch fun b o => { o with listing := b }, "Print a listing to stdout"⟩,
   ⟨"strict", .switch fun b o => { o with strict := b },
    "Treat unsupported instructions as errors"⟩,
   ⟨"v", .switch fun b o => { o with verbose := b }, "Verbose mode"⟩]

/-- How to use the command, which is called `name`. -/
def usage (name : Text) : Text :=
  line (Message.format "Usage: %v [-v] [-strict] [-l] <input.s> <output.mem>" [.text name]) ++
    helpText flags

end AssembleOptions

variable {m : Type → Type} [Monad m]

/-- Lists a program to `stdout`, if `options.listing` asks for that. -/
def listIfAsked (options : AssembleOptions) (program : Program) (stdout : Sink) :
    Sink × Option Failure :=
  if options.listing then program.list stdout else (stdout, none)

/-- Saves the image of a program under the last name of `output`, in its directory; `stderr` is what
has been written before. -/
def saveProgram (host : Host m) (output : Text) (program : Program) (stdout : Sink)
    (stderr : Text) :
    m Outcome := do
  match ← (host.store (Path.dir output)).save (Path.base output) {} program.image with
  | some e => return ⟨1, stdout, stderr ++ about output e.message⟩
  | none =>
    let report := Message.format "Assembled %d instructions to %v"
      [.int program.image.size, .text output]
    return ⟨0, (stdout.write (line report)).1, stderr⟩

/-- Assembles the source `input` of `file` into an `output` file. -/
def assembleInput (host : Host m) (options : AssembleOptions) (file output : Text) (input : Input)
    (stdout : Sink) : m Outcome :=
  let run := { verbose := options.verbose, strict := options.strict : Assembler }.parse input
  let log := logText run.log
  match run.result with
  | .error e => return ⟨1, stdout, log ++ about file e.message⟩
  | .ok program =>
    let stderr := log ++ warningLines file program.warnings
    match listIfAsked options program stdout with
    | (stdout, some failure) => return ⟨1, stdout, stderr ++ line failure.reason⟩
    | (stdout, none) => saveProgram host output program stdout stderr

/-- The assembling command; the first of the `arguments` is the name of the command. -/
def assemble (host : Host m) (arguments : List Text) (stdout : Sink) : m Outcome := do
  let name := arguments.headD []
  match parseFlags AssembleOptions.flags arguments.tail {} with
  | .error e => return ⟨1, stdout, (e.message?.map line).getD [] ++ AssembleOptions.usage name⟩
  | .ok (options, [file, output]) =>
    match ← host.openFile file with
    | .error failure => return ⟨1, stdout, line failure.reason⟩
    | .ok input => assembleInput host options file output input stdout
  | .ok _ => return ⟨1, stdout, AssembleOptions.usage name⟩

end WordMachine.Command
