import WordMachine.Machine.Monitor
import WordMachine.Program.Basic

/-!
# The emulator

An emulator runs a program on a machine: `tick` executes one instruction, and `run` makes ticks to
the end. The program has ended when the program counter leaves the instruction memory, or when a
jump goes to itself. Errors carry the line of the source that the instruction came from.

A run without a limit may go on for ever. The machine has only finitely many states, at most
`stateBound`, and each one determines the next, so a run that has made more ticks than there are
states has come back to a state it was in before, and will not end.
-/

namespace WordMachine

/-- A machine with the `program` that it is to run. -/
structure Emulator extends Monitor where
  program : Program := {}

/-- Why a run is cut short. -/
inductive RuntimeFault where
  | tickLimit
  | exec (e : ExecError)
  deriving DecidableEq, Repr

/-- A fault of a run with the line `lineNo` of the source. -/
structure RuntimeError where
  lineNo : Int
  fault : RuntimeFault
  deriving DecidableEq, Repr

/-- The words that report the fault. -/
def RuntimeFault.message : RuntimeFault → Text
  | .tickLimit => Message.format "tick limit reached" []
  | .exec e => e.message

/-- The words that report the error. -/
def RuntimeError.message (e : RuntimeError) : Text :=
  Message.format "line %d %v" [.int e.lineNo, .text e.fault.message]

/-- How a tick ends. -/
inductive TickEnd where
  /-- An instruction was executed. -/
  | running
  /-- The program has ended. -/
  | done
  | failed (e : RuntimeError)
  deriving DecidableEq, Repr

/-- How a run ends. -/
inductive RunEnd where
  /-- The program has ended. -/
  | done
  | failed (e : RuntimeError)
  /-- The program never ends. -/
  | endless
  deriving DecidableEq, Repr

namespace Emulator

/-- An emulator with a data memory of `size` words, and without a program. -/
def new (size : Nat) : Emulator :=
  { machine := { data := Memory.zeros size } }

/-- Puts `e.program` into the instruction memory, clears the data memory, and resets the machine. -/
def reset (e : Emulator) : Emulator :=
  let machine := { e.machine with code := e.program.image, data := e.machine.data.clear }
  { e with toMonitor := { e.toMonitor with machine }.reset }

/-- Takes a memory `image` for the program. -/
def load (e : Emulator) (image : Array Word) : Emulator :=
  { e with program := Program.ofImage image }

/-- The program counter, as an integer. -/
def pc (e : Emulator) : Int :=
  e.machine.pc.toNat

/-- The line of the source that `e.pc` points to, or 0. -/
def lineNo (e : Emulator) : Int :=
  e.program.lineAt e.pc

/-- The instruction word of the program that `e.pc` points to, or 0. -/
def code (e : Emulator) : Word :=
  e.program.codeAt e.pc

/-- Is the instruction at `pc` a jump to itself? -/
def isSelfJump (pc : Word) (w : Word) : Bool :=
  Operation.ofCode? (Field.op.get w) == some .j && Field.target.get w == pc.toNat

/-- Executes one instruction, unless the program has ended. A fault is reported with `lineNo`. -/
def tick (e : Emulator) : Emulator × TickEnd :=
  match e.machine.fetch? with
  | none => (e, .done)
  | some w =>
    if isSelfJump e.machine.pc w then (e, .done)
    else
      match e with
      | ⟨monitor, program⟩ =>
        match monitor.execute w with
        | (monitor, none) => (⟨monitor, program⟩, .running)
        | (monitor, some error) =>
          (⟨monitor, program⟩, .failed ⟨program.lineAt monitor.machine.pc.toNat, .exec error⟩)

/-- Makes at most `limit` ticks; the end is missing if the program is still running after them. -/
def runFor : Nat → Emulator → Emulator × Option RunEnd
  | 0, e => (e, none)
  | limit + 1, e =>
    match e.tick with
    | (e, .running) => runFor limit e
    | (e, .done) => (e, some .done)
    | (e, .failed error) => (e, some (.failed error))

/-- Makes ticks in rounds of `size`, at most `rounds` times. -/
def runRounds (size : Nat) : Nat → Emulator → Emulator × Option RunEnd
  | 0, e => (e, none)
  | rounds + 1, e =>
    match runFor size e with
    | (e, none) => runRounds size rounds e
    | (e, some ending) => (e, some ending)

/-- A bound on the number of states that a run can go through: program counter, registers and data
memory, of 32 bits each. -/
def stateBound (e : Emulator) : Nat :=
  Nat.pow 2 (32 * (33 + e.machine.data.size))

/-- The ticks of one round of a `run` without a limit. -/
def roundSize : Nat := 0x100000000

/-- Runs the program to its end, or until `max` ticks have been made; `0` is no limit. -/
def run (max : Int) (e : Emulator) : Emulator × RunEnd :=
  if max = 0 then
    let (e, ending) := runRounds roundSize e.stateBound e
    (e, ending.getD .endless)
  else
    let (e, ending) := runFor max.toNat e
    (e, ending.getD (.failed ⟨e.lineNo, .tickLimit⟩))

end Emulator

end WordMachine
