import WordMachine.Machine.Basic

/-!
# Watching a machine

A monitor drives a machine (`execute`, `tick`, `reset`) and, if it is `verbose`, keeps a log of what
it does.
-/

namespace WordMachine

/-- A machine, and the log of what it was made to do. -/
structure Monitor where
  machine : Machine
  verbose : Bool := false
  log : Array Text := #[]

/-- Why a tick of the machine fails. -/
inductive TickError where
  /-- There is no instruction at the program counter. -/
  | pcEmpty
  | exec (e : ExecError)
  deriving DecidableEq, Repr

/-- The words that report the error. -/
def TickError.message : TickError → Text
  | .pcEmpty => Message.format "pc empty" []
  | .exec e => e.message

namespace Monitor

/-- Adds a `line` to the log. -/
def note (m : Monitor) (line : Text) : Monitor :=
  match m with
  | ⟨machine, verbose, log⟩ => ⟨machine, verbose, log.push line⟩

/-- Resets the machine. -/
def reset (m : Monitor) : Monitor :=
  let m := if m.verbose then m.note "cpu: reset" else m
  { m with machine := m.machine.reset }

/-- Executes the instruction word `w`, after a note of `traceLine` if `m` is verbose. -/
def execute (m : Monitor) (w : Word) : Monitor × Option ExecError :=
  match if m.verbose then m.note (m.machine.traceLine w) else m with
  | ⟨machine, verbose, log⟩ =>
    match machine.execute w with
    | (machine, error) => (⟨machine, verbose, log⟩, error)

/-- Executes the instruction at the program counter, or fails with `pcEmpty`. -/
def tick (m : Monitor) : Monitor × Option TickError :=
  match m.machine.fetch? with
  | none => (m, some .pcEmpty)
  | some w =>
    let (m, error) := m.execute w
    (m, error.map .exec)

end Monitor

end WordMachine
