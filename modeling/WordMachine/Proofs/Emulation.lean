import WordMachine.Machine.Emulator
import Mathlib.Tactic

/-!
# Runs of a program without its source

A run reads a program's words from the instruction memory; the program itself only says which line
of the source an error comes from.

* `Emulator.run_invariant`: what every tick keeps, a run keeps.
* `Emulator.run_withProgram`: a run with another program for the lines goes the same way; with an
  image, which has no lines, every error has line 0.
-/

namespace WordMachine

/-! ## Images as programs -/

namespace Program

/-- The words of an image are those of its program. -/
theorem image_ofImage (words : Array Word) : (ofImage words).image = words := by
  apply Array.ext'
  simp [image, ofImage, Function.comp_def]

/-- An entry that is found at `pc` is one of the program. -/
theorem mem_of_find? {p : Program} {pc : Int} {entry : Entry} (h : p.find? pc = some entry) :
    entry ∈ p.entries := by
  unfold find? at h
  split at h
  · rename_i found hfound
    split at h
    · cases h
      exact Array.mem_of_getElem? hfound
    · cases h
  · cases h

/-- The program of an image has no lines, so `lineAt` is 0. -/
theorem lineAt_ofImage (words : Array Word) (pc : Int) : (ofImage words).lineAt pc = 0 := by
  unfold lineAt
  split
  · rename_i entry hfound
    have hmem := mem_of_find? hfound
    simp only [ofImage, List.mem_toArray, List.mem_map] at hmem
    obtain ⟨⟨w, i⟩, -, rfl⟩ := hmem
    rfl
  · rfl

end Program

/-! ## Ends without a line -/

/-- The error with line 0. -/
def RuntimeError.unplaced (e : RuntimeError) : RuntimeError :=
  { e with lineNo := 0 }

/-- The end of a tick with line 0 in its error. -/
def TickEnd.unplaced : TickEnd → TickEnd
  | failed e => failed e.unplaced
  | ending => ending

/-- The end of a run with line 0 in its error. -/
def RunEnd.unplaced : RunEnd → RunEnd
  | failed e => failed e.unplaced
  | ending => ending

namespace Emulator

/-! ## What every tick keeps -/

section Invariant

variable {P : Emulator → Prop} (hstep : ∀ e, P e → P e.tick.1)

include hstep

theorem runFor_invariant (limit : Nat) {e : Emulator} (he : P e) : P (runFor limit e).1 := by
  induction limit generalizing e with
  | zero => exact he
  | succ limit ih =>
    have hafter := hstep e he
    rw [runFor]
    rcases hend : e.tick with ⟨after, _ | _ | error⟩
    all_goals rw [hend] at hafter
    · exact ih hafter
    · exact hafter
    · exact hafter

theorem runRounds_invariant (size rounds : Nat) {e : Emulator} (he : P e) :
    P (runRounds size rounds e).1 := by
  induction rounds generalizing e with
  | zero => exact he
  | succ rounds ih =>
    have hafter := runFor_invariant hstep size he
    rw [runRounds]
    rcases hend : runFor size e with ⟨after, _ | ending⟩
    all_goals rw [hend] at hafter
    · exact ih hafter
    · exact hafter

/-- What every tick keeps, a run keeps: the property `P` of the emulator. -/
theorem run_invariant (max : Int) {e : Emulator} (he : P e) : P (e.run max).1 := by
  unfold run
  split
  · exact runRounds_invariant hstep _ _ he
  · exact runFor_invariant hstep _ he

end Invariant

/-- The emulator keeps no log and has none. -/
def Quiet (e : Emulator) : Prop :=
  e.verbose = false ∧ e.log = #[]

theorem quiet_reset {e : Emulator} (he : e.Quiet) : e.reset.Quiet := by
  unfold Quiet reset Monitor.reset at *
  simp [he]

theorem quiet_tick (e : Emulator) (he : e.Quiet) : e.tick.1.Quiet := by
  obtain ⟨⟨machine, verbose, log⟩, p⟩ := e
  obtain ⟨rfl, rfl⟩ : verbose = false ∧ log = #[] := he
  unfold tick
  dsimp only
  cases machine.fetch? with
  | none => exact ⟨rfl, rfl⟩
  | some w =>
    dsimp only
    split
    · exact ⟨rfl, rfl⟩
    · unfold Monitor.execute
      rcases hexecute : machine.execute w with ⟨after, _ | error⟩
      all_goals simp [hexecute, Quiet]

/-- An emulator that is `Quiet` is so after a run. -/
theorem quiet_run (max : Int) {e : Emulator} (he : e.Quiet) : (e.run max).1.Quiet :=
  run_invariant quiet_tick max he

/-! ## Runs with another program for the lines -/

/-- The emulator with the program `q` for the lines; the machine stays as it is. -/
def withProgram (e : Emulator) (q : Program) : Emulator :=
  { e with program := q }

variable {q : Program} (hq : ∀ pc, q.lineAt pc = 0)

include hq

/-- A tick with the program `q`, which has no lines. -/
theorem tick_withProgram (e : Emulator) :
    (e.withProgram q).tick = (e.tick.1.withProgram q, e.tick.2.unplaced) := by
  obtain ⟨monitor, p⟩ := e
  unfold tick withProgram
  dsimp only
  cases monitor.machine.fetch? with
  | none => rfl
  | some w =>
    dsimp only
    split
    · rfl
    -- Only the error asks the program, and only for the line.
    · rcases monitor.execute w with ⟨after, _ | error⟩
      · rfl
      · simp only [hq]
        rfl

/-- A run of at most `limit` ticks with the program `q`. -/
theorem runFor_withProgram (limit : Nat) (e : Emulator) :
    runFor limit (e.withProgram q) =
      ((runFor limit e).1.withProgram q, (runFor limit e).2.map RunEnd.unplaced) := by
  induction limit generalizing e with
  | zero => rfl
  | succ limit ih =>
    rw [runFor, runFor, tick_withProgram hq]
    rcases e.tick with ⟨after, _ | _ | error⟩
    · exact ih after
    · rfl
    · rfl

/-- A run in `rounds` of `size` ticks with the program `q`. -/
theorem runRounds_withProgram (size rounds : Nat) (e : Emulator) :
    runRounds size rounds (e.withProgram q) =
      ((runRounds size rounds e).1.withProgram q,
        (runRounds size rounds e).2.map RunEnd.unplaced) := by
  induction rounds generalizing e with
  | zero => rfl
  | succ rounds ih =>
    rw [runRounds, runRounds, runFor_withProgram hq]
    rcases runFor size e with ⟨after, _ | ending⟩
    · exact ih after
    · rfl

/-- **A run with a program `q` that has no lines goes the same way**, and its error has line 0. -/
theorem run_withProgram (max : Int) (e : Emulator) :
    (e.withProgram q).run max = ((e.run max).1.withProgram q, (e.run max).2.unplaced) := by
  unfold run
  split
  -- The bound on the rounds depends on the size of the data memory, which is the same.
  · rw [show (e.withProgram q).stateBound = e.stateBound from rfl, runRounds_withProgram hq]
    rcases runRounds roundSize e.stateBound e with ⟨after, _ | ending⟩
    · rfl
    · rfl
  · rw [runFor_withProgram hq]
    rcases runFor max.toNat e with ⟨after, _ | ending⟩
    · simp only [Option.map_none, Option.getD_none, lineNo, withProgram, hq]
      rfl
    · rfl

end Emulator

/-- An emulator that starts with an image differs from one with a program of that image in the lines
only. -/
theorem Emulator.reset_ofImage (e : Emulator) :
    (e.withProgram (.ofImage e.program.image)).reset =
      e.reset.withProgram (.ofImage e.program.image) := by
  unfold reset withProgram
  simp only [Program.image_ofImage]

end WordMachine
