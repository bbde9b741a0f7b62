import WordMachine.Proofs.Lookup
import WordMachine.Proofs.Ticks

/-!
# Errors and their lines

An emulator has two views of its program: the words in the instruction memory, and the entries,
which are found by their program counter. After a reset both stay the same whatever the machine
does.

* `Emulator.blames_of_tick`: a tick that fails points at the entry whose word it could not execute.
* `Emulator.located_serve`: so does every error after a reset and any requests.
-/

namespace WordMachine

namespace Program

/-- How a program comes about: from a source, or from a memory image. -/
inductive Built : Program → Prop
  | parsed {asm : Assembler} {input : Input} {p : Program} (h : (asm.parse input).result = .ok p) :
      Built p
  | loaded (words : Array Word) : Built (ofImage words)

/-- A program that is `Built` is numbered. -/
theorem Built.numbered {p : Program} (h : p.Built) : p.Numbered := by
  rcases h with h | words
  · exact numbered_of_parse h
  · exact numbered_ofImage words

theorem getElem?_image (p : Program) (i : Nat) : p.image[i]? = p.entries[i]?.map (·.code) := by
  simp [image]

/-- The entry at `pc` has the line `lineNo`, and its word is the one that cannot be executed. -/
def Blames (p : Program) (pc : Word) (lineNo : Int) (cause : ExecError) : Prop :=
  ∃ entry, p.entries[pc.toNat]? = some entry ∧ entry.lineNo = lineNo ∧ entry.code = cause.word

end Program

namespace Emulator

/-! ## What can be done between two resets -/

/-- A request to an emulator that leaves its program in place. -/
inductive Request where
  | tick
  | run (max : Int)
  | setPc (pc : Word)
  | setReg (r : Reg) (value : Word)
  | setData (data : Memory)

/-- The emulator `e` after a request. -/
def Request.perform (e : Emulator) : Request → Emulator
  | tick => e.tick.1
  | run max => (e.run max).1
  | setPc pc => { e with toMonitor.machine := { e.machine with pc := pc } }
  | setReg r value => { e with toMonitor.machine := e.machine.setReg r value }
  | setData data => { e with toMonitor.machine := { e.machine with data := data } }

/-- The emulator after the `requests`, one after the other. -/
def serve (e : Emulator) (requests : List Request) : Emulator :=
  requests.foldl Request.perform e

/-- The words of the program `p` are in the instruction memory, and it is the program of the
emulator. -/
def Holds (p : Program) (e : Emulator) : Prop :=
  e.program = p ∧ e.machine.code = p.image

theorem holds_reset (e : Emulator) : e.reset.Holds e.program := by
  refine ⟨rfl, ?_⟩
  rw [reset, Monitor.machine_reset]
  rfl

theorem holds_tick {p : Program} (e : Emulator) (h : e.Holds p) : e.tick.1.Holds p :=
  ⟨e.program_tick.trans h.1, e.memories_tick.1.trans h.2⟩

/-- A request keeps the words of the program where they are. -/
theorem holds_perform {p : Program} {e : Emulator} (h : e.Holds p) (request : Request) :
    (request.perform e).Holds p := by
  rcases request with _ | max | pc | ⟨r, value⟩ | data
  · exact holds_tick e h
  · exact run_invariant holds_tick max h
  · exact h
  · exact h
  · exact h

theorem holds_serve {p : Program} {e : Emulator} (h : e.Holds p) (requests : List Request) :
    (e.serve requests).Holds p := by
  induction requests generalizing e with
  | nil => exact h
  | cons request requests ih => exact ih (holds_perform h request)

/-! ## The two views of the program -/

/-- An emulator `e` whose errors point at the lines of the program `p`. -/
structure Located (p : Program) (e : Emulator) : Prop where
  program_eq : e.program = p
  /-- The instruction memory holds the words of the program. -/
  image_eq : e.machine.code = p.image
  /-- The word that the program has for the program counter is the one that is fetched. -/
  code_eq : e.code = e.machine.fetch?.getD 0
  /-- The line of the program counter is that of the entry at this position. -/
  lineNo_eq : e.lineNo = (p.entries[e.machine.pc.toNat]?.map (·.lineNo)).getD 0
  /-- A tick that fails points at the entry whose word it could not execute. -/
  tick_failed : ∀ e' lineNo cause, e.tick = (e', .failed ⟨lineNo, .exec cause⟩) →
    p.Blames e'.machine.pc lineNo cause
  /-- So does a run. -/
  run_failed : ∀ max e' lineNo cause, e.run max = (e', .failed ⟨lineNo, .exec cause⟩) →
    p.Blames e'.machine.pc lineNo cause

section Views

variable {p : Program} {e : Emulator}

theorem fetch?_of_holds (h : e.Holds p) :
    e.machine.fetch? = p.entries[e.machine.pc.toNat]?.map (·.code) := by
  rw [Machine.fetch?, h.2, p.getElem?_image]

/-- The entry that is found for the program counter is the one at this position. -/
theorem find?_of_holds (hp : p.Numbered) (hsize : p.entries.size ≤ 2 ^ 63) (h : e.Holds p) :
    e.program.find? e.pc = p.entries[e.machine.pc.toNat]? := by
  have hpc := e.machine.pc.toNat_lt
  rw [h.1]
  exact Program.find?_of_numbered hp hsize (by omega)

theorem lineNo_of_holds (hp : p.Numbered) (hsize : p.entries.size ≤ 2 ^ 63) (h : e.Holds p) :
    e.lineNo = (p.entries[e.machine.pc.toNat]?.map (·.lineNo)).getD 0 := by
  rw [lineNo, Program.lineAt, find?_of_holds hp hsize h]
  rcases p.entries[e.machine.pc.toNat]? with _ | entry
  · rfl
  · rfl

theorem code_of_holds (hp : p.Numbered) (hsize : p.entries.size ≤ 2 ^ 63) (h : e.Holds p) :
    e.code = e.machine.fetch?.getD 0 := by
  rw [code, Program.codeAt, find?_of_holds hp hsize h, fetch?_of_holds h]
  rcases p.entries[e.machine.pc.toNat]? with _ | entry
  · rfl
  · rfl

/-- **A tick that fails points at the entry whose word it could not execute**, as `Blames` says. -/
theorem blames_of_tick (hp : p.Numbered) (hsize : p.entries.size ≤ 2 ^ 63) (h : e.Holds p)
    {e' : Emulator} {lineNo : Int} {cause : ExecError}
    (htick : e.tick = (e', .failed ⟨lineNo, .exec cause⟩)) :
    p.Blames e'.machine.pc lineNo cause := by
  obtain ⟨cause', herror, hfetch, hmachine, -⟩ := Emulator.tick_failed htick
  obtain ⟨hlineNo, hcause⟩ := RuntimeError.mk.inj herror
  obtain rfl : cause = cause' := RuntimeFault.exec.inj hcause
  rw [fetch?_of_holds h, Option.map_eq_some_iff] at hfetch
  obtain ⟨entry, hentry, hword⟩ := hfetch
  rw [lineNo_of_holds hp hsize h, hentry] at hlineNo
  refine ⟨entry, ?_, hlineNo.symm, hword⟩
  rw [hmachine, hentry]

end Views

/-- **Errors point at their lines.** After a reset and any `requests`, the program of the emulator
is the one in its instruction memory, and an error of a tick or a run has the line of the entry at
the program counter, whose word could not be executed. Program counters are 64-bit numbers, so no
program has more than `2 ^ 63` entries. -/
theorem located_serve (e : Emulator) (hbuilt : e.program.Built)
    (hsize : e.program.entries.size ≤ 2 ^ 63) (requests : List Request) :
    (e.reset.serve requests).Located e.program := by
  have hholds := holds_serve e.holds_reset requests
  generalize e.reset.serve requests = after at hholds
  refine ⟨hholds.1, hholds.2, code_of_holds hbuilt.numbered hsize hholds,
    lineNo_of_holds hbuilt.numbered hsize hholds, ?_, ?_⟩
  · intro e' lineNo cause htick
    exact blames_of_tick hbuilt.numbered hsize hholds htick
  · intro max e' lineNo cause hrun
    obtain ⟨last, hlast, htick⟩ := run_last_tick holds_tick hholds hrun
    exact blames_of_tick hbuilt.numbered hsize hlast htick

set_option maxRecDepth 10000 in
/-- A load that is out of range, `lw $2, 100($1)`, after a blank line and with a register that was
set by hand. -/
theorem located_serve_load :
    ∃ p,
      ((({} : Assembler).parse ⟨".text\naddi $1, $0, 1\n\nlw $2, 100($1)", none⟩).result = .ok p ∧
        (p.entries, p.labels, p.warnings) =
          (#[⟨2, 0, ["addi", "$1", "$0", "1"], 0x28400001⟩,
              ⟨4, 1, ["lw", "$2", "100($1)"], 0x40820064⟩], {}, [])) ∧
      let e : Emulator := { Emulator.new 4 with program := p }
      let after := e.reset.serve [.tick, .setReg 1 0xffffffff]
      (after.run 10).2 = .failed ⟨4, .exec ⟨0x40820064, .address ⟨99⟩⟩⟩ ∧
        p.Blames (after.run 10).1.machine.pc 4 ⟨0x40820064, .address ⟨99⟩⟩ := by
  refine Exists.imp (fun p hp => ⟨hp, ?_⟩) (Asm.exists_ok_of_toOption_map (by decide +kernel))
  obtain ⟨entries, labels, warnings⟩ := p
  obtain ⟨hparse, hp⟩ := hp
  cases hp
  intro e after
  have hfailed : (after.run 10).2 = .failed ⟨4, .exec ⟨0x40820064, .address ⟨99⟩⟩⟩ := by
    decide +kernel
  have hlocated := located_serve e (.parsed hparse) (by decide) [.tick, .setReg 1 0xffffffff]
  exact ⟨hfailed, hlocated.run_failed 10 _ 4 _ (Prod.ext rfl hfailed)⟩

end Emulator

end WordMachine
