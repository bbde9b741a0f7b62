import WordMachine.Isa.Alu
import WordMachine.Isa.Instr
import WordMachine.Machine.Memory

/-!
# The machine

The machine has a program counter, 32 registers, a memory for instructions and one for data. An
instruction is first looked at (`effect`), which gives its effect or a fault, and then its effect
takes place (`apply`); a fault changes nothing. Register 0 is never written. `execute` does both for
an instruction word.
-/

namespace WordMachine

/-- The state of the machine. -/
structure Machine where
  pc : Word := 0
  regs : Vector Word 32 := Vector.replicate 32 0
  /-- Instructions executed since the last reset. The count has no bound: it does not wrap at
  `2 ^ 63`, as a signed number of 64 bits would. -/
  ticks : Nat := 0
  code : Memory := #[]
  data : Memory

/-- Why an instruction cannot be executed. -/
inductive Fault where
  /-- The operation bits have no meaning. -/
  | undefined
  /-- The data memory has no such address. -/
  | address (e : AddressError)
  /-- The arithmetic unit has no result. -/
  | alu (fault : AluFault)
  deriving DecidableEq, Repr

/-- The words that report that a fault is one of the arithmetic unit. -/
def Fault.aluMessage : Text :=
  Message.format "alu" []

/-- The words that report the fault. -/
def Fault.message : Fault → Text
  | .undefined => Message.format "decode" []
  | .address e => e.message
  | .alu fault => aluMessage ++ "\n" ++ fault.message

/-- A fault with the instruction word `word` that it arose from. -/
structure ExecError where
  word : Word
  fault : Fault
  deriving DecidableEq, Repr

/-- The words that report the instruction word. -/
def ExecError.wordMessage (e : ExecError) : Text :=
  Message.format "bad opcode 0x%08x %v" [.int e.word.toNat, .text e.word.disassemble]

/-- The words that report the error. -/
def ExecError.message (e : ExecError) : Text :=
  e.wordMessage ++ "\n" ++ e.fault.message

/-- What an instruction does besides counting as a tick: where it goes on, the register it writes
and the data word it stores. -/
structure Effect where
  next : Word
  register : Option (Reg × Word) := none
  store : Option (Word × Word) := none
  deriving DecidableEq, Repr

namespace Machine

/-- The address of the next instruction of a branch by `imm` that is taken. -/
def branchTarget (m : Machine) (imm : Int) : Word :=
  m.pc - 1 + Word.ofInt imm

/-- The effect that the instruction `i` has on the machine `m`, or the fault. -/
def effect (m : Machine) (i : Instr) : Except Fault Effect :=
  let next := m.pc + 1
  match i with
  | .alu fn rd rs rt shamt =>
    match evalAlu fn (m.regs.get rs) (m.regs.get rt) shamt with
    | .ok value => .ok { next, register := some (rd, value) }
    | .error fault => .error (.alu fault)
  | .addi rd rs imm => .ok { next, register := some (rd, m.regs.get rs + Word.ofInt imm) }
  | .lw rd rs imm =>
    match m.data.load (m.regs.get rs + Word.ofInt imm) with
    | .ok value => .ok { next, register := some (rd, value) }
    | .error e => .error (.address e)
  | .sw rd rs imm =>
    let address := m.regs.get rs + Word.ofInt imm
    if m.data.covers address then .ok { next, store := some (address, m.regs.get rd) }
    else .error (.address ⟨address⟩)
  | .bne rd rs imm =>
    .ok { next := if m.regs.get rd ≠ m.regs.get rs then m.branchTarget imm else next }
  | .blt rd rs imm =>
    .ok { next := if (m.regs.get rs).signed < (m.regs.get rd).signed then m.branchTarget imm
                  else next }
  | .j target => .ok { next := Word.ofInt target }
  | .jal target => .ok { next := Word.ofInt target, register := some (Reg.link, next) }
  | .jr rs => .ok { next := m.regs.get rs }
  | .setx target => .ok { next, register := some (Reg.status, Word.ofInt target) }
  | .bex target =>
    .ok { next := if m.regs.get Reg.status ≠ 0 then Word.ofInt target else next }
  | .undefined _ => .error .undefined

/-- The registers after a write; register 0 keeps its value, whatever `value` is. -/
def writeReg (regs : Vector Word 32) : Option (Reg × Word) → Vector Word 32
  | some (r, value) => if r = Reg.zero then regs else regs.set r value
  | none => regs

/-- The data memory after a store of `value` at `address`. -/
def writeData (data : Memory) : Option (Word × Word) → Memory
  | some (address, value) => data.put address value
  | none => data

/-- The machine after the effect `e`, with one more tick. -/
def apply (m : Machine) (e : Effect) : Machine :=
  match m with
  | ⟨_, regs, ticks, code, data⟩ =>
    ⟨e.next, writeReg regs e.register, ticks + 1, code, writeData data e.store⟩

/-- Executes the instruction word `w`; a word with a fault leaves `m` as it is. -/
def execute (m : Machine) (w : Word) : Machine × Option ExecError :=
  match m.effect (Instr.ofWord w) with
  | .ok e => (m.apply e, none)
  | .error fault => (m, some ⟨w, fault⟩)

/-- The instruction word at the program counter, if the memory `code` has one there. -/
def fetch? (m : Machine) : Option Word :=
  m.code[m.pc.toNat]?

/-- The machine with program counter, registers and tick count at zero; the memories stay. -/
def reset (m : Machine) : Machine :=
  { m with pc := 0, regs := Vector.replicate 32 0, ticks := 0 }

/-- The machine with `value` in the register `r`, register 0 included. -/
def setReg (m : Machine) (r : Reg) (value : Word) : Machine :=
  { m with regs := m.regs.set r value }

/-! ## Display -/

/-- The line that shows the register `r`, its `value` in two halves. -/
def regLine (r : Reg) (value : Word) : Text :=
  Text.padLeft 5 (Text.byte ' ') (Instr.regText r) ++ ": " ++
    Text.upperHex 4 (value.toNat / 0x10000) ++ "_" ++
    Text.upperHex 4 (value.toNat % 0x10000) ++ "\n"

/-- The program counter and all registers, a line each. -/
def text (m : Machine) : Text :=
  "   pc: " ++ Text.upperHex 8 m.pc.toNat ++ "\n" ++
    (List.finRange 32).flatMap fun r => regLine r (m.regs.get r)

/-- The line that a log has for an instruction `w` about to be executed. -/
def traceLine (m : Machine) (w : Word) : Text :=
  Text.paddedHex 4 m.pc.toNat ++ ": " ++ Text.upperHex 8 w.toNat ++ " " ++ w.disassemble

end Machine

end WordMachine
