import WordMachine.Isa.Word

/-!
# Instructions

`Instr.ofWord` reads an instruction word by the layout of its operation, `Instr.word` makes the word
again, and `Instr.text` writes the instruction as assembly text.
-/

namespace WordMachine

/-- One of the 32 registers. -/
abbrev Reg := Fin 32

/-- The register that is never written. -/
def Reg.zero : Reg := ⟨0, by decide⟩

/-- The register for the status of the program. -/
def Reg.status : Reg := ⟨30, by decide⟩

/-- The register that a jump with link keeps its return address in. -/
def Reg.link : Reg := ⟨31, by decide⟩

/-- An instruction. Words of the jump layout that name a register keep only the register. -/
inductive Instr where
  /-- Writes the result of the arithmetic operation with number `fn` to `rd`. -/
  | alu (fn : Nat) (rd rs rt : Reg) (shamt : Nat)
  /-- Writes the sum of `rs` and an immediate to `rd`. -/
  | addi (rd rs : Reg) (imm : Int)
  /-- Loads `rd` from the address `rs` plus an immediate. -/
  | lw (rd rs : Reg) (imm : Int)
  /-- Stores `rd` at the address `rs` plus an immediate. -/
  | sw (rd rs : Reg) (imm : Int)
  /-- Branches if `rs` and `rd` differ. -/
  | bne (rd rs : Reg) (imm : Int)
  /-- Branches if `rs` is less than `rd`, as signed numbers. -/
  | blt (rd rs : Reg) (imm : Int)
  /-- Jumps to `target`. -/
  | j (target : Int)
  /-- Jumps to `target`, and keeps the address of the next instruction in the link register. -/
  | jal (target : Int)
  /-- Jumps to the address in `rs`. -/
  | jr (rs : Reg)
  /-- Writes `target` to the status register. -/
  | setx (target : Int)
  /-- Jumps to `target` if the status register is not zero. -/
  | bex (target : Int)
  /-- The word `w`, whose operation bits have no meaning. -/
  | undefined (w : Word)
  deriving DecidableEq, Repr

/-- The register in the field `f` of a word. -/
def Field.reg (f : Field) (w : Word) : Reg :=
  Fin.ofNat 32 (f.get w)

namespace Instr

/-- The instruction that the word `w` stands for, by the layout of its operation. -/
def ofWord (w : Word) : Instr :=
  match Operation.ofCode? (Field.op.get w) with
  | some .rtype =>
    .alu (Field.aluOp.get w) (Field.rd.reg w) (Field.rs.reg w) (Field.rt.reg w) (Field.shamt.get w)
  | some .addi => .addi (Field.rd.reg w) (Field.rs.reg w) w.immediate
  | some .lw => .lw (Field.rd.reg w) (Field.rs.reg w) w.immediate
  | some .sw => .sw (Field.rd.reg w) (Field.rs.reg w) w.immediate
  | some .bne => .bne (Field.rd.reg w) (Field.rs.reg w) w.immediate
  | some .blt => .blt (Field.rd.reg w) (Field.rs.reg w) w.immediate
  | some .j => .j (Field.target.get w)
  | some .jal => .jal (Field.target.get w)
  | some .jr => .jr (Fin.ofNat 32 (Field.target.get w))
  | some .setx => .setx (Field.target.get w)
  | some .bex => .bex (Field.target.get w)
  | none => .undefined w

/-- The word of an instruction; numbers are reduced to the size of their fields. -/
def word : Instr → Word
  | alu fn rd rs rt shamt => Word.packR rd.val rs.val rt.val shamt fn
  | addi rd rs imm => Word.packI Operation.addi.code rd.val rs.val imm
  | lw rd rs imm => Word.packI Operation.lw.code rd.val rs.val imm
  | sw rd rs imm => Word.packI Operation.sw.code rd.val rs.val imm
  | bne rd rs imm => Word.packI Operation.bne.code rd.val rs.val imm
  | blt rd rs imm => Word.packI Operation.blt.code rd.val rs.val imm
  | j target => Word.packJ Operation.j.code target
  | jal target => Word.packJ Operation.jal.code target
  | jr rs => Word.packJ Operation.jr.code rs.val
  | setx target => Word.packJ Operation.setx.code target
  | bex target => Word.packJ Operation.bex.code target
  | undefined w => w

/-! ## Assembly text -/

/-- A register as it is written: `$` and its number. -/
def regText (r : Reg) : Text :=
  Text.byte '$' :: Text.decimal r.val

/-- An instruction `name` and the registers `a` and `b`, with a comma after each register. -/
def twoRegs (name : Text) (a b : Reg) : Text :=
  name ++ " " ++ regText a ++ ", " ++ regText b ++ ", "

/-- A jump target as it is written: `0x` and its digits. -/
def targetText (target : Int) : Text :=
  "0x" ++ Text.digits 16 target.toNat

/-- The instruction as a line of assembly language. An addition with a shift amount is shown as a
shift only if `rt` is register 0. -/
def text : Instr → Text
  | alu fn rd rs rt shamt =>
    if fn = AluOp.add.code ∧ shamt ≠ 0 ∧ rt = Reg.zero then
      twoRegs AluOp.sll.name rd rs ++ Text.decimal shamt
    else if fn = AluOp.sll.code ∨ fn = AluOp.sra.code then
      twoRegs (aluOpName fn) rd rs ++ Text.decimal shamt
    else twoRegs (aluOpName fn) rd rs ++ regText rt
  | addi rd rs imm => twoRegs Operation.addi.name rd rs ++ Text.ofInt imm
  | lw rd rs imm =>
    Operation.lw.name ++ " " ++ regText rd ++ ", " ++ Text.ofInt imm ++ "(" ++ regText rs ++ ")"
  | sw rd rs imm =>
    Operation.sw.name ++ " " ++ regText rd ++ ", " ++ Text.ofInt imm ++ "(" ++ regText rs ++ ")"
  | bne rd rs imm => twoRegs Operation.bne.name rs rd ++ Text.ofInt imm
  | blt rd rs imm => twoRegs Operation.blt.name rs rd ++ Text.ofInt imm
  | j target => Operation.j.name ++ " " ++ targetText target
  | jal target => Operation.jal.name ++ " " ++ targetText target
  | jr rs => Operation.jr.name ++ " " ++ regText rs
  | setx target => Operation.setx.name ++ " " ++ targetText target
  | bex target => Operation.bex.name ++ " " ++ targetText target
  | undefined w => ".word 0x" ++ Text.upperHex 8 w.toNat

end Instr

/-- A word as a line of assembly language. -/
def Word.disassemble (w : Word) : Text :=
  (Instr.ofWord w).text

end WordMachine
