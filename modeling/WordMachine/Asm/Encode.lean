import WordMachine.Asm.Scan

/-!
# Encoding

`encode` gives the instruction that a name and its operands stand for, once the labels are known. A
branch at `pc` counts its distance from the instruction before it, so from `pc - 1`.
-/

namespace WordMachine.Asm

/-- The instructions of assembly language. -/
inductive Mnemonic where
  | add | sub | and | or | sll | sra | lw | sw | bne | blt | j | jal | bex | addi | jr | setx | andi
  deriving DecidableEq, Repr

namespace Mnemonic

/-- All instructions of assembly language. -/
def all : List Mnemonic :=
  [add, sub, and, or, sll, sra, lw, sw, bne, blt, j, jal, bex, addi, jr, setx, andi]

/-- The name of the instruction. -/
def name : Mnemonic → Text
  | add => "add"
  | sub => "sub"
  | and => "and"
  | or => "or"
  | sll => "sll"
  | sra => "sra"
  | lw => "lw"
  | sw => "sw"
  | bne => "bne"
  | blt => "blt"
  | j => "j"
  | jal => "jal"
  | bex => "bex"
  | addi => "addi"
  | jr => "jr"
  | setx => "setx"
  | andi => "andi"

/-- The instruction with the name `name`, which is in lower case. -/
def ofName? (name : Text) : Option Mnemonic :=
  all.find? (·.name == name)

end Mnemonic

/-- A word for an instruction line, with what is to be said about it. -/
structure Encoding where
  code : Word
  warning : Option SourceFault := none
  deriving DecidableEq, Repr

/-- The fault of an operand list that does not have `count` members. -/
def countFault (count : Nat) (operands : List Text) : SourceFault :=
  if operands.length < count then .operandMissing else .operandExtra

/-- The place that a jump or branch goes to: the program counter `pc` of a label, or a literal
`value`. -/
inductive Target where
  | label (pc : Int)
  | literal (value : Int)
  deriving DecidableEq, Repr

/-- The place that an operand names: a label in `labels`, or else an immediate. -/
def target (labels : Labels) (operand : Text) : Except SourceFault Target :=
  match labels.get? operand with
  | some pc => .ok (.label pc)
  | none => do return .literal (← parseImmediate operand)

/-- The number in the target field of a jump. -/
def Target.absolute : Target → Int
  | .label pc => pc
  | .literal value => value

/-- The number in the immediate field of a branch at `pc`: for a label at `there` it is
`there - (pc - 1)`. -/
def Target.relative (pc : Nat) : Target → Int
  | .label there => there - ((pc : Int) - 1)
  | .literal value => value

/-! ## Operand lists -/

/-- An arithmetic instruction `fn` on three registers, `[d, s, t]`. -/
def encodeAlu (fn : AluOp) : List Text → Except SourceFault Instr
  | [d, s, t] => do
    return .alu fn.code (← parseRegister d) (← parseRegister s) (← parseRegister t) 0
  | operands => .error (countFault 3 operands)

/-- A shift `fn` of a register by a constant from 0 to 31, `[d, s, amount]`. -/
def encodeShift (fn : AluOp) : List Text → Except SourceFault Instr
  | [d, s, amount] => do
    let rd ← parseRegister d
    let rs ← parseRegister s
    let shamt ← parseImmediate amount
    if 0 ≤ shamt ∧ shamt ≤ 31 then return .alu fn.code rd rs Reg.zero shamt.toNat
    else throw (.notImmediate amount)
  | operands => .error (countFault 3 operands)

/-- A load or store, made by `make` from `d` and the memory operand after it. -/
def encodeMemory (make : Reg → Reg → Int → Instr) : List Text → Except SourceFault Instr
  | d :: first :: rest => do
    let rd ← parseRegister d
    let (offset, rs) ← parseMemory (first :: rest)
    return make rd rs offset
  | _ => .error .operandMissing

/-- A branch at `pc` on the comparison of two registers, `[s, d, place]`. -/
def encodeBranch (make : Reg → Reg → Int → Instr) (labels : Labels) (pc : Nat) :
    List Text → Except SourceFault Instr
  | [s, d, place] => do
    let rs ← parseRegister s
    let rd ← parseRegister d
    return make rd rs ((← target labels place).relative pc)
  | operands => .error (countFault 3 operands)

/-- A jump to a fixed place, `[place]`. -/
def encodeJump (make : Int → Instr) (labels : Labels) : List Text → Except SourceFault Instr
  | [place] => do return make (← target labels place).absolute
  | operands => .error (countFault 1 operands)

/-- An addition of a constant, `[d, s, value]`. -/
def encodeAddi : List Text → Except SourceFault Instr
  | [d, s, value] => do
    return .addi (← parseRegister d) (← parseRegister s) (← parseImmediate value)
  | operands => .error (countFault 3 operands)

/-- A jump to the address in a register, `[s]`. -/
def encodeJr : List Text → Except SourceFault Instr
  | [s] => do return .jr (← parseRegister s)
  | operands => .error (countFault 1 operands)

/-- A write to the status register, `[value]`. -/
def encodeSetx : List Text → Except SourceFault Instr
  | [value] => do return .setx (← parseImmediate value)
  | operands => .error (countFault 1 operands)

/-- A conjunction with a constant, which has no encoding; its `advice` are two instructions that do
its work by way of register 29. -/
def encodeAndi (strict : Bool) : List Text → Except SourceFault Encoding
  | [d, s, value] =>
    let fault := SourceFault.unsupported Mnemonic.andi.name
      ["addi $29, $0, " ++ value, "and " ++ d ++ ", " ++ s ++ ", $29"]
    if strict then .error fault else .ok ⟨0, some fault⟩
  | operands => .error (countFault 3 operands)

/-! ## Instructions -/

/-- The encoding of an instruction at `pc`. With `strict`, an instruction that has no encoding is an
error, and otherwise a zero word with a warning. -/
def encode (strict : Bool) (labels : Labels) (pc : Nat) (i : SourceInstr) :
    Except SourceFault Encoding :=
  let plain (r : Except SourceFault Instr) : Except SourceFault Encoding :=
    r.map fun instr => ⟨instr.word, none⟩
  match Mnemonic.ofName? i.mnemonic with
  | none => .error (.unknownInstruction i.mnemonic)
  | some .add => plain (encodeAlu .add i.operands)
  | some .sub => plain (encodeAlu .sub i.operands)
  | some .and => plain (encodeAlu .and i.operands)
  | some .or => plain (encodeAlu .or i.operands)
  | some .sll => plain (encodeShift .add i.operands)
  | some .sra => plain (encodeShift .sra i.operands)
  | some .lw => plain (encodeMemory .lw i.operands)
  | some .sw => plain (encodeMemory .sw i.operands)
  | some .bne => plain (encodeBranch .bne labels pc i.operands)
  | some .blt => plain (encodeBranch .blt labels pc i.operands)
  | some .j => plain (encodeJump .j labels i.operands)
  | some .jal => plain (encodeJump .jal labels i.operands)
  | some .bex => plain (encodeJump .bex labels i.operands)
  | some .addi => plain (encodeAddi i.operands)
  | some .jr => plain (encodeJr i.operands)
  | some .setx => plain (encodeSetx i.operands)
  | some .andi => encodeAndi strict i.operands

end WordMachine.Asm
