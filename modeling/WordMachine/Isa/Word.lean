import WordMachine.Isa.Operation

/-!
# Instruction words

A word of 32 bits is cut into fields. A field holds a number below its size; writing any integer to
it keeps the remainder. The three ways to pack a word, `packR`, `packI` and `packJ`, give each field
its argument and leave all other bits zero.
-/

namespace WordMachine

/-- A machine word. -/
abbrev Word := UInt32

/-- A group of neighbouring bits of a word: the `scale` of its lowest bit, and the `size`, which is
how many numbers it can hold. -/
structure Field where
  scale : Nat
  size : Nat
  deriving DecidableEq, Repr

namespace Field

/-- The number in the field `f` of the word `w`. -/
def get (f : Field) (w : Word) : Nat :=
  w.toNat / f.scale % f.size

/-- The value of the word that has `v` in the field `f`, reduced to the field's size, and zeros
everywhere else. -/
def put (f : Field) (v : Int) : Nat :=
  (v % f.size).toNat * f.scale

/-- Bits 31 to 27: the operation. -/
def op : Field := ⟨0x8000000, 32⟩

/-- Bits 26 to 22: the destination register. -/
def rd : Field := ⟨0x400000, 32⟩

/-- Bits 21 to 17: the first source register. -/
def rs : Field := ⟨0x20000, 32⟩

/-- Bits 16 to 12: the second source register. -/
def rt : Field := ⟨0x1000, 32⟩

/-- Bits 11 to 7: the shift amount. -/
def shamt : Field := ⟨0x80, 32⟩

/-- Bits 6 to 2: the arithmetic operation. -/
def aluOp : Field := ⟨4, 32⟩

/-- Bits 16 to 0: the immediate. -/
def imm : Field := ⟨1, 0x20000⟩

/-- Bits 26 to 0: the jump target. -/
def target : Field := ⟨1, 0x8000000⟩

end Field

namespace Word

/-- The word with the low 32 bits of the integer `i`, so `i` modulo `2 ^ 32`. -/
def ofInt (i : Int) : Word :=
  UInt32.ofNat (i % 0x100000000).toNat

/-- The word as a signed number, from `-2 ^ 31` to `2 ^ 31 - 1`. -/
def signed (w : Word) : Int :=
  Int.bmod w.toNat 0x100000000

/-- The low 17 bits of a word as a signed number, which is the immediate of the words that have
one. -/
def immediate (w : Word) : Int :=
  Int.bmod w.toNat 0x20000

/-- The layout of the word `w`, by its operation bits. -/
def format (w : Word) : Format :=
  operationFormat (Field.op.get w)

/-! ## Packing -/

/-- A word of the register layout. -/
def packR (rd rs rt shamt aluOp : Int) : Word :=
  UInt32.ofNat (Field.op.put Operation.rtype.code + Field.rd.put rd + Field.rs.put rs +
    Field.rt.put rt + Field.shamt.put shamt + Field.aluOp.put aluOp)

/-- A word of the immediate layout. -/
def packI (op rd rs imm : Int) : Word :=
  UInt32.ofNat (Field.op.put op + Field.rd.put rd + Field.rs.put rs + Field.imm.put imm)

/-- A word of the jump layout. -/
def packJ (op target : Int) : Word :=
  UInt32.ofNat (Field.op.put op + Field.target.put target)

end Word

end WordMachine
