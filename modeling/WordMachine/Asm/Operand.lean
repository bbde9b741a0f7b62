import WordMachine.Asm.Fault
import WordMachine.Isa.Instr
import WordMachine.Text.Bounded

/-!
# Operands

Registers (`parseRegister`), immediates (`parseImmediate`) and memory operands (`parseMemory`).
Immediates may be of any length; their value is kept modulo `2 ^ 64` in the signed range, since
every field that they are encoded into is narrower.
-/

namespace WordMachine.Asm

open Text (byte NumberFault)

/-- Tab, line feed, form feed, carriage return and space, the white space inside operand lists. -/
def isGap (b : UInt8) : Bool :=
  b == byte '\t' || b == byte '\n' || b == 12 || b == byte '\r' || b == byte ' '

/-! ## Registers -/

/-- A register: `$` and a decimal number below 32. -/
def parseRegister (operand : Text) : Except SourceFault Reg :=
  match operand with
  | [] => .error (.notRegister operand)
  | sign :: ds =>
    match if sign == byte '$' then Text.natOf? 10 ds else none with
    | none => .error (.notRegister operand)
    | some n => if h : n < 32 then .ok ⟨n, h⟩ else .error (.notRegister operand)

/-! ## Immediates -/

/-- The digits after the mark `0x` of a hexadecimal immediate. -/
def hexDigits? (operand : Text) : Option Text :=
  match operand with
  | zero :: x :: ds =>
    if zero == byte '0' && (x == byte 'x' || x == byte 'X') then some ds else none
  | _ => none

/-- The low 64 bits of the number with the digits `ds`, of any size, in the signed range. A
hexadecimal number has no minus sign. -/
def wideImmediate? (base : Nat) (ds : Text) : Option Int :=
  if base == 16 && ds.head? == some (byte '-') then none
  else (Text.intOf? base ds).map fun v => v.bmod 0x10000000000000000

/-- The immediate whose digits `ds` were read as a number of 64 bits; if it is out of range, they
are read again without a bound, by `wideImmediate?`. -/
def immediateOf (operand : Text) (base : Nat) (ds : Text) :
    Except NumberFault Int → Except SourceFault Int
  | .ok v => .ok v
  | .error .malformed => .error (.notImmediate operand)
  | .error .outOfRange =>
    match wideImmediate? base ds with
    | some v => .ok v
    | none => .error (.notImmediate operand)

/-- An immediate, hexadecimal after `0x` or decimal with an optional sign, modulo `2 ^ 64` in the
signed range. -/
def parseImmediate (operand : Text) : Except SourceFault Int :=
  match hexDigits? operand with
  | some ds =>
    immediateOf operand 16 ds
      ((Text.boundedNat 16 ds).map fun n : Nat => (n : Int).bmod 0x10000000000000000)
  | none => immediateOf operand 10 operand (Text.boundedInt (Text.boundedNat 10) operand)

/-! ## Memory operands -/

/-- An offset and the digits of a register number, as they stand in `offset($register)`. -/
structure Indexed where
  negative : Bool
  offset : Text
  register : Text

/-- The offset of an indexed operand, of any size: the value of the digits `i.offset`, with its
sign. -/
def Indexed.value (i : Indexed) : Int :=
  if i.negative then -(Text.value 10 i.offset : Int) else Text.value 10 i.offset

/-- The rest of the text `t` after the byte `b`, which comes first but for gaps. -/
def afterGaps? (b : UInt8) (t : Text) : Option Text :=
  match t.dropWhile isGap with
  | [] => none
  | c :: rest => if c == b then some rest else none

/-- The parts of an operand of the form `offset($register)`. -/
def indexed? (operand : Text) : Option Indexed := do
  let negative := operand.head? == some (byte '-')
  let t := if negative then operand.tail else operand
  let offset := t.takeWhile Text.isDigit
  let t ← afterGaps? (byte '(') (t.dropWhile Text.isDigit)
  let t ← afterGaps? (byte '$') t
  let register := t.takeWhile Text.isDigit
  let t ← afterGaps? (byte ')') (t.dropWhile Text.isDigit)
  if offset.isEmpty || register.isEmpty || !t.isEmpty then none
  else some { negative, offset, register }

/-- Does `i` lie in the signed range of 64 bits, `-2 ^ 63 ≤ i < 2 ^ 63`? -/
def isWide (i : Int) : Bool :=
  -0x8000000000000000 ≤ i && i < 0x8000000000000000

/-- The offset and the base register of a load or store: `offset($register)`, an offset and a
register, or an offset alone, which stands for an address and has register 0 as its base. -/
def parseMemory (operands : List Text) : Except SourceFault (Int × Reg) :=
  match operands with
  | [] => .error .operandMissing
  | first :: rest =>
    match indexed? first with
    | some i =>
      if !rest.isEmpty then .error .operandExtra
      else if !isWide i.value then .error (.notMemoryOperand first)
      else do return (i.value, ← parseRegister (byte '$' :: i.register))
    | none =>
      match rest with
      | _ :: _ :: _ => .error .operandExtra
      | _ =>
        match parseImmediate first with
        | .error _ => .error (.notMemoryOperand first)
        | .ok offset =>
          match rest with
          | base :: _ => do return (offset, ← parseRegister base)
          | [] => .ok (offset, Reg.zero)

end WordMachine.Asm
