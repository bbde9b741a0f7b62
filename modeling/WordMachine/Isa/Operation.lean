import WordMachine.Text.Numeral

/-!
# Operations and formats

The five operation bits of an instruction word select one of eleven operations (`Operation`), and
with it one of three bit layouts (`Format`). The register layout has five more bits, which select an
operation of the arithmetic unit (`AluOp`).
-/

namespace WordMachine

/-- The bit layouts of an instruction word: registers, immediate, jump. -/
inductive Format where
  | r | i | j
  deriving DecidableEq, Repr

/-- The operations that an instruction word can select. -/
inductive Operation where
  | rtype | j | bne | jal | jr | addi | blt | sw | lw | setx | bex
  deriving DecidableEq, Repr

/-- The operations of the arithmetic unit. -/
inductive AluOp where
  | add | sub | and | or | sll | sra | mul | div
  deriving DecidableEq, Repr

/-- How a number `n` that names nothing is shown: the `kind` of thing and the number. -/
def unnamed (kind : Text) (n : Int) : Text :=
  kind ++ "(" ++ Text.ofInt n ++ ")"

namespace Operation

/-- The number in the operation bits; `ofCode?` finds the operation again. -/
def code : Operation → Nat
  | rtype => 0
  | j => 1
  | bne => 2
  | jal => 3
  | jr => 4
  | addi => 5
  | blt => 6
  | sw => 7
  | lw => 8
  | setx => 21
  | bex => 22

/-- The operation with a number. -/
def ofCode? : Nat → Option Operation
  | 0 => some rtype
  | 1 => some j
  | 2 => some bne
  | 3 => some jal
  | 4 => some jr
  | 5 => some addi
  | 6 => some blt
  | 7 => some sw
  | 8 => some lw
  | 21 => some setx
  | 22 => some bex
  | _ => none

theorem ofCode?_code (op : Operation) : ofCode? op.code = some op := by
  cases op <;> rfl

/-- An operation that was found by its number `n` has this number. -/
theorem eq_code_of_ofCode? {n : Nat} {op : Operation} (h : ofCode? n = some op) : n = op.code := by
  unfold ofCode? at h
  split at h <;> cases h <;> rfl

theorem code_inj {op other : Operation} : op.code = other.code ↔ op = other := by
  constructor
  · intro h
    have hcode := ofCode?_code other
    rw [← h, ofCode?_code, Option.some_inj] at hcode
    exact hcode
  · rintro rfl
    rfl

/-- The name of the operation in assembly language. -/
def name : Operation → Text
  | rtype => "rtype"
  | j => "j"
  | bne => "bne"
  | jal => "jal"
  | jr => "jr"
  | addi => "addi"
  | blt => "blt"
  | sw => "sw"
  | lw => "lw"
  | setx => "setx"
  | bex => "bex"

/-- The layout of the words that select the operation. -/
def format : Operation → Format
  | rtype => .r
  | addi | lw | sw | bne | blt => .i
  | j | jal | jr | setx | bex => .j

end Operation

namespace AluOp

/-- The number in the arithmetic bits; `ofCode?` finds the operation again. -/
def code : AluOp → Nat
  | add => 0
  | sub => 1
  | and => 2
  | or => 3
  | sll => 4
  | sra => 5
  | mul => 6
  | div => 7

/-- The arithmetic operation with a number. -/
def ofCode? : Nat → Option AluOp
  | 0 => some add
  | 1 => some sub
  | 2 => some and
  | 3 => some or
  | 4 => some sll
  | 5 => some sra
  | 6 => some mul
  | 7 => some div
  | _ => none

theorem ofCode?_code (op : AluOp) : ofCode? op.code = some op := by
  cases op <;> rfl

/-- An arithmetic operation that was found by its number `n` has this number. -/
theorem eq_code_of_ofCode? {n : Nat} {op : AluOp} (h : ofCode? n = some op) : n = op.code := by
  unfold ofCode? at h
  split at h <;> cases h <;> rfl

/-- The name of the arithmetic operation in assembly language. -/
def name : AluOp → Text
  | add => "add"
  | sub => "sub"
  | and => "and"
  | or => "or"
  | sll => "sll"
  | sra => "sra"
  | mul => "mul"
  | div => "div"

end AluOp

/-! ## Any number read as an operation or a format -/

/-- The name of the operation with the number `n`. -/
def operationName (n : Int) : Text :=
  match if n < 0 then none else Operation.ofCode? n.toNat with
  | some op => op.name
  | none => unnamed "CodeOp" n

/-- The layout of words with the number `n` in their operation bits; numbers of no operation have
the jump layout. -/
def operationFormat (n : Int) : Format :=
  match if n < 0 then none else Operation.ofCode? n.toNat with
  | some op => op.format
  | none => .j

/-- The name of the arithmetic operation with the number `n`. -/
def aluOpName (n : Int) : Text :=
  match if n < 0 then none else AluOp.ofCode? n.toNat with
  | some op => op.name
  | none => unnamed "CodeAluOp" n

/-- The letter of a layout. -/
def Format.name : Format → Text
  | .r => "R"
  | .i => "I"
  | .j => "J"

/-- The letter of the layout with the number `n`. -/
def formatName (n : Int) : Text :=
  if n = 0 then Format.r.name
  else if n = 1 then Format.i.name
  else if n = 2 then Format.j.name
  else unnamed "CodeFormat" n

end WordMachine
