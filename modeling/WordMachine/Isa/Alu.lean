import WordMachine.Isa.Word
import WordMachine.Message

/-!
# The arithmetic unit

`evalAlu` makes one word or a fault of an operation, two words and a shift amount. An addition with
a shift amount other than zero shifts its first operand to the left, which is how programs shift
left.
-/

namespace WordMachine

/-- Why the arithmetic unit gives no result. -/
inductive AluFault where
  | divideByZero
  /-- The operation number has no meaning. -/
  | undefined
  deriving DecidableEq, Repr

/-- The words that report the fault. -/
def AluFault.message : AluFault → Text
  | .divideByZero => Message.format "divide by zero" []
  | .undefined => Message.format "decode" []

namespace Word

/-- The word `a` shifted to the left by `shamt`, zeros moving in. -/
def shiftLeft (a : Word) (shamt : Nat) : Word :=
  if shamt < 32 then a <<< UInt32.ofNat shamt else 0

/-- The word `a` shifted to the right by `shamt`, copies of its sign moving in. -/
def shiftRight (a : Word) (shamt : Nat) : Word :=
  ofInt (a.signed >>> min shamt 31)

end Word

/-- The result of an arithmetic operation on `a` and `b`. -/
def AluOp.eval (op : AluOp) (a b : Word) (shamt : Nat) : Except AluFault Word :=
  match op with
  | .add => .ok (if shamt = 0 then a + b else a.shiftLeft shamt)
  | .sub => .ok (a - b)
  | .and => .ok (a &&& b)
  | .or => .ok (a ||| b)
  | .sll => .ok (a.shiftLeft shamt)
  | .sra => .ok (a.shiftRight shamt)
  | .mul => .ok (a * b)
  | .div => if b = 0 then .error .divideByZero else .ok (Word.ofInt (a.signed.tdiv b.signed))

/-- The result of the arithmetic operation with the number `n`; numbers of no operation have
none. -/
def evalAlu (n : Int) (a b : Word) (shamt : Nat) : Except AluFault Word :=
  match if n < 0 then none else AluOp.ofCode? n.toNat with
  | some op => op.eval a b shamt
  | none => .error .undefined

theorem evalAlu_code (op : AluOp) (a b : Word) (shamt : Nat) :
    evalAlu op.code a b shamt = op.eval a b shamt := by
  cases op <;> rfl

end WordMachine
