import WordMachine.Text.Numeral

/-!
# Numbers of 64 bits

Digits are read from the left by `readDigits`, and a number that has grown beyond 64 bits is out of
range whatever follows. So a text that is `outOfRange` need not be a number at all.
-/

namespace WordMachine.Text

/-- Why a text is not a number of the wanted kind. -/
inductive NumberFault where
  | malformed | outOfRange
  deriving DecidableEq, Repr

/-- The words that report the fault. -/
def NumberFault.message : NumberFault → Text
  | .malformed => "parse error"
  | .outOfRange => "value out of range"

/-- Adds digits to the number `n`; if they may be `separated`, underscores are passed over. -/
def readDigits (separated : Bool) (base : Nat) (n : Nat) : Text → Except NumberFault Nat
  | [] => .ok n
  | b :: t =>
    if separated && b == byte '_' then readDigits separated base n t
    else if !isDigitOf base b then .error .malformed
    else
      let next := n * base + digitValue b
      if next < 0x10000000000000000 then readDigits separated base next t else .error .outOfRange

/-- The number below `2 ^ 64` that the whole text denotes in the `base`. -/
def boundedNat (base : Nat) (t : Text) : Except NumberFault Nat :=
  if t.isEmpty then .error .malformed else readDigits false base 0 t

/-- A number with an optional sign, in the signed range of 64 bits; `magnitude` reads what follows
the sign. -/
def boundedInt (magnitude : Text → Except NumberFault Nat) (t : Text) : Except NumberFault Int :=
  let (negative, ds) := splitSign t
  match magnitude ds with
  | .error fault => .error fault
  | .ok n =>
    if n < 0x8000000000000000 || negative && n == 0x8000000000000000 then .ok (signed negative n)
    else .error .outOfRange

end WordMachine.Text
