import WordMachine.Text.Bounded

/-!
# Numbers on a command line

A number may be decimal, or have a base of its own: `0x` and `0b` and `0o` before its digits, or a
zero for octal. Underscores may separate digits.
-/

namespace WordMachine.Command

open Text (byte NumberFault)

/-- A number without its sign: its `base`, whether a mark with a letter named the base, and its
digits. -/
structure Numerals where
  base : Nat
  marked : Bool
  digits : Text

/-- The base and the digits of the number `t`: 16 after `0x`, 2 after `0b`, 8 after `0o` or `0`, and
else 10. -/
def numerals (t : Text) : Numerals :=
  match t with
  | zero :: rest =>
    if zero == byte '0' then
      match rest with
      | mark :: digit :: digits =>
        if mark == byte 'x' || mark == byte 'X' then ⟨16, true, digit :: digits⟩
        else if mark == byte 'b' || mark == byte 'B' then ⟨2, true, digit :: digits⟩
        else if mark == byte 'o' || mark == byte 'O' then ⟨8, true, digit :: digits⟩
        else ⟨8, false, rest⟩
      | _ => ⟨8, false, rest⟩
    else ⟨10, false, t⟩
  | [] => ⟨10, false, t⟩

/-- Does every underscore stand between two digits? `afterDigit` tells whether a digit, or the mark
of the base, stands directly before. -/
def isSeparated (afterDigit : Bool) : Text → Bool
  | [] => afterDigit
  | b :: t => if b == byte '_' then afterDigit && isSeparated false t else isSeparated true t

/-- A number without a sign, below `2 ^ 64`. -/
def natural (t : Text) : Except NumberFault Nat :=
  if t.isEmpty then .error .malformed
  else
    let n := numerals t
    match Text.readDigits true n.base 0 n.digits with
    | .error fault => .error fault
    | .ok value =>
      let separated :=
        if n.marked then isSeparated true n.digits else isSeparated false t
      if separated then .ok value else .error .malformed

/-- A number with an optional sign, in the signed range of 64 bits. -/
def integer (t : Text) : Except NumberFault Int :=
  Text.boundedInt natural t

end WordMachine.Command
