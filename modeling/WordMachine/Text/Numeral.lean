import WordMachine.Text.Basic

/-!
# Numerals

Printing and reading of integers in a positional base. `digits base n` has no superfluous zeros;
reading allows any number of them, and takes letters in either case.
-/

namespace WordMachine.Text

/-! ## Printing -/

/-- The digits of `n` in a base up to sixteen, with lower-case letters. -/
def digits (base n : Nat) : Text :=
  (Nat.toDigits base n).map byte

/-- The digits of `n` in a base up to sixteen, with upper-case letters. -/
def upperDigits (base n : Nat) : Text :=
  (Nat.toDigits base n).map fun c => byte c.toUpper

/-- The natural number `n` in decimal. -/
def decimal (n : Nat) : Text :=
  digits 10 n

/-- The integer `i` in decimal, with a minus sign if it is negative. -/
def ofInt (i : Int) : Text :=
  if i < 0 then byte '-' :: decimal i.natAbs else decimal i.natAbs

/-- The integer `i` in lower-case hexadecimal, filled with zeros after the sign to `width` bytes. -/
def paddedHex (width : Nat) (i : Int) : Text :=
  if i < 0 then byte '-' :: padLeft (width - 1) (byte '0') (digits 16 i.natAbs)
  else padLeft width (byte '0') (digits 16 i.natAbs)

/-- The natural number `n` in upper-case hexadecimal, filled with zeros to `width` bytes. -/
def upperHex (width n : Nat) : Text :=
  padLeft width (byte '0') (upperDigits 16 n)

/-- The bytes of a text, each by its two digits of lower-case hexadecimal. -/
def hexBytes (t : Text) : Text :=
  t.flatMap fun b => paddedHex 2 b.toNat

/-- Puts `mark` after every third byte that is followed by another one. -/
def groupThrees (mark : UInt8) : Text → Text
  | a :: b :: c :: d :: t => a :: b :: c :: mark :: groupThrees mark (d :: t)
  | t => t

/-- The integer `i` in decimal, its digits in groups of three counted from the right, with `mark`
between. -/
def grouped (mark : UInt8) (i : Int) : Text :=
  let ds := (groupThrees mark (decimal i.natAbs).reverse).reverse
  if i < 0 then byte '-' :: ds else ds

/-! ## Reading -/

/-- The value of a digit, with letters of either case from ten on; bytes that are neither digits nor
letters have the value 36, which is a digit in no base. -/
def digitValue (b : UInt8) : Nat :=
  if isDigit b then b.toNat - 48
  else if byte 'a' ≤ b && b ≤ byte 'z' then b.toNat - 87
  else if byte 'A' ≤ b && b ≤ byte 'Z' then b.toNat - 55
  else 36

/-- Is the byte a digit of the base, so is `digitValue b < base`? -/
def isDigitOf (base : Nat) (b : UInt8) : Bool :=
  digitValue b < base

/-- The number that the digits `t` denote in the `base`. -/
def value (base : Nat) (t : Text) : Nat :=
  t.foldl (fun n b => n * base + digitValue b) 0

/-- The number that the whole text `t` denotes, if it is one or more digits of the base. -/
def natOf? (base : Nat) (t : Text) : Option Nat :=
  if !t.isEmpty && t.all (isDigitOf base) then some (value base t) else none

/-- Is there a minus sign in front, and what follows the sign, if there is one? -/
def splitSign (t : Text) : Bool × Text :=
  match t with
  | [] => (false, [])
  | b :: rest =>
    if b == byte '+' then (false, rest)
    else if b == byte '-' then (true, rest)
    else (false, t)

/-- The number `n` with its sign. -/
def signed (negative : Bool) (n : Nat) : Int :=
  if negative then -(n : Int) else n

/-- The integer that the whole text `t` denotes, if it is one or more digits of the base with an
optional sign. -/
def intOf? (base : Nat) (t : Text) : Option Int :=
  let (negative, ds) := splitSign t
  (natOf? base ds).map (signed negative)

end WordMachine.Text
