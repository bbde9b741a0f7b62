import WordMachine.Text.Basic

/-!
# White space

The white space of Unicode, found in texts by the bytes of its UTF-8 encodings (`blankCodes`). No
encoding of a character begins inside another one, so it makes no difference that the bytes around
need not be valid UTF-8. `trim` drops white space at both ends, `splitField` cuts at the first one.
-/

namespace WordMachine.Text

/-- The characters with the property White_Space. -/
def blanks : List Char :=
  ['\u0009', '\u000a', '\u000b', '\u000c', '\u000d', '\u0020', '\u0085', '\u00a0', '\u1680',
   '\u2000', '\u2001', '\u2002', '\u2003', '\u2004', '\u2005', '\u2006', '\u2007', '\u2008',
   '\u2009', '\u200a', '\u2028', '\u2029', '\u202f', '\u205f', '\u3000']

/-- The encodings of the white-space characters. -/
def blankCodes : List Text :=
  blanks.map String.utf8EncodeChar

/-- The encodings of the white-space characters, each from its last byte to its first. -/
def blankCodesBackward : List Text :=
  blankCodes.map List.reverse

/-- How many bytes at the start of `t` make up the first of `codes` that `t` starts with; none if
there is no such code. -/
def codeWidth (codes : List Text) (t : Text) : Nat :=
  match codes.find? (·.isPrefixOf t) with
  | some code => code.length
  | none => 0

/-- Drops `skip` bytes, and then codes for as long as the text starts with one. -/
def dropCodes (codes : List Text) : Nat → Text → Text
  | _, [] => []
  | skip + 1, _ :: t => dropCodes codes skip t
  | 0, b :: t =>
    match codeWidth codes (b :: t) with
    | 0 => b :: t
    | width + 1 => dropCodes codes width t

/-- The text `t` without the white space at its start. -/
def trimStart (t : Text) : Text :=
  dropCodes blankCodes 0 t

/-- The text `t` without the white space at its end. -/
def trimEnd (t : Text) : Text :=
  (dropCodes blankCodesBackward 0 t.reverse).reverse

/-- The text `t` without the white space at either end. -/
def trim (t : Text) : Text :=
  trimEnd (trimStart t)

/-- How many bytes stand before the first white space, counted on from `n`. -/
def fieldLengthFrom (n : Nat) : Text → Nat
  | [] => n
  | b :: t => if codeWidth blankCodes (b :: t) = 0 then fieldLengthFrom (n + 1) t else n

/-- The bytes before the first white space, and the rest of the text. -/
def splitField (t : Text) : Text × Text :=
  t.splitAt (fieldLengthFrom 0 t)

/-- The bytes before the first white space. -/
def firstField (t : Text) : Text :=
  (splitField t).1

end WordMachine.Text
