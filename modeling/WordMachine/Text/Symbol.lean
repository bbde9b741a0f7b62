import WordMachine.Text.Basic

/-!
# Characters of a text

A text read as UTF-8 (`symbols`): a sequence of characters and of stray bytes, which belong to no
character. A character stands at a place exactly if its encoding does.
-/

namespace WordMachine.Text

/-- What a text is made of when it is read as UTF-8. -/
inductive Symbol where
  /-- A character, given by its encoding. -/
  | char (c : Char)
  /-- A byte that is part of no character. -/
  | stray (b : UInt8)
  deriving DecidableEq, Repr

/-- The code points that encodings of one to four bytes would give at the start of `t`, if the bytes
there are of the right kind. -/
def codePoints (t : Text) : List Nat :=
  let a := (t.getD 0 0).toNat
  let b := (t.getD 1 0).toNat % 64
  let c := (t.getD 2 0).toNat % 64
  let d := (t.getD 3 0).toNat % 64
  [a, a % 32 * 64 + b, (a % 16 * 64 + b) * 64 + c, ((a % 8 * 64 + b) * 64 + c) * 64 + d]

/-- The character whose encoding the text `t` starts with. -/
def headChar? (t : Text) : Option Char :=
  ((codePoints t).map Char.ofNat).find? fun c => (String.utf8EncodeChar c).isPrefixOf t

/-- Passes over `skip` bytes and reads the rest; `seen` are the symbols before it, last one
first. -/
def symbolsFrom (seen : List Symbol) : Nat → Text → List Symbol
  | _, [] => seen.reverse
  | skip + 1, _ :: t => symbolsFrom seen skip t
  | 0, b :: t =>
    match headChar? (b :: t) with
    | some c => symbolsFrom (.char c :: seen) (c.utf8Size - 1) t
    | none => symbolsFrom (.stray b :: seen) 0 t

/-- The characters and stray bytes of a text, in order. -/
def symbols (t : Text) : List Symbol :=
  symbolsFrom [] 0 t

end WordMachine.Text
