import WordMachine.Text.Numeral
import WordMachine.Text.Printable
import WordMachine.Text.Symbol

/-!
# Quoted texts

A text between double quotes, as `quoted` makes it. Quotes, backslashes and what is not printable
are written as escapes, so that the quoted text has no control characters and no stray bytes.
-/

namespace WordMachine.Text

/-- A backslash and a letter for the control characters that have such an escape. -/
def shortEscape? (c : Char) : Option Text :=
  match c.toNat with
  | 7 => some "\\a"
  | 8 => some "\\b"
  | 9 => some "\\t"
  | 10 => some "\\n"
  | 11 => some "\\v"
  | 12 => some "\\f"
  | 13 => some "\\r"
  | _ => none

/-- The character `c` as it stands in a quoted text. -/
def escapeChar (c : Char) : Text :=
  if c == '"' || c == '\\' then byte '\\' :: String.utf8EncodeChar c
  else if isPrintable c then String.utf8EncodeChar c
  else match shortEscape? c with
    | some t => t
    | none =>
      if c.toNat < 0x80 then "\\x" ++ padLeft 2 (byte '0') (digits 16 c.toNat)
      else if c.toNat < 0x10000 then "\\u" ++ padLeft 4 (byte '0') (digits 16 c.toNat)
      else "\\U" ++ padLeft 8 (byte '0') (digits 16 c.toNat)

/-- A symbol as it stands in a quoted text. -/
def Symbol.escape : Symbol → Text
  | .char c => escapeChar c
  | .stray b => "\\x" ++ padLeft 2 (byte '0') (digits 16 b.toNat)

/-- The text `t` between double quotes. -/
def quoted (t : Text) : Text :=
  byte '"' :: (symbols t).flatMap Symbol.escape ++ [byte '"']

end WordMachine.Text
