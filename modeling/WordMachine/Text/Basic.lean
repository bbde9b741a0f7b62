/-!
# Texts

Everything that is read and written here is a sequence of bytes. Source files need not be valid
UTF-8, and their bytes reach listings and messages unchanged, so a `Text` is a list of bytes and not
a string of characters; `ofString` makes one of a string.
-/

namespace WordMachine

/-- A text is a sequence of bytes. -/
abbrev Text := List UInt8

namespace Text

/-- The UTF-8 bytes of a string. -/
def ofString (s : String) : Text :=
  s.toList.flatMap String.utf8EncodeChar

instance : Coe String Text := ⟨ofString⟩

/-- The byte of an ASCII character. -/
def byte (c : Char) : UInt8 :=
  c.toNat.toUInt8

/-- The texts `ts` one after the other, with `sep` between neighbours. -/
def join (sep : Text) (ts : List Text) : Text :=
  List.intercalate sep ts

/-- The bytes of `join sep ts` are those of `sep` and of the texts in `ts`. -/
theorem mem_join {sep : Text} {ts : List Text} {b : UInt8} (hb : b ∈ join sep ts) :
    b ∈ sep ∨ ∃ t ∈ ts, b ∈ t := by
  induction ts with
  | nil => exact absurd hb List.not_mem_nil
  | cons t ts ih =>
    cases ts with
    | nil =>
      have hbt : b ∈ t := by simpa [join] using hb
      exact Or.inr ⟨t, List.mem_cons_self, hbt⟩
    | cons u us =>
      rw [join, List.intercalate_cons_cons, List.append_assoc, List.mem_append,
        List.mem_append] at hb
      rcases hb with hb | hb | hb
      · exact Or.inr ⟨t, List.mem_cons_self, hb⟩
      · exact Or.inl hb
      · exact (ih hb).imp id fun ⟨v, hv, hbv⟩ => ⟨v, List.mem_cons_of_mem t hv, hbv⟩

theorem mem_join_of_mem {sep t : Text} {ts : List Text} {b : UInt8} (ht : t ∈ ts) (hb : b ∈ t) :
    b ∈ join sep ts := by
  induction ts with
  | nil => exact absurd ht List.not_mem_nil
  | cons u us ih =>
    rcases List.mem_cons.mp ht with rfl | ht
    · cases us with
      | nil => simpa [join] using hb
      | cons v vs =>
        rw [join, List.intercalate_cons_cons, List.append_assoc]
        exact List.mem_append_left _ hb
    · cases us with
      | nil => exact absurd ht List.not_mem_nil
      | cons v vs =>
        rw [join, List.intercalate_cons_cons]
        exact List.mem_append_right _ (ih ht)

/-- The text `t` with copies of the byte `b` in front of it, so that it has at least `width`
bytes. -/
def padLeft (width : Nat) (b : UInt8) (t : Text) : Text :=
  List.replicate (width - t.length) b ++ t

/-- The text `t` with copies of the byte `b` after it, so that it has at least `width` bytes. -/
def padRight (width : Nat) (b : UInt8) (t : Text) : Text :=
  t ++ List.replicate (width - t.length) b

/-- The part of `t` before the first occurrence of `mark`, and the part after it. -/
def cut? (mark : UInt8) (t : Text) : Option (Text × Text) :=
  match t.dropWhile (· != mark) with
  | [] => none
  | _ :: rest => some (t.takeWhile (· != mark), rest)

/-- Is the byte an ASCII decimal digit, from `0` to `9`? -/
def isDigit (b : UInt8) : Bool :=
  byte '0' ≤ b && b ≤ byte '9'

/-- Is the byte an ASCII letter? -/
def isLetter (b : UInt8) : Bool :=
  (byte 'a' ≤ b && b ≤ byte 'z') || (byte 'A' ≤ b && b ≤ byte 'Z')

end Text

end WordMachine
