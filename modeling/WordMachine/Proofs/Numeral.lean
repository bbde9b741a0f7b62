import WordMachine.Text.Numeral
import Mathlib.Tactic

/-!
# Numerals read back

The digits of a number denote the number, in either case of the letters and with any number of zeros
in front. Both ways of printing digits are covered by one statement about a spelling of the sixteen
digits (`Spells`).

* `value_map_toDigits`: the digits of a number denote it, whatever their spelling.
* `natOf?_digits`: reading the digits of a number gives the number.
-/

namespace WordMachine.Text

/-! ## Single digits -/

/-- A spelling `f` writes each of the sixteen digits by a byte of that value. -/
def Spells (f : Char → UInt8) : Prop :=
  ∀ d, d < 16 → digitValue (f (Nat.digitChar d)) = d

/-- Digits in lower case are a spelling, by `byte`. -/
theorem spells_byte : Spells byte := by
  unfold Spells
  decide

/-- Digits in upper case are a spelling. -/
theorem spells_upper : Spells fun c => byte c.toUpper := by
  unfold Spells
  decide

/-- The decimal digits are the ASCII digits. -/
theorem isDigitOf_ten (b : UInt8) : isDigitOf 10 b = isDigit b := by
  have h0 : (byte '0').toNat = 48 := rfl
  have h9 : (byte '9').toNat = 57 := rfl
  have ha : (byte 'a').toNat = 97 := rfl
  have hA : (byte 'A').toNat = 65 := rfl
  rw [Bool.eq_iff_iff]
  simp only [isDigitOf, digitValue, isDigit, Bool.and_eq_true, decide_eq_true_eq,
    UInt8.le_iff_toNat_le]
  split_ifs <;> omega

/-- A digit of a base up to sixteen is an ASCII digit or letter. -/
theorem isDigit_or_isLetter_of_isDigitOf {base : Nat} (hbase : base ≤ 16) {b : UInt8}
    (hb : isDigitOf base b = true) : isDigit b = true ∨ isLetter b = true := by
  rw [isDigitOf, decide_eq_true_eq, digitValue] at hb
  split_ifs at hb with hdigit hlower hupper
  · exact Or.inl hdigit
  · exact Or.inr (by simp [isLetter, hlower])
  · exact Or.inr (by simp [isLetter, hupper])
  · omega

/-! ## Values -/

/-- One more digit `b` multiplies the value by the base and adds the digit. -/
theorem value_concat (base : Nat) (t : Text) (b : UInt8) :
    value base (t ++ [b]) = value base t * base + digitValue b := by
  simp [value, List.foldl_append]

/-- Digits `t` of a base denote a number with that many digits, so below `base ^ t.length`. -/
theorem value_lt_pow {base : Nat} {t : Text} (ht : ∀ b ∈ t, isDigitOf base b = true) :
    value base t < base ^ t.length := by
  induction t using List.reverseRecOn with
  | nil => exact Nat.one_pos
  | append_singleton t b ih =>
    have hlast : digitValue b < base := by
      simpa [isDigitOf] using ht b (by simp)
    have hrest := ih fun c hc => ht c (List.mem_append_left [b] hc)
    rw [value_concat, List.length_append, List.length_singleton, Nat.pow_succ]
    calc value base t * base + digitValue b < value base t * base + base := by omega
      _ = (value base t + 1) * base := by rw [Nat.succ_mul]
      _ ≤ base ^ t.length * base := Nat.mul_le_mul_right base hrest

/-- The `k` zeros in front do not change the value. -/
theorem value_zeros_append (base k : Nat) (t : Text) :
    value base (List.replicate k (byte '0') ++ t) = value base t := by
  induction k with
  | zero => rfl
  | succ k ih =>
    rw [List.replicate_succ, List.cons_append, ← ih]
    have h0 : digitValue (byte '0') = 0 := by decide
    simp [value, h0]

/-- **The digits of `n` denote it**, whatever their spelling. -/
theorem value_map_toDigits {f : Char → UInt8} (hf : Spells f) {base : Nat} (h1 : 1 < base)
    (h16 : base ≤ 16) (n : Nat) : value base ((Nat.toDigits base n).map f) = n := by
  induction n using Nat.strongRecOn with
  | ind n ih =>
    rw [Nat.toDigits_eq_if h1]
    split
    · simp [value, hf n (by omega)]
    · have hdiv : n / base < n := Nat.div_lt_self (by omega) h1
      have hmod : n % base < base := Nat.mod_lt n (by omega)
      rw [List.map_append, List.map_singleton, value_concat, ih (n / base) hdiv,
        hf (n % base) (by omega)]
      exact Nat.div_add_mod' n base

/-- Every byte that `n` is spelt with is a digit of the base. -/
theorem isDigitOf_of_mem_map_toDigits {f : Char → UInt8} (hf : Spells f) {base : Nat}
    (h1 : 1 < base) (h16 : base ≤ 16) (n : Nat) :
    ∀ b ∈ (Nat.toDigits base n).map f, isDigitOf base b = true := by
  induction n using Nat.strongRecOn with
  | ind n ih =>
    intro b hb
    rw [Nat.toDigits_eq_if h1] at hb
    split at hb
    · obtain rfl : b = f n.digitChar := by simpa using hb
      simpa [isDigitOf, hf n (by omega)]
    · have hdiv : n / base < n := Nat.div_lt_self (by omega) h1
      have hmod : n % base < base := Nat.mod_lt n (by omega)
      rw [List.map_append, List.mem_append] at hb
      rcases hb with hb | hb
      · exact ih (n / base) hdiv b hb
      · obtain rfl : b = f (n % base).digitChar := by simpa using hb
        simpa [isDigitOf, hf (n % base) (by omega)]

/-- A number `n` that is read has as many digits as its text. -/
theorem lt_pow_of_natOf? {base : Nat} {t : Text} {n : Nat} (h : natOf? base t = some n) :
    n < base ^ t.length := by
  unfold natOf? at h
  split at h
  · rename_i hdigits
    rw [Bool.and_eq_true, List.all_eq_true] at hdigits
    rw [← Option.some.inj h]
    exact value_lt_pow hdigits.2
  · cases h

/-- Reading the number `n` when it is filled with `k` zeros on its left. -/
theorem natOf?_zeros_append {f : Char → UInt8} (hf : Spells f) {base : Nat} (h1 : 1 < base)
    (h16 : base ≤ 16) (k n : Nat) :
    natOf? base (List.replicate k (byte '0') ++ (Nat.toDigits base n).map f) = some n := by
  have hne : List.replicate k (byte '0') ++ (Nat.toDigits base n).map f ≠ [] := by
    simp [Nat.toDigits_ne_nil]
  have hzero : isDigitOf base (byte '0') = true := by
    have h0 : digitValue (byte '0') = 0 := by decide
    simp only [isDigitOf, h0, decide_eq_true_eq]
    omega
  have hall : (List.replicate k (byte '0') ++ (Nat.toDigits base n).map f).all (isDigitOf base)
      = true := by
    rw [List.all_eq_true]
    intro b hb
    rcases List.mem_append.mp hb with hb | hb
    · rw [List.eq_of_mem_replicate hb, hzero]
    · exact isDigitOf_of_mem_map_toDigits hf h1 h16 n b hb
  rw [natOf?, if_pos (by simp [hall, hne]), value_zeros_append,
    value_map_toDigits hf h1 h16]

/-- **Reading the digits of `n` gives `n`**, in every base up to sixteen. -/
theorem natOf?_digits {base : Nat} (h1 : 1 < base) (h16 : base ≤ 16) (n : Nat) :
    natOf? base (digits base n) = some n :=
  natOf?_zeros_append spells_byte h1 h16 0 n

/-- Reading the decimal number `n`. -/
theorem natOf?_decimal (n : Nat) : natOf? 10 (decimal n) = some n :=
  natOf?_digits (by decide) (by decide) n

/-- A number has digits. -/
theorem digits_ne_nil (base n : Nat) : digits base n ≠ [] := by
  simp [digits, Nat.toDigits_ne_nil]

/-- A decimal number is made of ASCII digits. -/
theorem isDigit_of_mem_decimal {n : Nat} {b : UInt8} (hb : b ∈ decimal n) : isDigit b = true := by
  rw [← isDigitOf_ten]
  exact isDigitOf_of_mem_map_toDigits spells_byte (by decide) (by decide) n b hb

/-- The number `n` has at most `k` digits if it is below `base ^ k`. -/
theorem length_digits_le {base n k : Nat} (h1 : 1 < base) (hk : 0 < k) (h : n < base ^ k) :
    (digits base n).length ≤ k := by
  rw [digits, List.length_map]
  exact (Nat.length_toDigits_le_iff h1 hk).mpr h

end WordMachine.Text
