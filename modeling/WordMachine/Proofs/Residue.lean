import WordMachine.Isa.Alu
import Mathlib.Tactic

/-!
# Words as residues

A word is a residue modulo `2 ^ 32`, and the arithmetic unit computes with residues of integers:
`mul_eq`, `shiftLeft_eq` and `shiftRight_eq`. The signed reading of a word, and of the low 17 bits
of an integer, is its representative in two's complement.
-/

namespace WordMachine.Word

/-! ## Residues -/

/-- The number of the residue of `i`. -/
theorem toNat_ofInt (i : Int) : ((ofInt i).toNat : Int) = i % 0x100000000 := by
  have hlow := Int.emod_nonneg i (show (0x100000000 : Int) ≠ 0 by decide)
  have hhigh := Int.emod_lt_of_pos i (show (0 : Int) < 0x100000000 by decide)
  rw [ofInt, UInt32.toNat_ofNat', Nat.mod_eq_of_lt (by omega), Int.toNat_of_nonneg hlow]

/-- A word is the residue of the integers `i` that its number is a remainder of. -/
theorem eq_ofInt {w : Word} {i : Int} (h : (w.toNat : Int) = i % 0x100000000) : w = ofInt i := by
  apply UInt32.toNat_inj.mp
  have hi := toNat_ofInt i
  omega

/-- Integers `i` and `j` with the same remainder have the same residue. -/
theorem ofInt_congr {i j : Int} (h : i % 0x100000000 = j % 0x100000000) : ofInt i = ofInt j :=
  eq_ofInt ((toNat_ofInt i).trans h)

/-- A word is the residue of its number. -/
theorem ofInt_toNat (w : Word) : ofInt w.toNat = w := by
  have hw := w.toNat_lt
  exact (eq_ofInt (by omega)).symm

theorem add_eq (a b : Word) : a + b = ofInt (a.toNat + b.toNat) := by
  apply eq_ofInt
  rw [UInt32.toNat_add]
  omega

theorem sub_eq (a b : Word) : a - b = ofInt (a.toNat - b.toNat) := by
  apply eq_ofInt
  have ha := a.toNat_lt
  have hb := b.toNat_lt
  rw [UInt32.toNat_sub]
  omega

theorem add_ofInt (a : Word) (i : Int) : a + ofInt i = ofInt (a.toNat + i) := by
  rw [add_eq]
  apply ofInt_congr
  rw [toNat_ofInt]
  omega

theorem sub_one_add_ofInt (a : Word) (i : Int) : a - 1 + ofInt i = ofInt (a.toNat - 1 + i) := by
  rw [add_ofInt, sub_eq]
  apply ofInt_congr
  rw [toNat_ofInt, show ((1 : Word).toNat : Int) = 1 from rfl]
  omega

theorem and_eq (a b : Word) : a &&& b = ofInt (a.toNat &&& b.toNat : Nat) := by
  apply eq_ofInt
  have hlt := (a &&& b).toNat_lt
  rw [← UInt32.toNat_and]
  omega

theorem or_eq (a b : Word) : a ||| b = ofInt (a.toNat ||| b.toNat : Nat) := by
  apply eq_ofInt
  have hlt := (a ||| b).toNat_lt
  rw [← UInt32.toNat_or]
  omega

/-! ## Signed readings -/

/-- A signed reading is a number of 32 bits in two's complement. -/
theorem signed_range (w : Word) : -2 ^ 31 ≤ w.signed ∧ w.signed < 2 ^ 31 :=
  ⟨Int.le_bmod (by decide), Int.bmod_lt (by decide)⟩

/-- A word is the residue of its signed reading. -/
theorem signed_emod (w : Word) : w.signed % 0x100000000 = w.toNat := by
  have hw := w.toNat_lt
  have hbmod : w.signed % 0x100000000 = (w.toNat : Int) % 0x100000000 := Int.bmod_emod
  omega

/-- A product has the same residue for the `signed` readings. -/
theorem mul_eq (a b : Word) : a * b = ofInt (a.signed * b.signed) := by
  apply eq_ofInt
  rw [UInt32.toNat_mul, Int.mul_emod, signed_emod, signed_emod]
  push_cast
  rfl

/-! ## Shifts -/

/-- A shift to the left multiplies by `2 ^ shamt`, also if it moves all bits out. -/
theorem shiftLeft_eq (a : Word) (shamt : Nat) :
    a.shiftLeft shamt = ofInt (a.toNat * 2 ^ shamt) := by
  apply eq_ofInt
  by_cases h : shamt < 32
  · have hamount : (UInt32.ofNat shamt).toNat % 32 = shamt := by
      rw [UInt32.toNat_ofNat']
      omega
    rw [shiftLeft, if_pos h, UInt32.toNat_shiftLeft, hamount, Nat.shiftLeft_eq]
    push_cast
    rfl
  · have hpow : (2 : Int) ^ shamt = 2 ^ (shamt - 32) * 0x100000000 := by
      rw [show (0x100000000 : Int) = 2 ^ 32 from rfl, ← pow_add]
      congr 1
      omega
    rw [shiftLeft, if_neg h, hpow, ← mul_assoc, Int.mul_emod_left]
    rfl

/-- All shifts to the right past the sign, with `31 ≤ shamt`, give copies of the sign. -/
theorem signed_div_pow (a : Word) {shamt : Nat} (h : 31 ≤ shamt) :
    a.signed / 2 ^ shamt = if a.signed < 0 then -1 else 0 := by
  obtain ⟨hlow, hhigh⟩ := a.signed_range
  have hpow : (2 : Int) ^ 31 ≤ 2 ^ shamt := pow_le_pow_right₀ (by decide) h
  split
  · rename_i hneg
    exact Int.ediv_eq_neg_one_of_neg_of_le hneg (by omega)
  · rename_i hnonneg
    exact Int.ediv_eq_zero_of_lt (by omega) (by omega)

/-- A shift to the right divides the signed reading by `2 ^ shamt`, and rounds down. -/
theorem shiftRight_eq (a : Word) (shamt : Nat) :
    a.shiftRight shamt = ofInt (a.signed / 2 ^ shamt) := by
  have hclamp : a.signed / 2 ^ min shamt 31 = a.signed / 2 ^ shamt := by
    rcases Nat.lt_or_ge shamt 31 with h | h
    · rw [Nat.min_eq_left (by omega)]
    · rw [Nat.min_eq_right h, signed_div_pow a h, signed_div_pow a (Nat.le_refl 31)]
  rw [shiftRight, Int.shiftRight_eq_div_pow, ← hclamp]
  push_cast
  rfl

end WordMachine.Word
