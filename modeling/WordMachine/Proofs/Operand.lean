import WordMachine.Proofs.Literal
import WordMachine.Proofs.Statement

/-!
# Operands read back

Registers (`parseRegister_regText`), numbers (`literal?_ofInt`, `literal?_targetText`) and memory
operands (`parseMemory_memoryText`) as instructions are written with them, and what reading them
gives.
-/

namespace WordMachine.Asm

open Text (byte isDigit)
open Instr (regText targetText)

/-! ## Registers -/

/-- The register `r` is read back from its text. -/
theorem parseRegister_regText (r : Reg) : parseRegister (regText r) = .ok r := by
  have hvalue : Text.natOf? 10 (Text.decimal r.val) = some r.val := Text.natOf?_decimal r.val
  simp only [regText, parseRegister, beq_self_eq_true, if_true, hvalue, r.isLt, dite_true]

/-- A register is a plain operand. -/
theorem plainOperand_regText (r : Reg) : PlainOperand (regText r) where
  ne_nil := List.cons_ne_nil _ _
  plain := by
    intro b hb
    rcases List.mem_cons.mp hb with rfl | hb
    · decide
    · exact isPlain_of_isDigit (Text.isDigit_of_mem_decimal hb)

/-! ## Numbers -/

/-- The natural number `n` in decimal is read back. -/
theorem literal?_decimal (n : Nat) : literal? (Text.decimal n) = some (n : Int) := by
  rw [literal?_of_digits fun b hb => Text.isDigit_of_mem_decimal hb, Text.natOf?_decimal]
  rfl

/-- The integer `i` in decimal is read back. -/
theorem literal?_ofInt (i : Int) : literal? (Text.ofInt i) = some i := by
  unfold Text.ofInt
  split
  · have hdigits : Text.Numeral 10 (Text.decimal i.natAbs) i.natAbs :=
      (Text.numeral_iff (by decide)).mpr (Text.natOf?_decimal i.natAbs)
    have hneg : -(i.natAbs : Int) = i := by omega
    rw [literal?_eq_some_iff.mpr (.minus hdigits), hneg]
  · rw [literal?_decimal, Option.some_inj]
    omega

/-- The jump target `target` is read back, if it is not negative. -/
theorem literal?_targetText {target : Int} (h : 0 ≤ target) :
    literal? (targetText target) = some target := by
  have hdigits : Text.Numeral 16 (Text.digits 16 target.toNat) target.toNat :=
    (Text.numeral_iff (by decide)).mpr (Text.natOf?_digits (by decide) (by decide) target.toNat)
  have htarget : (target.toNat : Int) = target := Int.toNat_of_nonneg h
  rw [show targetText target = byte '0' :: byte 'x' :: Text.digits 16 target.toNat from rfl,
    literal?_eq_some_iff.mpr (.hex (.inl rfl) hdigits), htarget]

/-- A number `v` in the signed range of 64 bits is an immediate as it stands. -/
theorem parseImmediate_of_literal? {t : Text} {v : Int} (h : literal? t = some v)
    (hwide : isWide v = true) : parseImmediate t = .ok v := by
  simp only [isWide, Bool.and_eq_true, decide_eq_true_eq] at hwide
  have hbmod : v.bmod 0x10000000000000000 = v := by
    rw [Int.bmod_eq_iff (by decide)]
    omega
  rw [parseImmediate_eq, h, Option.elim_some, hbmod]

/-- An integer in decimal is a plain operand. -/
theorem plainOperand_ofInt (i : Int) : PlainOperand (Text.ofInt i) where
  ne_nil := by
    unfold Text.ofInt
    split
    · exact List.cons_ne_nil _ _
    · exact Text.digits_ne_nil 10 i.natAbs
  plain := by
    intro b hb
    unfold Text.ofInt at hb
    split at hb
    · rcases List.mem_cons.mp hb with rfl | hb
      · decide
      · exact isPlain_of_isDigit (Text.isDigit_of_mem_decimal hb)
    · exact isPlain_of_isDigit (Text.isDigit_of_mem_decimal hb)

/-- A jump target is a plain operand. -/
theorem plainOperand_targetText (target : Int) : PlainOperand (targetText target) where
  ne_nil := List.cons_ne_nil _ _
  plain := by
    intro b hb
    rcases List.mem_append.mp hb with hb | hb
    · have hprefix : b = byte '0' ∨ b = byte 'x' := by
        simpa [show Text.ofString "0x" = [byte '0', byte 'x'] from rfl] using hb
      rcases hprefix with rfl | rfl <;> decide
    · have hdigit := Text.isDigitOf_of_mem_map_toDigits Text.spells_byte (by decide) (by decide)
        target.toNat b hb
      rcases Text.isDigit_or_isLetter_of_isDigitOf (by decide) hdigit with h | h
      · exact isPlain_of_isDigit h
      · exact isPlain_of_isLetter h

/-! ## Memory operands -/

/-- The digits `ds` in front of a text `t` that starts with none. -/
theorem span_digits {ds : Text} (hds : ∀ b ∈ ds, isDigit b = true) {t : Text}
    (ht : ∀ b ∈ t.head?, isDigit b = false) :
    (ds ++ t).takeWhile isDigit = ds ∧ (ds ++ t).dropWhile isDigit = t := by
  rw [List.takeWhile_append_of_pos hds, List.dropWhile_append_of_pos hds]
  rcases t with _ | ⟨b, t⟩
  · simp
  · simp [ht b rfl]

/-- Gaps `g` in front of a byte `c` that is no digit do not start with a digit. -/
theorem head?_gaps {g : Text} (hg : ∀ b ∈ g, isGap b = true) {c : UInt8}
    (hc : isDigit c = false) (t : Text) : ∀ b ∈ (g ++ c :: t).head?, isDigit b = false := by
  intro b hb
  rcases g with _ | ⟨a, g⟩
  · obtain rfl : c = b := by simpa using hb
    exact hc
  · obtain rfl : a = b := by simpa using hb
    have hgap : isGap a = true := hg a List.mem_cons_self
    simp only [isGap, Bool.or_eq_true, beq_iff_eq] at hgap
    rcases hgap with (((rfl | rfl) | rfl) | rfl) | rfl <;> decide

/-- A byte `c` that is no gap is found after gaps `g`. -/
theorem afterGaps?_append {g : Text} (hg : ∀ b ∈ g, isGap b = true) {c : UInt8}
    (hc : isGap c = false) (t : Text) : afterGaps? c (g ++ c :: t) = some t := by
  simp [afterGaps?, List.dropWhile_append_of_pos hg, hc]

/-- The parts of a memory operand that is put together from them; a register `rs` without digits is
none. -/
theorem indexed?_of_parts (negative : Bool) {ds rs g₁ g₂ g₃ : Text}
    (hds : ∀ b ∈ ds, isDigit b = true) (hds_ne : ds ≠ []) (hrs : ∀ b ∈ rs, isDigit b = true)
    (h₁ : ∀ b ∈ g₁, isGap b = true) (h₂ : ∀ b ∈ g₂, isGap b = true)
    (h₃ : ∀ b ∈ g₃, isGap b = true) :
    indexed? ((if negative then [byte '-'] else []) ++
        (ds ++ (g₁ ++ byte '(' :: (g₂ ++ byte '$' :: (rs ++ (g₃ ++ [byte ')'])))))) =
      if rs.isEmpty then none else some ⟨negative, ds, rs⟩ := by
  obtain ⟨htake, hdrop⟩ := span_digits hds (head?_gaps h₁ (c := byte '(') (by decide)
    (g₂ ++ byte '$' :: (rs ++ (g₃ ++ [byte ')']))))
  obtain ⟨htakeReg, hdropReg⟩ :=
    span_digits hrs (head?_gaps h₃ (c := byte ')') (by decide) [])
  have hopen := afterGaps?_append h₁ (c := byte '(') (by decide)
    (g₂ ++ byte '$' :: (rs ++ (g₃ ++ [byte ')'])))
  have hdollar := afterGaps?_append h₂ (c := byte '$') (by decide) (rs ++ (g₃ ++ [byte ')']))
  have hclose := afterGaps?_append h₃ (c := byte ')') (by decide) []
  have hdsEmpty : ds.isEmpty = false := List.isEmpty_eq_false_iff.mpr hds_ne
  cases negative with
  | true =>
    simp only [indexed?, if_true, List.singleton_append, List.head?_cons, beq_self_eq_true,
      List.tail_cons, htake, hdrop, hopen, Option.bind_eq_bind, Option.bind_some, hdollar, htakeReg,
      hdropReg, hclose, hdsEmpty, List.isEmpty_nil, Bool.not_true, Bool.false_or, Bool.or_false]
  | false =>
    -- The operand starts with a digit, so that no sign is taken off.
    obtain ⟨d, ds', rfl⟩ := List.exists_cons_of_ne_nil hds_ne
    have hd : (d == byte '-') = false :=
      beq_false_of_ne (ne_of_test (hds d List.mem_cons_self) (by decide))
    have hhead :
        ((d :: ds' ++ (g₁ ++ byte '(' :: (g₂ ++ byte '$' :: (rs ++ (g₃ ++ [byte ')']))))).head?
          == some (byte '-')) = false := by
      simpa using hd
    simp only [indexed?, Bool.false_eq_true, if_false, List.nil_append, hhead, htake, hdrop, hopen,
      Option.bind_eq_bind, Option.bind_some, hdollar, htakeReg, hdropReg, hclose, hdsEmpty,
      List.isEmpty_nil, Bool.not_true, Bool.false_or, Bool.or_false]

/-- An offset and a base register as they are written, `offset($base)`. -/
def memoryText (offset : Int) (base : Reg) : Text :=
  Text.ofInt offset ++ "(" ++ regText base ++ ")"

/-- The parts of an offset and a base register as they are written. -/
theorem indexed?_memoryText (offset : Int) (base : Reg) :
    indexed? (memoryText offset base) =
      some ⟨decide (offset < 0), Text.decimal offset.natAbs, Text.decimal base.val⟩ := by
  have hnone : ∀ b ∈ ([] : Text), isGap b = true := fun b hb => nomatch hb
  have hparts := indexed?_of_parts (decide (offset < 0))
    (fun b hb => Text.isDigit_of_mem_decimal (n := offset.natAbs) hb) (Text.digits_ne_nil 10 _)
    (fun b hb => Text.isDigit_of_mem_decimal (n := base.val) hb) hnone hnone hnone
  have hregister : (Text.decimal base.val).isEmpty = false :=
    List.isEmpty_eq_false_iff.mpr (Text.digits_ne_nil 10 _)
  rw [hregister, if_neg Bool.false_ne_true] at hparts
  rw [← hparts]
  congr 1
  unfold memoryText Text.ofInt regText
  split <;> rename_i h <;> simp [h] <;> rfl

/-- A memory operand is read back, if its offset has 64 bits. -/
theorem parseMemory_memoryText {offset : Int} (hwide : isWide offset = true) (base : Reg) :
    parseMemory [memoryText offset base] = .ok (offset, base) := by
  have hvalue : Indexed.value ⟨decide (offset < 0), Text.decimal offset.natAbs,
      Text.decimal base.val⟩ = offset := by
    have hdecimal : Text.value 10 (Text.decimal offset.natAbs) = offset.natAbs :=
      Text.value_map_toDigits Text.spells_byte (by decide) (by decide) _
    simp only [Indexed.value, hdecimal, decide_eq_true_eq]
    split <;> omega
  have hbase : parseRegister (byte '$' :: Text.decimal base.val) = .ok base :=
    parseRegister_regText base
  simp only [parseMemory, indexed?_memoryText, hvalue, hwide, hbase]
  rfl

/-- A memory operand is a plain operand. -/
theorem plainOperand_memoryText (offset : Int) (base : Reg) :
    PlainOperand (memoryText offset base) where
  ne_nil := by
    simp [memoryText, (plainOperand_ofInt offset).ne_nil]
  plain := by
    intro b hb
    have hopen : Text.ofString "(" = [byte '('] := rfl
    have hclose : Text.ofString ")" = [byte ')'] := rfl
    simp only [memoryText, hopen, hclose, List.mem_append, List.mem_singleton] at hb
    rcases hb with ((hb | rfl) | hb) | rfl
    · exact (plainOperand_ofInt offset).plain b hb
    · decide
    · exact (plainOperand_regText base).plain b hb
    · decide

end WordMachine.Asm
