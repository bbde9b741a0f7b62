import WordMachine.Proofs.Encode

/-!
# Operands and their ranges

Registers and memory operands by their grammar, as the literals are in `WordMachine.Proofs.Literal`.
Two numbers are checked for their range besides the number of a register. A shift amount is checked
after it has been reduced to 64 bits, so that a number far beyond 31 is accepted if its low 64 bits
are small (`encode_shift_amount_iff`, `encode_shift_beyond_range`). An offset in front of
parentheses is checked before, so that a number beyond 64 bits is refused there, although it is
accepted as an operand of its own (`parseMemory_spellings_iff`, `parseMemory_beyond_range`).
-/

namespace WordMachine.Asm

open Text (byte isDigit Numeral)

/-! ## Registers -/

/-- The registers as they are written: a dollar sign and the digits `ds` of a number `n < 32`. -/
inductive Register : Text → Reg → Prop
  | mk {ds : Text} {n : Nat} (hds : Numeral 10 ds n) (hn : n < 32) :
      Register (byte '$' :: ds) ⟨n, hn⟩

/-- **A text is read as the register `r` exactly if it is written so.** -/
theorem parseRegister_eq_ok_iff {t : Text} {r : Reg} : parseRegister t = .ok r ↔ Register t r := by
  constructor
  · intro h
    rcases t with _ | ⟨sign, ds⟩
    · cases h
    · unfold parseRegister at h
      dsimp only at h
      split at h
      · cases h
      · rename_i n hn
        obtain ⟨hsign, hvalue⟩ := Option.ite_none_right_eq_some.mp hn
        split at h
        · rename_i hlt
          cases h
          rw [eq_of_beq hsign]
          exact .mk ((Text.numeral_iff (by decide)).mpr hvalue) hlt
        · cases h
  · rintro ⟨hds, hn⟩
    have hvalue := (Text.numeral_iff (by decide)).mp hds
    simp only [parseRegister, beq_self_eq_true, if_true, hvalue, hn, dite_true]

/-- What is not a register is refused as `.notRegister`. -/
theorem parseRegister_eq_error {t : Text} (h : ∀ r, ¬Register t r) :
    parseRegister t = .error (.notRegister t) := by
  cases hread : parseRegister t with
  | ok r => exact absurd (parseRegister_eq_ok_iff.mp hread) (h r)
  | error fault =>
    rcases t with _ | ⟨sign, ds⟩
    · exact hread.symm
    · unfold parseRegister at hread
      dsimp only at hread
      split at hread
      · exact hread.symm
      · split at hread
        · cases hread
        · exact hread.symm

/-! ## Immediates -/

/-- A literal of the integer `i` is read as the low 64 bits of `i`. -/
theorem Literal.parseImmediate_eq_ok {t : Text} {i : Int} (h : Literal t i) :
    parseImmediate t = .ok (i.bmod 0x10000000000000000) := by
  rw [parseImmediate_eq, literal?_eq_some_iff.mpr h, Option.elim_some]

/-- What is not a literal is refused as `.notImmediate`. -/
theorem parseImmediate_eq_error {t : Text} (h : ∀ i, ¬Literal t i) :
    parseImmediate t = .error (.notImmediate t) := by
  have hnone : literal? t = none := by
    rw [Option.eq_none_iff_forall_ne_some]
    intro i hi
    exact h i (literal?_eq_some_iff.mp hi)
  rw [parseImmediate_eq, hnone, Option.elim_none]

/-- A text is a decimal numeral exactly if it is made of digits, and it has some; `Text.value` is
its value. -/
theorem numeral_ten_iff {t : Text} {n : Nat} :
    Numeral 10 t n ↔ t ≠ [] ∧ (∀ b ∈ t, isDigit b = true) ∧ Text.value 10 t = n := by
  rw [Text.numeral_iff (by decide), Text.natOf?_eq_some_iff]
  simp only [Text.isDigitOf_ten]

/-- There is no parenthesis in a literal. -/
theorem Literal.not_mem_paren {t : Text} {i : Int} (h : Literal t i) : byte '(' ∉ t := by
  -- A byte of a numeral is a digit of its base.
  have hdigits : ∀ {base : Nat} {ds : Text} {n : Nat}, base ≤ 16 → Numeral base ds n →
      byte '(' ∉ ds := by
    intro base ds n hbase hds hmem
    have hn := (Text.numeral_iff (by omega)).mp hds
    have hdigit := (Text.natOf?_eq_some_iff.mp hn).2.1 _ hmem
    rcases Text.isDigit_or_isLetter_of_isDigitOf hbase hdigit with h | h
    · exact absurd h (by decide)
    · exact absurd h (by decide)
  cases h with
  | hex hx hds =>
    rcases hx with rfl | rfl
    all_goals simp [hdigits (by decide) hds, show byte '(' ≠ byte '0' by decide,
      show byte '(' ≠ byte 'x' by decide, show byte '(' ≠ byte 'X' by decide]
  | unsigned hds => exact hdigits (by decide) hds
  | plus hds => simp [hdigits (by decide) hds, show byte '(' ≠ byte '+' by decide]
  | minus hds => simp [hdigits (by decide) hds, show byte '(' ≠ byte '-' by decide]

/-! ## Memory operands -/

/-- The offsets in front of a register in parentheses: decimal digits `ds` with an optional minus
sign. -/
inductive Offset : Text → Int → Prop
  | unsigned {ds : Text} {n : Nat} (hds : Numeral 10 ds n) : Offset ds n
  | minus {ds : Text} {n : Nat} (hds : Numeral 10 ds n) : Offset (byte '-' :: ds) (-n)

/-- An offset is a literal, with the same value. -/
theorem Offset.literal {t : Text} {v : Int} (h : Offset t v) : Literal t v := by
  cases h with
  | unsigned hds => exact .unsigned hds
  | minus hds => exact .minus hds

/-- A text that is made of `isGap` bytes. -/
def Gaps (t : Text) : Prop :=
  ∀ b ∈ t, isGap b = true

/-- The operands of the form `offset($register)`, with the value of the offset and the digits of the
register. Gaps may stand before the opening parenthesis and inside the parentheses. -/
inductive IsIndexed : Text → Int → Text → Prop
  | mk {offset g₁ g₂ rs g₃ : Text} {v : Int} (hoffset : Offset offset v) (h₁ : Gaps g₁)
      (h₂ : Gaps g₂) (hrs : ∀ b ∈ rs, isDigit b = true) (hrs_ne : rs ≠ []) (h₃ : Gaps g₃) :
      IsIndexed (offset ++ g₁ ++ "(" ++ g₂ ++ "$" ++ rs ++ g₃ ++ ")") v rs

/-- What is found after gaps has gaps `g` in front of it. -/
theorem exists_gaps_of_afterGaps? {c : UInt8} {t rest : Text} (h : afterGaps? c t = some rest) :
    ∃ g, Gaps g ∧ t = g ++ c :: rest := by
  refine ⟨t.takeWhile isGap, fun b hb => List.mem_takeWhile_imp hb, ?_⟩
  unfold afterGaps? at h
  split at h
  · cases h
  · rename_i a rest' hdrop
    obtain ⟨hac, hrest⟩ := Option.ite_none_right_eq_some.mp h
    rw [← Option.some.inj hrest, ← eq_of_beq hac, ← hdrop, List.takeWhile_append_dropWhile]

/-- A minus sign that is taken off stood in front. -/
theorem sign_append_tail (t : Text) :
    (if t.head? == some (byte '-') then [byte '-'] else []) ++
      (if t.head? == some (byte '-') then t.tail else t) = t := by
  rcases t with _ | ⟨b, t⟩
  · rfl
  · by_cases hb : b = byte '-'
    · simp [hb]
    · simp [hb]

/-- The parts that `indexed?` finds make up the operand. -/
theorem exists_parts_of_indexed? {t : Text} {i : Indexed} (h : indexed? t = some i) :
    (∀ b ∈ i.offset, isDigit b = true) ∧ i.offset ≠ [] ∧
      (∀ b ∈ i.register, isDigit b = true) ∧ i.register ≠ [] ∧
      ∃ g₁ g₂ g₃, Gaps g₁ ∧ Gaps g₂ ∧ Gaps g₃ ∧
        t = (if i.negative then [byte '-'] else []) ++ (i.offset ++ (g₁ ++ byte '(' ::
          (g₂ ++ byte '$' :: (i.register ++ (g₃ ++ [byte ')']))))) := by
  simp only [indexed?, Option.bind_eq_bind, Option.bind_eq_some_iff, Option.ite_none_left_eq_some,
    Option.some.injEq] at h
  obtain ⟨t₁, hopen, t₂, hdollar, t₃, hclose, hparts, rfl⟩ := h
  simp only [Bool.or_eq_true, List.isEmpty_iff, Bool.not_eq_true', not_or,
    List.isEmpty_eq_false_iff, not_not] at hparts
  obtain ⟨⟨hds_ne, hrs_ne⟩, rfl⟩ := hparts
  obtain ⟨g₁, h₁, hg₁⟩ := exists_gaps_of_afterGaps? hopen
  obtain ⟨g₂, h₂, rfl⟩ := exists_gaps_of_afterGaps? hdollar
  obtain ⟨g₃, h₃, hg₃⟩ := exists_gaps_of_afterGaps? hclose
  refine ⟨fun b hb => List.mem_takeWhile_imp hb, hds_ne, fun b hb => List.mem_takeWhile_imp hb,
    hrs_ne, g₁, g₂, g₃, h₁, h₂, h₃, ?_⟩
  dsimp only
  rw [← hg₃, List.takeWhile_append_dropWhile, ← hg₁, List.takeWhile_append_dropWhile]
  exact (sign_append_tail t).symm

/-- An offset is a sign and digits, and `Text.signed` gives its value. -/
theorem offset_iff {t : Text} {v : Int} :
    Offset t v ↔ ∃ negative ds, (∀ b ∈ ds, isDigit b = true) ∧ ds ≠ [] ∧
      t = (if negative then [byte '-'] else []) ++ ds ∧
      v = Text.signed negative (Text.value 10 ds) := by
  constructor
  · intro h
    cases h with
    | unsigned hds =>
      obtain ⟨hne, hdigits, rfl⟩ := numeral_ten_iff.mp hds
      exact ⟨false, _, hdigits, hne, rfl, rfl⟩
    | minus hds =>
      obtain ⟨hne, hdigits, rfl⟩ := numeral_ten_iff.mp hds
      exact ⟨true, _, hdigits, hne, rfl, rfl⟩
  · rintro ⟨negative, ds, hdigits, hne, rfl, rfl⟩
    have hds : Numeral 10 ds (Text.value 10 ds) := numeral_ten_iff.mpr ⟨hne, hdigits, rfl⟩
    cases negative with
    | true => exact .minus hds
    | false => exact .unsigned hds

/-- **An operand has the form `offset($register)` exactly if `indexed?` finds its parts.** -/
theorem isIndexed_iff {t : Text} {v : Int} {rs : Text} :
    IsIndexed t v rs ↔ ∃ i, indexed? t = some i ∧ i.value = v ∧ i.register = rs := by
  constructor
  · rintro ⟨hoffset, h₁, h₂, hrs, hrs_ne, h₃⟩
    obtain ⟨negative, ds, hds, hds_ne, rfl, rfl⟩ := offset_iff.mp hoffset
    refine ⟨⟨negative, ds, rs⟩, ?_, rfl, rfl⟩
    have hparts := indexed?_of_parts negative hds hds_ne hrs h₁ h₂ h₃
    rw [List.isEmpty_eq_false_iff.mpr hrs_ne, if_neg Bool.false_ne_true] at hparts
    rw [← hparts]
    simp only [List.append_assoc]
    rfl
  · rintro ⟨i, hi, rfl, rfl⟩
    obtain ⟨hds, hds_ne, hrs, hrs_ne, g₁, g₂, g₃, h₁, h₂, h₃, rfl⟩ := exists_parts_of_indexed? hi
    have hoffset : Offset ((if i.negative then [byte '-'] else []) ++ i.offset) i.value :=
      offset_iff.mpr ⟨i.negative, i.offset, hds, hds_ne, rfl, rfl⟩
    have hindexed := IsIndexed.mk hoffset h₁ h₂ hrs hrs_ne h₃
    simp only [List.append_assoc] at hindexed
    exact hindexed

/-- An operand that is not of the form `offset($register)` has no parts. -/
theorem indexed?_eq_none {t : Text} (h : ∀ v rs, ¬IsIndexed t v rs) : indexed? t = none := by
  rw [Option.eq_none_iff_forall_ne_some]
  intro i hi
  exact h i.value i.register (isIndexed_iff.mpr ⟨i, hi, rfl, rfl⟩)

/-- A literal is not of the form `offset($register)`. -/
theorem Literal.not_isIndexed {t : Text} {i : Int} (h : Literal t i) (v : Int) (rs : Text) :
    ¬IsIndexed t v rs := by
  rintro ⟨hoffset, h₁, h₂, hrs, hrs_ne, h₃⟩
  apply h.not_mem_paren
  simp [show Text.ofString "(" = [byte '('] from rfl]

/-! ### Reading them -/

theorem isWide_iff {v : Int} : isWide v = true ↔ -2 ^ 63 ≤ v ∧ v < 2 ^ 63 := by
  simp only [isWide, Bool.and_eq_true, decide_eq_true_eq]
  omega

section Reading

variable {first : Text}

/-- An offset in front of a register stands for itself, if `-2 ^ 63 ≤ v` and `v < 2 ^ 63`. -/
theorem parseMemory_of_isIndexed {v : Int} {rs : Text} (h : IsIndexed first v rs) :
    parseMemory [first] =
      if -2 ^ 63 ≤ v ∧ v < 2 ^ 63 then (parseRegister (byte '$' :: rs)).map fun r => (v, r)
      else .error (.notMemoryOperand first) := by
  obtain ⟨i, hi, rfl, rfl⟩ := isIndexed_iff.mp h
  simp only [parseMemory, hi, List.isEmpty_nil, Bool.not_true, Bool.false_eq_true, if_false,
    ← isWide_iff]
  cases isWide i.value with
  | false => rfl
  | true =>
    show (parseRegister (byte '$' :: i.register) >>= fun r => pure (i.value, r)) = _
    rcases parseRegister (byte '$' :: i.register) with fault | r
    · rfl
    · rfl

/-- Nothing follows a register in parentheses: there is no operand `next`. -/
theorem parseMemory_indexed_extra {v : Int} {rs : Text} (h : IsIndexed first v rs) (next : Text)
    (rest : List Text) : parseMemory (first :: next :: rest) = .error .operandExtra := by
  obtain ⟨i, hi, -, -⟩ := isIndexed_iff.mp h
  simp only [parseMemory, hi, List.isEmpty_cons, Bool.not_false, if_true]

/-- No form has more than two operands. -/
theorem parseMemory_extra (first second third : Text) (rest : List Text) :
    parseMemory (first :: second :: third :: rest) = .error .operandExtra := by
  cases hfirst : indexed? first with
  | some i => simp only [parseMemory, hfirst, List.isEmpty_cons, Bool.not_false, if_true]
  | none => simp only [parseMemory, hfirst]

/-- A literal alone is an address, with `Reg.zero` for its base. -/
theorem parseMemory_of_literal {i : Int} (h : Literal first i) :
    parseMemory [first] = .ok (i.bmod 0x10000000000000000, Reg.zero) := by
  simp only [parseMemory, indexed?_eq_none h.not_isIndexed, h.parseImmediate_eq_ok]

/-- A literal and a register are an offset and its base. -/
theorem parseMemory_of_literal_register {i : Int} (h : Literal first i) (base : Text) :
    parseMemory [first, base] =
      (parseRegister base).map fun r => (i.bmod 0x10000000000000000, r) := by
  simp only [parseMemory, indexed?_eq_none h.not_isIndexed, h.parseImmediate_eq_ok]
  rcases parseRegister base with fault | r
  · rfl
  · rfl

/-- What is neither of the form `offset($register)` nor a literal is no memory operand. -/
theorem parseMemory_eq_error (hindexed : ∀ v rs, ¬IsIndexed first v rs)
    (hliteral : ∀ i, ¬Literal first i) {rest : List Text} (hrest : rest.length ≤ 1) :
    parseMemory (first :: rest) = .error (.notMemoryOperand first) := by
  rcases rest with _ | ⟨base, _ | ⟨third, rest⟩⟩
  · simp only [parseMemory, indexed?_eq_none hindexed, parseImmediate_eq_error hliteral]
  · simp only [parseMemory, indexed?_eq_none hindexed, parseImmediate_eq_error hliteral]
  · simp at hrest

end Reading

/-! ## Offsets out of range -/

section Spellings

variable {offset ds : Text} {v : Int}

/-- An offset and digits `ds` in parentheses are an operand of the form `offset($register)`, if
there are digits. -/
theorem isIndexed_joined (hoffset : Offset offset v) (hds : ∀ b ∈ ds, isDigit b = true) {w : Int}
    {rs : Text} :
    IsIndexed (offset ++ "($" ++ ds ++ ")") w rs ↔ ds ≠ [] ∧ w = v ∧ rs = ds := by
  obtain ⟨negative, os, hos, hos_ne, rfl, rfl⟩ := offset_iff.mp hoffset
  have hnone : ∀ b ∈ ([] : Text), isGap b = true := fun b hb => nomatch hb
  have hparts := indexed?_of_parts negative hos hos_ne hds hnone hnone hnone
  have hopen : Text.ofString "($" = [byte '(', byte '$'] := rfl
  have hclose : Text.ofString ")" = [byte ')'] := rfl
  rw [isIndexed_iff, hopen, hclose]
  simp only [List.append_assoc, List.cons_append, List.nil_append] at hparts ⊢
  rw [hparts]
  by_cases hempty : ds = []
  · simp [hempty]
  · rw [List.isEmpty_eq_false_iff.mpr hempty, if_neg Bool.false_ne_true]
    constructor
    · rintro ⟨i, hi, rfl, rfl⟩
      cases hi
      exact ⟨hempty, rfl, rfl⟩
    · rintro ⟨-, rfl, rfl⟩
      exact ⟨_, rfl, rfl, rfl⟩

/-- Without a register, what stands in parentheses is refused with some `fault`. -/
theorem parseMemory_joined_error (hoffset : Offset offset v) (hds : ∀ b ∈ ds, isDigit b = true)
    (hreg : ∀ r, ¬Register ("$" ++ ds) r) :
    ∃ fault, parseMemory [offset ++ "($" ++ ds ++ ")"] = .error fault := by
  by_cases hempty : ds = []
  · have hindexed : ∀ w rs, ¬IsIndexed (offset ++ "($" ++ ds ++ ")") w rs := by
      intro w rs h
      exact ((isIndexed_joined hoffset hds).mp h).1 hempty
    have hliteral : ∀ i, ¬Literal (offset ++ "($" ++ ds ++ ")") i := by
      intro i hi
      apply hi.not_mem_paren
      simp [show Text.ofString "($" = [byte '(', byte '$'] from rfl]
    exact ⟨_, parseMemory_eq_error hindexed hliteral (Nat.zero_le 1)⟩
  · have hread := parseMemory_of_isIndexed ((isIndexed_joined hoffset hds).mpr ⟨hempty, rfl, rfl⟩)
    have hbase : parseRegister (byte '$' :: ds) = .error (.notRegister (byte '$' :: ds)) :=
      parseRegister_eq_error hreg
    rw [hread, hbase]
    split
    · exact ⟨_, rfl⟩
    · exact ⟨_, rfl⟩

/-- A register in parentheses is read with its offset `v`, if the offset is in range. -/
theorem parseMemory_joined (hoffset : Offset offset v) (hds : ∀ b ∈ ds, isDigit b = true) {r : Reg}
    (hreg : Register ("$" ++ ds) r) :
    parseMemory [offset ++ "($" ++ ds ++ ")"] =
      if -2 ^ 63 ≤ v ∧ v < 2 ^ 63 then .ok (v, r)
      else .error (.notMemoryOperand (offset ++ "($" ++ ds ++ ")")) := by
  have hds_ne : ds ≠ [] := by
    cases hreg with
    | mk hnumeral => exact (numeral_ten_iff.mp hnumeral).1
  have hbase : parseRegister (byte '$' :: ds) = .ok r := parseRegister_eq_ok_iff.mpr hreg
  rw [parseMemory_of_isIndexed ((isIndexed_joined hoffset hds).mpr ⟨hds_ne, rfl, rfl⟩), hbase]
  rfl

/-- An offset and a register of its own are read with the low 64 bits `w` of the offset `v`. -/
theorem parseMemory_apart (hoffset : Offset offset v) {r : Reg} (hreg : Register ("$" ++ ds) r) :
    ∃ w, parseMemory [offset, "$" ++ ds] = .ok (w, r) ∧ w ≡ v [ZMOD 2 ^ 64] ∧
      -2 ^ 63 ≤ w ∧ w < 2 ^ 63 := by
  have hlow := Int.le_bmod (x := v) (m := 0x10000000000000000) (by decide)
  have hhigh := Int.bmod_lt (x := v) (m := 0x10000000000000000) (by decide)
  refine ⟨v.bmod 0x10000000000000000, ?_, Int.bmod_emod, by omega, by omega⟩
  rw [parseMemory_of_literal_register hoffset.literal, parseRegister_eq_ok_iff.mpr hreg]
  rfl

/-- **The two spellings of a memory operand agree exactly if its offset `v` is in range**, or if
both are refused for want of a register. Otherwise `offset($register)` is refused, and the offset as
an operand of its own is reduced to 64 bits. -/
theorem parseMemory_spellings_iff (hoffset : Offset offset v) (hds : ∀ b ∈ ds, isDigit b = true) :
    let joined := parseMemory [offset ++ "($" ++ ds ++ ")"]
    let apart := parseMemory [offset, "$" ++ ds]
    (joined.toOption = apart.toOption ↔
      (-2 ^ 63 ≤ v ∧ v < 2 ^ 63) ∨ ∀ r, ¬Register ("$" ++ ds) r) ∧
    ∀ r, Register ("$" ++ ds) r →
      (∃ w, apart = .ok (w, r) ∧ w ≡ v [ZMOD 2 ^ 64] ∧ -2 ^ 63 ≤ w ∧ w < 2 ^ 63) ∧
      (¬(-2 ^ 63 ≤ v ∧ v < 2 ^ 63) →
        joined = .error (.notMemoryOperand (offset ++ "($" ++ ds ++ ")"))) := by
  intro joined apart
  refine ⟨?_, ?_⟩
  · by_cases hsome : ∃ r, Register ("$" ++ ds) r
    · obtain ⟨r, hr⟩ := hsome
      have hjoined : joined = _ := parseMemory_joined hoffset hds hr
      obtain ⟨w, hapart, hmod, hlow, hhigh⟩ := parseMemory_apart hoffset hr
      by_cases hrange : -2 ^ 63 ≤ v ∧ v < 2 ^ 63
      · -- In range, the low 64 bits are the number itself.
        have hw : w = v := by
          unfold Int.ModEq at hmod
          omega
        rw [if_pos hrange] at hjoined
        refine iff_of_true ?_ (.inl hrange)
        rw [hjoined, show apart = .ok (w, r) from hapart, hw]
      · rw [if_neg hrange] at hjoined
        refine iff_of_false ?_ ?_
        · rw [hjoined, show apart = .ok (w, r) from hapart]
          rintro ⟨⟩
        · rintro (h | h)
          · exact hrange h
          · exact h r hr
    · have hnone : ∀ r, ¬Register ("$" ++ ds) r := fun r hr => hsome ⟨r, hr⟩
      obtain ⟨fault, hjoined⟩ := parseMemory_joined_error hoffset hds hnone
      have hapart : apart = _ := parseMemory_of_literal_register hoffset.literal ("$" ++ ds)
      rw [parseRegister_eq_error hnone] at hapart
      refine iff_of_true ?_ (.inr hnone)
      rw [show joined = .error fault from hjoined, hapart]
      rfl
  · intro r hr
    refine ⟨parseMemory_apart hoffset hr, fun hrange => ?_⟩
    have hjoined : joined = _ := parseMemory_joined hoffset hds hr
    rwa [if_neg hrange] at hjoined

end Spellings

/-- The lowest offset in range, and a register with zeros in front. -/
theorem parseMemory_spellings_iff_lowest :
    Offset "-9223372036854775808" (-9223372036854775808) ∧ Register "$007" 7 ∧
      (parseMemory ["-9223372036854775808($007)"]).toOption =
        (parseMemory ["-9223372036854775808", "$007"]).toOption := by
  have hoffset : Offset "-9223372036854775808" (-9223372036854775808) :=
    .minus ((Text.numeral_iff (by decide)).mpr (by decide +kernel))
  have hreg : Register "$007" 7 := parseRegister_eq_ok_iff.mp (by decide +kernel)
  have hds : ∀ b ∈ Text.ofString "007", isDigit b = true := by decide +kernel
  exact ⟨hoffset, hreg, (parseMemory_spellings_iff hoffset hds).1.mpr (.inl (by decide))⟩

/-- The least offset beyond the range is refused in front of parentheses and accepted otherwise. -/
theorem parseMemory_beyond_range :
    Offset "9223372036854775808" 9223372036854775808 ∧
      parseMemory ["9223372036854775808($1)"] =
        .error (.notMemoryOperand "9223372036854775808($1)") ∧
      parseMemory ["9223372036854775808", "$1"] = .ok (-9223372036854775808, 1) := by
  have hoffset : Offset "9223372036854775808" 9223372036854775808 :=
    .unsigned ((Text.numeral_iff (by decide)).mpr (by decide +kernel))
  exact ⟨hoffset, by decide +kernel, by decide +kernel⟩

/-! ## Shift amounts out of range -/

/-- A number `i` of 64 bits is a shift amount exactly if `i % 2 ^ 64` is. -/
theorem bmod_shift_iff (i : Int) :
    (0 ≤ i.bmod 0x10000000000000000 ∧ i.bmod 0x10000000000000000 ≤ 31 ↔ i % 2 ^ 64 ≤ 31) ∧
      (i % 2 ^ 64 ≤ 31 → i.bmod 0x10000000000000000 = i % 2 ^ 64) := by
  obtain ⟨w, hw⟩ : ∃ w, i.bmod 0x10000000000000000 = w := ⟨_, rfl⟩
  have hmod : w % 2 ^ 64 = i % 2 ^ 64 := hw ▸ Int.bmod_emod
  have hlow := Int.le_bmod (x := i) (m := 0x10000000000000000) (by decide)
  have hhigh := Int.bmod_lt (x := i) (m := 0x10000000000000000) (by decide)
  rw [hw] at hlow hhigh ⊢
  omega

section Shifts

variable {m : Mnemonic} {d s amount : Text} {rd rs : Reg} {i : Int}

/-- A shift by a literal `i` is encoded by `i % 2 ^ 64`, if that is a shift amount. -/
theorem encode_shift_literal {fn : AluOp} (hm : m.shiftOp? = some fn) (strict : Bool)
    (labels : Labels) (pc : Nat) (hd : Register d rd) (hs : Register s rs) (hi : Literal amount i) :
    encode strict labels pc ⟨m.name, [d, s, amount]⟩ =
      if i % 2 ^ 64 ≤ 31 then
        .ok ⟨(Instr.alu fn.code rd rs Reg.zero (i % 2 ^ 64).toNat).word, none⟩
      else .error (.notImmediate amount) := by
  have hd := parseRegister_eq_ok_iff.mpr hd
  have hs := parseRegister_eq_ok_iff.mpr hs
  have hamount := hi.parseImmediate_eq_ok
  obtain ⟨hiff, hvalue⟩ := bmod_shift_iff i
  split
  · rename_i hrange
    have hne : m ≠ .andi := by
      rintro rfl
      cases hm
    rw [hvalue hrange] at hamount hiff
    obtain ⟨hlow, hhigh⟩ := hiff.mpr hrange
    exact encode_of_reads (.shift hm hd hs hamount hlow hhigh) hne
  · rename_i hrange
    simp only [encode, Mnemonic.ofName?_name]
    cases m <;> cases hm <;>
      simp only [encodeShift, hd, hs, hamount, ok_bind, if_neg (mt hiff.mp hrange)] <;> rfl

/-- **A shift amount is checked after it has been reduced to 64 bits.** A literal is accepted
exactly if it is congruent to a number from 0 to 31 modulo 2^64, and this number is then the shift
amount; otherwise it is refused as no immediate. So the literals from 0 to 31 are told from all
others exactly except for those that are congruent to one of them. -/
theorem encode_shift_amount_iff (hm : m = .sll ∨ m = .sra) (strict : Bool) (labels : Labels)
    (pc : Nat) (hd : Register d rd) (hs : Register s rs) (hi : Literal amount i) :
    let result := encode strict labels pc ⟨m.name, [d, s, amount]⟩
    ((∃ e, result = .ok e) ↔ i % 2 ^ 64 ≤ 31) ∧
    (∀ e, result = .ok e → (Field.shamt.get e.code : Int) = i % 2 ^ 64) ∧
    ((∀ e, result ≠ .ok e) → result = .error (.notImmediate amount)) ∧
    (((∃ e, result = .ok e) ↔ 0 ≤ i ∧ i ≤ 31) ↔ 0 ≤ i ∧ i ≤ 31 ∨ 31 < i % 2 ^ 64) := by
  intro result
  obtain ⟨fn, hfn⟩ : ∃ fn, m.shiftOp? = some fn := by
    rcases hm with rfl | rfl
    · exact ⟨_, rfl⟩
    · exact ⟨_, rfl⟩
  have hresult : result = _ := encode_shift_literal hfn strict labels pc hd hs hi
  have hok : (∃ e, result = .ok e) ↔ i % 2 ^ 64 ≤ 31 := by
    rw [hresult]
    split
    · rename_i hrange
      exact iff_of_true ⟨_, rfl⟩ hrange
    · rename_i hrange
      refine iff_of_false ?_ hrange
      rintro ⟨e, he⟩
      cases he
  refine ⟨hok, ?_, ?_, ?_⟩
  · intro e he
    have hrange := hok.mp ⟨e, he⟩
    rw [hresult, if_pos hrange, Except.ok.injEq] at he
    rw [← he]
    show ((Field.shamt.get (Word.packR _ _ _ _ _) : Nat) : Int) = _
    rw [(Field.get_packR _ _ _ _ _).2.2.2.2.1]
    omega
  · intro hnone
    rw [hresult] at hnone ⊢
    split
    · rename_i hrange
      exact absurd (if_pos hrange) (hnone _)
    · rfl
  · rw [hok]
    omega

end Shifts

/-- The greatest shift amount, in hexadecimal. -/
theorem encode_shift_amount_iff_greatest :
    Register "$1" 1 ∧ Register "$02" 2 ∧ Literal "0x1F" 31 ∧
      ∃ e, encode true {} 0 ⟨"sra", ["$1", "$02", "0x1F"]⟩ = .ok e ∧
        Field.shamt.get e.code = 31 := by
  have hd : Register "$1" 1 := parseRegister_eq_ok_iff.mp (by decide +kernel)
  have hs : Register "$02" 2 := parseRegister_eq_ok_iff.mp (by decide +kernel)
  have hi : Literal "0x1F" 31 := literal?_eq_some_iff.mp (by decide +kernel)
  obtain ⟨hok, hfield, -, -⟩ := encode_shift_amount_iff (.inr rfl) true {} 0 hd hs hi
  obtain ⟨e, he⟩ := hok.mpr (by decide)
  exact ⟨hd, hs, hi, e, he, by exact_mod_cast hfield e he⟩

/-- A number far beyond 31 is accepted for its remainder. -/
theorem encode_shift_beyond_range :
    Register "$1" 1 ∧ Register "$2" 2 ∧ Literal "18446744073709551621" 18446744073709551621 ∧
      encode false {} 0 ⟨"sll", ["$1", "$2", "18446744073709551621"]⟩ = .ok ⟨0x00440280, none⟩ ∧
      Field.shamt.get 0x00440280 = 5 := by
  have hd : Register "$1" 1 := parseRegister_eq_ok_iff.mp (by decide +kernel)
  have hs : Register "$2" 2 := parseRegister_eq_ok_iff.mp (by decide +kernel)
  have hi : Literal "18446744073709551621" 18446744073709551621 :=
    literal?_eq_some_iff.mp (by decide +kernel)
  exact ⟨hd, hs, hi, by decide +kernel, by decide⟩

end WordMachine.Asm
