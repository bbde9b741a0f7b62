import WordMachine.Proofs.Reference

/-!
# The arithmetic unit over the integers

`exactAlu` says what each operation of the arithmetic unit means for integers without a bound: sums,
products, floors and truncated quotients.

* `evalAlu_eq`: the unit gives exactly these numbers modulo `2 ^ 32`.
* `evalAlu_eq_error_iff`: it has no result exactly for a division by zero and for the numbers that
  name no operation.
* `evalAlu_exact`: both together, with the one quotient that is no signed number of 32 bits.
-/

namespace WordMachine

/-! ## Exact results -/

/-- The exact result of the operation with the number `n` on two words, given as natural numbers `a`
and `b` below `2 ^ 32`, or its fault. A product, a quotient and a shift to the right read the words
in two's complement; the shift rounds down and the quotient rounds toward zero. -/
def exactAlu (n : Int) (a b shamt : Nat) : Except AluFault Int :=
  match n with
  | 0 => .ok (if shamt = 0 then a + b else a * 2 ^ shamt)
  | 1 => .ok (a - b)
  | 2 => .ok (a &&& b : Nat)
  | 3 => .ok (a ||| b : Nat)
  | 4 => .ok (a * 2 ^ shamt)
  | 5 => .ok ((signExtend 32 a).fdiv (2 ^ shamt))
  | 6 => .ok (signExtend 32 a * signExtend 32 b)
  | 7 => if b = 0 then .error .divideByZero else .ok ((signExtend 32 a).tdiv (signExtend 32 b))
  | _ => .error .undefined

section Results

variable (a b : Word) (shamt : Nat)

/-- Each operation gives the residue of its exact result, `exactAlu op.code`. -/
theorem AluOp.eval_exact (op : AluOp) :
    op.eval a b shamt = (exactAlu op.code a.toNat b.toNat shamt).map Word.ofInt := by
  cases op with
  | add =>
    by_cases hshamt : shamt = 0
    · simp [eval, exactAlu, code, hshamt, Except.map, Word.add_eq]
    · simp [eval, exactAlu, code, hshamt, Except.map, Word.shiftLeft_eq]
  | sub => exact congrArg Except.ok (Word.sub_eq a b)
  | and => exact congrArg Except.ok (Word.and_eq a b)
  | or => exact congrArg Except.ok (Word.or_eq a b)
  | sll => exact congrArg Except.ok (Word.shiftLeft_eq a shamt)
  | sra =>
    have hfloor : a.signed / 2 ^ shamt = (signExtend 32 a.toNat).fdiv (2 ^ shamt) := by
      rw [← a.signed_eq, Int.fdiv_eq_ediv_of_nonneg _ (by positivity)]
    rw [eval, Word.shiftRight_eq, hfloor]
    rfl
  | mul =>
    rw [eval, Word.mul_eq, a.signed_eq, b.signed_eq]
    rfl
  | div =>
    have hzero : b = 0 ↔ b.toNat = 0 := by
      rw [← UInt32.toNat_inj, UInt32.toNat_zero]
    by_cases hb : b = 0
    · simp [eval, exactAlu, code, hb, Except.map]
    · simp [eval, exactAlu, code, hb, hzero.not.mp hb, Except.map, Word.signed_eq]

/-! ## Numbers and operations -/

theorem exists_aluOp_code {n : Int} (hlow : 0 ≤ n) (hhigh : n ≤ 7) : ∃ op : AluOp, n = op.code := by
  interval_cases n
  · exact ⟨.add, rfl⟩
  · exact ⟨.sub, rfl⟩
  · exact ⟨.and, rfl⟩
  · exact ⟨.or, rfl⟩
  · exact ⟨.sll, rfl⟩
  · exact ⟨.sra, rfl⟩
  · exact ⟨.mul, rfl⟩
  · exact ⟨.div, rfl⟩

theorem AluOp.code_le (op : AluOp) : op.code ≤ 7 := by
  cases op <;> decide

/-- A number `n` outside the range from 0 to 7 names no operation. -/
theorem evalAlu_outside {n : Int} (h : n < 0 ∨ 7 < n) :
    evalAlu n a b shamt = .error .undefined := by
  have hnone : (if n < 0 then none else AluOp.ofCode? n.toNat) = none := by
    split
    · rfl
    · cases hop : AluOp.ofCode? n.toNat with
      | none => rfl
      | some op =>
        have hcode := AluOp.eq_code_of_ofCode? hop
        have hle := op.code_le
        omega
  simp only [evalAlu, hnone]

theorem exactAlu_outside {n : Int} (h : n < 0 ∨ 7 < n) (x y : Nat) :
    exactAlu n x y shamt = .error .undefined := by
  unfold exactAlu
  split
  case h_9 => rfl
  all_goals omega

/-- **The arithmetic unit gives the residue of the exact result**, and the same faults as
`exactAlu`. -/
theorem evalAlu_eq (n : Int) :
    evalAlu n a b shamt = (exactAlu n a.toNat b.toNat shamt).map Word.ofInt := by
  by_cases h : n < 0 ∨ 7 < n
  · rw [evalAlu_outside a b shamt h, exactAlu_outside shamt h]
    rfl
  · obtain ⟨op, rfl⟩ := exists_aluOp_code (n := n) (by omega) (by omega)
    rw [evalAlu_code, op.eval_exact]

/-! ## Faults -/

theorem AluOp.eval_eq_error_iff (op : AluOp) (fault : AluFault) :
    op.eval a b shamt = .error fault ↔ op = .div ∧ b = 0 ∧ fault = .divideByZero := by
  cases op with
  | div =>
    by_cases hb : b = 0
    · simp [eval, hb, eq_comm]
    · simp [eval, hb]
  | _ => simp [eval]

/-- What the arithmetic unit has no result for: a division, `n = 7`, by `b = 0`, and numbers of no
operation. -/
theorem evalAlu_eq_error_iff (n : Int) (fault : AluFault) :
    evalAlu n a b shamt = .error fault ↔
      (fault = .undefined ∧ (n < 0 ∨ 7 < n)) ∨ (fault = .divideByZero ∧ n = 7 ∧ b = 0) := by
  by_cases h : n < 0 ∨ 7 < n
  · rw [evalAlu_outside a b shamt h]
    have hne : n ≠ 7 := by omega
    simp [h, hne, eq_comm]
  · obtain ⟨op, rfl⟩ := exists_aluOp_code (n := n) (by omega) (by omega)
    rw [evalAlu_code, op.eval_eq_error_iff]
    have hdiv : op = .div ↔ (op.code : Int) = 7 := by
      cases op <;> decide
    rw [hdiv]
    tauto

end Results

/-- The least number divided by minus one gives `2 ^ 31`, which is no signed number of 32 bits. -/
theorem evalAlu_least_quotient (shamt : Nat) :
    evalAlu 7 0x80000000 0xffffffff shamt = .ok 0x80000000 := by
  show AluOp.div.eval 0x80000000 0xffffffff shamt = _
  rw [AluOp.eval, if_neg (by decide)]
  exact congrArg Except.ok (by decide +kernel)

/-- **The arithmetic unit computes with integers modulo `2 ^ 32`**: for every number `n` of an
operation, all words `a` and `b` and every shift amount it gives the exact result modulo `2 ^ 32`.
It fails only for a division by zero and for a number outside 0 to 7; the one quotient that is no
signed number of 32 bits is given too. -/
theorem evalAlu_exact (n : Int) (a b : Word) (shamt : Nat) :
    (evalAlu n a b shamt).map (fun w => (w.toNat : Int)) =
      (exactAlu n a.toNat b.toNat shamt).map (· % 2 ^ 32) ∧
    (evalAlu n a b shamt = .error .divideByZero ↔ n = 7 ∧ b = 0) ∧
    (evalAlu n a b shamt = .error .undefined ↔ n < 0 ∨ 7 < n) ∧
    evalAlu 7 0x80000000 0xffffffff shamt = .ok 0x80000000 := by
  refine ⟨?_, ?_, ?_, evalAlu_least_quotient shamt⟩
  · rw [evalAlu_eq]
    cases exactAlu n a.toNat b.toNat shamt with
    | ok value => exact congrArg Except.ok (Word.toNat_ofInt value)
    | error fault => rfl
  · simp [evalAlu_eq_error_iff]
  · simp [evalAlu_eq_error_iff]

end WordMachine
