import WordMachine.Proofs.Arithmetic
import WordMachine.Proofs.Ticks

/-!
# What executing a word can change

A word that cannot be executed is known by its fields, two registers and the size of the data memory
(`Machine.Refuses`), and changes nothing. Any other word counts as one tick, and writes at most one
register, which is never register 0, and at most one word of the data memory (`Machine.Confined`).

* `Machine.rejects_ofWord_iff`: the words that cannot be executed, by their fields.
* `Monitor.get_zero_of_reachable`: register 0 is zero whatever a machine executes after a reset.
* `Monitor.execute_atomic`: executing a word is atomic and local.
-/

namespace WordMachine

/-! ## Words that cannot be executed -/

/-- The arithmetic unit has no result for an operation without meaning, `8 ≤ fn`, and for a division
by `b = 0`. -/
theorem evalAlu_error_iff (fn : Nat) (a b : Word) (shamt : Nat) :
    (∃ fault, evalAlu fn a b shamt = .error fault) ↔ 8 ≤ fn ∨ (fn = AluOp.div.code ∧ b = 0) := by
  simp only [evalAlu_eq_error_iff]
  constructor
  · rintro ⟨fault, ⟨-, hfn⟩ | ⟨-, hfn, hb⟩⟩
    · exact .inl (by omega)
    · exact .inr ⟨Int.ofNat_inj.mp hfn, hb⟩
  · rintro (hfn | ⟨rfl, hb⟩)
    · exact ⟨.undefined, .inl ⟨rfl, .inr (by omega)⟩⟩
    · exact ⟨.divideByZero, .inr ⟨rfl, rfl, hb⟩⟩

namespace Machine

/-- The machine has no effect for the instruction, but a fault. -/
def Rejects (m : Machine) : Instr → Prop
  | .alu fn _ _ rt _ => 8 ≤ fn ∨ (fn = AluOp.div.code ∧ m.regs.get rt = 0)
  | .lw _ rs imm | .sw _ rs imm => m.data.size ≤ (m.regs.get rs + Word.ofInt imm).toNat
  | .undefined _ => True
  | _ => False

theorem effect_error_iff (m : Machine) (i : Instr) :
    (∃ fault, m.effect i = .error fault) ↔ m.Rejects i := by
  cases i with
  | alu fn rd rs rt shamt =>
    rw [Rejects, ← evalAlu_error_iff fn (m.regs.get rs) (m.regs.get rt) shamt, effect]
    rcases evalAlu fn (m.regs.get rs) (m.regs.get rt) shamt with fault | value
    · simp
    · simp
  | lw rd rs imm =>
    rw [Rejects, effect, Memory.load]
    generalize m.regs.get rs + Word.ofInt imm = address
    by_cases hsize : address.toNat < m.data.size
    · simp [hsize]
    · have hle := Nat.le_of_not_lt hsize
      simp [hle]
  | sw rd rs imm =>
    rw [Rejects, effect]
    generalize m.regs.get rs + Word.ofInt imm = address
    by_cases hsize : address.toNat < m.data.size
    · simp [Memory.covers, hsize]
    · have hle := Nat.le_of_not_lt hsize
      simp [Memory.covers, hsize, hle]
  | undefined w => simp [Rejects, effect]
  | _ => simp [Rejects, effect]

/-- The address of a load or store `w`: the base register and the signed immediate, modulo
`2 ^ 32`. -/
def accessAddress (m : Machine) (w : Word) : Int :=
  ((m.regs.get (Field.rs.reg w)).toNat + signExtend 17 (Field.imm.get w)) % 2 ^ 32

/-- The word `w` cannot be executed: no operation has its number, or the arithmetic unit has no
result for it, or its address lies outside the data memory. -/
def Refuses (m : Machine) (w : Word) : Prop :=
  (∀ op : Operation, Field.op.get w ≠ op.code) ∨
    (Field.op.get w = Operation.rtype.code ∧
      (8 ≤ Field.aluOp.get w ∨
        (Field.aluOp.get w = AluOp.div.code ∧ m.regs.get (Field.rt.reg w) = 0))) ∨
    ((Field.op.get w = Operation.lw.code ∨ Field.op.get w = Operation.sw.code) ∧
      m.data.size ≤ m.accessAddress w)

theorem toNat_accessAddress (m : Machine) (w : Word) :
    ((m.regs.get (Field.rs.reg w) + Word.ofInt w.immediate).toNat : Int) = m.accessAddress w := by
  rw [Word.immediate_eq, add_immediate, Word.toNat_ofInt]
  rfl

theorem rejects_ofWord_iff (m : Machine) (w : Word) : m.Rejects (Instr.ofWord w) ↔ m.Refuses w := by
  have haddress := m.toNat_accessAddress w
  unfold Instr.ofWord Refuses
  cases hop : Operation.ofCode? (Field.op.get w) with
  | none =>
    have hnone : ∀ op : Operation, Field.op.get w ≠ op.code := by
      intro op hcode
      rw [hcode, Operation.ofCode?_code] at hop
      cases hop
    exact ⟨fun _ => .inl hnone, fun _ => trivial⟩
  | some op =>
    have hcode : ∀ other : Operation, Field.op.get w = other.code ↔ op = other := by
      intro other
      rw [Operation.eq_code_of_ofCode? hop]
      exact Operation.code_inj
    simp only [ne_eq, hcode, ← haddress, Nat.cast_le, forall_eq', false_or]
    cases op <;>
      simp only [Rejects, reduceCtorEq, false_and, true_and, false_or, or_false, or_true]

/-! ## What an effect leaves alone -/

/-- Only the instruction `sw` has a store among its effects. -/
theorem sw_of_store {m : Machine} {i : Instr} {e : Effect} (h : m.effect i = .ok e)
    (hstore : e.store ≠ none) : ∃ rd rs imm, i = .sw rd rs imm := by
  cases i with
  | sw rd rs imm => exact ⟨rd, rs, imm, rfl⟩
  | alu fn rd rs rt shamt =>
    simp only [effect] at h
    split at h
    · cases h
      exact absurd rfl hstore
    · cases h
  | lw rd rs imm =>
    simp only [effect] at h
    split at h
    · cases h
      exact absurd rfl hstore
    · cases h
  | undefined w => cases h
  | _ =>
    simp only [effect, Except.ok.injEq] at h
    rw [← h] at hstore
    exact absurd rfl hstore

theorem op_of_ofWord_sw {w : Word} {rd rs : Reg} {imm : Int} (h : Instr.ofWord w = .sw rd rs imm) :
    Field.op.get w = Operation.sw.code := by
  unfold Instr.ofWord at h
  cases hop : Operation.ofCode? (Field.op.get w) with
  | none =>
    rw [hop] at h
    cases h
  | some op =>
    rw [hop] at h
    cases op with
    | sw => exact Operation.eq_code_of_ofCode? hop
    | _ => cases h

/-- A write leaves all registers alone but one, `r`, which is not register 0. -/
theorem exists_get_writeReg (regs : Vector Word 32) (write : Option (Reg × Word)) :
    ∃ r, r ≠ Reg.zero ∧ ∀ other, other ≠ r → (writeReg regs write).get other = regs.get other := by
  rcases write with _ | ⟨rd, value⟩
  · exact ⟨Reg.link, by decide, fun _ _ => rfl⟩
  · by_cases hzero : rd = Reg.zero
    · refine ⟨Reg.link, by decide, fun other _ => ?_⟩
      rw [writeReg, if_pos hzero]
    · refine ⟨rd, hzero, fun other hother => ?_⟩
      rw [writeReg, if_neg hzero]
      exact Vector.getElem_set_ne _ _ fun h => hother (Fin.ext h.symm)

/-- A store leaves all words alone but one, at `address`. -/
theorem exists_getElem?_writeData (data : Memory) (store : Option (Word × Word)) :
    ∃ address : Nat, ∀ k, k ≠ address → (writeData data store)[k]? = data[k]? := by
  rcases store with _ | ⟨address, value⟩
  · exact ⟨0, fun _ _ => rfl⟩
  · refine ⟨address.toNat, fun k hk => ?_⟩
    exact Array.getElem?_setIfInBounds_ne hk.symm

/-! ## What executing a word leaves alone -/

/-- What the word `w` does to a machine `m` that executes it, and all that it leaves alone. -/
structure Confined (m : Machine) (w : Word) (after : Machine) (error : Option ExecError) :
    Prop where
  /-- It is known beforehand whether the word can be executed. -/
  fails_iff : error ≠ none ↔ m.Refuses w
  /-- The error carries the word, and nothing has changed. -/
  failed : ∀ e, error = some e → e.word = w ∧ after = m
  ticks : error = none → after.ticks = m.ticks + 1
  /-- At most one register changes, and it is not register 0. -/
  regs : error = none →
    ∃ r, r ≠ Reg.zero ∧ ∀ other, other ≠ r → after.regs.get other = m.regs.get other
  /-- At most one word of the data memory changes. -/
  data : error = none → ∃ address : Nat, ∀ k, k ≠ address → after.data[k]? = m.data[k]?
  /-- Only a store changes the data memory. -/
  store : after.data ≠ m.data → Field.op.get w = Operation.sw.code
  /-- The instruction memory stays, and so does the size of the data memory. -/
  memories : after.code = m.code ∧ after.data.size = m.data.size

theorem confined_execute (m : Machine) (w : Word) :
    m.Confined w (m.execute w).1 (m.execute w).2 := by
  have hmemories := m.execute_memories w
  have hrefuses := (m.effect_error_iff (.ofWord w)).trans (m.rejects_ofWord_iff w)
  rcases m.execute_cases w with ⟨effect, heffect, hexecute⟩ | ⟨fault, heffect, hexecute⟩
  · rw [hexecute] at hmemories ⊢
    refine ⟨?_, ?_, fun _ => rfl, fun _ => exists_get_writeReg m.regs effect.register,
      fun _ => exists_getElem?_writeData m.data effect.store, ?_, hmemories⟩
    · rw [← hrefuses, heffect]
      simp
    · rintro e ⟨⟩
    · intro hdata
      have hstore : effect.store ≠ none := by
        intro hnone
        apply hdata
        show writeData m.data effect.store = m.data
        rw [hnone]
        rfl
      obtain ⟨rd, rs, imm, hsw⟩ := sw_of_store heffect hstore
      exact op_of_ofWord_sw hsw
  · rw [hexecute] at hmemories ⊢
    refine ⟨?_, ?_, ?_, ?_, ?_, fun hdata => absurd rfl hdata, hmemories⟩
    · rw [← hrefuses, heffect]
      simp
    · rintro e ⟨⟩
      exact ⟨rfl, rfl⟩
    all_goals rintro ⟨⟩

/-- No word `w` changes register 0. -/
theorem get_zero_execute (m : Machine) (w : Word) :
    (m.execute w).1.regs.get Reg.zero = m.regs.get Reg.zero := by
  have hconfined := m.confined_execute w
  cases herror : (m.execute w).2 with
  | none =>
    obtain ⟨r, hr, hregs⟩ := hconfined.regs herror
    exact hregs Reg.zero hr.symm
  | some e => rw [(hconfined.failed e herror).2]

end Machine

namespace Monitor

/-- The states that ticks and words lead to after a reset. -/
inductive Reachable : Monitor → Prop
  | reset (m : Monitor) : Reachable m.reset
  | tick {m : Monitor} (h : Reachable m) : Reachable m.tick.1
  | execute {m : Monitor} (h : Reachable m) (w : Word) : Reachable (m.execute w).1

theorem get_zero_tick (m : Monitor) :
    m.tick.1.machine.regs.get Reg.zero = m.machine.regs.get Reg.zero := by
  rw [m.tick_eq.1, Machine.next]
  split
  · rfl
  · exact m.machine.get_zero_execute _

theorem get_zero_of_reachable {m : Monitor} (h : m.Reachable) :
    m.machine.regs.get Reg.zero = 0 := by
  induction h with
  | reset m =>
    rw [machine_reset]
    rfl
  | @tick m _ ih => rw [get_zero_tick, ih]
  | @execute m _ w ih => rw [(m.execute_eq w).1, Machine.get_zero_execute, ih]

/-- **Executing a word is atomic and local**: a word `w` that cannot be executed, which its fields,
two registers and the size of the data memory tell, changes nothing, and any other word changes no
more than one register other than register 0 and one word of the data memory. So register 0 is zero
in every state after a reset. -/
theorem execute_atomic (m : Monitor) :
    (∀ w, m.machine.Confined w (m.execute w).1.machine (m.execute w).2) ∧
      (m.Reachable → m.machine.regs.get Reg.zero = 0) := by
  constructor
  · intro w
    obtain ⟨hmachine, herror⟩ := m.execute_eq w
    rw [hmachine, herror]
    exact m.machine.confined_execute w
  · exact get_zero_of_reachable

/-- After `addi $2, $0, 5` the load `lw $1, -6($2)` is from the address below zero, which is the
last one of 32 bits, on a machine that keeps a log. -/
theorem execute_atomic_load :
    let m : Monitor :=
      ((reset { machine := { data := #[3, 4] }, verbose := true }).execute 0x28800005).1
    m.Reachable ∧ m.machine.regs.get 2 = 5 ∧ m.machine.ticks = 1 ∧
      m.machine.regs.get Reg.zero = 0 ∧ m.machine.Refuses 0x4045fffa ∧
      (m.execute 0x4045fffa).2 = some ⟨0x4045fffa, .address ⟨0xffffffff⟩⟩ ∧
      (m.execute 0x4045fffa).1.machine = m.machine := by
  intro m
  have hreachable : m.Reachable := .execute (.reset _) 0x28800005
  have herror : (m.execute 0x4045fffa).2 = some ⟨0x4045fffa, .address ⟨0xffffffff⟩⟩ := by
    decide +kernel
  have hconfined := (execute_atomic m).1 0x4045fffa
  refine ⟨hreachable, by decide +kernel, by decide +kernel, (execute_atomic m).2 hreachable,
    hconfined.fails_iff.mp ?_, herror, (hconfined.failed _ herror).2⟩
  rw [herror]
  simp

end Monitor

end WordMachine
