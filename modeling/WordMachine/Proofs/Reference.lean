import WordMachine.Proofs.Transfer

/-!
# The instruction set

A reference semantics of assembly language, by integers and without instruction words: `Asm.meaning`
says what a line with given operands does to the machine, and `Action.perform` carries it out. The
word that the assembler gives for a line has exactly this effect when it is executed:
`execute_encode`. It is assembled from one case for each way to read an instruction,
`execute_of_reads`.
-/

namespace WordMachine

open Asm

/-! ## Numbers -/

/-- The low `bits` of an integer, read in two's complement. -/
def signExtend (bits : Nat) (i : Int) : Int :=
  let r := i % 2 ^ bits
  if 2 * r < 2 ^ bits then r else r - 2 ^ bits

/-- Two's complement takes the balanced remainder modulo `2 ^ bits`. -/
theorem signExtend_eq_bmod (bits : Nat) (i : Int) : signExtend bits i = i.bmod (2 ^ bits) := by
  have hcast : ((2 ^ bits : Nat) : Int) = 2 ^ bits := by push_cast; rfl
  rw [signExtend, Int.bmod_def, hcast]
  generalize i % 2 ^ bits = r
  generalize (2 : Int) ^ bits = size
  split <;> split <;> omega

/-- The signed reading of a word is that of its 32 bits. -/
theorem Word.signed_eq (w : Word) : w.signed = signExtend 32 w.toNat := by
  rw [signExtend_eq_bmod]
  rfl

/-- The value of the register `r` as a natural number. -/
def Machine.unsigned (m : Machine) (r : Reg) : Int :=
  (m.regs.get r).toNat

/-- The value of the register `r` in two's complement. -/
def Machine.signed (m : Machine) (r : Reg) : Int :=
  signExtend 32 (m.unsigned r)

/-! ## Actions -/

/-- What an instruction does; numbers count modulo `2 ^ 32`. -/
inductive Action where
  /-- Goes on with the next instruction. -/
  | skip
  /-- Writes the number `value` to the register `rd`. -/
  | write (rd : Reg) (value : Int)
  /-- Writes the word at `address` to the register `rd`. -/
  | load (rd : Reg) (address : Int)
  /-- Stores the word of the register `rd` at `address`. -/
  | store (rd : Reg) (address : Int)
  /-- Goes on at `place`. -/
  | goto (place : Int)
  /-- Goes on at `place`, and keeps the address of the next instruction in the link register. -/
  | call (place : Int)
  deriving DecidableEq, Repr

/-- The registers with `value` in `rd`; register 0 is never written. -/
def Machine.regsWith (m : Machine) (rd : Reg) (value : Int) : Vector Word 32 :=
  .ofFn fun r => if r = rd ∧ r ≠ Reg.zero then Word.ofInt value else m.regs.get r

/-- The data memory with the word `value` at `address`. -/
def Machine.dataWith (m : Machine) (address value : Word) : Memory :=
  m.data.mapIdx fun k w => if k = address.toNat then value else w

/-- The machine after an action, or the fault that prevents it. Every action counts as a tick. -/
def Action.perform (m : Machine) : Action → Except Fault Machine
  | skip => .ok { m with pc := Word.ofInt (m.pc.toNat + 1), ticks := m.ticks + 1 }
  | write rd value =>
    .ok { m with pc := Word.ofInt (m.pc.toNat + 1), ticks := m.ticks + 1
                 regs := m.regsWith rd value }
  | load rd address =>
    match m.data[(Word.ofInt address).toNat]? with
    | some w => .ok { m with pc := Word.ofInt (m.pc.toNat + 1), ticks := m.ticks + 1
                             regs := m.regsWith rd w.toNat }
    | none => .error (.address ⟨Word.ofInt address⟩)
  | store rd address =>
    if (Word.ofInt address).toNat < m.data.size then
      .ok { m with pc := Word.ofInt (m.pc.toNat + 1), ticks := m.ticks + 1
                   data := m.dataWith (Word.ofInt address) (m.regs.get rd) }
    else .error (.address ⟨Word.ofInt address⟩)
  | goto place => .ok { m with pc := Word.ofInt place, ticks := m.ticks + 1 }
  | call place =>
    .ok { m with pc := Word.ofInt place, ticks := m.ticks + 1
                 regs := m.regsWith Reg.link (m.pc.toNat + 1) }

/-! ## Instructions -/

section Forms

variable {α β γ : Type}

/-- An instruction with one operand. -/
def Asm.one (first : Text → Except SourceFault α) (act : α → Action) :
    List Text → Except SourceFault Action
  | [a] => do return act (← first a)
  | operands => .error (countFault 1 operands)

/-- An instruction with three operands. -/
def Asm.three (first : Text → Except SourceFault α) (second : Text → Except SourceFault β)
    (third : Text → Except SourceFault γ) (act : α → β → γ → Action) :
    List Text → Except SourceFault Action
  | [a, b, c] => do return act (← first a) (← second b) (← third c)
  | operands => .error (countFault 3 operands)

/-- An instruction with a register and a place in memory, which has an offset and a base
register. -/
def Asm.access (act : Reg → Int → Reg → Action) : List Text → Except SourceFault Action
  | [] => .error .operandMissing
  | d :: rest => do
    let rd ← parseRegister d
    let (offset, base) ← parseMemory rest
    return act rd offset base

theorem Asm.one_eq_ok {first : Text → Except SourceFault α} {a : Text} {x : α}
    (hfirst : first a = .ok x) (act : α → Action) : one first act [a] = .ok (act x) := by
  simp only [one, hfirst, ok_bind]
  rfl

theorem Asm.three_eq_ok {first : Text → Except SourceFault α} {second : Text → Except SourceFault β}
    {third : Text → Except SourceFault γ} {a b c : Text} {x : α} {y : β} {z : γ}
    (hfirst : first a = .ok x) (hsecond : second b = .ok y) (hthird : third c = .ok z)
    (act : α → β → γ → Action) : three first second third act [a, b, c] = .ok (act x y z) := by
  simp only [three, hfirst, hsecond, hthird, ok_bind]
  rfl

theorem Asm.access_eq_ok {d : Text} {rest : List Text} {rd base : Reg} {offset : Int}
    (hd : parseRegister d = .ok rd) (hrest : parseMemory rest = .ok (offset, base))
    (act : Reg → Int → Reg → Action) : access act (d :: rest) = .ok (act rd offset base) := by
  simp only [access, hd, hrest, ok_bind]
  rfl

end Forms

/-- The place that the operand of a jump names: that of a label, or a literal. -/
def Asm.jumpTo (labels : Labels) (operand : Text) : Except SourceFault Int :=
  match labels.get? operand with
  | some place => .ok place
  | none => parseImmediate operand

/-- The distance that the operand of a branch at `pc` names, counted from the instruction at
`pc - 1`. -/
def Asm.branchBy (labels : Labels) (pc : Int) (operand : Text) : Except SourceFault Int :=
  match labels.get? operand with
  | some place => .ok (place - (pc - 1))
  | none => parseImmediate operand

/-- What an instruction with given operands does at `m.pc`. -/
def Asm.meaning (labels : Labels) (m : Machine) :
    Mnemonic → List Text → Except SourceFault Action
  | .add => three parseRegister parseRegister parseRegister fun rd rs rt =>
    .write rd (m.unsigned rs + m.unsigned rt)
  | .sub => three parseRegister parseRegister parseRegister fun rd rs rt =>
    .write rd (m.unsigned rs - m.unsigned rt)
  | .and => three parseRegister parseRegister parseRegister fun rd rs rt =>
    .write rd ((m.regs.get rs).toNat &&& (m.regs.get rt).toNat : Nat)
  | .or => three parseRegister parseRegister parseRegister fun rd rs rt =>
    .write rd ((m.regs.get rs).toNat ||| (m.regs.get rt).toNat : Nat)
  | .sll => three parseRegister parseRegister parseImmediate fun rd rs shamt =>
    .write rd (m.unsigned rs * 2 ^ shamt.toNat)
  | .sra => three parseRegister parseRegister parseImmediate fun rd rs shamt =>
    .write rd (m.signed rs / 2 ^ shamt.toNat)
  | .addi => three parseRegister parseRegister parseImmediate fun rd rs imm =>
    .write rd (m.unsigned rs + signExtend 17 imm)
  | .lw => access fun rd offset base => .load rd (m.unsigned base + signExtend 17 offset)
  | .sw => access fun rd offset base => .store rd (m.unsigned base + signExtend 17 offset)
  | .bne => three parseRegister parseRegister (branchBy labels m.pc.toNat) fun ra rb distance =>
    if m.unsigned ra ≠ m.unsigned rb then .goto (m.pc.toNat - 1 + signExtend 17 distance) else .skip
  | .blt => three parseRegister parseRegister (branchBy labels m.pc.toNat) fun ra rb distance =>
    if m.signed ra < m.signed rb then .goto (m.pc.toNat - 1 + signExtend 17 distance) else .skip
  | .j => one (jumpTo labels) fun place => .goto (place % 2 ^ 27)
  | .jal => one (jumpTo labels) fun place => .call (place % 2 ^ 27)
  | .bex => one (jumpTo labels) fun place =>
    if m.unsigned Reg.status ≠ 0 then .goto (place % 2 ^ 27) else .skip
  | .jr => one parseRegister fun rs => .goto (m.unsigned rs)
  | .setx => one parseImmediate fun imm => .write Reg.status (imm % 2 ^ 27)
  | .andi => three .ok .ok .ok fun _ _ _ => .skip

/-! ## Actions as effects -/

namespace Machine

/-- A write to a register, seen register by register. -/
theorem regsWith_eq (m : Machine) (rd : Reg) (value : Int) :
    m.regsWith rd value = writeReg m.regs (some (rd, Word.ofInt value)) := by
  rw [regsWith, writeReg]
  by_cases hzero : rd = Reg.zero
  · rw [if_pos hzero]
    apply Vector.ext
    intro k hk
    rw [Vector.getElem_ofFn, if_neg (fun h => h.2 (h.1.trans hzero))]
    rfl
  · rw [if_neg hzero]
    apply Vector.ext
    intro k hk
    rw [Vector.getElem_ofFn]
    by_cases heq : (⟨k, hk⟩ : Reg) = rd
    · subst heq
      rw [if_pos ⟨rfl, hzero⟩, Vector.getElem_set_self]
    · have hne : rd.val ≠ k := fun h => heq (Fin.ext h.symm)
      rw [if_neg (fun h => heq h.1), Vector.getElem_set_ne _ _ hne]
      rfl

/-- A store, seen address by address. -/
theorem dataWith_eq (m : Machine) (address value : Word) :
    m.dataWith address value = writeData m.data (some (address, value)) := by
  rw [dataWith, writeData, Memory.put]
  apply Array.ext
  · rw [Array.size_mapIdx, Array.size_setIfInBounds]
  · intro k hk hk'
    rw [Array.getElem_mapIdx, Array.getElem_setIfInBounds (by simpa using hk)]
    exact if_congr eq_comm rfl rfl

end Machine

/-- What the machine shows after an action that the word `w` stands for: its state, and the
fault. -/
def Action.outcome (m : Machine) (w : Word) (a : Action) : Machine × Option ExecError :=
  match a.perform m with
  | .ok m' => (m', none)
  | .error fault => (m, some ⟨w, fault⟩)

section Outcome

variable {m : Machine} {i : Instr}

/-- The next instruction stands at the next address. -/
theorem Machine.next_eq (m : Machine) : m.pc + 1 = Word.ofInt (m.pc.toNat + 1) :=
  Word.add_eq m.pc 1

theorem execute_skip (h : m.effect i.reduce = .ok { next := m.pc + 1 }) :
    m.execute i.word = Action.skip.outcome m i.word := by
  rw [m.execute_word h, m.next_eq]
  rfl

theorem execute_write {rd : Reg} {value : Int}
    (h : m.effect i.reduce =
      .ok { next := m.pc + 1, register := some (rd, Word.ofInt value) }) :
    m.execute i.word = (Action.write rd value).outcome m i.word := by
  rw [m.execute_word h, m.next_eq, Action.outcome, Action.perform, m.regsWith_eq]
  rfl

/-- A write to `Reg.zero` is no more than going on. -/
theorem write_zero_outcome (value : Int) {w : Word} :
    (Action.write Reg.zero value).outcome m w = Action.skip.outcome m w := by
  simp only [Action.outcome, Action.perform, m.regsWith_eq, Machine.writeReg, if_true]

theorem execute_goto {place : Int} (h : m.effect i.reduce = .ok { next := Word.ofInt place }) :
    m.execute i.word = (Action.goto place).outcome m i.word := by
  rw [m.execute_word h]
  rfl

theorem execute_call {place : Int}
    (h : m.effect i.reduce =
      .ok { next := Word.ofInt place, register := some (Reg.link, m.pc + 1) }) :
    m.execute i.word = (Action.call place).outcome m i.word := by
  rw [m.execute_word h, m.next_eq, Action.outcome, Action.perform, m.regsWith_eq]
  rfl

theorem execute_load {rd : Reg} {address : Int}
    (h : m.effect i.reduce =
      match m.data.load (Word.ofInt address) with
      | .ok value => .ok { next := m.pc + 1, register := some (rd, value) }
      | .error e => .error (.address e)) :
    m.execute i.word = (Action.load rd address).outcome m i.word := by
  cases hdata : m.data[(Word.ofInt address).toNat]? with
  | some w =>
    have heffect : m.effect i.reduce =
        .ok { next := m.pc + 1, register := some (rd, Word.ofInt w.toNat) } := by
      simp only [h, Memory.load, hdata, Word.ofInt_toNat]
    rw [execute_write heffect]
    simp only [Action.outcome, Action.perform, hdata]
  | none =>
    have hfault : m.effect i.reduce = .error (.address ⟨Word.ofInt address⟩) := by
      simp only [h, Memory.load, hdata]
    rw [m.execute_word_of_fault hfault]
    simp only [Action.outcome, Action.perform, hdata]

theorem execute_store {rd : Reg} {address : Int}
    (h : m.effect i.reduce =
      if m.data.covers (Word.ofInt address) then
        .ok { next := m.pc + 1, store := some (Word.ofInt address, m.regs.get rd) }
      else .error (.address ⟨Word.ofInt address⟩)) :
    m.execute i.word = (Action.store rd address).outcome m i.word := by
  by_cases hcovers : (Word.ofInt address).toNat < m.data.size
  · rw [if_pos (by simpa [Memory.covers] using hcovers)] at h
    rw [m.execute_word h, m.next_eq]
    simp only [Action.outcome, Action.perform, if_pos hcovers, m.dataWith_eq]
    rfl
  · rw [if_neg (by simpa [Memory.covers] using hcovers)] at h
    rw [m.execute_word_of_fault h]
    simp only [Action.outcome, Action.perform, if_neg hcovers]

end Outcome

/-! ## Operands of the two sides -/

/-- The immediate of a word is the sign extension of its 17 bits. -/
theorem add_immediate (m : Machine) (r : Reg) (imm : Int) :
    m.regs.get r + Word.ofInt (imm.bmod 0x20000) =
      Word.ofInt (m.unsigned r + signExtend 17 imm) := by
  rw [Word.add_ofInt, signExtend_eq_bmod]
  rfl

/-- The signed value of a register is the `signed` reading of its word. -/
theorem Machine.signed_eq (m : Machine) (r : Reg) : m.signed r = (m.regs.get r).signed :=
  (m.regs.get r).signed_eq.symm

/-- Registers have the same value if they hold the same word. -/
theorem Machine.unsigned_inj {m : Machine} {a b : Reg} :
    m.unsigned a = m.unsigned b ↔ m.regs.get a = m.regs.get b := by
  rw [unsigned, unsigned, Int.ofNat_inj, UInt32.toNat_inj]

theorem Machine.unsigned_eq_zero {m : Machine} {r : Reg} :
    m.unsigned r = 0 ↔ m.regs.get r = 0 := by
  rw [unsigned, Int.natCast_eq_zero, ← UInt32.toNat_inj, UInt32.toNat_zero]

/-- The target of a jump or branch is a label, or else a literal. -/
theorem target_cases {labels : Labels} {place : Text} {goal : Target}
    (h : target labels place = .ok goal) :
    (∃ v, labels.get? place = some v ∧ goal = .label v) ∨
      labels.get? place = none ∧ ∃ v, parseImmediate place = .ok v ∧ goal = .literal v := by
  cases hget : labels.get? place with
  | some v =>
    simp only [target, hget, Except.ok.injEq] at h
    exact .inl ⟨v, rfl, h.symm⟩
  | none =>
    simp only [target, hget] at h
    obtain ⟨v, hv, heq⟩ := bind_eq_ok.mp h
    cases heq
    exact .inr ⟨rfl, v, hv, rfl⟩

theorem branchBy_of_target {labels : Labels} {place : Text} {goal : Target}
    (h : target labels place = .ok goal) (pc : Nat) :
    branchBy labels pc place = .ok (goal.relative pc) := by
  rcases target_cases h with ⟨v, hget, rfl⟩ | ⟨hget, v, hv, rfl⟩
  · simp only [branchBy, hget, Target.relative]
  · simp only [branchBy, hget, hv, Target.relative]

theorem jumpTo_of_target {labels : Labels} {place : Text} {goal : Target}
    (h : target labels place = .ok goal) : jumpTo labels place = .ok goal.absolute := by
  rcases target_cases h with ⟨v, hget, rfl⟩ | ⟨hget, v, hv, rfl⟩
  · simp only [jumpTo, hget, Target.absolute]
  · simp only [jumpTo, hget, hv, Target.absolute]

/-! ## Arithmetic -/

/-- An instruction on three registers writes the result `value` of its operation `fn`. -/
theorem effect_alu (m : Machine) (fn : AluOp) (rd rs rt : Reg) {shamt : Nat} (hshamt : shamt < 32)
    {value : Word} (h : fn.eval (m.regs.get rs) (m.regs.get rt) shamt = .ok value) :
    m.effect (Instr.alu fn.code rd rs rt shamt).reduce =
      .ok { next := m.pc + 1, register := some (rd, value) } := by
  rw [reduce_alu fn rd rs rt hshamt]
  simp only [Machine.effect, evalAlu_code, h]

/-- A shift to the left is an addition of register 0 if `shamt` is zero. -/
theorem eval_sll (m : Machine) (hzero : m.regs.get Reg.zero = 0) (rs : Reg) (shamt : Nat) :
    AluOp.add.eval (m.regs.get rs) (m.regs.get Reg.zero) shamt =
      .ok (Word.ofInt (m.unsigned rs * 2 ^ shamt)) := by
  rw [AluOp.eval]
  split
  · rename_i hshamt
    rw [hshamt, hzero, pow_zero, mul_one, Machine.unsigned, Word.ofInt_toNat, UInt32.add_zero]
  · rw [Word.shiftLeft_eq]
    rfl

/-- A shift to the right divides by `2 ^ shamt`, and rounds down. -/
theorem eval_sra (m : Machine) (rs rt : Reg) (shamt : Nat) :
    AluOp.sra.eval (m.regs.get rs) (m.regs.get rt) shamt =
      .ok (Word.ofInt (m.signed rs / 2 ^ shamt)) := by
  rw [AluOp.eval, Word.shiftRight_eq, m.signed_eq]

/-! ## Execution -/

section Reads

variable {labels : Labels} {m : Machine} {b : Mnemonic} {operands : List Text}

/-- A conditional transfer either goes to its `place` or on to the next instruction. -/
theorem execute_transfer {i : Instr} {p q : Prop} [Decidable p] [Decidable q] (hpq : p ↔ q)
    {place : Int}
    (h : m.effect i.reduce = .ok { next := if p then Word.ofInt place else m.pc + 1 }) :
    m.execute i.word = (if q then Action.goto place else .skip).outcome m i.word := by
  by_cases hq : q
  · rw [if_pos (hpq.mpr hq)] at h
    rw [if_pos hq, execute_goto h]
  · rw [if_neg (mt hpq.mp hq)] at h
    rw [if_neg hq, execute_skip h]

/-- **The word of an instruction does what the instruction means**, if it `Reads` so. -/
theorem execute_of_reads {instr : Instr} (hzero : m.regs.get Reg.zero = 0)
    (h : Reads labels m.pc.toNat b operands instr) :
    ∃ action, meaning labels m b operands = .ok action ∧
      m.execute instr.word = action.outcome m instr.word := by
  cases h with
  | alu hfn hd hs ht =>
    cases b <;> cases hfn
    · exact ⟨_, three_eq_ok hd hs ht _,
        execute_write (effect_alu m _ _ _ _ (by decide) (congrArg Except.ok (Word.add_eq _ _)))⟩
    · exact ⟨_, three_eq_ok hd hs ht _,
        execute_write (effect_alu m _ _ _ _ (by decide) (congrArg Except.ok (Word.sub_eq _ _)))⟩
    · exact ⟨_, three_eq_ok hd hs ht _,
        execute_write (effect_alu m _ _ _ _ (by decide) (congrArg Except.ok (Word.and_eq _ _)))⟩
    · exact ⟨_, three_eq_ok hd hs ht _,
        execute_write (effect_alu m _ _ _ _ (by decide) (congrArg Except.ok (Word.or_eq _ _)))⟩
  | shift hfn hd hs hamount hlow hhigh =>
    cases b <;> cases hfn
    · exact ⟨_, three_eq_ok hd hs hamount _,
        execute_write (effect_alu m _ _ _ _ (by omega) (eval_sll m hzero _ _))⟩
    · exact ⟨_, three_eq_ok hd hs hamount _,
        execute_write (effect_alu m _ _ _ _ (by omega) (eval_sra m _ _ _))⟩
  | memory hmake hd hplace =>
    cases b <;> cases hmake
    · refine ⟨_, access_eq_ok hd hplace fun rd offset base =>
        .load rd (m.unsigned base + signExtend 17 offset), execute_load ?_⟩
      rw [← add_immediate]
      rfl
    · refine ⟨_, access_eq_ok hd hplace fun rd offset base =>
        .store rd (m.unsigned base + signExtend 17 offset), execute_store ?_⟩
      rw [← add_immediate]
      rfl
  | @branch _ make s d place rs rd goal hmake hs hd hgoal =>
    have heffect := m.effect_branch hmake rd rs (goal.relative m.pc.toNat)
    have hdistance : signExtend 17 (goal.relative m.pc.toNat) =
        (goal.relative m.pc.toNat).bmod 0x20000 := signExtend_eq_bmod 17 _
    rw [← hdistance] at heffect
    cases b <;> cases hmake
    · refine ⟨_, three_eq_ok hs hd (branchBy_of_target hgoal _) _, execute_transfer ?_ heffect⟩
      rw [Mnemonic.branches_bne, ne_comm, ne_eq, ne_eq, Machine.unsigned_inj]
    · refine ⟨_, three_eq_ok hs hd (branchBy_of_target hgoal _) _, execute_transfer ?_ heffect⟩
      rw [Mnemonic.branches_blt, m.signed_eq, m.signed_eq]
  | jump hmake hgoal =>
    cases b <;> cases hmake
    · exact ⟨_, one_eq_ok (jumpTo_of_target hgoal) _, execute_goto rfl⟩
    · exact ⟨_, one_eq_ok (jumpTo_of_target hgoal) _, execute_call rfl⟩
    · refine ⟨_, one_eq_ok (jumpTo_of_target hgoal) _, execute_transfer ?_ rfl⟩
      rw [ne_eq, ne_eq, Machine.unsigned_eq_zero]
  | addi hd hs hvalue =>
    refine ⟨_, three_eq_ok hd hs hvalue _, execute_write ?_⟩
    rw [← add_immediate]
    rfl
  | jr hs =>
    refine ⟨_, one_eq_ok hs _, execute_goto ?_⟩
    rw [Machine.unsigned, Word.ofInt_toNat]
    rfl
  | setx hvalue => exact ⟨_, one_eq_ok hvalue _, execute_write rfl⟩
  | andi =>
    -- The zero word is an addition into register 0, which drops the sum.
    refine ⟨_, three_eq_ok rfl rfl rfl fun _ _ _ => .skip, ?_⟩
    rw [← write_zero_outcome (m.unsigned Reg.zero + m.unsigned Reg.zero)]
    exact execute_write (effect_alu m _ _ _ _ (by decide) (congrArg Except.ok (Word.add_eq _ _)))

end Reads

/-- **Assembler and machine implement the instruction set.** The word that the line `i` is encoded
as has exactly the effect that the line means, from every state `m` at the line's program
counter. -/
theorem execute_encode (strict : Bool) (labels : Labels) (pc : Nat) (i : SourceInstr) (e : Encoding)
    (h : encode strict labels pc i = .ok e) (m : Machine) (hpc : m.pc.toNat = pc)
    (hzero : m.regs.get Reg.zero = 0) :
    ∃ b action, Mnemonic.ofName? i.mnemonic = some b ∧ meaning labels m b i.operands = .ok action ∧
      m.execute e.code =
        match action.perform m with
        | .ok m' => (m', none)
        | .error fault => (m, some ⟨e.code, fault⟩) := by
  subst hpc
  obtain ⟨b, instr, hname, hreads, hcode⟩ := reads_of_encode h
  obtain ⟨action, hmeaning, hexecute⟩ := execute_of_reads hzero hreads
  rw [hcode]
  exact ⟨b, action, hname, hmeaning, hexecute⟩

/-- A branch back to a label, taken because -31 is less than -1. -/
theorem execute_encode_blt :
    encode false ⟨[("top", 3)]⟩ 7 ⟨"blt", ["$31", "$1", "top"]⟩ = .ok ⟨0x307ffffd, none⟩ ∧
    ∃ m', Machine.execute ⟨7, .ofFn fun r => 0 - UInt32.ofNat r.val, 0, #[], #[]⟩ 0x307ffffd =
        (m', none) ∧ m'.pc = 3 ∧ m'.ticks = 1 := by
  have hencode : encode false ⟨[("top", 3)]⟩ 7 ⟨"blt", ["$31", "$1", "top"]⟩ =
      .ok ⟨0x307ffffd, none⟩ := by decide +kernel
  refine ⟨hencode, ?_⟩
  obtain ⟨b, action, hname, hmeaning, hexecute⟩ :=
    execute_encode false _ 7 _ _ hencode
      ⟨7, .ofFn fun r => 0 - UInt32.ofNat r.val, 0, #[], #[]⟩ rfl (by decide)
  have hb : b = .blt := Option.some.inj (hname.symm.trans (by decide))
  subst hb
  have haction : action = .goto 3 := Except.ok.inj (hmeaning.symm.trans (by decide +kernel))
  subst haction
  exact ⟨_, hexecute, rfl, rfl⟩

end WordMachine
