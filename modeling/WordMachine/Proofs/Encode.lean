import WordMachine.Asm.Encode
import WordMachine.Proofs.Operand
import WordMachine.Proofs.Packing

/-!
# What an encoded line stands for

`Reads` says which instruction a name and its operands stand for, one rule for each form of
operands.

* `reads_of_encode`: the encoder succeeds only on such lines, and the word that it gives is that of
  the instruction.
* `encode_of_reads`: it succeeds on all such lines whose instruction has an encoding.
-/

namespace WordMachine.Asm

/-! ## Results of computations that may fail -/

/-- A step that succeeds hands its result on. -/
theorem ok_bind {ε α β : Type} (a : α) (f : α → Except ε β) : (Except.ok a >>= f) = f a := rfl

/-- A sequence of two steps `x` and `f` succeeds if both do. -/
theorem bind_eq_ok {ε α β : Type} {x : Except ε α} {f : α → Except ε β} {b : β} :
    (x >>= f) = .ok b ↔ ∃ a, x = .ok a ∧ f a = .ok b := by
  cases x with
  | error e => simp [bind, Except.bind]
  | ok a => simp [bind, Except.bind]

/-- A step `x` whose result is changed by `f` succeeds if the step does. -/
theorem map_eq_ok {ε α β : Type} {x : Except ε α} {f : α → β} {b : β} :
    x.map f = .ok b ↔ ∃ a, x = .ok a ∧ f a = b := by
  cases x with
  | error e => simp [Except.map]
  | ok a => simp [Except.map]

/-- What is known of the result of a computation `x`, if it has one, is known of a result. -/
theorem exists_ok_of_toOption_map {ε α β : Type} {x : Except ε α} {f : α → β} {b : β}
    (h : x.toOption.map f = some b) : ∃ a, x = .ok a ∧ f a = b := by
  cases x with
  | error e => cases h
  | ok a => exact ⟨a, rfl, Option.some.inj h⟩

/-- The fault that a computation ends with, if it does not succeed. -/
def faultOf {α : Type} : Except SourceFault α → Option SourceFault
  | .ok _ => none
  | .error fault => some fault

section Faults

variable {α β : Type} {x : Except SourceFault α}

theorem faultOf_eq_none_iff : faultOf x = none ↔ ∃ a, x = .ok a := by
  cases x with
  | ok a => simp [faultOf]
  | error fault => simp [faultOf]

theorem faultOf_eq_some_iff {fault : SourceFault} : faultOf x = some fault ↔ x = .error fault := by
  cases x with
  | ok a => simp [faultOf]
  | error fault => simp [faultOf]

theorem faultOf_map (f : α → β) : faultOf (x.map f) = faultOf x := by
  cases x with
  | ok a => rfl
  | error fault => rfl

end Faults

/-! ## Families of instructions -/

namespace Mnemonic

/-- The arithmetic operation of an instruction on three registers, such as `add`. -/
def aluOp? : Mnemonic → Option AluOp
  | add => some .add
  | sub => some .sub
  | and => some .and
  | or => some .or
  | _ => none

/-- The arithmetic operation of a shift; `sll` is an addition with a shift amount. -/
def shiftOp? : Mnemonic → Option AluOp
  | sll => some .add
  | sra => some .sra
  | _ => none

/-- The load or store with two registers and an offset. -/
def memory? : Mnemonic → Option (Reg → Reg → Int → Instr)
  | lw => some .lw
  | sw => some .sw
  | _ => none

/-- The branch on two registers by a distance. -/
def branch? : Mnemonic → Option (Reg → Reg → Int → Instr)
  | bne => some .bne
  | blt => some .blt
  | _ => none

/-- The jump to a fixed place. -/
def jump? : Mnemonic → Option (Int → Instr)
  | j => some .j
  | jal => some .jal
  | bex => some .bex
  | _ => none

/-- The name of an instruction leads back to it. -/
theorem ofName?_name (m : Mnemonic) : ofName? m.name = some m := by
  cases m <;> decide

/-- The instruction with the name `name` has this name. -/
theorem name_of_ofName? {name : Text} {m : Mnemonic} (h : ofName? name = some m) :
    m.name = name := by
  simpa using List.find?_some h

/-- No two instructions have the same name. -/
theorem name_injective : Function.Injective name := by
  intro m m' h
  have hsome := ofName?_name m
  rw [h, ofName?_name, Option.some.injEq] at hsome
  exact hsome.symm

end Mnemonic

/-- The instruction that a name with operands stands for on a line at `pc`, with the `labels`. -/
inductive Reads (labels : Labels) (pc : Nat) : Mnemonic → List Text → Instr → Prop
  | alu {m : Mnemonic} {fn : AluOp} {d s t : Text} {rd rs rt : Reg} :
      m.aluOp? = some fn →
      parseRegister d = .ok rd → parseRegister s = .ok rs → parseRegister t = .ok rt →
      Reads labels pc m [d, s, t] (.alu fn.code rd rs rt 0)
  | shift {m : Mnemonic} {fn : AluOp} {d s amount : Text} {rd rs : Reg} {shamt : Int} :
      m.shiftOp? = some fn →
      parseRegister d = .ok rd → parseRegister s = .ok rs → parseImmediate amount = .ok shamt →
      0 ≤ shamt → shamt ≤ 31 →
      Reads labels pc m [d, s, amount] (.alu fn.code rd rs Reg.zero shamt.toNat)
  | memory {m : Mnemonic} {make : Reg → Reg → Int → Instr} {d first : Text} {rest : List Text}
      {rd rs : Reg} {offset : Int} :
      m.memory? = some make →
      parseRegister d = .ok rd → parseMemory (first :: rest) = .ok (offset, rs) →
      Reads labels pc m (d :: first :: rest) (make rd rs offset)
  | branch {m : Mnemonic} {make : Reg → Reg → Int → Instr} {s d place : Text} {rs rd : Reg}
      {goal : Target} :
      m.branch? = some make →
      parseRegister s = .ok rs → parseRegister d = .ok rd → target labels place = .ok goal →
      Reads labels pc m [s, d, place] (make rd rs (goal.relative pc))
  | jump {m : Mnemonic} {make : Int → Instr} {place : Text} {goal : Target} :
      m.jump? = some make → target labels place = .ok goal →
      Reads labels pc m [place] (make goal.absolute)
  | addi {d s value : Text} {rd rs : Reg} {imm : Int} :
      parseRegister d = .ok rd → parseRegister s = .ok rs → parseImmediate value = .ok imm →
      Reads labels pc .addi [d, s, value] (.addi rd rs imm)
  | jr {s : Text} {rs : Reg} :
      parseRegister s = .ok rs → Reads labels pc .jr [s] (.jr rs)
  | setx {value : Text} {imm : Int} :
      parseImmediate value = .ok imm → Reads labels pc .setx [value] (.setx imm)
  | andi {d s value : Text} :
      Reads labels pc .andi [d, s, value] (.alu AluOp.add.code Reg.zero Reg.zero Reg.zero 0)

/-- No line stands for a word `w` without a meaning. -/
theorem Reads.ne_undefined {labels : Labels} {pc : Nat} {m : Mnemonic} {operands : List Text}
    {instr : Instr} (h : Reads labels pc m operands instr) (w : Word) : instr ≠ .undefined w := by
  cases h with
  | memory hmake => cases m <;> cases hmake <;> exact Instr.noConfusion
  | branch hmake => cases m <;> cases hmake <;> exact Instr.noConfusion
  | jump hmake => cases m <;> cases hmake <;> exact Instr.noConfusion
  | alu | shift | addi | jr | setx | andi => exact Instr.noConfusion

/-- The operands `[s, d, place]` of a branch. -/
theorem Reads.of_branch {labels : Labels} {pc : Nat} {m : Mnemonic} {operands : List Text}
    {instr : Instr} {make : Reg → Reg → Int → Instr} (h : Reads labels pc m operands instr)
    (hm : m.branch? = some make) :
    ∃ s d place rs rd goal, operands = [s, d, place] ∧ parseRegister s = .ok rs ∧
      parseRegister d = .ok rd ∧ target labels place = .ok goal ∧
      instr = make rd rs (goal.relative pc) := by
  cases h with
  | branch hmake hs hd hgoal =>
    rw [hm, Option.some.injEq] at hmake
    exact ⟨_, _, _, _, _, _, rfl, hs, hd, hgoal, by rw [hmake]⟩
  | alu hfn => cases m <;> cases hm <;> cases hfn
  | shift hfn => cases m <;> cases hm <;> cases hfn
  | memory hmake => cases m <;> cases hm <;> cases hmake
  | jump hmake => cases m <;> cases hm <;> cases hmake
  | addi | jr | setx | andi => cases hm

/-- The operand `place` of a jump. -/
theorem Reads.of_jump {labels : Labels} {pc : Nat} {m : Mnemonic} {operands : List Text}
    {instr : Instr} {make : Int → Instr} (h : Reads labels pc m operands instr)
    (hm : m.jump? = some make) :
    ∃ place goal, operands = [place] ∧ target labels place = .ok goal ∧
      instr = make goal.absolute := by
  cases h with
  | jump hmake hgoal =>
    rw [hm, Option.some.injEq] at hmake
    exact ⟨_, _, rfl, hgoal, by rw [hmake]⟩
  | alu hfn => cases m <;> cases hm <;> cases hfn
  | shift hfn => cases m <;> cases hm <;> cases hfn
  | memory hmake => cases m <;> cases hm <;> cases hmake
  | branch hmake => cases m <;> cases hm <;> cases hmake
  | addi | jr | setx | andi => cases hm

/-! ## Numbers reduced to their fields -/

section Reduce

variable {m : Mnemonic}

theorem reduce_alu (fn : AluOp) (rd rs rt : Reg) {shamt : Nat} (h : shamt < 32) :
    (Instr.alu fn.code rd rs rt shamt).reduce = .alu fn.code rd rs rt shamt := by
  have hfn : fn.code % 32 = fn.code := by cases fn <;> rfl
  rw [Instr.reduce, hfn, Nat.mod_eq_of_lt h]

theorem reduce_memory {make : Reg → Reg → Int → Instr} (h : m.memory? = some make) (rd rs : Reg)
    (imm : Int) : (make rd rs imm).reduce = make rd rs (imm.bmod 0x20000) := by
  cases m <;> cases h <;> rfl

theorem reduce_branch {make : Reg → Reg → Int → Instr} (h : m.branch? = some make) (rd rs : Reg)
    (imm : Int) : (make rd rs imm).reduce = make rd rs (imm.bmod 0x20000) := by
  cases m <;> cases h <;> rfl

theorem reduce_jump {make : Int → Instr} (h : m.jump? = some make) (target : Int) :
    (make target).reduce = make (target % 0x8000000) := by
  cases m <;> cases h <;> rfl

end Reduce

/-! ## Operand lists of each form -/

section Forms

variable {labels : Labels} {pc : Nat} {operands : List Text} {instr : Instr}

theorem reads_of_encodeAlu {m : Mnemonic} {fn : AluOp} (hm : m.aluOp? = some fn)
    (h : encodeAlu fn operands = .ok instr) : Reads labels pc m operands instr := by
  unfold encodeAlu at h
  split at h
  · simp only [bind_eq_ok] at h
    obtain ⟨rd, hd, rs, hs, rt, ht, heq⟩ := h
    cases heq
    exact .alu hm hd hs ht
  · cases h

theorem reads_of_encodeShift {m : Mnemonic} {fn : AluOp} (hm : m.shiftOp? = some fn)
    (h : encodeShift fn operands = .ok instr) : Reads labels pc m operands instr := by
  unfold encodeShift at h
  split at h
  · simp only [bind_eq_ok] at h
    obtain ⟨rd, hd, rs, hs, shamt, hamount, heq⟩ := h
    split at heq
    · rename_i hrange
      cases heq
      exact .shift hm hd hs hamount hrange.1 hrange.2
    · cases heq
  · cases h

theorem reads_of_encodeMemory {m : Mnemonic} {make : Reg → Reg → Int → Instr}
    (hm : m.memory? = some make) (h : encodeMemory make operands = .ok instr) :
    Reads labels pc m operands instr := by
  unfold encodeMemory at h
  split at h
  · simp only [bind_eq_ok] at h
    obtain ⟨rd, hd, ⟨offset, rs⟩, hplace, heq⟩ := h
    cases heq
    exact .memory hm hd hplace
  · cases h

theorem reads_of_encodeBranch {m : Mnemonic} {make : Reg → Reg → Int → Instr}
    (hm : m.branch? = some make) (h : encodeBranch make labels pc operands = .ok instr) :
    Reads labels pc m operands instr := by
  unfold encodeBranch at h
  split at h
  · simp only [bind_eq_ok] at h
    obtain ⟨rs, hs, rd, hd, goal, hgoal, heq⟩ := h
    cases heq
    exact .branch hm hs hd hgoal
  · cases h

theorem reads_of_encodeJump {m : Mnemonic} {make : Int → Instr} (hm : m.jump? = some make)
    (h : encodeJump make labels operands = .ok instr) : Reads labels pc m operands instr := by
  unfold encodeJump at h
  split at h
  · simp only [bind_eq_ok] at h
    obtain ⟨goal, hgoal, heq⟩ := h
    cases heq
    exact .jump hm hgoal
  · cases h

theorem reads_of_encodeAddi (h : encodeAddi operands = .ok instr) :
    Reads labels pc .addi operands instr := by
  unfold encodeAddi at h
  split at h
  · simp only [bind_eq_ok] at h
    obtain ⟨rd, hd, rs, hs, imm, hvalue, heq⟩ := h
    cases heq
    exact .addi hd hs hvalue
  · cases h

theorem reads_of_encodeJr (h : encodeJr operands = .ok instr) :
    Reads labels pc .jr operands instr := by
  unfold encodeJr at h
  split at h
  · simp only [bind_eq_ok] at h
    obtain ⟨rs, hs, heq⟩ := h
    cases heq
    exact .jr hs
  · cases h

theorem reads_of_encodeSetx (h : encodeSetx operands = .ok instr) :
    Reads labels pc .setx operands instr := by
  unfold encodeSetx at h
  split at h
  · simp only [bind_eq_ok] at h
    obtain ⟨imm, hvalue, heq⟩ := h
    cases heq
    exact .setx hvalue
  · cases h

theorem reads_of_encodeAndi {strict : Bool} {e : Encoding}
    (h : encodeAndi strict operands = .ok e) :
    ∃ instr, Reads labels pc .andi operands instr ∧ e.code = instr.word := by
  unfold encodeAndi at h
  split at h
  · cases strict with
    | true => cases h
    | false =>
      cases h
      exact ⟨_, .andi, show (0 : Word) = Instr.word _ by decide⟩
  · cases h

end Forms

/-! ## Instruction lines -/

section Lines

variable {strict : Bool} {labels : Labels} {pc : Nat} {m : Mnemonic} {operands : List Text}

/-- The encoding of an instruction that is read as `r` is its word. -/
private theorem exists_reads_of_map {r : Except SourceFault Instr} {e : Encoding}
    (hr : ∀ {instr : Instr}, r = .ok instr → Reads labels pc m operands instr)
    (h : (r.map fun instr => (⟨instr.word, none⟩ : Encoding)) = .ok e) :
    ∃ instr, Reads labels pc m operands instr ∧ e.code = instr.word := by
  obtain ⟨instr, hinstr, rfl⟩ := map_eq_ok.mp h
  exact ⟨instr, hr hinstr, rfl⟩

/-- A line that is encoded stands for an instruction `instr`, whose word is the encoding. -/
theorem reads_of_encode {i : SourceInstr} {e : Encoding}
    (h : encode strict labels pc i = .ok e) :
    ∃ m instr, Mnemonic.ofName? i.mnemonic = some m ∧ Reads labels pc m i.operands instr ∧
      e.code = instr.word := by
  cases hm : Mnemonic.ofName? i.mnemonic with
  | none => simp [encode, hm] at h
  | some m =>
    suffices ∃ instr, Reads labels pc m i.operands instr ∧ e.code = instr.word by
      obtain ⟨instr, hreads, hcode⟩ := this
      exact ⟨m, instr, rfl, hreads, hcode⟩
    simp only [encode, hm] at h
    cases m with
    | add | sub | and | or => exact exists_reads_of_map (reads_of_encodeAlu rfl) h
    | sll | sra => exact exists_reads_of_map (reads_of_encodeShift rfl) h
    | lw | sw => exact exists_reads_of_map (reads_of_encodeMemory rfl) h
    | bne | blt => exact exists_reads_of_map (reads_of_encodeBranch rfl) h
    | j | jal | bex => exact exists_reads_of_map (reads_of_encodeJump rfl) h
    | addi => exact exists_reads_of_map reads_of_encodeAddi h
    | jr => exact exists_reads_of_map reads_of_encodeJr h
    | setx => exact exists_reads_of_map reads_of_encodeSetx h
    | andi => exact reads_of_encodeAndi h

/-- A line with the name of `m` that is encoded stands for an instruction of that name. -/
theorem reads_of_encode_name {e : Encoding}
    (h : encode strict labels pc ⟨m.name, operands⟩ = .ok e) :
    ∃ instr, Reads labels pc m operands instr ∧ e.code = instr.word := by
  obtain ⟨m', instr, hname, hreads, hcode⟩ := reads_of_encode h
  rw [Mnemonic.ofName?_name, Option.some.injEq] at hname
  subst hname
  exact ⟨instr, hreads, hcode⟩

/-- A line that stands for `instr` is encoded as its word, unless `m` has no encoding, being
`andi`. -/
theorem encode_of_reads {instr : Instr} (h : Reads labels pc m operands instr)
    (hm : m ≠ .andi) :
    encode strict labels pc ⟨m.name, operands⟩ = .ok ⟨instr.word, none⟩ := by
  simp only [encode, Mnemonic.ofName?_name]
  cases h with
  | alu hfn hd hs ht =>
    cases m <;> cases hfn <;> simp only [encodeAlu, hd, hs, ht, ok_bind] <;> rfl
  | shift hfn hd hs hamount hlow hhigh =>
    cases m <;> cases hfn <;>
      simp only [encodeShift, hd, hs, hamount, ok_bind, if_pos (And.intro hlow hhigh)] <;> rfl
  | memory hmake hd hplace =>
    cases m <;> cases hmake <;> simp only [encodeMemory, hd, hplace, ok_bind] <;> rfl
  | branch hmake hs hd hgoal =>
    cases m <;> cases hmake <;> simp only [encodeBranch, hs, hd, hgoal, ok_bind] <;> rfl
  | jump hmake hgoal => cases m <;> cases hmake <;> simp only [encodeJump, hgoal, ok_bind] <;> rfl
  | addi hd hs hvalue => simp only [encodeAddi, hd, hs, hvalue, ok_bind]; rfl
  | jr hs => simp only [encodeJr, hs, ok_bind]; rfl
  | setx hvalue => simp only [encodeSetx, hvalue, ok_bind]; rfl
  | andi => exact absurd rfl hm

end Lines

end WordMachine.Asm
