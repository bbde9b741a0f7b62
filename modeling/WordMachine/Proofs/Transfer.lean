import WordMachine.Machine.Basic
import WordMachine.Proofs.Assembly
import WordMachine.Proofs.Residue

/-!
# Control transfers

A branch to a label counts its distance from the instruction before it and keeps 17 bits of it; a
jump keeps 27 bits of the label. The machine adds the distance to the same place, so a transfer
lands on its label exactly if these bits hold the distance, or the label:
`Assembler.transfer_lands_on_label`, from `toNat_branch_eq_iff` and `toNat_jump_eq_iff`.
-/

namespace WordMachine

open Asm

/-! ## Reach -/

/-- The residue of a branch target is the label `v` exactly if the distance `v - (pc - 1)` has 17
bits. -/
theorem toNat_branch_eq_iff {pc v : Int} (hpc : 0 ≤ pc) (hpc' : pc < 2 ^ 31) (hv : 0 ≤ v)
    (hv' : v < 2 ^ 31) :
    ((Word.ofInt (pc - 1 + (v - (pc - 1)).bmod 0x20000)).toNat : Int) = v ↔
      -2 ^ 16 ≤ v - (pc - 1) ∧ v - (pc - 1) ≤ 2 ^ 16 - 1 := by
  rw [Word.toNat_ofInt, Int.bmod_def]
  split <;> omega

/-- The residue of a jump target is the label `v` exactly if `v < 2 ^ 27`. -/
theorem toNat_jump_eq_iff {v : Int} (hv : 0 ≤ v) :
    ((Word.ofInt (v % 0x8000000)).toNat : Int) = v ↔ v < 2 ^ 27 := by
  rw [Word.toNat_ofInt]
  omega

/-- A `label` that is an operand is the target. -/
theorem Asm.target_of_get? {labels : Labels} {label : Text} {v : Int}
    (h : labels.get? label = some v) : target labels label = .ok (.label v) := by
  simp only [target, h]

/-! ## Execution of a transfer -/

/-- The comparison that a branch makes of its two registers. -/
def Asm.Mnemonic.branches : Mnemonic → Word → Word → Bool
  | .bne, a, b => a != b
  | .blt, a, b => a.signed < b.signed
  | _, _, _ => false

theorem Asm.Mnemonic.branches_bne (a b : Word) : Mnemonic.bne.branches a b = true ↔ b ≠ a := by
  rw [branches, bne_iff_ne, ne_comm]

theorem Asm.Mnemonic.branches_blt (a b : Word) :
    Mnemonic.blt.branches a b = true ↔ a.signed < b.signed := by
  rw [branches, decide_eq_true_iff]

namespace Machine

theorem apply_pc (m : Machine) (e : Effect) : (m.apply e).pc = e.next := rfl

/-- A word has the effect `e` of the instruction that it was packed from, with its numbers
reduced. -/
theorem execute_word {m : Machine} {i : Instr} {e : Effect} (h : m.effect i.reduce = .ok e) :
    m.execute i.word = (m.apply e, none) := by
  simp only [execute, Instr.ofWord_word, h]

/-- An instruction without an effect changes nothing. -/
theorem execute_word_of_fault {m : Machine} {i : Instr} {fault : Fault}
    (h : m.effect i.reduce = .error fault) : m.execute i.word = (m, some ⟨i.word, fault⟩) := by
  simp only [execute, Instr.ofWord_word, h]

/-- A branch only chooses where the machine goes on. -/
theorem effect_branch (m : Machine) {b : Mnemonic} {make : Reg → Reg → Int → Instr}
    (hb : b.branch? = some make) (rd rs : Reg) (imm : Int) :
    m.effect (make rd rs imm).reduce =
      .ok { next := if b.branches (m.regs.get rs) (m.regs.get rd) then
              Word.ofInt (m.pc.toNat - 1 + imm.bmod 0x20000)
            else m.pc + 1 } := by
  rw [← Word.sub_one_add_ofInt, reduce_branch hb]
  cases b <;> cases hb
  · simp only [effect, branchTarget, Mnemonic.branches_bne]
  · simp only [effect, branchTarget, Mnemonic.branches_blt]

/-- Where a jump goes on, unless it is `bex` and the status register is zero. -/
theorem execute_jump (m : Machine) {b : Mnemonic} {make : Int → Instr} (hb : b.jump? = some make)
    (hstatus : b = .bex → m.regs.get Reg.status ≠ 0) (target : Int) :
    ∃ m', m.execute (make target).word = (m', none) ∧ m'.pc = Word.ofInt (target % 0x8000000) := by
  cases b <;> cases hb
  · exact ⟨_, execute_word rfl, rfl⟩
  · exact ⟨_, execute_word rfl, rfl⟩
  · exact ⟨_, execute_word rfl, if_pos (hstatus rfl)⟩

end Machine

/-! ## Landing on labels -/

/-- The program counters of an accepted source: of an entry, and of a label. -/
theorem Assembler.Assembled.pc_range {strict : Bool} {lines : List SourceLine} {p : Program}
    {n : Nat} (h : Assembled strict lines p) (hn : Numbered lines n) :
    (∀ entry ∈ p.entries, 0 ≤ entry.pc ∧ entry.pc < p.entries.size) ∧
      ∀ label v, p.labels.get? label = some v → 0 ≤ v ∧ v ≤ p.entries.size := by
  rw [h.size_entries hn]
  refine ⟨?_, ?_⟩
  · intro entry hentry
    have hmem : entry.pc ∈ p.entries.toList.map (·.pc) :=
      List.mem_map_of_mem (Array.mem_toList_iff.mpr hentry)
    rw [h.map_pc_entries hn] at hmem
    obtain ⟨k, hk, hpc⟩ := List.mem_map.mp hmem
    rw [← hpc]
    exact ⟨Int.natCast_nonneg k, Int.ofNat_lt.mpr (List.mem_range.mp hk)⟩
  · intro label v hget
    rw [h.labels] at hget
    obtain ⟨line, hline, -, rfl⟩ := exists_line_of_get?_ofLines hget
    exact ⟨Int.natCast_nonneg _, Int.ofNat_le.mpr (hn.bounded line hline)⟩

/-- **Control transfers to labels land on them.** An `entry` of an accepted source whose target is a
label is executed without an error. A branch that is taken lands on the label `v` exactly if the
distance `v - (entry.pc - 1)` fits 17 bits; a jump lands on it exactly if `v` fits 27 bits. -/
theorem Assembler.transfer_lands_on_label (asm : Assembler) (input : Input) (p : Program)
    (h : (asm.parse input).result = .ok p) (hsize : p.entries.size < 2 ^ 31)
    (entry : Entry) (hentry : entry ∈ p.entries) (label : Text) (v : Int)
    (hlabel : p.labels.get? label = some v) (m : Machine) (hpc : (m.pc.toNat : Int) = entry.pc) :
    (∀ (b : Mnemonic) (s d : Text), b = .bne ∨ b = .blt → entry.words = [b.name, s, d, label] →
      ∃ rs rd m', parseRegister s = .ok rs ∧ parseRegister d = .ok rd ∧
        m.execute entry.code = (m', none) ∧
        if b.branches (m.regs.get rs) (m.regs.get rd) then
          (m'.pc.toNat : Int) = v ↔
            -2 ^ 16 ≤ v - (entry.pc - 1) ∧ v - (entry.pc - 1) ≤ 2 ^ 16 - 1
        else m'.pc = m.pc + 1) ∧
    (∀ b : Mnemonic, b = .j ∨ b = .jal ∨ b = .bex ∧ m.regs.get Reg.status ≠ 0 →
      entry.words = [b.name, label] →
      ∃ m', m.execute entry.code = (m', none) ∧ ((m'.pc.toNat : Int) = v ↔ v < 2 ^ 27)) := by
  have hassembled := assembled_of_parse h
  obtain ⟨hentries, hlabels⟩ := hassembled.pc_range (Scan.numbered_ofInput input)
  obtain ⟨hpc_low, hpc_high⟩ := hentries entry hentry
  obtain ⟨hv_low, hv_high⟩ := hlabels label v hlabel
  obtain ⟨line, -, ⟨name, operands⟩, e, -, hencode, rfl⟩ := hassembled.exists_line_of_mem hentry
  refine ⟨?_, ?_⟩
  · rintro b s d hb hwords
    obtain ⟨rfl, rfl⟩ := List.cons.inj hwords
    obtain ⟨make, hmake⟩ : ∃ make, b.branch? = some make := by
      rcases hb with rfl | rfl <;> exact ⟨_, rfl⟩
    obtain ⟨instr, hreads, hcode⟩ := reads_of_encode_name hencode
    obtain ⟨_, _, _, rs, rd, goal, hoperands, hs, hd, hgoal, rfl⟩ := hreads.of_branch hmake
    cases hoperands
    rw [target_of_get? hlabel, Except.ok.injEq] at hgoal
    subst hgoal
    refine ⟨rs, rd, _, hs, hd,
      by rw [hcode]; exact m.execute_word (m.effect_branch hmake rd rs _), ?_⟩
    rw [m.apply_pc]
    split
    -- The assembler counts the distance from `pc - 1`, and so does the machine.
    · rw [hpc]
      exact toNat_branch_eq_iff hpc_low (by omega) hv_low (by omega)
    · rfl
  · rintro b hb hwords
    obtain ⟨rfl, rfl⟩ := List.cons.inj hwords
    obtain ⟨make, hmake⟩ : ∃ make, b.jump? = some make := by
      rcases hb with rfl | rfl | ⟨rfl, -⟩ <;> exact ⟨_, rfl⟩
    have hstatus : b = .bex → m.regs.get Reg.status ≠ 0 := by
      rintro rfl
      simpa using hb
    obtain ⟨instr, hreads, hcode⟩ := reads_of_encode_name hencode
    obtain ⟨_, goal, hoperands, hgoal, rfl⟩ := hreads.of_jump hmake
    cases hoperands
    rw [target_of_get? hlabel, Except.ok.injEq] at hgoal
    subst hgoal
    obtain ⟨m', hexecute, hm'⟩ := m.execute_jump hmake hstatus v
    refine ⟨m', by rw [hcode]; exact hexecute, ?_⟩
    rw [hm']
    exact toNat_jump_eq_iff hv_low

set_option maxRecDepth 10000 in
/-- A branch at the first instruction and a jump, both back to the first instruction, from states
that take them. -/
theorem Assembler.transfer_lands_on_label_loop :
    ∃ p, ((({} : Assembler).parse
        ⟨".text\nloop: bne $1, $0, loop\n bex loop", none⟩).result = .ok p ∧
      (p.entries, p.labels) =
        (#[⟨2, 0, ["bne", "$1", "$0", "loop"], 0x10020001⟩, ⟨3, 1, ["bex", "loop"], 0xb0000000⟩],
          ⟨[("loop", 0)]⟩)) ∧
      ∃ m₁ m₂, Machine.execute ⟨0, .ofFn fun r => UInt32.ofNat r.val, 0, #[], #[]⟩ 0x10020001 =
          (m₁, none) ∧ m₁.pc.toNat = 0 ∧
        Machine.execute ⟨1, .ofFn fun r => UInt32.ofNat r.val, 0, #[], #[]⟩ 0xb0000000 =
          (m₂, none) ∧ m₂.pc.toNat = 0 := by
  refine Exists.imp (fun p hp => ⟨hp, ?_⟩) (exists_ok_of_toOption_map (by decide +kernel))
  obtain ⟨hparse, hp⟩ := hp
  obtain ⟨hentries, hlabels⟩ := Prod.mk.inj hp
  have hsize : p.entries.size < 2 ^ 31 := by
    rw [hentries]
    decide
  have hlabel : p.labels.get? "loop" = some 0 := by
    rw [hlabels]
    decide
  obtain ⟨rs, rd, m₁, hrs, hrd, hm₁, hbranch⟩ :=
    (transfer_lands_on_label {} _ p hparse hsize
      ⟨2, 0, ["bne", "$1", "$0", "loop"], 0x10020001⟩ (by simp [hentries]) "loop" 0 hlabel
      ⟨0, .ofFn fun r => UInt32.ofNat r.val, 0, #[], #[]⟩ rfl).1 .bne "$1" "$0" (.inl rfl) rfl
  obtain ⟨m₂, hm₂, hjump⟩ :=
    (transfer_lands_on_label {} _ p hparse hsize ⟨3, 1, ["bex", "loop"], 0xb0000000⟩
      (by simp [hentries]) "loop" 0 hlabel
      ⟨1, .ofFn fun r => UInt32.ofNat r.val, 0, #[], #[]⟩ rfl).2 .bex
      (.inr (.inr ⟨rfl, by decide⟩)) rfl
  have hrs' : rs = 1 := Except.ok.inj (hrs.symm.trans (by decide))
  have hrd' : rd = 0 := Except.ok.inj (hrd.symm.trans (by decide))
  subst hrs' hrd'
  rw [if_pos (by decide)] at hbranch
  exact ⟨m₁, m₂, hm₁, by simpa using hbranch.mpr (by decide), hm₂,
    by simpa using hjump.mpr (by decide)⟩

end WordMachine
