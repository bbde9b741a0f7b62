import WordMachine.Proofs.Disassembly
import WordMachine.Proofs.Range
import WordMachine.Proofs.Reading
import WordMachine.Proofs.Reference

/-!
# The advice about conjunctions

A conjunction with a constant, `andi`, has no encoding. The assembler advises two instructions that
do its work by way of `Reg.scratch`, which is register 29: the first writes the constant there, and
the second takes the conjunction.

* `Machine.execute_advice_iff`: the two words do what they should exactly if the conjunction is not
  to be taken with register 29 itself, or nothing can be seen of it.
* `Assembler.andi_advice`: the lines of the advice, their words and what these do.
* `Assembler.andi_advice_scratch`: with register 29 as the source, its value is lost before it is
  read.
-/

namespace WordMachine

open Asm

/-- The register that the advice keeps the constant in. -/
def Reg.scratch : Reg := ⟨29, by decide⟩

namespace Asm

open Text (byte Numeral)

/-! ## The lines of the advice -/

/-- The lines that are to do the work of `andi d, s, value`. -/
def advice (d s value : Text) : List Text :=
  ["addi $29, $0, " ++ value, "and " ++ d ++ ", " ++ s ++ ", $29"]

/-- The instructions on the lines of `advice d s value`. -/
def adviceInstrs (d s value : Text) : List SourceInstr :=
  [⟨Mnemonic.addi.name, ["$29", "$0", value]⟩, ⟨Mnemonic.and.name, [d, s, "$29"]⟩]

/-- An instruction with three operands in plain form: `name a, b, c`. -/
theorem text_three (name a b c : Text) :
    SourceInstr.text ⟨name, [a, b, c]⟩ = name ++ " " ++ a ++ ", " ++ b ++ ", " ++ c := by
  have hspace : Text.ofString " " = [byte ' '] := rfl
  simp [SourceInstr.text, Text.join, List.intercalate_cons_cons, hspace]

/-- The lines are the instructions in plain form. -/
theorem advice_eq (d s value : Text) :
    advice d s value = (adviceInstrs d s value).map SourceInstr.text := by
  -- The fixed texts of the advice run over the ends of the words; here they are cut at them.
  have hfirst : Text.ofString "addi $29, $0, " =
      Mnemonic.addi.name ++ " " ++ "$29" ++ ", " ++ "$0" ++ ", " := by decide
  have hsecond : Text.ofString "and " = Mnemonic.and.name ++ " " := by decide
  have hlast : Text.ofString ", $29" = Text.ofString ", " ++ "$29" := by decide
  simp only [advice, adviceInstrs, List.map_cons, List.map_nil, text_three, hfirst, hsecond, hlast,
    List.append_assoc]

/-- **What is said about a conjunction with a constant.** It is `unsupported`, with the `advice`,
and an error only if `strict`. -/
theorem encode_andi (strict : Bool) (labels : Labels) (pc : Nat) (d s value : Text) :
    encode strict labels pc ⟨Mnemonic.andi.name, [d, s, value]⟩ =
      if strict then .error (.unsupported Mnemonic.andi.name (advice d s value))
      else .ok ⟨0, some (.unsupported Mnemonic.andi.name (advice d s value))⟩ := by
  simp only [encode, Mnemonic.ofName?_name]
  rfl

/-! ## Operands in plain form -/

/-- The digits of a numeral are plain. -/
theorem isPlain_of_numeral {base : Nat} (hbase : base ≤ 16) {ds : Text} {n : Nat}
    (h : Numeral base ds n) :
    ds ≠ [] ∧ ∀ b ∈ ds, isPlain b = true := by
  obtain ⟨hne, hdigits, -⟩ := Text.natOf?_eq_some_iff.mp ((Text.numeral_iff (by omega)).mp h)
  refine ⟨hne, fun b hb => ?_⟩
  rcases Text.isDigit_or_isLetter_of_isDigitOf hbase (hdigits b hb) with hdigit | hletter
  · exact isPlain_of_isDigit hdigit
  · exact isPlain_of_isLetter hletter

/-- A plain operand with a plain byte `b` in front of it. -/
theorem PlainOperand.cons {o : Text} (h : PlainOperand o) {b : UInt8} (hb : isPlain b = true) :
    PlainOperand (b :: o) where
  ne_nil := List.cons_ne_nil b o
  plain := List.forall_mem_cons.mpr ⟨hb, h.plain⟩

theorem Register.plainOperand {t : Text} {r : Reg} (h : Register t r) : PlainOperand t := by
  cases h with
  | mk hds hn =>
    obtain ⟨hne, hplain⟩ := isPlain_of_numeral (by decide) hds
    exact PlainOperand.cons ⟨hne, hplain⟩ (by decide)

theorem Literal.plainOperand {t : Text} {i : Int} (h : Literal t i) : PlainOperand t := by
  cases h with
  | hex hx hds =>
    obtain ⟨hne, hplain⟩ := isPlain_of_numeral (by decide) hds
    refine PlainOperand.cons (PlainOperand.cons ⟨hne, hplain⟩ ?_) (by decide)
    rcases hx with rfl | rfl
    · decide
    · decide
  | unsigned hds =>
    obtain ⟨hne, hplain⟩ := isPlain_of_numeral (by decide) hds
    exact ⟨hne, hplain⟩
  | plus hds =>
    obtain ⟨hne, hplain⟩ := isPlain_of_numeral (by decide) hds
    exact PlainOperand.cons ⟨hne, hplain⟩ (by decide)
  | minus hds =>
    obtain ⟨hne, hplain⟩ := isPlain_of_numeral (by decide) hds
    exact PlainOperand.cons ⟨hne, hplain⟩ (by decide)

section Operands

variable {d s value : Text} {rd rs : Reg} {i : Int}

/-- The instructions of the advice are in plain form. -/
theorem plain_advice (hd : Register d rd) (hs : Register s rs) (hvalue : Literal value i) :
    ∀ instr ∈ adviceInstrs d s value, instr.Plain := by
  have hscratch : PlainOperand "$29" := ⟨by decide, by decide +kernel⟩
  have hzero : PlainOperand "$0" := ⟨by decide, by decide +kernel⟩
  have hplain : ∀ (m : Mnemonic) {a b c : Text}, PlainOperand a → PlainOperand b → PlainOperand c →
      SourceInstr.Plain ⟨m.name, [a, b, c]⟩ := by
    intro m a b c ha hb hc
    obtain ⟨hne, hhead, hname, -⟩ := m.name_plain
    refine ⟨⟨hne, hname, List.cons_ne_nil _ _, ?_⟩, hhead⟩
    rw [List.forall_mem_cons, List.forall_mem_cons, List.forall_mem_singleton]
    exact ⟨ha, hb, hc⟩
  rw [adviceInstrs, List.forall_mem_cons, List.forall_mem_singleton]
  exact ⟨hplain .addi hscratch hzero hvalue.plainOperand,
    hplain .and hd.plainOperand hs.plainOperand hscratch⟩

end Operands

end Asm

namespace Assembler

open Asm

section Programs

variable (asm : Assembler) {d s value : Text} {rd rs : Reg} {i : Int}

/-- The words of the advice, for registers `rd` and `rs` and a literal with the value `i`. -/
theorem encodesTo_advice (hd : Register d rd) (hs : Register s rs) (hvalue : Literal value i) :
    List.Forall₂ EncodesTo (adviceInstrs d s value)
      [(Instr.addi Reg.scratch Reg.zero (i.bmod 0x10000000000000000)).word,
        (Instr.alu AluOp.and.code rd rs Reg.scratch 0).word] := by
  have hscratch : parseRegister "$29" = .ok Reg.scratch := by decide +kernel
  have hzero : parseRegister "$0" = .ok Reg.zero := by decide +kernel
  refine .cons (fun strict pc => ?_) (.cons (fun strict pc => ?_) .nil)
  · rw [Mnemonic.lowered_name]
    exact encode_of_reads (.addi hscratch hzero hvalue.parseImmediate_eq_ok) (by decide)
  · rw [Mnemonic.lowered_name]
    exact encode_of_reads (.alu rfl (parseRegister_eq_ok_iff.mpr hd)
      (parseRegister_eq_ok_iff.mpr hs) hscratch) (by decide)

/-- Lines of the advice that fit the line buffer are assembled without a warning. -/
theorem parse_advice (hd : Register d rd) (hs : Register s rs) (hvalue : Literal value i)
    (hfits : ∀ line ∈ advice d s value, line.length < Input.maxLineLength) :
    ∃ p, (asm.parse ⟨Input.unlines (".text" :: advice d s value), none⟩).result = .ok p ∧
      p.warnings = [] ∧
      p.image = #[(Instr.addi Reg.scratch Reg.zero (i.bmod 0x10000000000000000)).word,
        (Instr.alu AluOp.and.code rd rs Reg.scratch 0).word] := by
  rw [advice_eq] at hfits ⊢
  obtain ⟨p, hp, -, hwarnings, himage⟩ := parse_plain asm (plain_advice hd hs hvalue)
    (fun instr hinstr => hfits instr.text (List.mem_map_of_mem hinstr))
    (encodesTo_advice hd hs hvalue)
  exact ⟨p, hp, hwarnings, himage⟩

/-- The lines of the advice are assembled exactly if they fit the line buffer. -/
theorem exists_parse_advice_iff (hd : Register d rd) (hs : Register s rs)
    (hvalue : Literal value i) :
    (∃ p, (asm.parse ⟨Input.unlines (".text" :: advice d s value), none⟩).result = .ok p) ↔
      ∀ line ∈ advice d s value, line.length < Input.maxLineLength := by
  constructor
  · rintro ⟨p, hp⟩ line hline
    have hlines : Input.HasLines ⟨Input.unlines (".text" :: advice d s value), none⟩
        (".text" :: advice d s value) := by
      refine Input.hasLines_unlines (List.forall_mem_cons.mpr ⟨by decide, ?_⟩)
      rw [advice_eq]
      intro line hline
      obtain ⟨instr, hinstr, rfl⟩ := List.mem_map.mp hline
      exact not_mem_text (plain_advice hd hs hvalue instr hinstr).toLegible (by decide) (by decide)
        (by decide)
    exact Scan.fits_of_going hlines (fault_of_parse hp) line (List.mem_cons_of_mem _ hline)
  · intro hfits
    obtain ⟨p, hp, -⟩ := parse_advice asm hd hs hvalue hfits
    exact ⟨p, hp⟩

end Programs

end Assembler

/-! ## What the words do -/

namespace Machine

/-- What the register `other` holds after a write of `value` to `r`: register 0 is not written. -/
theorem get_writeReg (regs : Vector Word 32) (r : Reg) (value : Word) (other : Reg) :
    (writeReg regs (some (r, value))).get other =
      if other = r ∧ r ≠ Reg.zero then value else regs.get other := by
  rw [writeReg]
  by_cases hzero : r = Reg.zero
  · rw [if_pos hzero, if_neg fun h => h.2 hzero]
  · rw [if_neg hzero]
    by_cases heq : other = r
    · rw [if_pos ⟨heq, hzero⟩, heq]
      exact Vector.getElem_set_self r.isLt
    · rw [if_neg fun h => heq h.1]
      exact Vector.getElem_set_ne _ _ fun h => heq (Fin.ext h.symm)

/-- The first instruction of the advice writes the constant `signExtend 17 i`, if register 0 holds
zero. -/
theorem execute_constant {m : Machine} (hzero : m.regs.get Reg.zero = 0) (i : Int) :
    m.execute (Instr.addi Reg.scratch Reg.zero (i.bmod 0x10000000000000000)).word =
      (m.apply { next := m.pc + 1, register := some (Reg.scratch, Word.ofInt (signExtend 17 i)) },
        none) := by
  have hvalue : (i.bmod 0x10000000000000000).bmod 0x20000 = signExtend 17 i := by
    rw [signExtend_eq_bmod]
    exact Int.bmod_bmod_of_dvd (by decide)
  apply execute_word
  show Except.ok _ = _
  rw [hzero, hvalue, UInt32.zero_add]

/-- A conjunction of the registers `rs` and `rt`. -/
theorem execute_and (m : Machine) (rd rs rt : Reg) :
    m.execute (Instr.alu AluOp.and.code rd rs rt 0).word =
      (m.apply { next := m.pc + 1
                 register := some (rd, m.regs.get rs &&& m.regs.get rt) }, none) :=
  execute_word (effect_alu m .and rd rs rt (by decide) rfl)

/-- **What the words of the advice do.** The register `rs` is read when the constant has been
written, so it holds the constant if it is `Reg.scratch`. -/
theorem execute_advice {m : Machine} (hzero : m.regs.get Reg.zero = 0) (rd rs : Reg) (i : Int) :
    ∃ m₁ m₂,
      m.execute (Instr.addi Reg.scratch Reg.zero (i.bmod 0x10000000000000000)).word = (m₁, none) ∧
      m₁.execute (Instr.alu AluOp.and.code rd rs Reg.scratch 0).word = (m₂, none) ∧
      (∀ r, r ≠ rd → r ≠ Reg.scratch → m₂.regs.get r = m.regs.get r) ∧
      (rd ≠ Reg.zero → m₂.regs.get rd =
        (if rs = Reg.scratch then Word.ofInt (signExtend 17 i) else m.regs.get rs) &&&
          Word.ofInt (signExtend 17 i)) := by
  -- The registers between the two instructions.
  have hkept : ∀ r, (writeReg m.regs (some (Reg.scratch, Word.ofInt (signExtend 17 i)))).get r =
      if r = Reg.scratch then Word.ofInt (signExtend 17 i) else m.regs.get r := by
    intro r
    have hscratch : Reg.scratch ≠ Reg.zero := by decide
    rw [get_writeReg]
    simp only [hscratch, ne_eq, not_false_eq_true, and_true]
  refine ⟨_, _, execute_constant hzero i, execute_and _ rd rs Reg.scratch, ?_, ?_⟩
  · intro r hrd hr
    show (writeReg (writeReg m.regs _) _).get r = m.regs.get r
    rw [get_writeReg, if_neg fun h => hrd h.1, hkept, if_neg hr]
  · intro hrd
    show (writeReg (writeReg m.regs _) (some (rd, (writeReg m.regs _).get rs &&&
      (writeReg m.regs _).get Reg.scratch))).get rd = _
    rw [get_writeReg, if_pos ⟨rfl, hrd⟩, hkept rs, hkept Reg.scratch,
      if_pos (rfl : Reg.scratch = _)]

end Machine

/-- A constant `i` is lost in its 17 bits exactly if they are all zero, `2 ^ 17 ∣ i`. -/
theorem Word.ofInt_signExtend_eq_zero_iff (i : Int) :
    Word.ofInt (signExtend 17 i) = 0 ↔ (2 ^ 17 : Int) ∣ i := by
  rw [← UInt32.toNat_inj, ← Int.ofNat_inj, Word.toNat_ofInt, signExtend_eq_bmod, Int.bmod_def]
  norm_num
  split <;> omega

/-- **When the words of the advice do what they should.** If `rs` is the register of the constant,
they leave the constant itself, which a machine with zero there tells from the conjunction. -/
theorem Machine.execute_advice_iff (rd rs : Reg) (i : Int) :
    (∀ m : Machine, m.regs.get Reg.zero = 0 → rd ≠ Reg.zero →
      ((m.execute (Instr.addi Reg.scratch Reg.zero (i.bmod 0x10000000000000000)).word).1.execute
          (Instr.alu AluOp.and.code rd rs Reg.scratch 0).word).1.regs.get rd =
        m.regs.get rs &&& Word.ofInt (signExtend 17 i)) ↔
      rs ≠ Reg.scratch ∨ rd = Reg.zero ∨ (2 ^ 17 : Int) ∣ i := by
  rw [← Word.ofInt_signExtend_eq_zero_iff]
  constructor
  · intro h
    by_contra hcases
    rw [not_or, not_or, not_not] at hcases
    obtain ⟨hrs, hrd, hconstant⟩ := hcases
    have hblank : ∀ r : Reg, (Vector.replicate 32 (0 : Word)).get r = 0 := fun r =>
      Vector.getElem_replicate r.isLt
    obtain ⟨m₁, m₂, h₁, h₂, -, hvalue⟩ := execute_advice (m := { data := #[] }) (hblank _) rd rs i
    have hzero := h { data := #[] } (hblank _) hrd
    rw [h₁, h₂, hvalue hrd, if_pos hrs, UInt32.and_self, hblank, UInt32.zero_and] at hzero
    exact hconstant hzero
  · intro hcases m hzero hrd
    obtain ⟨m₁, m₂, h₁, h₂, -, hvalue⟩ := execute_advice hzero rd rs i
    rw [h₁, h₂, hvalue hrd]
    rcases hcases with hrs | hzero | hconstant
    · rw [if_neg hrs]
    · exact absurd hzero hrd
    · rw [hconstant, UInt32.and_zero, UInt32.and_zero]

/-- **The advice about a conjunction with a constant.** Its lines are assembled without a warning if
they fit the line buffer, and their words change no register but `rd` and register 29. They leave
the conjunction in `rd` exactly if `rs` is not register 29, or there is nothing to be seen of it:
`rd` is register 0, or the constant has no bits. -/
theorem Assembler.andi_advice (asm : Assembler) {d s value : Text} {rd rs : Reg} {i : Int}
    (hd : Register d rd) (hs : Register s rs) (hvalue : Literal value i) :
    (∀ strict labels pc, encode strict labels pc ⟨Mnemonic.andi.name, [d, s, value]⟩ =
      if strict then .error (.unsupported Mnemonic.andi.name (advice d s value))
      else .ok ⟨0, some (.unsupported Mnemonic.andi.name (advice d s value))⟩) ∧
    ((∃ p, (asm.parse ⟨Input.unlines (".text" :: advice d s value), none⟩).result = .ok p) ↔
      ∀ line ∈ advice d s value, line.length < Input.maxLineLength) ∧
    ∀ p, (asm.parse ⟨Input.unlines (".text" :: advice d s value), none⟩).result = .ok p →
      p.warnings = [] ∧ ∃ w₁ w₂, p.image = #[w₁, w₂] ∧
        (∀ m : Machine, m.regs.get Reg.zero = 0 →
          ∃ m₁ m₂, m.execute w₁ = (m₁, none) ∧ m₁.execute w₂ = (m₂, none) ∧
            (∀ r, r ≠ rd → r ≠ Reg.scratch → m₂.regs.get r = m.regs.get r)) ∧
        ((∀ m : Machine, m.regs.get Reg.zero = 0 → rd ≠ Reg.zero →
          ((m.execute w₁).1.execute w₂).1.regs.get rd =
            m.regs.get rs &&& Word.ofInt (signExtend 17 i)) ↔
          rs ≠ Reg.scratch ∨ rd = Reg.zero ∨ (2 ^ 17 : Int) ∣ i) := by
  refine ⟨fun strict labels pc => encode_andi strict labels pc d s value,
    exists_parse_advice_iff asm hd hs hvalue, fun p hp => ?_⟩
  obtain ⟨q, hq, hwarnings, himage⟩ := parse_advice asm hd hs hvalue
    ((exists_parse_advice_iff asm hd hs hvalue).mp ⟨p, hp⟩)
  obtain rfl := Except.ok.inj (hq.symm.trans hp)
  refine ⟨hwarnings, _, _, himage, ?_, ?_⟩
  · intro m hzero
    obtain ⟨m₁, m₂, h₁, h₂, hframe, -⟩ := Machine.execute_advice hzero rd rs i
    exact ⟨m₁, m₂, h₁, h₂, hframe⟩
  · exact Machine.execute_advice_iff rd rs i

/-- A negative constant, from register 2, which is not the one that it is kept in. -/
theorem Assembler.andi_advice_negative :
    ∃ p w₁ w₂, (({} : Assembler).parse
        ⟨Input.unlines [".text", "addi $29, $0, -16", "and $1, $2, $29"], none⟩).result = .ok p ∧
      p.warnings = [] ∧ p.image = #[w₁, w₂] ∧
      ∀ m : Machine, m.regs.get Reg.zero = 0 →
        ((m.execute w₁).1.execute w₂).1.regs.get 1 = m.regs.get 2 &&& 0xfffffff0 := by
  have hd : Register "$1" 1 := parseRegister_eq_ok_iff.mp (by decide +kernel)
  have hs : Register "$2" 2 := parseRegister_eq_ok_iff.mp (by decide +kernel)
  have hvalue : Literal "-16" (-16) := literal?_eq_some_iff.mp (by decide +kernel)
  have hlines : advice "$1" "$2" "-16" = ["addi $29, $0, -16", "and $1, $2, $29"] := by
    decide +kernel
  obtain ⟨-, hiff, hwords⟩ := andi_advice {} hd hs hvalue
  obtain ⟨p, hp⟩ := hiff.mpr (by decide +kernel)
  obtain ⟨hwarnings, w₁, w₂, himage, -, hconjunction⟩ := hwords p hp
  rw [hlines] at hp
  refine ⟨p, w₁, w₂, hp, hwarnings, himage, fun m hzero => ?_⟩
  exact hconjunction.mpr (.inl (by decide)) m hzero (by decide)

/-- The advice about `andi $1, $29, 3`: the value of register 29 is lost before it is read. -/
theorem Assembler.andi_advice_scratch :
    ∃ p w₁ w₂, ∃ m : Machine, (({} : Assembler).parse
        ⟨Input.unlines (".text" :: advice "$1" "$29" "3"), none⟩).result = .ok p ∧
      p.image = #[w₁, w₂] ∧ m.regs.get Reg.zero = 0 ∧ m.regs.get Reg.scratch = 6 ∧
      ((m.execute w₁).1.execute w₂).1.regs.get 1 ≠ 6 &&& 3 := by
  obtain ⟨p, hp, himage⟩ := exists_ok_of_toOption_map
    (x := (({} : Assembler).parse ⟨Input.unlines (".text" :: advice "$1" "$29" "3"), none⟩).result)
    (f := Program.image) (b := #[0x2f400003, 0x007bd008]) (by decide +kernel)
  refine ⟨p, _, _, Machine.setReg { data := #[] } Reg.scratch 6, hp, himage, ?_, ?_, ?_⟩
  · decide +kernel
  · decide +kernel
  · decide +kernel

end WordMachine
