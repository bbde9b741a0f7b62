import WordMachine.Proofs.Assembly
import Mathlib.Data.List.Forall2

/-!
# Disassembly undoes assembly

`Written` says how the instructions that assembly gives are shown. What is shown is read back as the
same instruction, so a program can be assembled from the text of its words.

* `Written.reads`: what is shown is read back, wherever it stands.
* `exists_shows_of_encode`: an encoded word is shown as a line that is assembled to it again.
* `Assembler.parse_disassembly`: the disassembly of an assembled program gives the same words.
-/

namespace WordMachine.Asm

open Instr (regText targetText)

/-! ## Names -/

/-- The name of an instruction is written in at most four lower-case letters. -/
theorem Mnemonic.name_plain (m : Mnemonic) :
    m.name ≠ [] ∧ m.name.head?.any Text.isLetter = true ∧ (∀ b ∈ m.name, isPlain b = true) ∧
      Text.lower m.name = m.name ∧ m.name.length ≤ 4 := by
  cases m <;> decide +kernel

/-- The name of an instruction is in lower case, so `lowered` keeps it. -/
theorem Mnemonic.lowered_name (m : Mnemonic) (operands : List Text) :
    SourceInstr.lowered ⟨m.name, operands⟩ = ⟨m.name, operands⟩ := by
  rw [SourceInstr.lowered, m.name_plain.2.2.2.1]

/-! ## Instructions as they are shown -/

/-- The name and the operands that an instruction is shown with. A shift to the left by zero is
shown as an `add` of register 0. -/
inductive Written : Instr → Mnemonic → List Text → Prop
  | alu {m : Mnemonic} {fn : AluOp} (rd rs rt : Reg) :
      m.aluOp? = some fn →
      Written (.alu fn.code rd rs rt 0) m [regText rd, regText rs, regText rt]
  | shift {m : Mnemonic} {fn : AluOp} (rd rs : Reg) {shamt : Nat} :
      m.shiftOp? = some fn → shamt < 32 → (fn = .add → shamt ≠ 0) →
      Written (.alu fn.code rd rs Reg.zero shamt) m [regText rd, regText rs, Text.decimal shamt]
  | memory {m : Mnemonic} {make : Reg → Reg → Int → Instr} (rd rs : Reg) {imm : Int} :
      m.memory? = some make → -0x10000 ≤ imm → imm < 0x10000 →
      Written (make rd rs imm) m [regText rd, memoryText imm rs]
  | branch {m : Mnemonic} {make : Reg → Reg → Int → Instr} (rd rs : Reg) {imm : Int} :
      m.branch? = some make → -0x10000 ≤ imm → imm < 0x10000 →
      Written (make rd rs imm) m [regText rs, regText rd, Text.ofInt imm]
  | jump {m : Mnemonic} {make : Int → Instr} {target : Int} :
      m.jump? = some make → 0 ≤ target → target < 0x8000000 →
      Written (make target) m [targetText target]
  | addi (rd rs : Reg) {imm : Int} :
      -0x10000 ≤ imm → imm < 0x10000 →
      Written (.addi rd rs imm) .addi [regText rd, regText rs, Text.ofInt imm]
  | jr (rs : Reg) : Written (.jr rs) .jr [regText rs]
  | setx {target : Int} :
      0 ≤ target → target < 0x8000000 → Written (.setx target) .setx [targetText target]

/-! ## Numbers reduced to their fields -/

/-- An integer reduced to an immediate lies in the range of 17 bits, `-2 ^ 16 ≤ imm < 2 ^ 16`. -/
theorem bmod_immediate_range (imm : Int) :
    -0x10000 ≤ imm.bmod 0x20000 ∧ imm.bmod 0x20000 < 0x10000 := by
  have hlow := Int.le_bmod (x := imm) (m := 0x20000) (by decide)
  have hhigh := Int.bmod_lt (x := imm) (m := 0x20000) (by decide)
  omega

/-- An integer reduced to a jump target lies in the range of 27 bits, `0 ≤ target < 2 ^ 27`. -/
theorem emod_target_range (target : Int) :
    0 ≤ target % 0x8000000 ∧ target % 0x8000000 < 0x8000000 :=
  ⟨Int.emod_nonneg target (by decide), Int.emod_lt_of_pos target (by decide)⟩

/-- What an assembled line stands for can be shown, once `reduce` has cut its numbers to size. -/
theorem exists_written_of_reads {labels : Labels} {pc : Nat} {m : Mnemonic} {operands : List Text}
    {i : Instr} (h : Reads labels pc m operands i) :
    ∃ m' operands', Written i.reduce m' operands' := by
  cases h with
  | alu hfn _ _ _ =>
    rw [reduce_alu _ _ _ _ (by decide)]
    exact ⟨m, _, .alu _ _ _ hfn⟩
  | @shift _ fn _ _ _ rd rs shamt hfn _ _ _ hlow hhigh =>
    rw [reduce_alu _ _ _ _ (by omega)]
    by_cases hzero : fn = .add ∧ shamt.toNat = 0
    · rw [hzero.1, hzero.2]
      exact ⟨.add, _, .alu rd rs Reg.zero rfl⟩
    · exact ⟨m, _, .shift rd rs hfn (by omega) fun hadd hshamt => hzero ⟨hadd, hshamt⟩⟩
  | memory hmake _ _ =>
    rw [reduce_memory hmake]
    exact ⟨m, _, .memory _ _ hmake (bmod_immediate_range _).1 (bmod_immediate_range _).2⟩
  | branch hmake _ _ _ =>
    rw [reduce_branch hmake]
    exact ⟨m, _, .branch _ _ hmake (bmod_immediate_range _).1 (bmod_immediate_range _).2⟩
  | jump hmake _ =>
    rw [reduce_jump hmake]
    exact ⟨m, _, .jump hmake (emod_target_range _).1 (emod_target_range _).2⟩
  | addi _ _ _ =>
    exact ⟨_, _, .addi _ _ (bmod_immediate_range _).1 (bmod_immediate_range _).2⟩
  | jr _ => exact ⟨_, _, .jr _⟩
  | setx _ => exact ⟨_, _, .setx (emod_target_range _).1 (emod_target_range _).2⟩
  | andi =>
    rw [reduce_alu _ _ _ _ (by decide)]
    exact ⟨.add, _, .alu _ _ _ rfl⟩

/-! ## Reading what is shown -/

section Written

variable {i : Instr} {m : Mnemonic} {operands : List Text}

/-- An integer of at most 27 bits is in the range of immediates. -/
theorem isWide_of_small {v : Int} (hlow : -0x8000000 ≤ v) (hhigh : v < 0x8000000) :
    isWide v = true := by
  simp only [isWide, Bool.and_eq_true, decide_eq_true_eq]
  omega

/-- A number `place` that is no label is a literal target. -/
theorem target_of_literal? {place : Text} {v : Int} (h : literal? place = some v)
    (hwide : isWide v = true) : target {} place = .ok (.literal v) := by
  have hget : Table.get? ({} : Labels) place = none := rfl
  simp only [target, hget, parseImmediate_of_literal? h hwide, ok_bind]
  rfl

/-- **What is shown is read back**, wherever it stands: at every `pc`, without labels. -/
theorem Written.reads (h : Written i m operands) (pc : Nat) : Reads {} pc m operands i := by
  cases h with
  | alu rd rs rt hfn =>
    exact .alu hfn (parseRegister_regText rd) (parseRegister_regText rs) (parseRegister_regText rt)
  | @shift _ fn rd rs shamt hfn hshamt _ =>
    have hamount : parseImmediate (Text.decimal shamt) = .ok (shamt : Int) :=
      parseImmediate_of_literal? (literal?_decimal shamt) (isWide_of_small (by omega) (by omega))
    exact .shift hfn (parseRegister_regText rd) (parseRegister_regText rs) hamount (by omega)
      (by omega)
  | memory rd rs hmake hlow hhigh =>
    exact .memory hmake (parseRegister_regText rd)
      (parseMemory_memoryText (isWide_of_small (by omega) (by omega)) rs)
  | branch rd rs hmake hlow hhigh =>
    exact .branch hmake (parseRegister_regText rs) (parseRegister_regText rd)
      (target_of_literal? (literal?_ofInt _) (isWide_of_small (by omega) (by omega)))
  | jump hmake hlow hhigh =>
    exact .jump hmake
      (target_of_literal? (literal?_targetText hlow) (isWide_of_small (by omega) hhigh))
  | addi rd rs hlow hhigh =>
    exact .addi (parseRegister_regText rd) (parseRegister_regText rs)
      (parseImmediate_of_literal? (literal?_ofInt _) (isWide_of_small (by omega) (by omega)))
  | jr rs => exact .jr (parseRegister_regText rs)
  | setx hlow hhigh =>
    exact .setx
      (parseImmediate_of_literal? (literal?_targetText hlow) (isWide_of_small (by omega) hhigh))

/-- An instruction that is shown has an encoding, so it is not `andi`. -/
theorem Written.ne_andi (h : Written i m operands) : m ≠ .andi := by
  rintro rfl
  cases h with
  | alu _ _ _ hfn => cases hfn
  | shift _ _ hfn _ _ => cases hfn
  | memory _ _ hmake _ _ => cases hmake
  | branch _ _ hmake _ _ => cases hmake
  | jump hmake _ _ => cases hmake

/-- The text of an instruction with two registers `a` and `b` and one more operand `t`. -/
theorem text_twoRegs (name : Text) (a b : Reg) (t : Text) :
    SourceInstr.text ⟨name, [regText a, regText b, t]⟩ = Instr.twoRegs name a b ++ t := by
  simp [SourceInstr.text, Instr.twoRegs, Text.join]
  rfl

/-- The text of an instruction with one operand `t`. -/
theorem text_singleton (name t : Text) : SourceInstr.text ⟨name, [t]⟩ = name ++ " " ++ t := by
  simp [SourceInstr.text, Text.join]
  rfl

/-- The text of an instruction with a register `rd` and a memory operand `imm(rs)`. -/
theorem text_memory (name : Text) (rd rs : Reg) (imm : Int) :
    SourceInstr.text ⟨name, [regText rd, memoryText imm rs]⟩ =
      name ++ " " ++ regText rd ++ ", " ++ Text.ofInt imm ++ "(" ++ regText rs ++ ")" := by
  simp [SourceInstr.text, memoryText, Text.join]
  rfl

/-- The text of an instruction is its name and the operands that it is shown with. -/
theorem Written.text_eq (h : Written i m operands) :
    i.text = SourceInstr.text ⟨m.name, operands⟩ := by
  cases h with
  | alu rd rs rt hfn =>
    rw [text_twoRegs]
    cases m <;> cases hfn <;> rfl
  | shift rd rs hfn hshamt hzero =>
    rw [text_twoRegs]
    cases m <;> cases hfn
    · rw [Instr.text, if_pos ⟨rfl, hzero rfl, rfl⟩]
      rfl
    · rfl
  | memory rd rs hmake hlow hhigh =>
    rw [text_memory]
    cases m <;> cases hmake <;> rfl
  | branch rd rs hmake hlow hhigh =>
    rw [text_twoRegs]
    cases m <;> cases hmake <;> rfl
  | jump hmake hlow hhigh =>
    rw [text_singleton]
    cases m <;> cases hmake <;> rfl
  | addi rd rs hlow hhigh =>
    rw [text_twoRegs]
    rfl
  | jr rs =>
    rw [text_singleton]
    rfl
  | setx hlow hhigh =>
    rw [text_singleton]
    rfl

/-! ## Lengths -/

theorem length_regText_le (r : Reg) : (regText r).length ≤ 3 := by
  have hdigits : (Text.decimal r.val).length ≤ 2 :=
    Text.length_digits_le (by decide) (by decide) (Nat.lt_trans r.isLt (by decide))
  rw [regText, List.length_cons]
  omega

theorem length_ofInt_le {imm : Int} (hlow : -0x10000 ≤ imm) (hhigh : imm < 0x10000) :
    (Text.ofInt imm).length ≤ 6 := by
  have hdigits : (Text.decimal imm.natAbs).length ≤ 5 :=
    Text.length_digits_le (by decide) (by decide) (by omega)
  unfold Text.ofInt
  split
  · rw [List.length_cons]
    omega
  · omega

theorem length_targetText_le {target : Int} (hlow : 0 ≤ target) (hhigh : target < 0x8000000) :
    (targetText target).length ≤ 9 := by
  have hdigits : (Text.digits 16 target.toNat).length ≤ 7 :=
    Text.length_digits_le (by decide) (by decide) (by omega)
  have hmark : (Text.ofString "0x").length = 2 := by decide
  rw [targetText, List.length_append]
  omega

theorem length_memoryText_le {imm : Int} (rs : Reg) (hlow : -0x10000 ≤ imm)
    (hhigh : imm < 0x10000) :
    (memoryText imm rs).length ≤ 11 := by
  have hoffset := length_ofInt_le hlow hhigh
  have hbase := length_regText_le rs
  have hopen : (Text.ofString "(").length = 1 := by decide
  have hclose : (Text.ofString ")").length = 1 := by decide
  rw [memoryText, List.length_append, List.length_append, List.length_append]
  omega

/-- There are one to three operands, each of them plain and of at most 11 bytes. -/
theorem Written.short (h : Written i m operands) :
    operands ≠ [] ∧ operands.length ≤ 3 ∧ ∀ o ∈ operands, PlainOperand o ∧ o.length ≤ 11 := by
  have hreg : ∀ r : Reg, PlainOperand (regText r) ∧ (regText r).length ≤ 11 := fun r =>
    ⟨plainOperand_regText r, Nat.le_trans (length_regText_le r) (by decide)⟩
  have himm : ∀ {imm : Int}, -0x10000 ≤ imm → imm < 0x10000 →
      PlainOperand (Text.ofInt imm) ∧ (Text.ofInt imm).length ≤ 11 := fun hlow hhigh =>
    ⟨plainOperand_ofInt _, Nat.le_trans (length_ofInt_le hlow hhigh) (by decide)⟩
  have htarget : ∀ {target : Int}, 0 ≤ target → target < 0x8000000 →
      PlainOperand (targetText target) ∧ (targetText target).length ≤ 11 := fun hlow hhigh =>
    ⟨plainOperand_targetText _, Nat.le_trans (length_targetText_le hlow hhigh) (by decide)⟩
  cases h with
  | alu rd rs rt hfn => simp [hreg]
  | @shift _ fn rd rs shamt hfn hshamt hzero =>
    have hamount := @himm shamt (by omega) (by omega)
    have htext : Text.ofInt shamt = Text.decimal shamt := by simp [Text.ofInt]
    rw [htext] at hamount
    simp [hreg, hamount]
  | memory rd rs hmake hlow hhigh =>
    simp [hreg, plainOperand_memoryText, length_memoryText_le rs hlow hhigh]
  | branch rd rs hmake hlow hhigh => simp [hreg, himm hlow hhigh]
  | jump hmake hlow hhigh => simp [htarget hlow hhigh]
  | addi rd rs hlow hhigh => simp [hreg, himm hlow hhigh]
  | jr rs => simp [hreg]
  | setx hlow hhigh => simp [htarget hlow hhigh]

/-- What is shown is in plain form. -/
theorem Written.plain (h : Written i m operands) : SourceInstr.Plain ⟨m.name, operands⟩ where
  name_ne_nil := m.name_plain.1
  name_head := m.name_plain.2.1
  name_plain := m.name_plain.2.2.1
  operands_ne_nil := h.short.1
  operands := fun o ho => (h.short.2.2 o ho).1

/-- Operands of at most `k` bytes have a text of bounded length. -/
theorem length_join_le {k : Nat} {os : List Text} (hos : ∀ o ∈ os, o.length ≤ k) :
    (Text.join ", " os).length ≤ os.length * (k + 2) := by
  induction os with
  | nil => simp [Text.join]
  | cons o os ih =>
    have ho := hos o List.mem_cons_self
    have hrest := ih fun p hp => hos p (List.mem_cons_of_mem o hp)
    rw [List.length_cons, Nat.succ_mul]
    cases os with
    | nil =>
      have hjoin : Text.join ", " [o] = o := by simp [Text.join]
      rw [hjoin]
      omega
    | cons p ps =>
      have hmark : (Text.ofString ", ").length = 2 := by decide
      rw [Text.join] at hrest ⊢
      rw [List.intercalate_cons_cons, List.length_append, List.length_append, hmark]
      omega

/-- What is shown fits a line, being shorter than `maxLineLength`. -/
theorem Written.length_text_lt (h : Written i m operands) :
    (SourceInstr.text ⟨m.name, operands⟩).length < Input.maxLineLength := by
  obtain ⟨-, hcount, hshort⟩ := h.short
  have hname := m.name_plain.2.2.2.2
  have hjoin := length_join_le fun o ho => (hshort o ho).2
  have hbound : operands.length * (11 + 2) ≤ 3 * (11 + 2) := Nat.mul_le_mul_right _ hcount
  simp only [SourceInstr.text, List.length_append, List.length_cons, Input.maxLineLength]
  omega

end Written

/-! ## Words and their lines -/

/-- A line `i` that the word `w` is shown as, and that is assembled to `w` again. -/
structure Shows (w : Word) (i : SourceInstr) : Prop where
  text : w.disassemble = i.text
  plain : i.Plain
  fits : i.text.length < Input.maxLineLength
  encode : ∀ (strict : Bool) (pc : Nat), encode strict {} pc i.lowered = .ok ⟨w, none⟩

/-- **An encoded word is shown as a line that is assembled to it again**: some line `Shows` it. -/
theorem exists_shows_of_encode {strict : Bool} {labels : Labels} {pc : Nat} {i : SourceInstr}
    {e : Encoding} (h : encode strict labels pc i = .ok e) : ∃ i', Shows e.code i' := by
  obtain ⟨m, instr, -, hreads, hcode⟩ := reads_of_encode h
  obtain ⟨m', operands, hwritten⟩ := exists_written_of_reads hreads
  refine ⟨⟨m'.name, operands⟩, ?_, hwritten.plain, hwritten.length_text_lt, ?_⟩
  · rw [Word.disassemble, hcode, Instr.ofWord_word, hwritten.text_eq]
  · intro strict pc
    rw [m'.lowered_name, encode_of_reads (hwritten.reads pc) hwritten.ne_andi, hcode,
      Instr.word_reduce _ hreads.ne_undefined]

/-! ## Sources in plain form -/

/-- The source lines of the instructions `is` after line `lineNo`, the first of them numbered
`pc`. -/
def codeLines (lineNo pc : Nat) : List SourceInstr → List SourceLine
  | [] => []
  | i :: is => ⟨lineNo + 1, i.text, none, some i.lowered, pc⟩ :: codeLines (lineNo + 1) (pc + 1) is

/-- An instruction in plain form becomes the next source line of a text section. -/
theorem Scan.step_text {s : Scan} {i : SourceInstr} (hi : i.Plain) (hfault : s.fault = none)
    (htext : s.inText = true) :
    s.step i.text =
      { s with lineNo := s.lineNo + 1, text := i.text, pc := s.pc + 1
               lines := s.lines.push ⟨s.lineNo + 1, i.text, none, some i.lowered, s.pc⟩ } := by
  simp [Scan.step, hfault, trim_text hi.toLegible, ofLine_text hi, Scan.accept, htext]

/-- Instructions in plain form become the next source lines of a text section. -/
theorem Scan.foldl_step_text {is : List SourceInstr} (his : ∀ i ∈ is, i.Plain) :
    ∀ s : Scan, s.fault = none → s.inText = true →
      ((is.map SourceInstr.text).foldl step s).fault = none ∧
      ((is.map SourceInstr.text).foldl step s).lines.toList =
        s.lines.toList ++ codeLines s.lineNo s.pc is := by
  induction is with
  | nil =>
    intro s hfault _
    exact ⟨hfault, (List.append_nil _).symm⟩
  | cons i is ih =>
    intro s hfault htext
    have hi : i.Plain := his i List.mem_cons_self
    obtain ⟨hend, hlines⟩ := ih (fun k hk => his k (List.mem_cons_of_mem i hk)) (s.step i.text)
      (by rw [step_text hi hfault htext]; exact hfault)
      (by rw [step_text hi hfault htext]; exact htext)
    refine ⟨hend, hlines.trans ?_⟩
    rw [step_text hi hfault htext, Array.toList_push, List.append_assoc]
    rfl

/-- The source of the instructions `is`: a text section with one of them on each line. -/
def listing (is : List SourceInstr) : Text :=
  Input.unlines (".text" :: is.map SourceInstr.text)

/-- The lines of such a `listing` are read as they stand. -/
theorem isLine_of_mem_listing {is : List SourceInstr} (hplain : ∀ i ∈ is, i.Plain)
    (hfits : ∀ i ∈ is, i.text.length < Input.maxLineLength) :
    ∀ l ∈ (Text.ofString ".text") :: is.map SourceInstr.text, Input.IsLine l := by
  intro l hl
  rcases List.mem_cons.mp hl with rfl | hl
  · exact Input.isLine_of_visible (by decide +kernel) (by decide)
  · obtain ⟨i, hi, rfl⟩ := List.mem_map.mp hl
    refine Input.isLine_of_visible ?_ (hfits i hi)
    intro b hb
    rcases mem_text (hplain i hi).toLegible b hb with h | rfl | rfl
    · exact .inl (isVisible_of_isPlain h)
    · exact .inl (by decide)
    · exact .inr rfl

/-- The source lines of such a `listing` are its instructions. -/
theorem Scan.ofInput_listing {is : List SourceInstr} (hplain : ∀ i ∈ is, i.Plain)
    (hfits : ∀ i ∈ is, i.text.length < Input.maxLineLength) :
    (Scan.ofInput ⟨listing is, none⟩).fault = none ∧
      (Scan.ofInput ⟨listing is, none⟩).lines.toList = codeLines 1 0 is := by
  have hls := isLine_of_mem_listing hplain hfits
  obtain ⟨hfault, hlines⟩ := foldl_step_text hplain
    { lineNo := 1, text := ".text", inText := true } rfl rfl
  have hscan : Scan.ofInput ⟨listing is, none⟩ =
      { (is.map SourceInstr.text).foldl step { lineNo := 1, text := ".text", inText := true } with
        fault := none } := by
    simp only [ofInput, listing, Input.lines_unlines_of_isLine hls,
      Input.fault?_unlines fun l hl => (hls l hl).toIsSegment, List.foldl_cons, step_text_section,
      hfault, Option.map_none, Option.isSome_none, Bool.false_eq_true, if_false]
  rw [hscan]
  exact ⟨rfl, hlines⟩

/-- Such a source has no labels: `Labels.ofLines` is empty. -/
theorem ofLines_codeLines (is : List SourceInstr) :
    ∀ lineNo pc, Labels.ofLines (codeLines lineNo pc is) = {} := by
  induction is with
  | nil => exact fun _ _ => rfl
  | cons i is ih => exact fun lineNo pc => ih (lineNo + 1) (pc + 1)

end WordMachine.Asm

namespace WordMachine.Assembler

open Asm

/-! ## Assembling what is shown -/

/-- An instruction `i` that every assembler encodes as the word `w` when there are no labels. -/
def EncodesTo (i : SourceInstr) (w : Word) : Prop :=
  ∀ (strict : Bool) (pc : Nat), encode strict {} pc i.lowered = .ok ⟨w, none⟩

/-- The words `ws` of instructions that are encoded without labels. -/
theorem encode_codeLines (strict : Bool) {is : List SourceInstr} {ws : List Word}
    (h : List.Forall₂ EncodesTo is ws) :
    ∀ lineNo pc,
      let encoded := (codeLines lineNo pc is).map (encodeLine strict {})
      (∀ e ∈ encoded, isGood e = true) ∧
        (encoded.filterMap entryOf?).map (·.code) = ws ∧ encoded.filterMap warning? = [] := by
  induction h with
  | nil =>
    intro lineNo pc
    exact ⟨fun e he => absurd he List.not_mem_nil, rfl, rfl⟩
  | @cons i w is ws hi _ ih =>
    intro lineNo pc
    have hencode : encodeLine strict {} ⟨lineNo + 1, i.text, none, some i.lowered, pc⟩ =
        (⟨lineNo + 1, i.text, none, some i.lowered, pc⟩, .ok (some ⟨w, none⟩)) := by
      simp only [encodeLine, hi strict pc, Except.map]
    obtain ⟨hgood, hcodes, hwarnings⟩ := ih (lineNo + 1) (pc + 1)
    simp only [List.map_cons, codeLines, hencode]
    refine ⟨?_, ?_, ?_⟩
    · intro e he
      rcases List.mem_cons.mp he with rfl | he
      · rfl
      · exact hgood e he
    · exact congrArg (w :: ·) hcodes
    · exact hwarnings

/-- Instructions `is` in plain form that are encoded without labels are assembled to their words
`ws`, without a warning. -/
theorem parse_plain (asm : Assembler) {is : List SourceInstr} {ws : List Word}
    (hplain : ∀ i ∈ is, i.Plain) (hfits : ∀ i ∈ is, i.text.length < Input.maxLineLength)
    (h : List.Forall₂ EncodesTo is ws) :
    ∃ q, (asm.parse ⟨listing is, none⟩).result = .ok q ∧
      (asm.parse ⟨listing is, none⟩).assembler.warnings = [] ∧ q.warnings = [] ∧
      q.image = ws.toArray := by
  obtain ⟨hscan, hlines⟩ := Scan.ofInput_listing hplain hfits
  obtain ⟨hgood, hcodes, hwarnings⟩ := encode_codeLines asm.strict h 1 0
  have hlabels := ofLines_codeLines is 1 0
  obtain ⟨q, hq, hassembled, hrun⟩ := asm.parse_of_good hscan (by
    intro line hline
    rw [hlines, hlabels]
    exact hgood _ (List.mem_map_of_mem (hlines ▸ hline)))
  rw [hlines] at hassembled
  have hq_labels : q.labels = {} := by rw [hassembled.labels, hlabels]
  have hq_warnings : q.warnings = [] := by rw [hassembled.warnings, hq_labels, hwarnings]
  refine ⟨q, hq, hrun.trans hq_warnings, hq_warnings, ?_⟩
  rw [Program.image, hassembled.entries, hq_labels, hcodes]

/-- Words `ws` that lines show can be assembled from these lines, without a warning. -/
theorem parse_listing (asm : Assembler) {src : Word → SourceInstr} {ws : List Word}
    (hsrc : ∀ w ∈ ws, Shows w (src w)) :
    ∃ q, (asm.parse ⟨listing (ws.map src), none⟩).result = .ok q ∧
      (asm.parse ⟨listing (ws.map src), none⟩).assembler.warnings = [] ∧ q.warnings = [] ∧
      q.image = ws.toArray := by
  have hencodes : List.Forall₂ EncodesTo (ws.map src) ws :=
    List.forall₂_map_left_iff.mpr (List.forall₂_same.mpr fun w hw => (hsrc w hw).encode)
  refine parse_plain asm ?_ ?_ hencodes
  · intro i hi
    obtain ⟨w, hw, rfl⟩ := List.mem_map.mp hi
    exact (hsrc w hw).plain
  · intro i hi
    obtain ⟨w, hw, rfl⟩ := List.mem_map.mp hi
    exact (hsrc w hw).fits

end WordMachine.Assembler

namespace WordMachine

open Asm

/-- The source text that shows the words of the program `p`: a text section, and one word on each
line. -/
def Program.disassembly (p : Program) : Text :=
  Input.unlines (".text" :: p.image.toList.map Word.disassemble)

/-- **Disassembly undoes assembly.** The disassembly of a program `p` that was assembled from any
source is accepted by every assembler without a warning, and gives the same words. -/
theorem Assembler.parse_disassembly (asm asm' : Assembler) (input : Input) (p : Program)
    (h : (asm.parse input).result = .ok p) :
    ∃ q, (asm'.parse ⟨p.disassembly, none⟩).result = .ok q ∧
      (asm'.parse ⟨p.disassembly, none⟩).assembler.warnings = [] ∧ q.warnings = [] ∧
      q.image = p.image := by
  -- `choose` wants an instruction for every word, so a word outside the image gets an empty one.
  have hshows : ∀ w, ∃ i, w ∈ p.image.toList → Shows w i := by
    intro w
    by_cases hw : w ∈ p.image.toList
    · obtain ⟨entry, hentry, rfl⟩ := List.mem_map.mp hw
      obtain ⟨line, -, i, e, -, hencode, rfl⟩ :=
        (assembled_of_parse h).exists_line_of_mem (Array.mem_toList_iff.mp hentry)
      obtain ⟨i', hi'⟩ := exists_shows_of_encode hencode
      exact ⟨i', fun _ => hi'⟩
    · exact ⟨⟨[], []⟩, fun hmem => absurd hmem hw⟩
  choose src hsrc using hshows
  have htext : p.disassembly = listing (p.image.toList.map src) := by
    rw [Program.disassembly, listing, List.map_map]
    congr 2
    exact List.map_congr_left fun w hw => (hsrc w hw).text
  rw [htext]
  exact parse_listing asm' hsrc

set_option maxRecDepth 10000 in
/-- A shift by zero, an instruction without an encoding, a branch back and one to a label that comes
later, the least immediate, and a jump to zero. -/
theorem Assembler.parse_disassembly_sample :
    ∃ p, ((({} : Assembler).parse
        ⟨".text\nmain: sll $1, $2, 0\n andi $3, $4, 5 # none\n bne $5, $6, main\n blt $7, $8, end\n"
          ++ " addi $9, $10, -65536\n sw $11, -1($12)\nend: j 0\n jal end", none⟩).result = .ok p ∧
      p.image = #[0x00440000, 0, 0x118bffff, 0x320e0004, 0x2a550000, 0x3ad9ffff, 0x08000000,
        0x18000006]) ∧
      ∃ q, (({ strict := true } : Assembler).parse ⟨p.disassembly, none⟩).result = .ok q ∧
        q.warnings = [] ∧ q.image = p.image := by
  refine Exists.imp (fun p hp => ⟨hp, ?_⟩) (exists_ok_of_toOption_map (by decide +kernel))
  obtain ⟨q, hq, -, hwarnings, himage⟩ := parse_disassembly {} { strict := true } _ p hp.1
  exact ⟨q, hq, hwarnings, himage⟩

end WordMachine
