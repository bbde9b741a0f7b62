import WordMachine.Proofs.Disassembly
import WordMachine.Proofs.Transfer

/-!
# Words assembled from their own text

A word is shown by the fields that its operation makes use of, and what its other bits hold is lost
in the text. `Instr.reread` says which instruction the text of an instruction is assembled to. It
does the same to every machine that has zero in register 0, unless the word hides a shift: an
addition with a shift amount shifts, and it is shown as an addition if its second operand is not
register 0.

* `Instr.exists_shownAs`: every word that has a meaning is shown as a line in plain form.
* `Assembler.reread_of_parse`: the text of a word is assembled to the word of the instruction that
  it is reread as.
* `Assembler.execute_reassembled_iff`: the two words do the same exactly if there is no hidden
  shift.
-/

namespace WordMachine

open Asm

namespace Instr

/-! ## Instructions read from words -/

/-- The numbers of an instruction that was read from the word `w` fit their fields. -/
theorem reduce_ofWord (w : Word) : (ofWord w).reduce = ofWord w := by
  have himm : w.immediate.bmod 0x20000 = w.immediate := Int.bmod_bmod
  have htarget : (Field.target.get w : Int) % 0x8000000 = Field.target.get w := by
    have hlt : Field.target.get w < 0x8000000 := Nat.mod_lt _ (by decide)
    omega
  cases hop : Operation.ofCode? (Field.op.get w) with
  | none => simp only [ofWord, hop, reduce]
  | some op =>
    cases op with
    | rtype =>
      have hfn : Field.aluOp.get w % 32 = Field.aluOp.get w := Nat.mod_mod _ _
      have hshamt : Field.shamt.get w % 32 = Field.shamt.get w := Nat.mod_mod _ _
      simp only [ofWord, hop, reduce, hfn, hshamt]
    | addi | lw | sw | bne | blt => simp only [ofWord, hop, reduce, himm]
    | j | jal | setx | bex => simp only [ofWord, hop, reduce, htarget]
    | jr => simp only [ofWord, hop, reduce]

/-- The instruction that the text of an instruction is assembled to; `none` if the text is
refused. -/
def reread : Instr → Option Instr
  | alu fn rd rs rt shamt =>
    match AluOp.ofCode? fn with
    | some .add =>
      if shamt ≠ 0 ∧ rt = Reg.zero then some (alu AluOp.add.code rd rs Reg.zero shamt)
      else some (alu AluOp.add.code rd rs rt 0)
    | some .sub => some (alu AluOp.sub.code rd rs rt 0)
    | some .and => some (alu AluOp.and.code rd rs rt 0)
    | some .or => some (alu AluOp.or.code rd rs rt 0)
    | some .sll => some (alu AluOp.add.code rd rs Reg.zero shamt)
    | some .sra => some (alu AluOp.sra.code rd rs Reg.zero shamt)
    | some .mul | some .div | none => none
  | undefined _ => none
  | i => some i

/-- What an arithmetic instruction is reread as: one without its `shamt`, a shift to the left in its
short form, or a shift to the right. -/
theorem reread_alu {fn shamt : Nat} {rd rs rt : Reg} {i : Instr}
    (h : (alu fn rd rs rt shamt).reread = some i) :
    (i = alu fn rd rs rt 0 ∧
      (fn = AluOp.add.code ∧ (shamt = 0 ∨ rt ≠ Reg.zero) ∨
        fn = AluOp.sub.code ∨ fn = AluOp.and.code ∨ fn = AluOp.or.code)) ∨
    (i = alu AluOp.add.code rd rs Reg.zero shamt ∧
      (fn = AluOp.add.code ∧ rt = Reg.zero ∨ fn = AluOp.sll.code)) ∨
    (i = alu fn rd rs Reg.zero shamt ∧ fn = AluOp.sra.code) := by
  rw [reread] at h
  cases hop : AluOp.ofCode? fn with
  | none =>
    rw [hop] at h
    cases h
  | some op =>
    obtain rfl := AluOp.eq_code_of_ofCode? hop
    rw [hop] at h
    cases op with
    | add =>
      dsimp only at h
      split at h <;> rename_i hcond <;> cases h
      · exact .inr (.inl ⟨rfl, .inl ⟨rfl, hcond.2⟩⟩)
      · refine .inl ⟨rfl, .inl ⟨rfl, ?_⟩⟩
        by_cases hshamt : shamt = 0
        · exact .inl hshamt
        · exact .inr fun hrt => hcond ⟨hshamt, hrt⟩
    | sub =>
      cases h
      exact .inl ⟨rfl, .inr (.inl rfl)⟩
    | and =>
      cases h
      exact .inl ⟨rfl, .inr (.inr (.inl rfl))⟩
    | or =>
      cases h
      exact .inl ⟨rfl, .inr (.inr (.inr rfl))⟩
    | sll =>
      cases h
      exact .inr (.inl ⟨rfl, .inr rfl⟩)
    | sra =>
      cases h
      exact .inr (.inr ⟨rfl, rfl⟩)
    | mul | div => cases h

/-- The numbers of an instruction `i'` that is reread fit their fields, as those of `i` do. -/
theorem reduce_of_reread {i i' : Instr} (hi : i.reduce = i) (hread : i.reread = some i') :
    i'.reduce = i' := by
  cases i with
  | alu fn rd rs rt shamt =>
    obtain ⟨hfn, -, -, -, hshamt⟩ := alu.inj hi
    obtain ⟨rfl, -⟩ | ⟨rfl, -⟩ | ⟨rfl, -⟩ := reread_alu hread
    · rw [reduce, hfn]
    · rw [reduce, hshamt]
      rfl
    · rw [reduce, hfn, hshamt]
  | undefined w => cases hread
  | addi | lw | sw | bne | blt | j | jal | jr | setx | bex =>
    cases hread
    exact hi

/-- A `line` in plain form that the instruction `i` is shown as, and what the assembler makes of
it. -/
structure ShownAs (i : Instr) (line : SourceInstr) : Prop where
  text : i.text = line.text
  plain : line.Plain
  fits : line.text.length < Input.maxLineLength
  encode : ∀ strict : Bool,
    (encode strict {} 0 line.lowered).toOption.map (·.code) = i.reread.map word

/-- An instruction that is `Written` as it is shown is read back. -/
theorem shownAs_of_written {i : Instr} {m : Mnemonic} {operands : List Text}
    (h : Written i m operands) (hi : i.reread = some i) : i.ShownAs ⟨m.name, operands⟩ where
  text := h.text_eq
  plain := h.plain
  fits := h.length_text_lt
  encode := by
    intro strict
    rw [m.lowered_name, encode_of_reads (h.reads 0) h.ne_andi, hi]
    rfl

/-! ## Arithmetic -/

/-- The line that an arithmetic instruction is shown as. -/
def aluLine (fn : Nat) (rd rs rt : Reg) (shamt : Nat) : SourceInstr :=
  if fn = AluOp.add.code ∧ shamt ≠ 0 ∧ rt = Reg.zero then
    ⟨AluOp.sll.name, [regText rd, regText rs, Text.decimal shamt]⟩
  else if fn = AluOp.sll.code ∨ fn = AluOp.sra.code then
    ⟨aluOpName fn, [regText rd, regText rs, Text.decimal shamt]⟩
  else ⟨aluOpName fn, [regText rd, regText rs, regText rt]⟩

theorem text_aluLine (fn : Nat) (rd rs rt : Reg) (shamt : Nat) :
    (alu fn rd rs rt shamt).text = (aluLine fn rd rs rt shamt).text := by
  rw [Instr.text, aluLine]
  split
  · rw [text_twoRegs]
  · split <;> rw [text_twoRegs]

/-- The names `aluOpName` of arithmetic operations, those without a meaning included, are plain. -/
theorem aluOpName_plain : ∀ fn : Fin 32,
    aluOpName fn.val ≠ [] ∧ (aluOpName fn.val).head?.any Text.isLetter = true ∧
      (∀ b ∈ aluOpName fn.val, isPlain b = true) ∧ (aluOpName fn.val).length ≤ 13 := by
  decide +kernel

/-- The operations that the assembler does not know have no name that it knows. -/
theorem ofName?_aluOpName : ∀ fn : Fin 32,
    AluOp.ofCode? fn.val = some .mul ∨ AluOp.ofCode? fn.val = some .div ∨
      AluOp.ofCode? fn.val = none →
    Mnemonic.ofName? (Text.lower (aluOpName fn.val)) = none := by
  decide +kernel

/-- A line with a plain `name`, two registers and a short `third` operand. -/
theorem plain_three {name third : Text} (hne : name ≠ [])
    (hhead : name.head?.any Text.isLetter = true) (hname : ∀ b ∈ name, isPlain b = true)
    (hlength : name.length ≤ 13) (rd rs : Reg)
    (hthird : PlainOperand third) (hshort : third.length ≤ 11) :
    SourceInstr.Plain ⟨name, [regText rd, regText rs, third]⟩ ∧
      (SourceInstr.text ⟨name, [regText rd, regText rs, third]⟩).length < Input.maxLineLength := by
  have hrd := length_regText_le rd
  have hrs := length_regText_le rs
  have hjoin := @length_join_le 11 [regText rd, regText rs, third] (by
    intro o ho
    simp only [List.mem_cons, List.not_mem_nil, or_false] at ho
    rcases ho with rfl | rfl | rfl <;> omega)
  refine ⟨⟨⟨hne, hname, List.cons_ne_nil _ _, ?_⟩, hhead⟩, ?_⟩
  · intro o ho
    simp only [List.mem_cons, List.not_mem_nil, or_false] at ho
    rcases ho with rfl | rfl | rfl
    · exact plainOperand_regText rd
    · exact plainOperand_regText rs
    · exact hthird
  · simp only [SourceInstr.text, List.length_append, List.length_cons, List.length_nil,
      Input.maxLineLength] at hjoin ⊢
    omega

/-- A `shamt` is a plain operand of at most two digits, and is read back. -/
theorem shamt_operand {shamt : Nat} (hshamt : shamt < 32) :
    PlainOperand (Text.decimal shamt) ∧ (Text.decimal shamt).length ≤ 11 ∧
      parseImmediate (Text.decimal shamt) = .ok (shamt : Int) := by
  have htext : Text.ofInt shamt = Text.decimal shamt := by simp [Text.ofInt]
  have hlength : (Text.decimal shamt).length ≤ 2 :=
    Text.length_digits_le (by decide) (by decide) (by omega)
  refine ⟨htext ▸ plainOperand_ofInt shamt, by omega, ?_⟩
  exact parseImmediate_of_literal? (literal?_decimal shamt) (isWide_of_small (by omega) (by omega))

/-- The line of an arithmetic instruction is in plain form. -/
theorem plain_aluLine {fn shamt : Nat} (hfn : fn < 32) (hshamt : shamt < 32) (rd rs rt : Reg) :
    (aluLine fn rd rs rt shamt).Plain ∧
      (aluLine fn rd rs rt shamt).text.length < Input.maxLineLength := by
  obtain ⟨hne, hhead, hname, hlength⟩ := aluOpName_plain ⟨fn, hfn⟩
  obtain ⟨hplain, hshort, -⟩ := shamt_operand hshamt
  unfold aluLine
  split
  · exact plain_three (by decide) (by decide) (by decide +kernel) (by decide) rd rs hplain hshort
  · split
    · exact plain_three hne hhead hname hlength rd rs hplain hshort
    · have hrt := length_regText_le rt
      exact plain_three hne hhead hname hlength rd rs (plainOperand_regText rt) (by omega)

/-- A line with an arithmetic name and three registers is assembled with 0 for its shift amount. -/
theorem encode_registers {m : Mnemonic} {fn : AluOp} (hm : m.aluOp? = some fn) (rd rs rt : Reg)
    (strict : Bool) :
    (encode strict {} 0
        (SourceInstr.lowered ⟨m.name, [regText rd, regText rs, regText rt]⟩)).toOption.map
        (·.code) = some (alu fn.code rd rs rt 0).word := by
  have hreads : Reads {} 0 m [regText rd, regText rs, regText rt] (.alu fn.code rd rs rt 0) :=
    .alu hm (parseRegister_regText rd) (parseRegister_regText rs) (parseRegister_regText rt)
  have hne : m ≠ .andi := by
    rintro rfl
    cases hm
  rw [m.lowered_name, encode_of_reads hreads hne]
  rfl

/-- A line with the name of a shift is assembled with register 0 for its second operand. -/
theorem encode_shift {m : Mnemonic} {fn : AluOp} (hm : m.shiftOp? = some fn) (rd rs : Reg)
    {shamt : Nat} (hshamt : shamt < 32) (strict : Bool) :
    (encode strict {} 0
        (SourceInstr.lowered ⟨m.name, [regText rd, regText rs, Text.decimal shamt]⟩)).toOption.map
          (·.code) =
      some (alu fn.code rd rs Reg.zero shamt).word := by
  have hreads : Reads {} 0 m [regText rd, regText rs, Text.decimal shamt]
      (.alu fn.code rd rs Reg.zero shamt) :=
    .shift hm (parseRegister_regText rd) (parseRegister_regText rs) (shamt_operand hshamt).2.2
      (by omega) (by omega)
  have hne : m ≠ .andi := by
    rintro rfl
    cases hm
  rw [m.lowered_name, encode_of_reads hreads hne]
  rfl

/-- A line with a name that the assembler does not know is refused. -/
theorem encode_unknown {name : Text} (hname : Mnemonic.ofName? (Text.lower name) = none)
    (operands : List Text) (strict : Bool) :
    (encode strict {} 0 (SourceInstr.lowered ⟨name, operands⟩)).toOption.map (·.code) = none := by
  simp only [encode, SourceInstr.lowered, hname]
  rfl

/-- **An arithmetic instruction is shown as its `aluLine`.** -/
theorem shownAs_aluLine {fn shamt : Nat} (hfn : fn < 32) (hshamt : shamt < 32) (rd rs rt : Reg) :
    (alu fn rd rs rt shamt).ShownAs (aluLine fn rd rs rt shamt) where
  text := text_aluLine fn rd rs rt shamt
  plain := (plain_aluLine hfn hshamt rd rs rt).1
  fits := (plain_aluLine hfn hshamt rd rs rt).2
  encode := by
    intro strict
    -- Multiplication and division have names, but no instructions that the assembler knows.
    have hunknown := ofName?_aluOpName ⟨fn, hfn⟩
    cases hop : AluOp.ofCode? fn with
    | none =>
      have hne : ∀ op : AluOp, fn ≠ op.code := by
        rintro op rfl
        rw [AluOp.ofCode?_code] at hop
        cases hop
      rw [aluLine, if_neg (fun h => hne .add h.1), if_neg (not_or.mpr ⟨hne .sll, hne .sra⟩),
        encode_unknown (hunknown (.inr (.inr hop))), reread, hop]
      rfl
    | some op =>
      obtain rfl := AluOp.eq_code_of_ofCode? hop
      cases op with
      | add =>
        by_cases hshift : shamt ≠ 0 ∧ rt = Reg.zero
        · rw [aluLine, if_pos ⟨rfl, hshift⟩, reread, hop]
          simp only [if_pos hshift]
          exact encode_shift (m := .sll) rfl rd rs hshamt strict
        · rw [aluLine, if_neg (fun h => hshift h.2), reread, hop]
          simp only [if_neg hshift]
          exact encode_registers (m := .add) rfl rd rs rt strict
      | sub => exact encode_registers (m := .sub) rfl rd rs rt strict
      | and => exact encode_registers (m := .and) rfl rd rs rt strict
      | or => exact encode_registers (m := .or) rfl rd rs rt strict
      | sll => exact encode_shift (m := .sll) rfl rd rs hshamt strict
      | sra => exact encode_shift (m := .sra) rfl rd rs hshamt strict
      | mul => exact encode_unknown (hunknown (.inl hop)) _ strict
      | div => exact encode_unknown (hunknown (.inr (.inl hop))) _ strict

/-! ## All instructions -/

/-- **Every word that has a meaning is shown as a line in plain form.** -/
theorem exists_shownAs {i : Instr} (hi : i.reduce = i) (hdefined : ∀ w, i ≠ undefined w) :
    ∃ line, i.ShownAs line := by
  have himm : ∀ {imm : Int}, imm.bmod 0x20000 = imm → -0x10000 ≤ imm ∧ imm < 0x10000 := by
    intro imm h
    exact h ▸ bmod_immediate_range imm
  have htarget : ∀ {target : Int}, target % 0x8000000 = target →
      0 ≤ target ∧ target < 0x8000000 := by
    intro target h
    exact h ▸ emod_target_range target
  cases i with
  | alu fn rd rs rt shamt =>
    injection hi with hfn _ _ _ hshamt
    exact ⟨_, shownAs_aluLine (by omega) (by omega) rd rs rt⟩
  | addi rd rs imm =>
    injection hi with _ _ h
    exact ⟨_, shownAs_of_written (.addi rd rs (himm h).1 (himm h).2) rfl⟩
  | lw rd rs imm =>
    injection hi with _ _ h
    exact ⟨_, shownAs_of_written (.memory (m := .lw) rd rs rfl (himm h).1 (himm h).2) rfl⟩
  | sw rd rs imm =>
    injection hi with _ _ h
    exact ⟨_, shownAs_of_written (.memory (m := .sw) rd rs rfl (himm h).1 (himm h).2) rfl⟩
  | bne rd rs imm =>
    injection hi with _ _ h
    exact ⟨_, shownAs_of_written (.branch (m := .bne) rd rs rfl (himm h).1 (himm h).2) rfl⟩
  | blt rd rs imm =>
    injection hi with _ _ h
    exact ⟨_, shownAs_of_written (.branch (m := .blt) rd rs rfl (himm h).1 (himm h).2) rfl⟩
  | j target =>
    injection hi with h
    exact ⟨_, shownAs_of_written (.jump (m := .j) rfl (htarget h).1 (htarget h).2) rfl⟩
  | jal target =>
    injection hi with h
    exact ⟨_, shownAs_of_written (.jump (m := .jal) rfl (htarget h).1 (htarget h).2) rfl⟩
  | jr rs => exact ⟨_, shownAs_of_written (.jr rs) rfl⟩
  | setx target =>
    injection hi with h
    exact ⟨_, shownAs_of_written (.setx (htarget h).1 (htarget h).2) rfl⟩
  | bex target =>
    injection hi with h
    exact ⟨_, shownAs_of_written (.jump (m := .bex) rfl (htarget h).1 (htarget h).2) rfl⟩
  | undefined w => exact absurd rfl (hdefined w)

/-- The line that a word without a meaning is shown as: the directive `.word` and a number. -/
def wordLine (w : Word) : SourceInstr :=
  ⟨".word", ["0x" ++ Text.upperHex 8 w.toNat]⟩

theorem text_undefined (w : Word) : (undefined w).text = (wordLine w).text := by
  rw [wordLine, text_singleton, ← List.append_assoc]
  rfl

theorem plainOperand_upperHex (width n : Nat) : PlainOperand ("0x" ++ Text.upperHex width n) where
  ne_nil := List.cons_ne_nil _ _
  plain := by
    have hmark : ∀ b ∈ Text.ofString "0x", isPlain b = true := by decide +kernel
    intro b hb
    rcases List.mem_append.mp hb with hb | hb
    · exact hmark b hb
    · rw [Text.upperHex, Text.padLeft, List.mem_append] at hb
      rcases hb with hb | hb
      · rw [List.eq_of_mem_replicate hb]
        decide
      · have hdigit := Text.isDigitOf_of_mem_map_toDigits Text.spells_upper (by decide) (by decide)
          n b hb
        rcases Text.isDigit_or_isLetter_of_isDigitOf (by decide) hdigit with h | h
        · exact isPlain_of_isDigit h
        · exact isPlain_of_isLetter h

/-- The parts of the line of a word without a meaning can be told apart. -/
theorem legible_wordLine (w : Word) :
    (wordLine w).Legible ∧ (wordLine w).text.length < Input.maxLineLength := by
  have hname : ∀ b ∈ Text.ofString ".word", isPlain b = true := by decide +kernel
  have hdigits : (Text.upperDigits 16 w.toNat).length ≤ 8 := by
    rw [Text.upperDigits, List.length_map]
    exact (Nat.length_toDigits_le_iff (by decide) (by decide)).mpr w.toNat_lt
  have hmark : (Text.ofString "0x").length = 2 := by decide
  have hword : (Text.ofString ".word").length = 5 := by decide
  have hspace : (Text.ofString " ").length = 1 := by decide
  refine ⟨⟨List.cons_ne_nil _ _, hname, List.cons_ne_nil _ _, ?_⟩, ?_⟩
  · intro o ho
    rw [List.mem_singleton.mp ho]
    exact plainOperand_upperHex 8 w.toNat
  · rw [wordLine, text_singleton, Text.upperHex, Text.padLeft]
    simp only [List.length_append, List.length_replicate, Input.maxLineLength]
    omega

end Instr

/-! ## Assembling the text of a word -/

/-- A `Legible` line is a line as it stands. -/
theorem Asm.SourceInstr.Legible.isLine {i : SourceInstr} (hi : i.Legible)
    (hfits : i.text.length < Input.maxLineLength) : Input.IsLine i.text := by
  refine Input.isLine_of_visible ?_ hfits
  intro b hb
  rcases mem_text hi b hb with h | rfl | rfl
  · exact .inl (isVisible_of_isPlain h)
  · exact .inl (by decide)
  · exact .inr rfl

namespace Assembler

/-- One instruction that stands `alone` is assembled to its encoding. -/
theorem image_of_parse_alone {asm : Assembler} {line : Text} (hline : Input.IsSegment line)
    {i : SourceInstr}
    (hi : Statement.ofLine (Text.trim (Input.dropReturn line)) = .code none (some i)) {p : Program}
    (h : (asm.parse (alone line)).result = .ok p) :
    ∃ e, encode asm.strict {} 0 i = .ok e ∧ p.image = #[e.code] := by
  have hassembled := assembled_of_parse h
  rw [Scan.ofInput_alone hline, hi] at hassembled
  have hlabels : p.labels = {} := hassembled.labels
  obtain ⟨e, hencode, hentry⟩ := exists_entry_of_instr_eq_some rfl
    (hassembled.good _ List.mem_cons_self)
  have hentries := hassembled.entries
  rw [hlabels] at hencode hentry hentries
  refine ⟨e, hencode, ?_⟩
  rw [Program.image, hentries]
  show (List.map _ (List.filterMap entryOf? [encodeLine asm.strict {} _])).toArray = _
  rw [List.filterMap_cons_some hentry]
  rfl

/-- A malformed line that stands `alone` is refused. -/
theorem result_of_parse_malformed {asm : Assembler} {line : Text} (hline : Input.IsSegment line)
    {fault : SourceFault}
    (hfault : Statement.ofLine (Text.trim (Input.dropReturn line)) = .malformed fault)
    (p : Program) :
    (asm.parse (alone line)).result ≠ .ok p := by
  intro h
  have hscan := fault_of_parse h
  rw [Scan.ofInput_alone hline, hfault] at hscan
  cases hscan

/-- **The text of a word is assembled to the word of the instruction `i` that it is reread as.** -/
theorem reread_of_parse {asm : Assembler} {w : Word} {p : Program}
    (h : (asm.parse (alone w.disassemble)).result = .ok p) :
    ∃ i, (Instr.ofWord w).reread = some i ∧ p.image = #[i.word] := by
  rw [Word.disassemble] at h
  by_cases hdefined : ∀ v, Instr.ofWord w ≠ .undefined v
  · obtain ⟨line, hline⟩ := Instr.exists_shownAs (Instr.reduce_ofWord w) hdefined
    have hread := hline.plain.isLine hline.fits
    rw [hline.text] at h
    obtain ⟨e, hencode, himage⟩ := image_of_parse_alone hread.toIsSegment
      (by rw [hread.dropReturn_eq, trim_text hline.plain.toLegible, ofLine_text hline.plain]) h
    have hword := hline.encode asm.strict
    rw [hencode] at hword
    obtain ⟨i, hi, hcode⟩ := Option.map_eq_some_iff.mp hword.symm
    exact ⟨i, hi, himage.trans (congrArg (fun c => #[c]) hcode.symm)⟩
  · -- A word without a meaning is shown as a directive, which is malformed.
    obtain ⟨v, hv⟩ := not_forall_not.mp hdefined
    obtain ⟨hlegible, hfits⟩ := Instr.legible_wordLine v
    have hread := hlegible.isLine hfits
    have htext : Text.ofString ".word" ≠ ".text" := by decide
    have hdata : Text.ofString ".word" ≠ ".data" := by decide
    have hfault := ofLine_directive hlegible rfl htext hdata
    rw [hv, Instr.text_undefined] at h
    exact absurd h (result_of_parse_malformed hread.toIsSegment
      (by rw [hread.dropReturn_eq, trim_text hlegible, hfault]) p)

end Assembler

/-! ## Executing both words -/

/-- The machine after the instruction `i`, or its fault. -/
def Machine.after (m : Machine) (i : Instr) : Except Fault Machine :=
  (m.effect i).map m.apply

/-- Executing the word `w` is executing `Instr.ofWord w`. -/
theorem Machine.execute_eq_after (m : Machine) (w : Word) :
    m.execute w =
      match m.after (Instr.ofWord w) with
      | .ok m' => (m', none)
      | .error fault => (m, some ⟨w, fault⟩) := by
  rw [execute, after]
  cases m.effect (Instr.ofWord w) with
  | ok e => rfl
  | error fault => rfl

namespace Instr

/-- Does the instruction shift, though it is shown as an addition that does something else? It is an
addition with a shift amount and with a second operand, it writes a register, and it does not double
a register, which both a shift and an addition do. -/
def hidesShift : Instr → Bool
  | alu fn rd rs rt shamt =>
    fn == AluOp.add.code && shamt != 0 && rt != Reg.zero && rd != Reg.zero &&
      !(rs == rt && shamt == 1)
  | _ => false

/-- What an arithmetic instruction does depends on the result that `evalAlu` gives. -/
theorem after_alu_congr {m : Machine} {fn fn' : Nat} {rd rs rt rt' : Reg} {shamt shamt' : Nat}
    (h : evalAlu fn (m.regs.get rs) (m.regs.get rt) shamt =
      evalAlu fn' (m.regs.get rs) (m.regs.get rt') shamt') :
    m.after (alu fn rd rs rt shamt) = m.after (alu fn' rd rs rt' shamt') := by
  simp only [Machine.after, Machine.effect, h]

/-- An addition that writes `Reg.zero` does nothing, whatever its operands are. -/
theorem after_add_zero (m : Machine) (rs rt rt' : Reg) (shamt shamt' : Nat) :
    m.after (alu AluOp.add.code Reg.zero rs rt shamt) =
      m.after (alu AluOp.add.code Reg.zero rs rt' shamt') := by
  rfl

/-- A shift to the left by one doubles. -/
theorem evalAlu_double (a : Word) :
    evalAlu AluOp.add.code a a 1 = evalAlu AluOp.add.code a a 0 := by
  have hdouble : a.shiftLeft 1 = a + a := by
    rw [Word.shiftLeft_eq, Word.add_eq]
    congr 1
    omega
  exact congrArg Except.ok hdouble

/-- An addition of zero with the shift amount `shamt` shifts to the left, also if `shamt = 0`. -/
theorem evalAlu_sll (a b : Word) (shamt : Nat) :
    evalAlu AluOp.sll.code a b shamt = evalAlu AluOp.add.code a 0 shamt := by
  by_cases hshamt : shamt = 0
  · subst hshamt
    have hkeep : a.shiftLeft 0 = a + 0 := by
      rw [Word.shiftLeft_eq, pow_zero, mul_one, Word.ofInt_toNat, UInt32.add_zero]
    exact congrArg Except.ok hkeep
  · exact congrArg Except.ok (if_neg hshamt).symm

/-- **Unless it hides a shift, an instruction `i` does what the `i'` it is reread as does.** -/
theorem after_reread {m : Machine} (hzero : m.regs.get Reg.zero = 0) {i i' : Instr}
    (hread : i.reread = some i') (hshift : i.hidesShift = false) : m.after i = m.after i' := by
  cases i with
  | alu fn rd rs rt shamt =>
    obtain ⟨rfl, ⟨rfl, hcond⟩ | rfl | rfl | rfl⟩ | ⟨rfl, ⟨rfl, rfl⟩ | rfl⟩ | ⟨rfl, rfl⟩ :=
      reread_alu hread
    · by_cases hshamt : shamt = 0
      · rw [hshamt]
      · -- The shift amount is lost. Only a write that is dropped and a doubling are left.
        have hrt : rt ≠ Reg.zero := hcond.resolve_left hshamt
        by_cases hrd : rd = Reg.zero
        · rw [hrd]
          exact after_add_zero m rs rt rt shamt 0
        · obtain ⟨rfl, rfl⟩ : rs = rt ∧ shamt = 1 := by
            simpa [hidesShift, hshamt, hrt, hrd] using hshift
          exact after_alu_congr (evalAlu_double _)
    · exact after_alu_congr rfl
    · exact after_alu_congr rfl
    · exact after_alu_congr rfl
    · rfl
    · exact after_alu_congr (by rw [hzero, evalAlu_sll])
    · exact after_alu_congr rfl
  | undefined w => cases hread
  | addi | lw | sw | bne | blt | j | jal | jr | setx | bex =>
    cases hread
    rfl

/-! ## Hidden shifts -/

/-- The machine with one in the register `r`, and zero in all others. -/
def oneIn (r : Reg) : Machine :=
  { regs := Vector.ofFn fun r' => if r = r' then 1 else 0, data := #[] }

theorem get_oneIn (r r' : Reg) : (oneIn r).regs.get r' = if r = r' then 1 else 0 := by
  show (Vector.ofFn fun r' : Reg => if r = r' then (1 : Word) else 0)[r'.val] = _
  rw [Vector.getElem_ofFn]

/-- What an addition leaves in the register `rd` that it writes. -/
theorem after_add (m : Machine) {rd : Reg} (hrd : rd ≠ Reg.zero) (rs rt : Reg) (shamt : Nat) :
    ∃ m', m.after (alu AluOp.add.code rd rs rt shamt) = .ok m' ∧
      m'.regs.get rd = if shamt = 0 then m.regs.get rs + m.regs.get rt
        else (m.regs.get rs).shiftLeft shamt := by
  refine ⟨_, rfl, ?_⟩
  simp only [Machine.apply, Machine.writeReg, if_neg hrd]
  exact Vector.getElem_set_self rd.isLt

/-- A shift of one or of zero is no addition of one, but for a shift by one. -/
theorem shiftLeft_ne : ∀ shamt : Fin 32, shamt ≠ 0 →
    (0 : Word).shiftLeft shamt.val ≠ 0 + 1 ∧
      (shamt ≠ 1 → (1 : Word).shiftLeft shamt.val ≠ 1 + 1) := by
  decide

/-- **What a hidden shift does can be told from what its text says**: on some machine `m` the two
differ. -/
theorem after_reread_ne {i i' : Instr} (hi : i.reduce = i) (hread : i.reread = some i')
    (hshift : i.hidesShift = true) :
    ∃ m m₁ m₂ : Machine, m.regs.get Reg.zero = 0 ∧ m.after i = .ok m₁ ∧ m.after i' = .ok m₂ ∧
      m₁ ≠ m₂ := by
  cases i with
  | alu fn rd rs rt shamt =>
    simp only [hidesShift, Bool.and_eq_true, beq_iff_eq, bne_iff_ne, Bool.not_eq_true',
      Bool.and_eq_false_iff, beq_eq_false_iff_ne] at hshift
    obtain ⟨⟨⟨⟨rfl, hshamt⟩, hrt⟩, hrd⟩, hdouble⟩ := hshift
    obtain rfl : i' = alu AluOp.add.code rd rs rt 0 := by
      simp only [reread, AluOp.ofCode?_code, hrt, and_false, if_false, Option.some.injEq] at hread
      exact hread.symm
    have hlt : shamt < 32 := by
      have hshamt : shamt % 32 = shamt := (alu.inj hi).2.2.2.2
      omega
    -- With one in the second operand, the addition adds it and the shift does not look at it.
    obtain ⟨m₁, h₁, hvalue₁⟩ := after_add (oneIn rt) hrd rs rt shamt
    obtain ⟨m₂, h₂, hvalue₂⟩ := after_add (oneIn rt) hrd rs rt 0
    refine ⟨oneIn rt, m₁, m₂, by rw [get_oneIn, if_neg hrt], h₁, h₂, ?_⟩
    rintro rfl
    rw [hvalue₁, if_neg hshamt, if_pos rfl, get_oneIn, get_oneIn, if_pos rfl] at hvalue₂
    obtain ⟨hzero, hone⟩ := shiftLeft_ne ⟨shamt, hlt⟩ (fun h => hshamt (congrArg Fin.val h))
    by_cases hrs : rt = rs
    · rw [if_pos hrs] at hvalue₂
      -- Both operands are one: a shift by one would double it, and any other does not.
      refine hone (fun h => ?_) hvalue₂
      exact hdouble.elim (fun h' => h' hrs.symm) (fun h' => h' (congrArg Fin.val h))
    · rw [if_neg hrs] at hvalue₂
      exact hzero hvalue₂
  | _ => cases hshift

end Instr

/-! ## Reassembled words -/

namespace Assembler

/-- **A word `w` and the word `w'` that its text is assembled to do the same, unless `w` hides a
shift.** Then there is a machine with zero in register 0 that they do not do the same to. -/
theorem execute_reassembled_iff (asm : Assembler) (w : Word) (p : Program)
    (h : (asm.parse (alone w.disassemble)).result = .ok p) :
    ∃ w', p.image = #[w'] ∧
      ((∀ m : Machine, m.regs.get Reg.zero = 0 →
          (m.execute w).1 = (m.execute w').1 ∧
            ((m.execute w).2.isSome ↔ (m.execute w').2.isSome)) ↔
        (Instr.ofWord w).hidesShift = false) := by
  obtain ⟨i, hread, himage⟩ := reread_of_parse h
  have hi : Instr.ofWord i.word = i := by
    rw [Instr.ofWord_word, Instr.reduce_of_reread (Instr.reduce_ofWord w) hread]
  refine ⟨i.word, himage, ?_, ?_⟩
  · -- A machine that tells the two words apart contradicts that they do the same to all.
    intro hsame
    by_contra hshift
    obtain ⟨m, m₁, m₂, hzero, h₁, h₂, hne⟩ :=
      Instr.after_reread_ne (Instr.reduce_ofWord w) hread (Bool.eq_true_of_not_eq_false hshift)
    have hregs := (hsame m hzero).1
    rw [m.execute_eq_after, m.execute_eq_after, hi, h₁, h₂] at hregs
    exact hne hregs
  · intro hshift m hzero
    have hafter := Instr.after_reread hzero hread hshift
    rw [m.execute_eq_after, m.execute_eq_after, hi, hafter]
    cases m.after i with
    | ok m' => exact ⟨rfl, Iff.rfl⟩
    | error fault => exact ⟨rfl, Iff.rfl⟩

/-- A shift by zero with a second operand and with bits that have no meaning, all lost in its
text. -/
theorem execute_reassembled_iff_sll :
    ∃ p, ((({} : Assembler).parse (alone (Word.disassemble 0x00443013))).result = .ok p ∧
      p.image = #[0x00440000]) ∧
      ∀ m : Machine, m.regs.get Reg.zero = 0 →
        (m.execute 0x00443013).1 = (m.execute 0x00440000).1 ∧
          ((m.execute 0x00443013).2.isSome ↔ (m.execute 0x00440000).2.isSome) := by
  refine Exists.imp (fun p hp => ⟨hp, ?_⟩) (exists_ok_of_toOption_map (by decide +kernel))
  obtain ⟨w', hw', hiff⟩ := execute_reassembled_iff {} _ p hp.1
  obtain rfl : w' = 0x00440000 := (List.cons.inj (Array.mk.inj (hw'.symm.trans hp.2))).1
  exact hiff.mpr (by decide)

/-- A word that is shown as the addition of 5 and 7, and doubles 5. -/
theorem execute_reassembled_hidden_shift :
    ∃ p, ((({} : Assembler).parse (alone (Word.disassemble 0x00443080))).result = .ok p ∧
      p.image = #[0x00443000]) ∧
      ∃ m : Machine, m.regs.get Reg.zero = 0 ∧
        (m.execute 0x00443080).1.regs.get 1 = 10 ∧ (m.execute 0x00443000).1.regs.get 1 = 12 := by
  refine Exists.imp (fun p hp => ⟨hp, ?_⟩) (exists_ok_of_toOption_map (by decide +kernel))
  refine ⟨(({ data := #[] } : Machine).setReg 2 5).setReg 3 7, ?_⟩
  decide +kernel

end Assembler

end WordMachine
