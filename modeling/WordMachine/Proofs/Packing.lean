import WordMachine.Isa.Instr
import Mathlib.Tactic

/-!
# Packing and unpacking

What each field of a packed word holds: its own argument, reduced to the size of the field, whatever
the other arguments are. So an instruction is read back from its word with its numbers reduced. The
other way round, a word is packed again from the fields of its layout, less the bits that the layout
has no field for.

* `Field.get_packR`, `Field.get_packI`, `Field.get_packJ`: the fields of packed words.
* `Instr.ofWord_word`: an instruction is read back from its word, as `reduce` says.
* `Word.pack_unpack`: words are packed and unpacked without loss.
-/

namespace WordMachine

namespace Word

/-! ## The numbers of packed words -/

/-- The reduced argument `v` of a field is below the `size` of the field. -/
theorem toNat_emod_lt (v : Int) {size : Nat} (hsize : 0 < size) : (v % size).toNat < size := by
  have hnonneg := Int.emod_nonneg v (by omega : (size : Int) ≠ 0)
  have hlt := Int.emod_lt_of_pos v (by omega : 0 < (size : Int))
  omega

/-- The reduced argument `v` as an integer. -/
theorem natCast_toNat_emod (v : Int) {size : Int} (hsize : 0 < size) :
    ((v % size).toNat : Int) = v % size :=
  Int.toNat_of_nonneg (Int.emod_nonneg v hsize.ne')

theorem toNat_packR (rd rs rt shamt aluOp : Int) :
    (packR rd rs rt shamt aluOp).toNat =
      (rd % 32).toNat * 0x400000 + (rs % 32).toNat * 0x20000 + (rt % 32).toNat * 0x1000 +
        (shamt % 32).toNat * 0x80 + (aluOp % 32).toNat * 4 := by
  have hrd := toNat_emod_lt rd (by decide : 0 < 32)
  have hrs := toNat_emod_lt rs (by decide : 0 < 32)
  have hrt := toNat_emod_lt rt (by decide : 0 < 32)
  have hshamt := toNat_emod_lt shamt (by decide : 0 < 32)
  have halu := toNat_emod_lt aluOp (by decide : 0 < 32)
  rw [packR, UInt32.toNat_ofNat', Nat.mod_eq_of_lt]
  · simp [Field.put, Field.op, Field.rd, Field.rs, Field.rt, Field.shamt, Field.aluOp,
      Operation.code]
  · simp only [Field.put, Field.op, Field.rd, Field.rs, Field.rt, Field.shamt, Field.aluOp,
      Operation.code]
    omega

theorem toNat_packI (op rd rs imm : Int) :
    (packI op rd rs imm).toNat =
      (op % 32).toNat * 0x8000000 + (rd % 32).toNat * 0x400000 + (rs % 32).toNat * 0x20000 +
        (imm % 0x20000).toNat := by
  have hop := toNat_emod_lt op (by decide : 0 < 32)
  have hrd := toNat_emod_lt rd (by decide : 0 < 32)
  have hrs := toNat_emod_lt rs (by decide : 0 < 32)
  have himm := toNat_emod_lt imm (by decide : 0 < 0x20000)
  rw [packI, UInt32.toNat_ofNat', Nat.mod_eq_of_lt]
  · simp [Field.put, Field.op, Field.rd, Field.rs, Field.imm]
  · simp only [Field.put, Field.op, Field.rd, Field.rs, Field.imm]
    omega

theorem toNat_packJ (op target : Int) :
    (packJ op target).toNat = (op % 32).toNat * 0x8000000 + (target % 0x8000000).toNat := by
  have hop := toNat_emod_lt op (by decide : 0 < 32)
  have htarget := toNat_emod_lt target (by decide : 0 < 0x8000000)
  rw [packJ, UInt32.toNat_ofNat', Nat.mod_eq_of_lt]
  · simp [Field.put, Field.op, Field.target]
  · simp only [Field.put, Field.op, Field.target]
    omega

end Word

namespace Field

open Word

/-! ## The fields of packed words -/

/-- The fields of a word of the register layout, `packR`. -/
@[simp]
theorem get_packR (d s t shift fn : Int) :
    op.get (packR d s t shift fn) = 0 ∧
    rd.get (packR d s t shift fn) = (d % 32).toNat ∧
    rs.get (packR d s t shift fn) = (s % 32).toNat ∧
    rt.get (packR d s t shift fn) = (t % 32).toNat ∧
    shamt.get (packR d s t shift fn) = (shift % 32).toNat ∧
    aluOp.get (packR d s t shift fn) = (fn % 32).toNat := by
  have hd := toNat_emod_lt d (by decide : 0 < 32)
  have hs := toNat_emod_lt s (by decide : 0 < 32)
  have ht := toNat_emod_lt t (by decide : 0 < 32)
  have hshift := toNat_emod_lt shift (by decide : 0 < 32)
  have hfn := toNat_emod_lt fn (by decide : 0 < 32)
  simp only [get, toNat_packR, op, rd, rs, rt, shamt, aluOp, Nat.cast_ofNat] at *
  -- The arguments matter only through their remainders, which are small numbers.
  generalize (d % 32).toNat = a at *
  generalize (s % 32).toNat = b at *
  generalize (t % 32).toNat = c at *
  generalize (shift % 32).toNat = e at *
  generalize (fn % 32).toNat = f at *
  refine ⟨?_, ?_, ?_, ?_, ?_, ?_⟩ <;> omega

/-- The fields of a word of the immediate layout, `packI`. -/
@[simp]
theorem get_packI (code d s value : Int) :
    op.get (packI code d s value) = (code % 32).toNat ∧
    rd.get (packI code d s value) = (d % 32).toNat ∧
    rs.get (packI code d s value) = (s % 32).toNat ∧
    imm.get (packI code d s value) = (value % 0x20000).toNat := by
  have hcode := toNat_emod_lt code (by decide : 0 < 32)
  have hd := toNat_emod_lt d (by decide : 0 < 32)
  have hs := toNat_emod_lt s (by decide : 0 < 32)
  have hvalue := toNat_emod_lt value (by decide : 0 < 0x20000)
  simp only [get, toNat_packI, op, rd, rs, imm, Nat.cast_ofNat] at *
  generalize (code % 32).toNat = a at *
  generalize (d % 32).toNat = b at *
  generalize (s % 32).toNat = c at *
  generalize (value % 131072).toNat = e at *
  refine ⟨?_, ?_, ?_, ?_⟩ <;> omega

/-- The fields of a word of the jump layout, `packJ`. -/
@[simp]
theorem get_packJ (code value : Int) :
    op.get (packJ code value) = (code % 32).toNat ∧
    target.get (packJ code value) = (value % 0x8000000).toNat := by
  have hcode := toNat_emod_lt code (by decide : 0 < 32)
  have hvalue := toNat_emod_lt value (by decide : 0 < 0x8000000)
  simp only [get, toNat_packJ, op, target, Nat.cast_ofNat] at *
  generalize (code % 32).toNat = a at *
  generalize (value % 134217728).toNat = b at *
  refine ⟨?_, ?_⟩ <;> omega

end Field

/-- A signed reading of `n` depends on the remainder only. -/
theorem bmod_natCast_mod (n size : Nat) : Int.bmod (n % size : Nat) size = Int.bmod n size := by
  rw [Int.natCast_emod, Int.emod_bmod]

/-- The immediate is the signed reading of its field. -/
theorem Word.immediate_eq (w : Word) : w.immediate = Int.bmod (Field.imm.get w) 0x20000 := by
  have hget : Field.imm.get w = w.toNat % 0x20000 := by
    simp only [Field.get, Field.imm, Nat.div_one]
  rw [hget, bmod_natCast_mod]
  rfl

@[simp]
theorem Word.immediate_packI (code d s value : Int) :
    (packI code d s value).immediate = value.bmod 0x20000 := by
  have hvalue : ((value % 0x20000).toNat : Int) = value % ((0x20000 : Nat) : Int) :=
    natCast_toNat_emod value (by decide)
  rw [immediate_eq, (Field.get_packI code d s value).2.2.2, hvalue, Int.emod_bmod]

namespace Field

/-- The bits from the field `f` on are the field, put back as it was read, and the bits above it. -/
theorem get_add_above (f : Field) (w : Word) :
    ((f.get w : Int) % f.size).toNat + f.size * (w.toNat / (f.scale * f.size)) =
      w.toNat / f.scale := by
  rw [← Int.natCast_emod, Int.toNat_natCast, get, Nat.mod_mod, ← Nat.div_div_eq_div_mul,
    Nat.mod_add_div]

/-- A field that holds the number of the register `r` names the register. -/
theorem reg_eq {f : Field} {w : Word} {r : Reg} (h : f.get w = ((r.val : Int) % 32).toNat) :
    f.reg w = r := by
  apply Fin.ext
  have hr := r.isLt
  simp only [reg, h, Fin.val_ofNat]
  omega

end Field

/-! ## Instructions -/

namespace Instr

/-- The instruction with its numbers reduced to the size of their fields. -/
def reduce : Instr → Instr
  | alu fn rd rs rt shamt => alu (fn % 32) rd rs rt (shamt % 32)
  | addi rd rs imm => addi rd rs (imm.bmod 0x20000)
  | lw rd rs imm => lw rd rs (imm.bmod 0x20000)
  | sw rd rs imm => sw rd rs (imm.bmod 0x20000)
  | bne rd rs imm => bne rd rs (imm.bmod 0x20000)
  | blt rd rs imm => blt rd rs (imm.bmod 0x20000)
  | j target => j (target % 0x8000000)
  | jal target => jal (target % 0x8000000)
  | jr rs => jr rs
  | setx target => setx (target % 0x8000000)
  | bex target => bex (target % 0x8000000)
  | undefined w => ofWord w

/-- The number of the operation `op` fits the operation bits. -/
theorem toNat_code_emod (op : Operation) : ((op.code : Int) % 32).toNat = op.code := by
  cases op <;> rfl

/-- What a word of the immediate layout names: the operation `op` and the registers `rd` and
`rs`. -/
theorem named_packI (op : Operation) (rd rs : Reg) (imm : Int) :
    Operation.ofCode? (Field.op.get (Word.packI op.code rd.val rs.val imm)) = some op ∧
    Field.rd.reg (Word.packI op.code rd.val rs.val imm) = rd ∧
    Field.rs.reg (Word.packI op.code rd.val rs.val imm) = rs := by
  obtain ⟨hop, hrd, hrs, -⟩ := Field.get_packI op.code rd.val rs.val imm
  refine ⟨?_, Field.reg_eq hrd, Field.reg_eq hrs⟩
  rw [hop, toNat_code_emod, Operation.ofCode?_code]

/-- What a word of the jump layout names: the operation `op` and the `target`, in 27 bits. -/
theorem named_packJ (op : Operation) (target : Int) :
    Operation.ofCode? (Field.op.get (Word.packJ op.code target)) = some op ∧
    (Field.target.get (Word.packJ op.code target) : Int) = target % 0x8000000 := by
  obtain ⟨hop, htarget⟩ := Field.get_packJ op.code target
  refine ⟨?_, ?_⟩
  · rw [hop, toNat_code_emod, Operation.ofCode?_code]
  · rw [htarget]
    exact Word.natCast_toNat_emod target (by decide)

/-- An arithmetic instruction read back from its word. -/
theorem ofWord_packR (fn : Nat) (rd rs rt : Reg) (shamt : Nat) :
    ofWord (Word.packR rd.val rs.val rt.val shamt fn) = .alu (fn % 32) rd rs rt (shamt % 32) := by
  obtain ⟨hop, hrd, hrs, hrt, hshamt, hfn⟩ := Field.get_packR rd.val rs.val rt.val shamt fn
  have hshamt' : ((shamt : Int) % 32).toNat = shamt % 32 := by omega
  have hfn' : ((fn : Int) % 32).toNat = fn % 32 := by omega
  rw [ofWord, hop, hshamt, hfn, Field.reg_eq hrd, Field.reg_eq hrs, Field.reg_eq hrt, hshamt', hfn']
  rfl

/-- The instruction that an operation of the immediate layout makes of `rd`, `rs` and `imm`. -/
def ofImmediate? : Operation → Option (Reg → Reg → Int → Instr)
  | .addi => some addi
  | .lw => some lw
  | .sw => some sw
  | .bne => some bne
  | .blt => some blt
  | _ => none

/-- The instruction that an operation of the jump layout makes of its target; `jr` makes none, as it
keeps only a register. -/
def ofTarget? : Operation → Option (Int → Instr)
  | .j => some j
  | .jal => some jal
  | .setx => some setx
  | .bex => some bex
  | _ => none

/-- An instruction of the immediate layout, which `make` makes, read back from its word. -/
theorem ofWord_packI (op : Operation) {make : Reg → Reg → Int → Instr}
    (hmake : ofImmediate? op = some make) (rd rs : Reg) (imm : Int) :
    ofWord (Word.packI op.code rd.val rs.val imm) = make rd rs (imm.bmod 0x20000) := by
  obtain ⟨hop, hrd, hrs⟩ := named_packI op rd rs imm
  rw [ofWord, hop]
  simp only [hrd, hrs, Word.immediate_packI]
  cases op <;> cases hmake <;> rfl

/-- An instruction of the jump layout, which `make` makes, read back from its word. -/
theorem ofWord_packJ (op : Operation) {make : Int → Instr} (hmake : ofTarget? op = some make)
    (target : Int) : ofWord (Word.packJ op.code target) = make (target % 0x8000000) := by
  obtain ⟨hop, htarget⟩ := named_packJ op target
  rw [ofWord, hop]
  simp only [htarget]
  cases op <;> cases hmake <;> rfl

/-- A jump to the address in the register `rs`, read back from its word. -/
theorem ofWord_packJ_jr (rs : Reg) : ofWord (Word.packJ Operation.jr.code rs.val) = .jr rs := by
  obtain ⟨hop, htarget⟩ := named_packJ .jr rs.val
  have hrs := rs.isLt
  have hreg : Fin.ofNat 32 (Field.target.get (Word.packJ Operation.jr.code rs.val)) = rs := by
    apply Fin.ext
    rw [Fin.val_ofNat]
    omega
  rw [ofWord, hop]
  simp only [hreg]

/-- **An instruction is read back from its word with its numbers reduced**: `reduce` says to which
size. -/
theorem ofWord_word (i : Instr) : ofWord i.word = i.reduce := by
  cases i with
  | alu fn rd rs rt shamt => exact ofWord_packR fn rd rs rt shamt
  | addi rd rs imm => exact ofWord_packI .addi rfl rd rs imm
  | lw rd rs imm => exact ofWord_packI .lw rfl rd rs imm
  | sw rd rs imm => exact ofWord_packI .sw rfl rd rs imm
  | bne rd rs imm => exact ofWord_packI .bne rfl rd rs imm
  | blt rd rs imm => exact ofWord_packI .blt rfl rd rs imm
  | j target => exact ofWord_packJ .j rfl target
  | jal target => exact ofWord_packJ .jal rfl target
  | jr rs => exact ofWord_packJ_jr rs
  | setx target => exact ofWord_packJ .setx rfl target
  | bex target => exact ofWord_packJ .bex rfl target
  | undefined w => rfl

/-- The word of an instruction `i` depends on the reduced numbers only. -/
theorem word_reduce (i : Instr) (hi : ∀ w, i ≠ undefined w) : i.reduce.word = i.word := by
  have himm : ∀ imm : Int, Field.imm.put (imm.bmod 0x20000) = Field.imm.put imm := fun imm =>
    congrArg (fun v : Int => v.toNat * 1) Int.bmod_emod
  have htarget : ∀ target : Int,
      Field.target.put (target % 0x8000000) = Field.target.put target := fun target =>
    congrArg (fun v : Int => v.toNat * 1) (Int.emod_emod target 0x8000000)
  cases i with
  | alu fn rd rs rt shamt =>
    have hfn : Field.aluOp.put (fn % 32 : Nat) = Field.aluOp.put fn := by
      simp [Field.put, Field.aluOp]
    have hshamt : Field.shamt.put (shamt % 32 : Nat) = Field.shamt.put shamt := by
      simp [Field.put, Field.shamt]
    simp only [reduce, word, Word.packR, hfn, hshamt]
  | addi rd rs imm => simp only [reduce, word, Word.packI, himm]
  | lw rd rs imm => simp only [reduce, word, Word.packI, himm]
  | sw rd rs imm => simp only [reduce, word, Word.packI, himm]
  | bne rd rs imm => simp only [reduce, word, Word.packI, himm]
  | blt rd rs imm => simp only [reduce, word, Word.packI, himm]
  | j target => simp only [reduce, word, Word.packJ, htarget]
  | jal target => simp only [reduce, word, Word.packJ, htarget]
  | jr rs => rfl
  | setx target => simp only [reduce, word, Word.packJ, htarget]
  | bex target => simp only [reduce, word, Word.packJ, htarget]
  | undefined w => exact absurd rfl (hi w)

end Instr

/-! ## Layouts -/

namespace Word

/-- What `packR` makes of its arguments; the bits below its fields are zero. -/
structure HoldsR (w : Word) (d s t shift fn : Int) : Prop where
  op : Field.op.get w = 0
  rd : (Field.rd.get w : Int) = d % 32
  rs : (Field.rs.get w : Int) = s % 32
  rt : (Field.rt.get w : Int) = t % 32
  shamt : (Field.shamt.get w : Int) = shift % 32
  aluOp : (Field.aluOp.get w : Int) = fn % 32
  low : w.toNat % 4 = 0

/-- What `packI` makes of its arguments; the immediate keeps its sign in 17 bits. -/
structure HoldsI (w : Word) (code d s value : Int) : Prop where
  op : (Field.op.get w : Int) = code % 32
  rd : (Field.rd.get w : Int) = d % 32
  rs : (Field.rs.get w : Int) = s % 32
  congr : w.immediate ≡ value [ZMOD 2 ^ 17]
  range : -2 ^ 16 ≤ w.immediate ∧ w.immediate < 2 ^ 16

/-- What `packJ` makes of its arguments. -/
structure HoldsJ (w : Word) (code value : Int) : Prop where
  op : (Field.op.get w : Int) = code % 32
  target : (Field.target.get w : Int) = value % 2 ^ 27

theorem holdsR_packR (d s t shift fn : Int) : HoldsR (packR d s t shift fn) d s t shift fn := by
  obtain ⟨hop, hrd, hrs, hrt, hshamt, hfn⟩ := Field.get_packR d s t shift fn
  refine ⟨hop, ?_, ?_, ?_, ?_, ?_, ?_⟩
  · rw [hrd, natCast_toNat_emod d (by decide)]
  · rw [hrs, natCast_toNat_emod s (by decide)]
  · rw [hrt, natCast_toNat_emod t (by decide)]
  · rw [hshamt, natCast_toNat_emod shift (by decide)]
  · rw [hfn, natCast_toNat_emod fn (by decide)]
  · rw [toNat_packR]
    omega

theorem holdsI_packI (code d s value : Int) : HoldsI (packI code d s value) code d s value := by
  obtain ⟨hop, hrd, hrs, -⟩ := Field.get_packI code d s value
  have himm := immediate_packI code d s value
  refine ⟨?_, ?_, ?_, ?_, ?_⟩
  · rw [hop, natCast_toNat_emod code (by decide)]
  · rw [hrd, natCast_toNat_emod d (by decide)]
  · rw [hrs, natCast_toNat_emod s (by decide)]
  · rw [himm]
    exact Int.bmod_emod
  · rw [himm]
    exact ⟨Int.le_bmod (by decide), Int.bmod_lt (by decide)⟩

theorem holdsJ_packJ (code value : Int) : HoldsJ (packJ code value) code value := by
  obtain ⟨hop, htarget⟩ := Field.get_packJ code value
  refine ⟨?_, ?_⟩
  · rw [hop, natCast_toNat_emod code (by decide)]
  · rw [htarget, natCast_toNat_emod value (by decide)]
    rfl

/-! ## Words packed again -/

/-- The word packed from the fields that its own layout, `w.format`, reads. -/
def repack (w : Word) : Word :=
  match w.format with
  | .r =>
    packR (Field.rd.get w) (Field.rs.get w) (Field.rt.get w) (Field.shamt.get w) (Field.aluOp.get w)
  | .i => packI (Field.op.get w) (Field.rd.get w) (Field.rs.get w) w.immediate
  | .j => packJ (Field.op.get w) (Field.target.get w)

/-- Only the words without operation bits have the register layout. -/
theorem op_of_format_r {w : Word} (h : w.format = .r) : Field.op.get w = 0 := by
  rw [format, operationFormat, if_neg (by omega), Int.toNat_natCast] at h
  cases hop : Operation.ofCode? (Field.op.get w) with
  | none => simp [hop] at h
  | some op =>
    rw [hop] at h
    rw [Operation.eq_code_of_ofCode? hop]
    cases op with
    | rtype => rfl
    | _ => cases h

/-- Clearing the two lowest bits rounds down to a multiple of four. -/
theorem toNat_and_not_three (w : Word) : (w &&& ~~~3).toNat = w.toNat / 4 * 4 := by
  have hmask : (~~~3 : Word).toNat = (2 ^ 30 - 1) <<< 2 := by decide
  have hround : w.toNat / 4 * 4 = w.toNat >>> 2 <<< 2 := by
    rw [Nat.shiftLeft_eq, Nat.shiftRight_eq_div_pow]
  rw [UInt32.toNat_and, hmask, hround]
  apply Nat.eq_of_testBit_eq
  intro i
  rw [Nat.testBit_and, Nat.testBit_shiftLeft, Nat.testBit_shiftLeft, Nat.testBit_shiftRight,
    Nat.testBit_two_pow_sub_one]
  -- The mask has the bits from 2 to 31, and the word has none above.
  by_cases hlow : 2 ≤ i
  · have hi : 2 + (i - 2) = i := by omega
    by_cases hhigh : i < 32
    · have hwidth : i - 2 < 30 := by omega
      simp [hlow, hi, hwidth]
    · have hpow : 2 ^ 32 ≤ 2 ^ i := Nat.pow_le_pow_right (by decide) (by omega)
      have hzero : w.toNat.testBit i = false :=
        Nat.testBit_lt_two_pow (Nat.lt_of_lt_of_le w.toNat_lt hpow)
      simp [hi, hzero]
  · simp [hlow]

/-- The registers of a word stand one below the other: `rd`, and then `rs`. -/
theorem regs_add_above (w : Word) :
    ((Field.rd.get w : Int) % 32).toNat + 32 * (w.toNat / 0x8000000) = w.toNat / 0x400000 ∧
    ((Field.rs.get w : Int) % 32).toNat + 32 * (w.toNat / 0x400000) = w.toNat / 0x20000 :=
  ⟨Field.rd.get_add_above w, Field.rs.get_add_above w⟩

/-- A word without operation bits is packed again, but for the two bits that the register layout
leaves. -/
theorem packR_get {w : Word} (hop : Field.op.get w = 0) :
    packR (Field.rd.get w) (Field.rs.get w) (Field.rt.get w) (Field.shamt.get w)
      (Field.aluOp.get w) = w &&& ~~~3 := by
  apply UInt32.toNat_inj.mp
  have htop : w.toNat / 0x8000000 = 0 := by
    have hw := w.toNat_lt
    simp only [Field.get, Field.op] at hop
    omega
  obtain ⟨hrd, hrs⟩ := w.regs_add_above
  have hrt : ((Field.rt.get w : Int) % 32).toNat + 32 * (w.toNat / 0x20000) = w.toNat / 0x1000 :=
    Field.rt.get_add_above w
  have hshamt : ((Field.shamt.get w : Int) % 32).toNat + 32 * (w.toNat / 0x1000) = w.toNat / 0x80 :=
    Field.shamt.get_add_above w
  have hfn : ((Field.aluOp.get w : Int) % 32).toNat + 32 * (w.toNat / 0x80) = w.toNat / 4 :=
    Field.aluOp.get_add_above w
  -- From the lowest field upwards, each quotient is a field and the next quotient.
  rw [toNat_packR, toNat_and_not_three, ← hfn, ← hshamt, ← hrt, ← hrs, ← hrd, htop]
  ring

/-- A word is packed again from its fields, with the immediate as a signed number. -/
theorem packI_get (w : Word) :
    packI (Field.op.get w) (Field.rd.get w) (Field.rs.get w) w.immediate = w := by
  apply UInt32.toNat_inj.mp
  have himm : (w.immediate % 0x20000).toNat = w.toNat % 0x20000 := by
    have hbmod : w.immediate % 0x20000 = (w.toNat : Int) % 0x20000 := Int.bmod_emod
    omega
  have htop : w.toNat / 0x100000000 = 0 := Nat.div_eq_of_lt w.toNat_lt
  have hop :
      ((Field.op.get w : Int) % 32).toNat + 32 * (w.toNat / 0x100000000) = w.toNat / 0x8000000 :=
    Field.op.get_add_above w
  obtain ⟨hrd, hrs⟩ := w.regs_add_above
  have hsplit := Nat.mod_add_div w.toNat 0x20000
  rw [← hrs, ← hrd, ← hop, htop] at hsplit
  rw [toNat_packI, himm]
  linarith

/-- A word is packed again from its operation and its target. -/
theorem packJ_get (w : Word) : packJ (Field.op.get w) (Field.target.get w) = w := by
  apply UInt32.toNat_inj.mp
  have hw := w.toNat_lt
  rw [toNat_packJ]
  simp only [Field.get, Field.op, Field.target]
  omega

/-- **Words are packed and unpacked without loss**: each field of a packed word holds its own
argument, reduced to the size of the field, whatever the other arguments are, and a word packed
again by its own layout is the same word, but for the two bits that the register layout does not
have. -/
theorem pack_unpack :
    (∀ d s t shift fn : Int, HoldsR (packR d s t shift fn) d s t shift fn) ∧
    (∀ code d s value : Int, HoldsI (packI code d s value) code d s value) ∧
    (∀ code value : Int, HoldsJ (packJ code value) code value) ∧
    ∀ w : Word, w.repack = if w.format = .r then w &&& ~~~3 else w := by
  refine ⟨holdsR_packR, holdsI_packI, holdsJ_packJ, fun w => ?_⟩
  unfold repack
  cases hformat : w.format with
  | r => exact packR_get (op_of_format_r hformat)
  | i => exact packI_get w
  | j => exact packJ_get w

end Word

end WordMachine
