import WordMachine.Asm.Statement
import WordMachine.Proofs.Blank
import Mathlib.Data.List.TakeWhile

/-!
# Instructions in plain form

An instruction is in plain form if it is written as its name, a space, and its operands with a comma
and a space between neighbours, where name and operands have none of the bytes that could end them.
A line in plain form is read as the instruction it was written for, with its name in lower case
(`ofLine_text`); its operands are read back by `operandList_join`.
-/

namespace WordMachine.Asm

open Text (byte isVisible isLetter isDigit)

/-! ## Plain bytes -/

/-- Can the byte `b` stand in an operand without ending it or the instruction? -/
def isPlain (b : UInt8) : Bool :=
  isVisible b && b != byte ',' && b != byte '#' && b != byte ':'

/-- Bytes that a `test` tells apart differ. -/
theorem ne_of_test {test : UInt8 → Bool} {b c : UInt8} (hb : test b = true) (hc : test c = false) :
    b ≠ c := by
  rintro rfl
  rw [hb] at hc
  exact absurd hc (by decide)

/-- Plain bytes can be seen. -/
theorem isVisible_of_isPlain {b : UInt8} (h : isPlain b = true) : isVisible b = true := by
  simp only [isPlain, Bool.and_eq_true] at h
  exact h.1.1.1

/-- No plain byte separates operands. -/
theorem noSeparator_of_isPlain {b : UInt8} (h : isPlain b = true) :
    (b == byte ',' || isGap b) = false := by
  have hne : ∀ c, isPlain c = false → b ≠ c := fun c hc => ne_of_test h hc
  simp [isGap, hne (byte ',') (by decide), hne (byte '\t') (by decide), hne (byte '\n') (by decide),
    hne 12 (by decide), hne (byte '\r') (by decide), hne (byte ' ') (by decide)]

/-- Digits are plain. -/
theorem isPlain_of_isDigit {b : UInt8} (h : isDigit b = true) : isPlain b = true := by
  have hne : ∀ c, isDigit c = false → b ≠ c := fun c hc => ne_of_test h hc
  simp [isPlain, Text.isVisible_of_isDigit h, hne (byte ',') (by decide),
    hne (byte '#') (by decide), hne (byte ':') (by decide)]

/-- Letters are plain. -/
theorem isPlain_of_isLetter {b : UInt8} (h : isLetter b = true) : isPlain b = true := by
  have hne : ∀ c, isLetter c = false → b ≠ c := fun c hc => ne_of_test h hc
  simp [isPlain, Text.isVisible_of_isLetter h, hne (byte ',') (by decide),
    hne (byte '#') (by decide), hne (byte ':') (by decide)]

/-! ## Operand lists -/

/-- An operand that can stand in a list of operands: it is not empty, and all its bytes are
plain. -/
structure PlainOperand (o : Text) : Prop where
  ne_nil : o ≠ []
  plain : ∀ b ∈ o, isPlain b = true

/-- A space in front of operands is passed over. -/
theorem operandList_space (t : Text) : operandList (byte ' ' :: t) = operandList t := by
  rw [operandList, List.splitOnP_cons_eq_if_modifyHead, if_pos (by decide)]
  rfl

/-- A plain operand is a list of operands by itself. -/
theorem operandList_singleton {o : Text} (ho : PlainOperand o) : operandList o = [o] := by
  rw [operandList, List.splitOnP_eq_singleton fun b hb => noSeparator_of_isPlain (ho.plain b hb)]
  simp [ho.ne_nil]

/-- A plain operand `o` in front of a comma is the first of the list. -/
theorem operandList_append_comma {o : Text} (ho : PlainOperand o) (t : Text) :
    operandList (o ++ byte ',' :: t) = o :: operandList t := by
  rw [operandList, List.splitOnP_append_cons_of_forall_mem
    (fun b hb => noSeparator_of_isPlain (ho.plain b hb)) (byte ',') (by decide)]
  simp [operandList, ho.ne_nil]

/-- **The operands `os` written with a comma and a space between them are read back.** -/
theorem operandList_join {os : List Text} (hos : ∀ o ∈ os, PlainOperand o) :
    operandList (Text.join ", " os) = os := by
  induction os with
  | nil => rfl
  | cons o os ih =>
    have ho : PlainOperand o := hos o List.mem_cons_self
    have hrest := ih fun p hp => hos p (List.mem_cons_of_mem o hp)
    cases os with
    | nil => simpa [Text.join] using operandList_singleton ho
    | cons p ps =>
      have hjoin : Text.join ", " (o :: p :: ps)
          = o ++ byte ',' :: byte ' ' :: Text.join ", " (p :: ps) := by
        rw [Text.join, List.intercalate_cons_cons, List.append_assoc]
        rfl
      rw [hjoin, operandList_append_comma ho, operandList_space, hrest]

/-! ## Lines in plain form -/

/-- The instruction in plain form. -/
def SourceInstr.text (i : SourceInstr) : Text :=
  i.mnemonic ++ byte ' ' :: Text.join ", " i.operands

/-- The instruction with its name in lower case. -/
def SourceInstr.lowered (i : SourceInstr) : SourceInstr :=
  { i with mnemonic := Text.lower i.mnemonic }

/-- An instruction whose parts can be told apart when it is written in plain form: its name is
plain, and it has operands, which are plain. -/
structure SourceInstr.Legible (i : SourceInstr) : Prop where
  name_ne_nil : i.mnemonic ≠ []
  name_plain : ∀ b ∈ i.mnemonic, isPlain b = true
  operands_ne_nil : i.operands ≠ []
  operands : ∀ o ∈ i.operands, PlainOperand o

/-- An instruction that can be written in plain form: its name also begins with a letter. -/
structure SourceInstr.Plain (i : SourceInstr) : Prop extends SourceInstr.Legible i where
  name_head : i.mnemonic.head?.any isLetter = true

/-- The bytes of operands with a comma and a space between them. -/
theorem mem_join_operands {os : List Text} (hos : ∀ o ∈ os, PlainOperand o) :
    ∀ b ∈ Text.join ", " os, isPlain b = true ∨ b = byte ',' ∨ b = byte ' ' := by
  intro b hb
  rcases Text.mem_join hb with hsep | ⟨o, ho, hbo⟩
  · exact Or.inr (by simpa [show Text.ofString ", " = [byte ',', byte ' '] from rfl] using hsep)
  · exact Or.inl ((hos o ho).plain b hbo)

/-- Operands with a comma and a space between them end with a plain byte. -/
theorem join_operands_eq_concat {os : List Text} (hne : os ≠ []) (hos : ∀ o ∈ os, PlainOperand o) :
    ∃ t b, Text.join ", " os = t ++ [b] ∧ isPlain b = true := by
  induction os with
  | nil => exact absurd rfl hne
  | cons o os ih =>
    cases os with
    | nil =>
      have ho : PlainOperand o := hos o List.mem_cons_self
      refine ⟨o.dropLast, o.getLast ho.ne_nil, ?_, ho.plain _ (List.getLast_mem ho.ne_nil)⟩
      rw [List.dropLast_append_getLast]
      simp [Text.join]
    | cons p ps =>
      obtain ⟨t, b, heq, hb⟩ :=
        ih (List.cons_ne_nil p ps) fun q hq => hos q (List.mem_cons_of_mem o hq)
      refine ⟨o ++ ", " ++ t, b, ?_, hb⟩
      rw [Text.join, List.intercalate_cons_cons, ← Text.join, heq, ← List.append_assoc]

/-- The bytes of an instruction in plain form. -/
theorem mem_text {i : SourceInstr} (hi : i.Legible) :
    ∀ b ∈ i.text, isPlain b = true ∨ b = byte ',' ∨ b = byte ' ' := by
  intro b hb
  rw [SourceInstr.text, List.mem_append, List.mem_cons] at hb
  rcases hb with hb | hb | hb
  · exact Or.inl (hi.name_plain b hb)
  · exact Or.inr (Or.inr hb)
  · exact mem_join_operands hi.operands b hb

/-- A byte `c` that is neither plain nor a separator is not in it. -/
theorem not_mem_text {i : SourceInstr} (hi : i.Legible) {c : UInt8} (hplain : isPlain c = false)
    (hcomma : c ≠ byte ',') (hspace : c ≠ byte ' ') : c ∉ i.text := by
  intro hc
  rcases mem_text hi c hc with h | h | h
  · rw [h] at hplain
    exact absurd hplain (by decide)
  · exact hcomma h
  · exact hspace h

/-- It begins with the first byte of its name. -/
theorem text_eq_cons {i : SourceInstr} (hi : i.Legible) :
    ∃ b t, i.text = b :: t ∧ i.mnemonic.head? = some b ∧ isPlain b = true := by
  obtain ⟨b, t, heq⟩ := List.exists_cons_of_ne_nil hi.name_ne_nil
  refine ⟨b, t ++ byte ' ' :: Text.join ", " i.operands, ?_, ?_, ?_⟩
  · rw [SourceInstr.text, heq, List.cons_append]
  · rw [heq, List.head?_cons]
  · exact hi.name_plain b (heq ▸ List.mem_cons_self)

/-- Trimming keeps an instruction in plain form. -/
theorem trim_text {i : SourceInstr} (hi : i.Legible) : Text.trim i.text = i.text := by
  obtain ⟨b, t, hhead, -, hb⟩ := text_eq_cons hi
  obtain ⟨u, c, hjoin, hc⟩ := join_operands_eq_concat hi.operands_ne_nil hi.operands
  have hlast : i.text = (i.mnemonic ++ byte ' ' :: u) ++ [c] := by
    rw [SourceInstr.text, hjoin]
    simp
  have hne : i.text ≠ [] := by
    rw [hhead]
    exact List.cons_ne_nil b t
  apply Text.trim_eq_self hne
  · simp only [hhead, List.head_cons]
    exact isVisible_of_isPlain hb
  · simp only [hlast, List.getLast_concat]
    exact isVisible_of_isPlain hc

/-! ## Reading a line in plain form -/

/-- A comment starts nowhere in a text without a number sign. -/
theorem commentStart_of_not_mem {t : Text} (ht : byte '#' ∉ t) (n : Nat) (p q : UInt8) :
    commentStart n p q t = n + t.length := by
  induction t generalizing n p q with
  | nil => rfl
  | cons b t ih =>
    rw [List.mem_cons, not_or] at ht
    have hb : (b == byte '#') = false := beq_false_of_ne (Ne.symm ht.1)
    rw [commentStart, hb, Bool.false_and, if_neg (by decide), ih ht.2, List.length_cons]
    omega

/-- A text without a number sign has no comment to drop. -/
theorem dropComment_of_not_mem {t : Text} (ht : byte '#' ∉ t) : dropComment t = t := by
  rw [dropComment, commentStart_of_not_mem ht, Nat.zero_add, List.take_length]

/-- A text cannot be cut at a byte `mark` that it does not have. -/
theorem cut?_of_not_mem {mark : UInt8} {t : Text} (ht : mark ∉ t) : Text.cut? mark t = none := by
  have hdrop : t.dropWhile (· != mark) = [] := by
    rw [List.dropWhile_eq_nil_iff]
    intro b hb
    have hne : b ≠ mark := by
      rintro rfl
      exact ht hb
    simpa using hne
  rw [Text.cut?, hdrop]

/-- A text is cut at the first occurrence of `mark`. -/
theorem cut?_append_cons {mark : UInt8} {s : Text} (hs : mark ∉ s) (t : Text) :
    Text.cut? mark (s ++ mark :: t) = some (s, t) := by
  have hpass : ∀ b ∈ s, (b != mark) = true := by
    intro b hb
    have hne : b ≠ mark := by
      rintro rfl
      exact hs hb
    simpa using hne
  rw [Text.cut?, List.dropWhile_append_of_pos hpass, List.takeWhile_append_of_pos hpass]
  simp

/-- The name stands before the first white space. -/
theorem splitField_text {i : SourceInstr} (hi : i.Legible) :
    Text.splitField i.text = (i.mnemonic, byte ' ' :: Text.join ", " i.operands) :=
  Text.splitField_append_space
    (fun b hb => isVisible_of_isPlain (hi.name_plain b hb)) _

/-- What a line in plain form says is decided by its name, which is neither `.text` nor `.data`. -/
theorem ofLine_eq_instrStatement {i : SourceInstr} (hi : i.Legible)
    (htext : i.mnemonic ≠ Text.ofString ".text") (hdata : i.mnemonic ≠ Text.ofString ".data") :
    Statement.ofLine i.text = instrStatement none i.text := by
  obtain ⟨b, t, hhead, -⟩ := text_eq_cons hi
  have hcontent : Text.trim (dropComment i.text) = i.text := by
    rw [dropComment_of_not_mem (not_mem_text hi (by decide) (by decide) (by decide)), trim_text hi]
  have hempty : i.text.isEmpty = false := by
    rw [hhead]
    rfl
  have hfield : Text.firstField i.text = i.mnemonic := by
    rw [Text.firstField, splitField_text hi]
  have hcut : Text.cut? (byte ':') i.text = none :=
    cut?_of_not_mem (not_mem_text hi (by decide) (by decide) (by decide))
  simp only [Statement.ofLine, hcontent, hempty, hfield, beq_false_of_ne htext,
    beq_false_of_ne hdata, codeStatement, hcut, Bool.false_eq_true, if_false]

/-- The part of a line after its `label`, in plain form. -/
theorem instrStatement_text {i : SourceInstr} (hi : i.Plain) (label : Option Text) :
    instrStatement label i.text = .code label (some i.lowered) := by
  obtain ⟨b, t, htext, hhead, -⟩ := text_eq_cons hi.toLegible
  have hb : isLetter b = true := by
    have hletter := hi.name_head
    rwa [hhead, Option.any_some] at hletter
  have hdot : (b == byte '.') = false := beq_false_of_ne (ne_of_test hb (by decide))
  have hunfold : instrStatement label i.text =
      .code label (some ⟨Text.lower (Text.splitField i.text).1,
        operandList (Text.splitField i.text).2⟩) := by
    rw [htext, instrStatement, hdot]
    rfl
  rw [hunfold, splitField_text hi.toLegible, operandList_space, operandList_join hi.operands]
  rfl

/-- A name that begins with a letter is not that of a section. -/
theorem name_ne_section {i : SourceInstr} (hi : i.Plain) {name : Text}
    (hname : name.head?.any isLetter = false) : i.mnemonic ≠ name := by
  rintro rfl
  rw [hi.name_head] at hname
  exact absurd hname (by decide)

/-- **An instruction `i` in plain form is read as it is**, with its name in lower case. -/
theorem ofLine_text {i : SourceInstr} (hi : i.Plain) :
    Statement.ofLine i.text = .code none (some i.lowered) := by
  rw [ofLine_eq_instrStatement hi.toLegible (name_ne_section hi (by decide))
    (name_ne_section hi (by decide)), instrStatement_text hi]

/-- A directive other than `.text` and `.data` is malformed. -/
theorem ofLine_directive {i : SourceInstr} (hi : i.Legible)
    (hdot : i.mnemonic.head? = some (byte '.')) (htext : i.mnemonic ≠ Text.ofString ".text")
    (hdata : i.mnemonic ≠ Text.ofString ".data") :
    Statement.ofLine i.text = .malformed (.unknownDirective i.mnemonic) := by
  obtain ⟨b, t, heq, hhead, -⟩ := text_eq_cons hi
  obtain rfl : b = byte '.' := Option.some.inj (hhead.symm.trans hdot)
  have hfield : Text.firstField i.text = i.mnemonic := by
    rw [Text.firstField, splitField_text hi]
  have hunfold : instrStatement none i.text =
      .malformed (.unknownDirective (Text.firstField i.text)) := by
    rw [heq, instrStatement, beq_self_eq_true, if_pos rfl]
  rw [ofLine_eq_instrStatement hi htext hdata, hunfold, hfield]

end WordMachine.Asm
