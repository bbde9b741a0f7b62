import WordMachine.Proofs.Reading

/-!
# Displacement

When source lines move to other places, so do the labels on them. A branch to a label keeps its
distance; a jump to a label takes the new place; nothing else in the words depends on where a line
stands.

* `encode_moved`: an instruction that has moved together with all labels has the same encoding, but
  for the target of a jump to a label.
* `Assembler.encodeLines_displaced`: the entries of displaced lines are known from those of the
  lines, whatever stands around them.
-/

namespace WordMachine

open Asm

/-! ## Places -/

namespace Asm

/-- The source line at another place: its number is given by `place`, and it is `d` instructions
further on. -/
structure SourceLine.Displaced (place : Int → Int) (d : Nat) (line line' : SourceLine) : Prop where
  lineNo : (line'.lineNo : Int) = place line.lineNo
  label : line'.label = line.label
  instr : line'.instr = line.instr
  pc : line'.pc = line.pc + d

/-- The number of a line when `count` lines are put in after the first `n` ones. -/
def numberAfter (n count : Nat) (lineNo : Int) : Int :=
  if lineNo ≤ n then lineNo else lineNo + count

/-- The lines before the place where lines are put in keep their numbers, up to `n`. -/
theorem displaced_before {n : Nat} (count : Nat) {lines : List SourceLine}
    (h : ∀ line ∈ lines, line.lineNo ≤ n) :
    List.Forall₂ (SourceLine.Displaced (numberAfter n count) 0) lines lines := by
  refine List.forall₂_same.mpr fun line hline => ⟨?_, rfl, rfl, rfl⟩
  have hle := h line hline
  rw [numberAfter, if_pos (by omega)]

/-- The lines after it are moved by the `count` lines that are put in. -/
theorem displaced_after {n count d : Nat} {lines lines' : List SourceLine}
    (h : List.Forall₂ (SourceLine.Moved count d) lines lines')
    (hlater : ∀ line ∈ lines, n < line.lineNo) :
    List.Forall₂ (SourceLine.Displaced (numberAfter n count) d) lines lines' := by
  refine ((List.forall₂_and_left lines lines').mpr ⟨hlater, h⟩).imp ?_
  rintro line line' ⟨hlt, hmoved⟩
  refine ⟨?_, hmoved.label, hmoved.instr, hmoved.pc⟩
  rw [numberAfter, if_neg (by omega), hmoved.lineNo]
  push_cast
  rfl

end Asm

/-! ## Labels -/

namespace Labels

/-- The labels when the source line `line` is taken into account too. -/
def withLine (labels : Labels) (line : SourceLine) : Labels :=
  match line.label with
  | some label => labels.insert label line.pc
  | none => labels

/-- Under the `names` in question, `labels'` has the values of `labels`, moved by `d`. -/
def Moved (names : Text → Prop) (d : Nat) (labels labels' : Labels) : Prop :=
  ∀ name, names name → labels'.get? name = (labels.get? name).map (· + (d : Int))

section Tables

variable {names : Text → Prop} {place : Int → Int} {d : Nat} {labels labels' : Labels}

theorem ofLines_append (before after : List SourceLine) :
    ofLines (before ++ after) = after.foldl withLine (ofLines before) :=
  List.foldl_append

theorem get?_withLine (labels : Labels) (line : SourceLine) (name : Text) :
    (labels.withLine line).get? name =
      if line.label = some name then some (line.pc : Int) else labels.get? name := by
  unfold withLine
  cases line.label with
  | none => rfl
  | some label =>
    by_cases heq : label = name
    · rw [if_pos (congrArg some heq), heq]
      exact Table.get?_insert_self labels name _
    · rw [if_neg fun h => heq (Option.some.inj h)]
      exact Table.get?_insert_of_ne labels _ (Ne.symm heq)

/-- A `name` is no label if no line defines it, and it was none before. -/
theorem get?_foldl_eq_none_iff (lines : List SourceLine) (name : Text) :
    (lines.foldl withLine labels).get? name = none ↔
      labels.get? name = none ∧ ∀ line ∈ lines, line.label ≠ some name := by
  induction lines generalizing labels with
  | nil => simp
  | cons line lines ih =>
    rw [List.foldl_cons, ih, get?_withLine, List.forall_mem_cons]
    by_cases hlabel : line.label = some name
    · simp [hlabel]
    · simp [hlabel]

/-- A `name` keeps its value if no line defines it. -/
theorem get?_foldl_of_undefined {lines : List SourceLine} {name : Text}
    (h : ∀ line ∈ lines, line.label ≠ some name) :
    (lines.foldl withLine labels).get? name = labels.get? name := by
  induction lines generalizing labels with
  | nil => rfl
  | cons line lines ih =>
    rw [List.forall_mem_cons] at h
    rw [List.foldl_cons, ih h.2, get?_withLine, if_neg h.1]

/-- The labels of a line and of the displaced line are at a distance of `d`, if they were before. -/
theorem moved_withLine (h : Moved names d labels labels') {line line' : SourceLine}
    (hline : line.Displaced place d line') :
    Moved names d (labels.withLine line) (labels'.withLine line') := by
  intro name hname
  rw [get?_withLine, get?_withLine, hline.label, hline.pc, h name hname]
  split
  · rw [Option.map_some]
    push_cast
    rfl
  · rfl

/-- The labels on displaced `lines'` move with them. -/
theorem moved_foldl (h : Moved names d labels labels') {lines lines' : List SourceLine}
    (hlines : List.Forall₂ (SourceLine.Displaced place d) lines lines') :
    Moved names d (lines.foldl withLine labels) (lines'.foldl withLine labels') := by
  induction hlines generalizing labels labels' with
  | nil => exact h
  | cons hline _ ih => exact ih (moved_withLine h hline)

end Tables

end Labels

/-! ## Operands -/

namespace Asm

/-- The place that is named when the code has moved by `d`; a literal stays what it is. -/
def Target.moved (d : Nat) : Target → Target
  | label pc => label (pc + d)
  | literal value => literal value

/-- A branch at `pc` that moves with the label that it goes to keeps its distance. -/
theorem Target.relative_moved (goal : Target) (d pc : Nat) :
    (goal.moved d).relative (pc + d) = goal.relative pc := by
  cases goal with
  | label there =>
    show there + d - (((pc + d : Nat) : Int) - 1) = there - ((pc : Int) - 1)
    push_cast
    omega
  | literal value => rfl

/-- Each operand that names a place with `labels` names it, moved by `d`, with `labels'`. -/
def Resolves (d : Nat) (labels labels' : Labels) : Prop :=
  ∀ operand goal, target labels operand = .ok goal → target labels' operand = .ok (goal.moved d)

/-- Code that does not move, so that `d = 0`, finds its places with the same labels. -/
theorem resolves_self (labels : Labels) : Resolves 0 labels labels := by
  intro operand goal hgoal
  cases goal with
  | label pc => rw [hgoal, Target.moved, Nat.cast_zero, add_zero]
  | literal value => exact hgoal

/-- Labels that have `Moved` resolve the operands that the labels resolve. -/
theorem resolves_of_moved {names : Text → Prop} {d : Nat} {labels labels' : Labels}
    (h : labels.Moved names d labels')
    (hnames : ∀ operand goal, target labels operand = .ok goal → names operand) :
    Resolves d labels labels' := by
  intro operand goal hgoal
  have hget := h operand (hnames operand goal hgoal)
  unfold target at hgoal ⊢
  rw [hget]
  cases hlabel : labels.get? operand with
  | some pc =>
    rw [hlabel] at hgoal
    cases hgoal
    rfl
  | none =>
    rw [hlabel] at hgoal
    obtain ⟨value, hvalue, heq⟩ := bind_eq_ok.mp hgoal
    cases heq
    exact bind_eq_ok.mpr ⟨value, hvalue, rfl⟩

/-! ## Words -/

/-- Are these the words of a jump to a label, so of `j`, `jal` or `bex`? -/
def jumpsToLabel (labels : Labels) : List Text → Bool
  | [name, place] =>
    [Mnemonic.j, .jal, .bex].any (·.name == name) && (labels.get? place).isSome
  | _ => false

/-- The code of a line that has moved by `d` instructions together with all labels. The target of a
jump to a label grows by `d`, in its 27 bits. -/
def movedCode (labels : Labels) (d : Nat) (words : List Text) (code : Word) : Word :=
  if jumpsToLabel labels words then
    Word.packJ (Field.op.get code) (Field.target.get code + d)
  else code

/-- Code that does not move keeps its words. -/
theorem movedCode_zero (labels : Labels) (words : List Text) (code : Word) :
    movedCode labels 0 words code = code := by
  unfold movedCode
  split
  · rw [Nat.cast_zero, add_zero, Word.packJ_get]
  · rfl

/-- A target in its field grows as the number `there` does that is put in. -/
theorem packJ_get_add (op : Operation) (there : Int) (d : Nat) :
    Word.packJ (Field.op.get (Word.packJ op.code there))
        (Field.target.get (Word.packJ op.code there) + d) =
      Word.packJ op.code (there + d) := by
  obtain ⟨hop, htarget⟩ := Field.get_packJ op.code there
  rw [hop, htarget]
  apply UInt32.toNat_inj.mp
  rw [Word.toNat_packJ, Word.toNat_packJ]
  omega

section Encoding

variable {d pc : Nat} {labels labels' : Labels} {operands : List Text} {instr : Instr}

theorem movedCode_of_jump_eq_none {m : Mnemonic} (hm : m.jump? = none) (code : Word) :
    movedCode labels d (m.name :: operands) code = code := by
  have hjumps : jumpsToLabel labels (m.name :: operands) = false := by
    have hother : [Mnemonic.j, .jal, .bex].any (·.name == m.name) = false := by
      cases m <;> first | decide | cases hm
    unfold jumpsToLabel
    split
    · rename_i name place hwords
      cases hwords
      rw [hother, Bool.false_and]
    · rfl
  rw [movedCode, hjumps, if_neg Bool.false_ne_true]

theorem encodeBranch_moved {make : Reg → Reg → Int → Instr} (h : Resolves d labels labels')
    (hinstr : encodeBranch make labels pc operands = .ok instr) :
    encodeBranch make labels' (pc + d) operands = .ok instr := by
  unfold encodeBranch at hinstr ⊢
  split at hinstr
  · simp only [bind_eq_ok] at hinstr ⊢
    obtain ⟨rs, hs, rd, hd, goal, hgoal, heq⟩ := hinstr
    exact ⟨rs, hs, rd, hd, goal.moved d, h _ goal hgoal, by rw [goal.relative_moved]; exact heq⟩
  · cases hinstr

theorem encodeJump_moved {m : Mnemonic} {make : Int → Instr} (h : Resolves d labels labels')
    (hm : m.jump? = some make) (hinstr : encodeJump make labels operands = .ok instr) :
    ((encodeJump make labels' operands).map fun instr => (⟨instr.word, none⟩ : Encoding)) =
      .ok ⟨movedCode labels d (m.name :: operands) instr.word, none⟩ := by
  unfold encodeJump at hinstr ⊢
  split at hinstr
  · rename_i place
    obtain ⟨goal, hgoal, heq⟩ := bind_eq_ok.mp hinstr
    cases heq
    have hmoved : (target labels' place >>= fun goal => pure (make goal.absolute)) =
        (.ok (make (goal.moved d).absolute) : Except SourceFault Instr) :=
      bind_eq_ok.mpr ⟨_, h place goal hgoal, rfl⟩
    refine map_eq_ok.mpr ⟨_, hmoved, congrArg (Encoding.mk · none) ?_⟩
    have hjump : [Mnemonic.j, .jal, .bex].any (·.name == m.name) = true := by
      cases m <;> first | decide | cases hm
    have hjumps : jumpsToLabel labels [m.name, place] = (labels.get? place).isSome := by
      rw [jumpsToLabel, hjump, Bool.true_and]
    rw [movedCode, hjumps]
    -- Only a label has moved; a number is put in as it stands.
    unfold target at hgoal
    cases hlabel : labels.get? place with
    | some there =>
      rw [hlabel] at hgoal
      cases hgoal
      rw [if_pos (Option.isSome_some)]
      cases m <;> cases hm <;> exact (packJ_get_add _ there d).symm
    | none =>
      rw [hlabel] at hgoal
      obtain ⟨value, -, heq⟩ := bind_eq_ok.mp hgoal
      cases heq
      rfl
  · cases hinstr

/-- **An instruction that has moved together with all labels** has the same encoding, but for the
target of a jump to a label, as `movedCode` says. -/
theorem encode_moved {strict : Bool} {i : SourceInstr} {e : Encoding}
    (h : Resolves d labels labels') (hencode : encode strict labels pc i = .ok e) :
    encode strict labels' (pc + d) i =
      .ok { e with code := movedCode labels d i.words e.code } := by
  cases hm : Mnemonic.ofName? i.mnemonic with
  | none => simp [encode, hm] at hencode
  | some m =>
    have hwords : i.words = m.name :: i.operands := by
      rw [SourceInstr.words, Mnemonic.name_of_ofName? hm]
    simp only [encode, hm] at hencode ⊢
    rw [hwords]
    cases m with
    | bne | blt =>
      obtain ⟨instr, hinstr, rfl⟩ := map_eq_ok.mp hencode
      rw [movedCode_of_jump_eq_none rfl]
      exact map_eq_ok.mpr ⟨instr, encodeBranch_moved h hinstr, rfl⟩
    | j | jal | bex =>
      obtain ⟨instr, hinstr, rfl⟩ := map_eq_ok.mp hencode
      exact encodeJump_moved h rfl hinstr
    -- The others look at neither the labels nor the place.
    | add | sub | and | or | sll | sra | lw | sw | addi | jr | setx | andi =>
      rw [movedCode_of_jump_eq_none rfl]
      exact hencode

end Encoding

end Asm

/-! ## Entries -/

/-- The entry at another place, with the `labels` of the program that it was in. -/
def Entry.displaced (labels : Labels) (place : Int → Int) (d : Nat) (e : Entry) : Entry where
  lineNo := place e.lineNo
  pc := e.pc + d
  words := e.words
  code := movedCode labels d e.words e.code

/-- An entry whose line gets another number only, as `d = 0`. -/
theorem Entry.displaced_zero (labels : Labels) (place : Int → Int) :
    displaced labels place 0 = fun e => { e with lineNo := place e.lineNo } := by
  funext e
  rw [displaced, movedCode_zero, Nat.cast_zero, add_zero]

namespace Assembler

section Lines

variable {strict : Bool} {labels labels' : Labels} {place : Int → Int} {d : Nat}
  {line line' : SourceLine}

/-- The displaced `line'` is good if `line` is, and has the displaced entry. -/
theorem encodeLine_displaced (h : line.Displaced place d line')
    (hlabels : Resolves d labels labels') (hgood : isGood (encodeLine strict labels line) = true) :
    isGood (encodeLine strict labels' line') = true ∧
      entryOf? (encodeLine strict labels' line') =
        (entryOf? (encodeLine strict labels line)).map (Entry.displaced labels place d) := by
  cases hinstr : line.instr with
  | none =>
    have hinstr' := h.instr.trans hinstr
    rw [no_entry_of_instr_eq_none hinstr, no_entry_of_instr_eq_none hinstr']
    exact ⟨by simp [isGood, encodeLine, hinstr'], rfl⟩
  | some i =>
    have hinstr' := h.instr.trans hinstr
    obtain ⟨e, hencode, hentry⟩ := exists_entry_of_instr_eq_some hinstr hgood
    have hmoved := encode_moved hlabels hencode
    rw [← h.pc] at hmoved
    have hgood' : isGood (encodeLine strict labels' line') = true := by
      simp [isGood, encodeLine, hinstr', hmoved, Except.map]
    obtain ⟨e', hencode', hentry'⟩ := exists_entry_of_instr_eq_some hinstr' hgood'
    obtain rfl := Except.ok.inj (hencode'.symm.trans hmoved)
    refine ⟨hgood', ?_⟩
    rw [hentry', hentry, Option.map_some, h.lineNo, h.pc, Entry.displaced]
    push_cast
    rfl

/-- **Displaced lines are good if the lines are, and have the displaced entries**, in order. -/
theorem encodeLines_displaced {lines lines' : List SourceLine}
    (h : List.Forall₂ (SourceLine.Displaced place d) lines lines')
    (hlabels : Resolves d labels labels')
    (hgood : ∀ line ∈ lines, isGood (encodeLine strict labels line) = true) :
    (∀ line ∈ lines', isGood (encodeLine strict labels' line) = true) ∧
      (lines'.map (encodeLine strict labels')).filterMap entryOf? =
        ((lines.map (encodeLine strict labels)).filterMap entryOf?).map
          (Entry.displaced labels place d) := by
  induction h with
  | nil => exact ⟨by simp, rfl⟩
  | @cons line line' lines lines' hline _ ih =>
    rw [List.forall_mem_cons] at hgood
    obtain ⟨hgood', hentry⟩ := encodeLine_displaced hline hlabels hgood.1
    obtain ⟨hrest, hentries⟩ := ih hgood.2
    refine ⟨List.forall_mem_cons.mpr ⟨hgood', hrest⟩, ?_⟩
    rw [List.map_cons, List.map_cons, List.filterMap_cons, List.filterMap_cons, hentry, hentries]
    cases entryOf? (encodeLine strict labels line) with
    | none => rfl
    | some e => rfl

end Lines

end Assembler

end WordMachine
