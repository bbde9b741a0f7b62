import WordMachine.Asm.Assembler
import WordMachine.Proofs.Encode
import WordMachine.Proofs.Lines

/-!
# The two passes

The first pass numbers the instructions from zero, and gives a label the number of the instruction
after it (`numbered_ofInput`). The second pass turns each instruction line into one entry of the
program, in order, and fails at the first line that has no encoding.

* `assembled_of_parse`: a source that is accepted is assembled from the lines of the first pass.
* `Assembled.map_pc_entries`: the entries of a program are numbered in order.
* `Assembled.exists_line_of_mem`: every entry is the encoding of an instruction line.
-/

namespace WordMachine.Asm

/-! ## The first pass -/

/-- Source lines with `n` instructions, numbered in order; no line is numbered past their end. -/
structure Numbered (lines : List SourceLine) (n : Nat) : Prop where
  instrs : (lines.filter (·.instr.isSome)).map (·.pc) = List.range n
  bounded : ∀ line ∈ lines, line.pc ≤ n

/-- A line without an instruction takes the number `line.pc` of the next one. -/
theorem Numbered.concat_label {lines : List SourceLine} {line : SourceLine}
    (h : Numbered lines line.pc) (hinstr : line.instr = none) :
    Numbered (lines ++ [line]) line.pc where
  instrs := by
    rw [List.filter_append, List.filter_cons_of_neg (by simp [hinstr]), List.filter_nil,
      List.append_nil, h.instrs]
  bounded := by
    intro other hother
    rcases List.mem_append.mp hother with hmem | hmem
    · exact h.bounded other hmem
    · rw [List.mem_singleton.mp hmem]

/-- A line with an instruction takes the next number, `line.pc`. -/
theorem Numbered.concat_instr {lines : List SourceLine} {line : SourceLine} {i : SourceInstr}
    (h : Numbered lines line.pc) (hinstr : line.instr = some i) :
    Numbered (lines ++ [line]) (line.pc + 1) where
  instrs := by
    rw [List.filter_append, List.filter_cons_of_pos (by simp [hinstr]), List.filter_nil,
      List.map_append, h.instrs, List.range_succ]
    rfl
  bounded := by
    intro other hother
    rcases List.mem_append.mp hother with hmem | hmem
    · exact Nat.le_succ_of_le (h.bounded other hmem)
    · rw [List.mem_singleton.mp hmem]
      exact Nat.le_succ _

namespace Scan

/-- A statement keeps the source lines of `s` numbered. -/
theorem numbered_accept {s : Scan} (h : Numbered s.lines.toList s.pc) (statement : Statement) :
    Numbered (s.accept statement).lines.toList (s.accept statement).pc := by
  cases statement with
  | blank => exact h
  | textSection => exact h
  | dataSection => exact h
  | malformed fault =>
    simp only [accept]
    split <;> exact h
  | code label instr =>
    simp only [accept]
    split
    · rw [Array.toList_push]
      cases instr with
      | none => exact Numbered.concat_label h rfl
      | some i => exact Numbered.concat_instr h rfl
    · exact h

/-- One more line keeps the source lines numbered. -/
theorem numbered_step {s : Scan} (h : Numbered s.lines.toList s.pc) (line : Text) :
    Numbered (s.step line).lines.toList (s.step line).pc := by
  unfold step
  split
  · exact h
  · exact numbered_accept (s := { s with lineNo := s.lineNo + 1, text := Text.trim line }) h _

/-- The source lines of every source are numbered up to the last `pc`. -/
theorem numbered_ofInput (input : Input) :
    Numbered (ofInput input).lines.toList (ofInput input).pc := by
  have hrun : ∀ (ls : List Text) (s : Scan), Numbered s.lines.toList s.pc →
      Numbered (ls.foldl step s).lines.toList (ls.foldl step s).pc := by
    intro ls
    induction ls with
    | nil => exact fun s h => h
    | cons l ls ih => exact fun s h => ih (s.step l) (numbered_step h l)
  have hstart := hrun input.lines {} ⟨rfl, by simp⟩
  unfold ofInput
  dsimp only
  split <;> exact hstart

/-- A line that opens a text section, `.text`, at the start of a source. -/
theorem step_text_section :
    step {} (Text.ofString ".text") = { lineNo := 1, text := ".text", inText := true } := rfl

end Scan

/-- A source with the one line `line` in a text section. -/
def alone (line : Text) : Input :=
  ⟨Input.unlines [".text", line], none⟩

/-- What is read of a line that stands `alone` is what the line says. -/
theorem Scan.ofInput_alone {line : Text} (hline : Input.IsSegment line) :
    Scan.ofInput (alone line) =
      accept { lineNo := 2, text := Text.trim (Input.dropReturn line), inText := true }
        (Statement.ofLine (Text.trim (Input.dropReturn line))) := by
  have hls : ∀ l ∈ [Text.ofString ".text", line], Input.IsSegment l := by
    intro l hl
    rcases List.mem_cons.mp hl with rfl | hl
    · exact ⟨by decide, by decide⟩
    · exact List.mem_singleton.mp hl ▸ hline
  have hkeep : Input.dropReturn (Text.ofString ".text") = Text.ofString ".text" := by decide
  have hstep : step { lineNo := 1, text := ".text", inText := true } (Input.dropReturn line) =
      accept { lineNo := 2, text := Text.trim (Input.dropReturn line), inText := true }
        (Statement.ofLine (Text.trim (Input.dropReturn line))) := by
    simp only [step, Option.isSome_none, Bool.false_eq_true, if_false, Nat.reduceAdd]
  simp only [ofInput, alone, Input.lines_unlines hls, Input.fault?_unlines hls, List.map_cons,
    List.map_nil, List.foldl_cons, List.foldl_nil, hkeep, step_text_section, hstep, Option.map_none]
  generalize accept _ _ = s
  split
  · rfl
  · rename_i hfault
    rw [Option.not_isSome_iff_eq_none] at hfault
    rw [← hfault]

/-- An instruction `i` that stands `alone` is the one that is read. -/
theorem Scan.words_alone {line : Text} (hline : Input.IsSegment line) {label : Option Text}
    {i : SourceInstr}
    (hcode : Statement.ofLine (Text.trim (Input.dropReturn line)) = .code label (some i)) :
    (Scan.ofInput (alone line)).fault = none ∧
      (Scan.ofInput (alone line)).lines.toList.map (·.words) = [i.words] := by
  rw [Scan.ofInput_alone hline, hcode]
  exact ⟨rfl, rfl⟩

/-- The last line is the last one to enter the table of labels, and overwrites what was there. -/
theorem ofLines_concat (lines : List SourceLine) (last : SourceLine) :
    Labels.ofLines (lines ++ [last]) =
      match last.label with
      | some label => (Labels.ofLines lines).insert label last.pc
      | none => Labels.ofLines lines := by
  rw [Labels.ofLines, List.foldl_append]
  rfl

/-- A label of source lines has the number `line.pc` of a line that defines it. -/
theorem exists_line_of_get?_ofLines {lines : List SourceLine} {label : Text} {v : Int}
    (h : (Labels.ofLines lines).get? label = some v) :
    ∃ line ∈ lines, line.label = some label ∧ v = line.pc := by
  induction lines using List.reverseRecOn with
  | nil => cases h
  | append_singleton lines last ih =>
    have hprior : (Labels.ofLines lines).get? label = some v →
        ∃ line ∈ lines ++ [last], line.label = some label ∧ v = line.pc := by
      intro hget
      obtain ⟨line, hmem, hline⟩ := ih hget
      exact ⟨line, List.mem_append_left [last] hmem, hline⟩
    rw [ofLines_concat] at h
    cases hlabel : last.label with
    | none =>
      rw [hlabel] at h
      exact hprior h
    | some l =>
      rw [hlabel] at h
      by_cases heq : label = l
      · subst heq
        rw [Table.get?_insert_self, Option.some.injEq] at h
        exact ⟨last, List.mem_append_right lines List.mem_cons_self, hlabel, h.symm⟩
      · rw [Table.get?_insert_of_ne _ _ heq] at h
        exact hprior h

end WordMachine.Asm

/-! ## The second pass -/

namespace WordMachine.Assembler

open Asm

/-- The program `p` that source lines are assembled to, none of them being at fault. -/
structure Assembled (strict : Bool) (lines : List SourceLine) (p : Program) : Prop where
  labels : p.labels = Labels.ofLines lines
  good : ∀ line ∈ lines, isGood (encodeLine strict p.labels line) = true
  entries : p.entries.toList = (lines.map (encodeLine strict p.labels)).filterMap entryOf?
  warnings : p.warnings = (lines.map (encodeLine strict p.labels)).filterMap warning?

/-- Without a faulty line, the second pass gives a program that is `Assembled`. -/
theorem encodeLines_of_good (asm : Assembler) {lines : List SourceLine}
    (h : ∀ line ∈ lines, isGood (encodeLine asm.strict (Labels.ofLines lines) line) = true) :
    ∃ p, (asm.encodeLines lines).result = .ok p ∧ Assembled asm.strict lines p ∧
      (asm.encodeLines lines).assembler.warnings = p.warnings := by
  have hgood : ∀ e ∈ lines.map (encodeLine asm.strict (Labels.ofLines lines)), isGood e = true := by
    intro e he
    obtain ⟨line, hline, rfl⟩ := List.mem_map.mp he
    exact h line hline
  have htake := List.takeWhile_eq_self_iff.mpr hgood
  have hbad :
      (lines.map (encodeLine asm.strict (Labels.ofLines lines))).find? (!isGood ·) = none := by
    rw [List.find?_eq_none]
    intro e he
    simp [hgood e he]
  refine ⟨⟨((lines.map (encodeLine asm.strict (Labels.ofLines lines))).filterMap entryOf?).toArray,
    Labels.ofLines lines, (lines.map (encodeLine asm.strict (Labels.ofLines lines))).filterMap
      warning?⟩, ?_, ⟨rfl, h, rfl, rfl⟩, ?_⟩
  · simp only [encodeLines, htake, hbad, Option.bind_none]
  · simp only [encodeLines, htake]

/-- The second pass gives a program only if no line is faulty, so all are `isGood`. -/
theorem good_of_encodeLines {asm : Assembler} {lines : List SourceLine} {p : Program}
    (h : (asm.encodeLines lines).result = .ok p) :
    ∀ line ∈ lines, isGood (encodeLine asm.strict (Labels.ofLines lines) line) = true := by
  intro line hline
  by_contra hfault
  have hsome : ((lines.map (encodeLine asm.strict (Labels.ofLines lines))).find?
      (!isGood ·)).isSome = true := by
    rw [List.find?_isSome]
    exact ⟨_, List.mem_map_of_mem hline, by simpa using hfault⟩
  obtain ⟨e, he⟩ := Option.isSome_iff_exists.mp hsome
  have herror : (error? e).isSome = true := by
    have hfound : isGood e = false := by simpa using List.find?_some he
    revert hfound
    unfold isGood error?
    split <;> simp
  obtain ⟨fault, hfault⟩ := Option.isSome_iff_exists.mp herror
  simp only [encodeLines, he, Option.bind_some, hfault] at h
  cases h

/-- A source that cannot be read ends the run before anything but the warnings is changed. -/
theorem parse_of_error (asm : Assembler) {input : Input} {e : SourceError}
    (herror : (Scan.ofInput input).error? = some e) :
    asm.parse input =
      { assembler := { asm with warnings := [] }, result := .error e, log := [] } := by
  simp only [parse, herror]

/-- A source that the first pass reads without a `fault` goes to the second pass. -/
theorem parse_of_scan (asm : Assembler) {input : Input}
    (hscan : (Scan.ofInput input).fault = none) :
    asm.parse input = asm.encodeLines (Scan.ofInput input).lines.toList := by
  have herror : (Scan.ofInput input).error? = none := by
    rw [Scan.error?, hscan, Option.map_none]
  simp only [parse, herror]

/-- A source that the first pass reads without a `fault` is assembled if no line is faulty. -/
theorem parse_of_good (asm : Assembler) {input : Input} (hscan : (Scan.ofInput input).fault = none)
    (h : ∀ line ∈ (Scan.ofInput input).lines.toList,
      isGood (encodeLine asm.strict (Labels.ofLines (Scan.ofInput input).lines.toList) line) =
        true) :
    ∃ p, (asm.parse input).result = .ok p ∧
      Assembled asm.strict (Scan.ofInput input).lines.toList p ∧
      (asm.parse input).assembler.warnings = p.warnings := by
  rw [parse_of_scan asm hscan]
  exact encodeLines_of_good asm h

/-- A source that is accepted is read to its end, without a `fault`. -/
theorem fault_of_parse {asm : Assembler} {input : Input} {p : Program}
    (h : (asm.parse input).result = .ok p) : (Scan.ofInput input).fault = none := by
  cases hfault : (Scan.ofInput input).fault with
  | none => rfl
  | some fault =>
    simp only [parse, Scan.error?, hfault, Option.map_some] at h
    cases h

/-- A source that is accepted is assembled from the source lines of the first pass. -/
theorem assembled_of_parse {asm : Assembler} {input : Input} {p : Program}
    (h : (asm.parse input).result = .ok p) :
    Assembled asm.strict (Scan.ofInput input).lines.toList p := by
  unfold parse at h
  dsimp only at h
  split at h
  · cases h
  · obtain ⟨q, hq, hassembled, -⟩ := encodeLines_of_good asm (good_of_encodeLines h)
    rw [hq, Except.ok.injEq] at h
    exact h ▸ hassembled

/-! ## Entries -/

section Entries

variable {strict : Bool} {labels : Labels} {lines : List SourceLine} {p : Program}

/-- A line without an instruction gives no entry. -/
theorem no_entry_of_instr_eq_none {line : SourceLine} (h : line.instr = none) :
    entryOf? (encodeLine strict labels line) = none := by
  simp [encodeLine, entryOf?, h]

/-- The entry of a line with the instruction `i` holds its encoding `e.code`. -/
theorem exists_entry_of_instr_eq_some {line : SourceLine} {i : SourceInstr}
    (h : line.instr = some i) (hgood : isGood (encodeLine strict labels line) = true) :
    ∃ e, encode strict labels line.pc i = .ok e ∧
      entryOf? (encodeLine strict labels line) =
        some ⟨line.lineNo, line.pc, i.words, e.code⟩ := by
  cases hencode : encode strict labels line.pc i with
  | error fault => simp [isGood, encodeLine, h, hencode, Except.map] at hgood
  | ok e => exact ⟨e, rfl, by simp [encodeLine, entryOf?, h, hencode, Except.map, SourceLine.words]⟩

/-- What is the same of an instruction line (`g`) and of its entry (`f`) is the same, in order, of
all good lines and of their entries. -/
theorem map_entries_of_good {α : Type} {f : Entry → α} {g : SourceLine → α}
    (hfg : ∀ (line : SourceLine) i code, line.instr = some i →
      f ⟨line.lineNo, line.pc, i.words, code⟩ = g line)
    (hgood : ∀ line ∈ lines, isGood (encodeLine strict labels line) = true) :
    ((lines.map (encodeLine strict labels)).filterMap entryOf?).map f =
      (lines.filter (·.instr.isSome)).map g := by
  induction lines with
  | nil => rfl
  | cons line lines ih =>
    have hrest := ih fun other hother => hgood other (List.mem_cons_of_mem line hother)
    cases hinstr : line.instr with
    | none =>
      rw [List.map_cons, List.filterMap_cons_none (no_entry_of_instr_eq_none hinstr), hrest,
        List.filter_cons_of_neg (by simp [hinstr])]
    | some i =>
      obtain ⟨e, -, hentry⟩ := exists_entry_of_instr_eq_some hinstr (hgood line List.mem_cons_self)
      rw [List.map_cons, List.filterMap_cons_some hentry, List.map_cons, hrest,
        List.filter_cons_of_pos (by simp [hinstr]), List.map_cons, hfg line i _ hinstr]

/-- **The entries of a program are numbered in order**, from 0 to `n - 1`. -/
theorem Assembled.map_pc_entries (h : Assembled strict lines p) {n : Nat} (hn : Numbered lines n) :
    p.entries.toList.map (·.pc) = (List.range n).map Int.ofNat := by
  rw [h.entries, ← hn.instrs, List.map_map]
  exact map_entries_of_good (fun _ _ _ _ => rfl) h.good

/-- A program has one entry for each of the `n` instructions. -/
theorem Assembled.size_entries (h : Assembled strict lines p) {n : Nat} (hn : Numbered lines n) :
    p.entries.size = n := by
  have hlength := congrArg List.length (h.map_pc_entries hn)
  simpa using hlength

/-- **Every entry of a program is the encoding of an instruction line**, with the labels of the
whole program. -/
theorem Assembled.exists_line_of_mem (h : Assembled strict lines p) {entry : Entry}
    (hentry : entry ∈ p.entries) :
    ∃ line ∈ lines, ∃ i e, line.instr = some i ∧ encode strict p.labels line.pc i = .ok e ∧
      entry = ⟨line.lineNo, line.pc, i.words, e.code⟩ := by
  rw [← Array.mem_toList_iff, h.entries, List.mem_filterMap] at hentry
  obtain ⟨encoded, hencoded, hsome⟩ := hentry
  obtain ⟨line, hline, rfl⟩ := List.mem_map.mp hencoded
  cases hinstr : line.instr with
  | none =>
    rw [no_entry_of_instr_eq_none hinstr] at hsome
    cases hsome
  | some i =>
    obtain ⟨e, hencode, heq⟩ := exists_entry_of_instr_eq_some hinstr (h.good line hline)
    rw [heq, Option.some.injEq] at hsome
    exact ⟨line, hline, i, e, hinstr, hencode, hsome.symm⟩

end Entries

end WordMachine.Assembler
