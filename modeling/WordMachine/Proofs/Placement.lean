import WordMachine.Proofs.Assembly

/-!
# Lines and their places

What the lines of a source say about a program, each line by its position and without the state of a
reading: a line is in a text section if the last section line before it opens one; the instructions
of the program are the instruction lines in text sections, in order; and a label stands for the
number of instruction lines before the last line that defines it.

* `Statement.ofLine` reads a line as what it holds: `says_ofLine`.
* A reading up to position `k` has taken what the lines before `k` hold: `Scan.reads_upTo`.
* The entries and the labels of a program are those of its lines: `Assembler.parse_placedBy`.
-/

namespace WordMachine.Asm

open Text (byte)

/-! ## What a line holds -/

/-- The line without its comment, and without white space at its ends. -/
def content (line : Text) : Text :=
  Text.trim (dropComment (Text.trim (Input.dropReturn line)))

/-- Whether the section that `line` opens is a text section; most lines open none. -/
def section? (line : Text) : Option Bool :=
  if Text.firstField (content line) = ".text" then some true
  else if Text.firstField (content line) = ".data" then some false
  else none

/-- The label that `line` defines: what stands before its first colon. -/
def label? (line : Text) : Option Text :=
  if (section? line).isSome then none
  else (Text.cut? (byte ':') (content line)).map fun parts => Text.trim parts.1

/-- What is left of `line` without its comment and its label. -/
def body (line : Text) : Text :=
  if (section? line).isSome then []
  else match Text.cut? (byte ':') (content line) with
    | some (_, rest) => Text.trim rest
    | none => content line

/-- The instruction on `line`: its name, in lower case, and its operands. -/
def instr? (line : Text) : Option SourceInstr :=
  if body line = [] then none
  else
    some ⟨Text.lower (Text.splitField (body line)).1,
      operandList (Text.splitField (body line)).2⟩

/-- What is wrong with `line` if it stands in a text section: what it has before its first colon is
not a name, or its `body` begins with a dot. -/
def malformation? (line : Text) : Option SourceFault :=
  if (label? line).any (!isLabel ·) then some .labelSyntax
  else if (body line).head? = some (byte '.') then
    some (.unknownDirective (Text.firstField (body line)))
  else none

/-- A section line defines no label and holds no instruction. -/
theorem nothing_of_section {line : Text} {opens : Bool} (h : section? line = some opens) :
    label? line = none ∧ instr? line = none := by
  have hsome : (section? line).isSome = true := by rw [h, Option.isSome_some]
  refine ⟨if_pos hsome, ?_⟩
  rw [instr?, body, if_pos hsome, if_pos rfl]

/-- The label of a line is cut off at its first colon, and `rest` is its body. -/
theorem parts_of_cut? {line name rest : Text} (hsection : section? line = none)
    (hcut : Text.cut? (byte ':') (content line) = some (name, rest)) :
    label? line = some (Text.trim name) ∧ body line = Text.trim rest := by
  simp [label?, body, hsection, hcut]

/-- A line without a colon has no label. -/
theorem parts_of_no_cut? {line : Text} (hsection : section? line = none)
    (hcut : Text.cut? (byte ':') (content line) = none) :
    label? line = none ∧ body line = content line := by
  simp [label?, body, hsection, hcut]

/-- Nothing is wrong with a line that holds neither a label nor an instruction. -/
theorem malformation?_of_nothing {line : Text} (hlabel : label? line = none)
    (hinstr : instr? line = none) : malformation? line = none := by
  have hbody : body line = [] := by
    by_contra hbody
    rw [instr?, if_neg hbody] at hinstr
    cases hinstr
  rw [malformation?, hlabel, hbody]
  rfl

/-- What a line says, in terms of its `section?`, `label?`, `instr?` and `malformation?`. -/
inductive Says (line : Text) : Statement → Prop
  | blank (hlabel : label? line = none) (hinstr : instr? line = none)
      (hsection : section? line = none) : Says line .blank
  | textSection (hsection : section? line = some true) : Says line .textSection
  | dataSection (hsection : section? line = some false) : Says line .dataSection
  | code (hsection : section? line = none) (hformed : malformation? line = none)
      (hsome : (label? line).isSome = true ∨ (instr? line).isSome = true) :
      Says line (.code (label? line) (instr? line))
  | malformed {fault : SourceFault} (hsection : section? line = none)
      (hformed : malformation? line = some fault) : Says line (.malformed fault)

/-- The `body` of a line holds an instruction, or it is malformed. -/
theorem says_instrStatement {line : Text} (hsection : section? line = none)
    (hlabel : (label? line).any (!isLabel ·) = false)
    (hsome : (label? line).isSome = true ∨ body line ≠ []) :
    Says line (instrStatement (label? line) (body line)) := by
  have hcode : (label? line).isSome = true ∨ (instr? line).isSome = true := by
    refine hsome.imp_right fun hbody => ?_
    rw [instr?, if_neg hbody, Option.isSome_some]
  have hinstr : malformation? line = none ∧
        instrStatement (label? line) (body line) = .code (label? line) (instr? line) ∨
      ∃ fault, malformation? line = some fault ∧
        instrStatement (label? line) (body line) = .malformed fault := by
    unfold instr? malformation?
    rw [hlabel, if_neg Bool.false_ne_true]
    cases body line with
    | nil => exact .inl ⟨rfl, rfl⟩
    | cons b t =>
      rw [instrStatement, if_neg (List.cons_ne_nil b t)]
      by_cases hdot : b = byte '.'
      · rw [if_pos (by rw [hdot, List.head?_cons]), if_pos (beq_iff_eq.mpr hdot)]
        exact .inr ⟨_, rfl, rfl⟩
      · rw [if_neg (by simpa using hdot), if_neg (by simpa using hdot)]
        exact .inl ⟨rfl, rfl⟩
  rcases hinstr with ⟨hformed, h⟩ | ⟨fault, hformed, h⟩ <;> rw [h]
  · exact .code hsection hformed hcode
  · exact .malformed hsection hformed

/-- **Every line says what it holds.** -/
theorem says_ofLine (line : Text) :
    Says line (Statement.ofLine (Text.trim (Input.dropReturn line))) := by
  have hcontent : Text.trim (dropComment (Text.trim (Input.dropReturn line))) = content line := rfl
  simp only [Statement.ofLine, hcontent, beq_iff_eq, List.isEmpty_iff]
  by_cases hempty : content line = []
  · have hsection : section? line = none := by
      rw [section?, hempty]
      decide
    have hlabel : label? line = none := by
      rw [label?, hsection, hempty]
      rfl
    have hinstr : instr? line = none := by
      rw [instr?, body, hsection, hempty]
      rfl
    rw [if_pos hempty]
    exact .blank hlabel hinstr hsection
  · rw [if_neg hempty]
    by_cases htext : Text.firstField (content line) = ".text"
    · rw [if_pos htext]
      exact .textSection (if_pos htext)
    · rw [if_neg htext]
      by_cases hdata : Text.firstField (content line) = ".data"
      · rw [if_pos hdata]
        exact .dataSection (by rw [section?, if_neg htext, if_pos hdata])
      · have hsection : section? line = none := by
          rw [section?, if_neg htext, if_neg hdata]
        rw [if_neg hdata, codeStatement]
        cases hcut : Text.cut? (byte ':') (content line) with
        | none =>
          obtain ⟨hlabel, hbody⟩ := parts_of_no_cut? hsection hcut
          have hsays := says_instrStatement hsection (by rw [hlabel, Option.any_none])
            (.inr (hbody ▸ hempty))
          rwa [hlabel, hbody] at hsays
        | some parts =>
          obtain ⟨name, rest⟩ := parts
          obtain ⟨hlabel, hbody⟩ := parts_of_cut? hsection hcut
          dsimp only
          split
          · rename_i hname
            have hsays := says_instrStatement hsection (by rw [hlabel, Option.any_some, hname]; rfl)
              (.inl (by rw [hlabel, Option.isSome_some]))
            rwa [hlabel, hbody] at hsays
          · rename_i hname
            refine .malformed hsection ?_
            rw [malformation?, if_pos (by simpa [hlabel] using hname)]

/-! ## Where lines stand -/

/-- Is the line at position `k` in a text section? The last section line before it says so. -/
def inText (lines : List Text) (k : Nat) : Bool :=
  ((lines.take k).filterMap section?).getLast?.getD false

/-- Does the line at position `k` stand for an instruction? -/
def isInstr (lines : List Text) (k : Nat) : Bool :=
  inText lines k && (lines[k]?.bind instr?).isSome

/-- Does the line at position `k` define the label `name`? -/
def defines (lines : List Text) (name : Text) (k : Nat) : Bool :=
  inText lines k && lines[k]?.bind label? == some name

/-- The number of instruction lines before position `k`. -/
def instrsBefore (lines : List Text) (k : Nat) : Nat :=
  (List.range k).countP (isInstr lines)

/-- The source line at position `k`. -/
def sourceLine? (lines : List Text) (k : Nat) : Option SourceLine :=
  lines[k]?.bind fun line =>
    if inText lines k && ((label? line).isSome || (instr? line).isSome) then
      some ⟨k + 1, Text.trim (Input.dropReturn line), label? line, instr? line,
        instrsBefore lines k⟩
    else none

section Positions

variable {lines : List Text} {k : Nat}

/-- The line at `k` changes the section after it if it opens one. -/
theorem inText_succ {line : Text} (h : lines[k]? = some line) :
    inText lines (k + 1) = (section? line).getD (inText lines k) := by
  unfold inText
  rw [List.take_add_one, h, Option.toList_some, List.filterMap_append, List.getLast?_append]
  cases hsection : section? line with
  | none => simp [hsection]
  | some opens => simp [hsection]

theorem instrsBefore_succ (lines : List Text) (k : Nat) :
    instrsBefore lines (k + 1) = instrsBefore lines k + if isInstr lines k then 1 else 0 := by
  rw [instrsBefore, List.range_succ, List.countP_append, List.countP_singleton, instrsBefore]

theorem instrsBefore_mono (lines : List Text) : Monotone (instrsBefore lines) := by
  refine monotone_nat_of_le_succ fun k => ?_
  rw [instrsBefore_succ]
  exact Nat.le_add_right _ _

theorem isInstr_eq {line : Text} (h : lines[k]? = some line) :
    isInstr lines k = (inText lines k && (instr? line).isSome) := by
  rw [isInstr, h, Option.bind_some]

theorem sourceLine?_eq {line : Text} (h : lines[k]? = some line) :
    sourceLine? lines k =
      if inText lines k && ((label? line).isSome || (instr? line).isSome) then
        some ⟨k + 1, Text.trim (Input.dropReturn line), label? line, instr? line,
          instrsBefore lines k⟩
      else none := by
  rw [sourceLine?, h, Option.bind_some]

/-- The source line at `k` holds what the line at this position holds. -/
theorem sourceLine?_eq_some {src : SourceLine} (h : sourceLine? lines k = some src) :
    ∃ line, lines[k]? = some line ∧ inText lines k = true ∧
      src = ⟨k + 1, Text.trim (Input.dropReturn line), label? line, instr? line,
        instrsBefore lines k⟩ := by
  obtain ⟨line, hline, hsome⟩ := Option.bind_eq_some_iff.mp h
  split at hsome
  · rename_i hcond
    rw [Bool.and_eq_true] at hcond
    cases hsome
    exact ⟨line, hline, hcond.1, rfl⟩
  · cases hsome

/-- The instruction lines are the positions of source lines with an `instr`. -/
theorem isInstr_eq_sourceLine? (lines : List Text) (k : Nat) :
    isInstr lines k = ((sourceLine? lines k).bind (·.instr)).isSome := by
  cases hline : lines[k]? with
  | none => simp [isInstr, sourceLine?, hline]
  | some line =>
    rw [isInstr_eq hline, sourceLine?_eq hline]
    cases hin : inText lines k <;> cases hinstr : instr? line <;>
      cases hlabel : label? line <;> simp

/-- The lines that define `name` are the positions of source lines with this label. -/
theorem defines_eq_sourceLine? (lines : List Text) (name : Text) (k : Nat) :
    defines lines name k = ((sourceLine? lines k).bind (·.label) == some name) := by
  cases hline : lines[k]? with
  | none => simp [defines, sourceLine?, hline]
  | some line =>
    rw [defines, hline, sourceLine?_eq hline]
    cases hin : inText lines k <;> cases hinstr : instr? line <;> cases hlabel : label? line <;>
      simp [hlabel]

end Positions

/-! ## The first pass, line by line -/

/-- The state `s` of reading when the lines before position `k` have been read. -/
structure Scan.Reads (s : Scan) (lines : List Text) (k : Nat) : Prop where
  lineNo : s.lineNo = k
  inText : s.inText = Asm.inText lines k
  pc : s.pc = instrsBefore lines k
  lines : s.lines.toList = (List.range k).filterMap (sourceLine? lines)
  code : ∀ src ∈ s.lines.toList, Statement.ofLine src.text = .code src.label src.instr

namespace Scan

section Reading

variable {s s' : Scan} {lines : List Text} {k : Nat} {line : Text}

/-- What the next state `s'` has to be when one more line has been read. -/
theorem Reads.succ (h : s.Reads lines k) (hline : lines[k]? = some line)
    (hlineNo : s'.lineNo = s.lineNo + 1) (hinText : s'.inText = (section? line).getD s.inText)
    (hpc : s'.pc = s.pc + if isInstr lines k then 1 else 0)
    (hlines : s'.lines.toList = s.lines.toList ++ (sourceLine? lines k).toList)
    (hcode : ∀ src, sourceLine? lines k = some src →
      Statement.ofLine src.text = .code src.label src.instr) :
    s'.Reads lines (k + 1) where
  lineNo := by rw [hlineNo, h.lineNo]
  inText := by rw [hinText, h.inText, inText_succ hline]
  pc := by rw [hpc, h.pc, instrsBefore_succ]
  lines := by
    rw [hlines, h.lines, List.range_succ, List.filterMap_append]
    cases hsource : sourceLine? lines k <;> simp [hsource]
  code := by
    intro src hsrc
    rw [hlines, List.mem_append, Option.mem_toList] at hsrc
    rcases hsrc with hsrc | hsrc
    · exact h.code src hsrc
    · exact hcode src hsrc

/-- A line from which nothing is taken changes `inText` at most. -/
theorem Reads.succ_of_nothing (h : s.Reads lines k) (hline : lines[k]? = some line)
    (hnothing : Asm.inText lines k = false ∨ label? line = none ∧ instr? line = none)
    (hlineNo : s'.lineNo = s.lineNo + 1) (hinText : s'.inText = (section? line).getD s.inText)
    (hpc : s'.pc = s.pc) (hlines : s'.lines = s.lines) : s'.Reads lines (k + 1) := by
  have hinstr : isInstr lines k = false := by
    rw [isInstr_eq hline]
    rcases hnothing with hout | ⟨-, hinstr⟩
    · rw [hout, Bool.false_and]
    · rw [hinstr, Option.isSome_none, Bool.and_false]
  have hsource : sourceLine? lines k = none := by
    rw [sourceLine?_eq hline]
    rcases hnothing with hout | ⟨hlabel, hinstr⟩
    · simp [hout]
    · simp [hlabel, hinstr]
  refine h.succ hline hlineNo hinText ?_ ?_ ?_
  · rw [hpc, hinstr, if_neg Bool.false_ne_true, Nat.add_zero]
  · rw [hlines, hsource, Option.toList_none, List.append_nil]
  · rw [hsource]
    exact fun _ h => nomatch h

theorem Reads.outside (h : s.Reads lines k) (hin : ¬s.inText = true) :
    Asm.inText lines k = false := by
  rw [← h.inText, Bool.eq_false_of_not_eq_true hin]

/-- A reading that has not ended takes one more line into account. -/
theorem step_of_going (hstart : s.fault = none) (line : Text) :
    s.step line =
      accept { s with lineNo := s.lineNo + 1, text := Text.trim line }
        (Statement.ofLine (Text.trim line)) := by
  rw [Scan.step, hstart, Option.isSome_none, if_neg Bool.false_ne_true]

/-- A line with a label or an instruction becomes a source line, in a text section. -/
theorem step_of_code {label : Option Text} {instr : Option SourceInstr} (hstart : s.fault = none)
    (hin : s.inText = true) (hline : Statement.ofLine (Text.trim line) = .code label instr) :
    s.step line =
      { s with
        lineNo := s.lineNo + 1
        text := Text.trim line
        pc := if instr.isSome then s.pc + 1 else s.pc
        lines := s.lines.push ⟨s.lineNo + 1, Text.trim line, label, instr, s.pc⟩ } := by
  rw [step_of_going hstart, hline, accept, if_pos hin]

/-- One more line is read, if it does not end the reading. -/
theorem Reads.step (h : s.Reads lines k) (hstart : s.fault = none) (hline : lines[k]? = some line)
    (hfault : (s.step (Input.dropReturn line)).fault = none) :
    (s.step (Input.dropReturn line)).Reads lines (k + 1) := by
  rw [step_of_going hstart] at hfault ⊢
  -- The statement is split as the line is, so that each case knows what the line holds.
  have hsays := says_ofLine line
  generalize hstatement : Statement.ofLine (Text.trim (Input.dropReturn line)) = statement
    at hsays hfault ⊢
  cases hsays with
  | blank hlabel hinstr hsection =>
    exact h.succ_of_nothing hline (.inr ⟨hlabel, hinstr⟩) rfl (by rw [hsection]; rfl) rfl rfl
  | textSection hsection =>
    exact h.succ_of_nothing hline (.inr (nothing_of_section hsection)) rfl (by rw [hsection]; rfl)
      rfl rfl
  | dataSection hsection =>
    exact h.succ_of_nothing hline (.inr (nothing_of_section hsection)) rfl (by rw [hsection]; rfl)
      rfl rfl
  | code hsection hformed hsome =>
    by_cases hin : s.inText = true
    · have hin' : Asm.inText lines k = true := h.inText.symm.trans hin
      have hsource : sourceLine? lines k =
          some ⟨k + 1, Text.trim (Input.dropReturn line), label? line, instr? line, s.pc⟩ := by
        rw [sourceLine?_eq hline, if_pos (by simpa [hin'] using hsome), h.pc]
      rw [accept, if_pos hin]
      refine h.succ hline rfl (by rw [hsection]; rfl) ?_ ?_ ?_
      · rw [isInstr_eq hline, hin', Bool.true_and]
        dsimp only
        split <;> rfl
      · rw [hsource, Array.toList_push, h.lineNo, Option.toList_some]
      · rintro src hsrc
        rw [hsource] at hsrc
        cases hsrc
        dsimp only
        rw [hstatement]
    · rw [accept, if_neg hin]
      exact h.succ_of_nothing hline (.inl (h.outside hin)) rfl (by rw [hsection]; rfl) rfl rfl
  | malformed hsection hformed =>
    -- In a text section, a malformed line would have ended the reading.
    by_cases hin : s.inText = true
    · rw [accept, if_pos hin] at hfault
      cases hfault
    · rw [accept, if_neg hin]
      exact h.succ_of_nothing hline (.inl (h.outside hin)) rfl (by rw [hsection]; rfl) rfl rfl

end Reading

/-- The state of reading when the lines before position `k` have been stepped through. -/
def upTo (lines : List Text) (k : Nat) : Scan :=
  (lines.take k).foldl (fun s line => step s (Input.dropReturn line)) {}

theorem upTo_succ {lines : List Text} {k : Nat} {line : Text} (hline : lines[k]? = some line) :
    upTo lines (k + 1) = (upTo lines k).step (Input.dropReturn line) := by
  rw [upTo, List.take_add_one, hline, Option.toList_some, List.foldl_append, List.foldl_cons,
    List.foldl_nil, upTo]

/-- **Reading up to position `k` takes what the lines before `k` hold.** -/
theorem reads_upTo {lines : List Text} {k : Nat} (hk : k ≤ lines.length)
    (hfault : (upTo lines k).fault = none) : (upTo lines k).Reads lines k := by
  induction k with
  | zero => exact ⟨rfl, rfl, rfl, rfl, fun _ h => nomatch h⟩
  | succ k ih =>
    have hline : lines[k]? = some lines[k] := List.getElem?_eq_getElem hk
    rw [upTo_succ hline] at hfault ⊢
    -- A reading that has ended does not go on.
    have hstart : (upTo lines k).fault = none := by
      by_contra hended
      rw [Scan.step, if_pos (Option.isSome_iff_ne_none.mpr hended)] at hfault
      exact hended hfault
    exact (ih (Nat.le_of_succ_le hk) hstart).step hstart hline hfault

/-- A source is read up to the end of its lines that are `fitting`. -/
theorem foldl_step_lines (input : Input) :
    input.lines.foldl step {} =
      upTo (Input.fitting input.bytes) (Input.fitting input.bytes).length := by
  rw [Input.lines, List.foldl_map, upTo, List.take_length]

/-- **Reading a source to its end takes what its lines hold**, and all its lines fit. -/
theorem reads_ofInput {input : Input} (h : (ofInput input).fault = none) :
    (ofInput input).Reads (Input.segments input.bytes) (Input.segments input.bytes).length ∧
      ∀ line ∈ Input.segments input.bytes, Input.IsSegment line := by
  unfold ofInput at h ⊢
  dsimp only at h ⊢
  split at h
  · rename_i hsome
    rw [h] at hsome
    cases hsome
  · rename_i hnone
    have hread : input.fault? = none := Option.map_eq_none_iff.mp h
    have hfitting := Input.fitting_eq_segments hread
    rw [if_neg hnone]
    rw [foldl_step_lines, hfitting] at hnone ⊢
    have hreads := reads_upTo (Nat.le_refl _) (Option.not_isSome_iff_eq_none.mp hnone)
    refine ⟨⟨hreads.lineNo, hreads.inText, hreads.pc, hreads.lines, hreads.code⟩,
      fun line hline => ?_⟩
    exact Input.isSegment_of_mem_fitting (hfitting ▸ hline)

end Scan

/-! ## Labels -/

/-- The labels that the lines before position `k` define. -/
def labelsBefore (lines : List Text) (k : Nat) : Labels :=
  Labels.ofLines ((List.range k).filterMap (sourceLine? lines))

/-- A line that defines `name` replaces the value that the label had. -/
theorem get?_labelsBefore_succ (lines : List Text) (k : Nat) (name : Text) :
    (labelsBefore lines (k + 1)).get? name =
      if defines lines name k then some (instrsBefore lines k : Int)
      else (labelsBefore lines k).get? name := by
  rw [labelsBefore, List.range_succ, List.filterMap_append, defines_eq_sourceLine?]
  cases hsource : sourceLine? lines k with
  | none => simp [hsource, labelsBefore]
  | some src =>
    obtain ⟨line, -, -, hsrc⟩ := sourceLine?_eq_some hsource
    have hpc : src.pc = instrsBefore lines k := congrArg SourceLine.pc hsrc
    rw [List.filterMap_cons_some hsource, List.filterMap_nil, ofLines_concat, Option.bind_some]
    cases hlabel : src.label with
    | none => rfl
    | some l =>
      by_cases heq : l = name
      · rw [heq, if_pos (beq_self_eq_true _), ← hpc]
        exact Table.get?_insert_self _ _ _
      · rw [if_neg (by simpa using heq)]
        exact Table.get?_insert_of_ne _ _ (Ne.symm heq)

/-- **A label stands for the number of instructions before the last line `j` that defines it.** -/
theorem get?_labelsBefore_iff {lines : List Text} {k : Nat} {name : Text} {v : Int} :
    (labelsBefore lines k).get? name = some v ↔
      ∃ j < k, defines lines name j = true ∧ (∀ i < k, j < i → defines lines name i = false) ∧
        v = instrsBefore lines j := by
  induction k with
  | zero =>
    constructor
    · intro h
      cases h
    · rintro ⟨j, hj, -⟩
      cases hj
  | succ k ih =>
    rw [get?_labelsBefore_succ]
    by_cases hdefines : defines lines name k = true
    · rw [if_pos hdefines, Option.some.injEq]
      constructor
      · rintro rfl
        exact ⟨k, Nat.lt_succ_self k, hdefines, fun i hi hlt => by omega, rfl⟩
      · rintro ⟨j, hj, -, hlast, rfl⟩
        -- An earlier line is not the last one that defines the label.
        obtain rfl : j = k := by
          by_contra hne
          have hfalse := hlast k (Nat.lt_succ_self k) (by omega)
          rw [hdefines] at hfalse
          cases hfalse
        rfl
    · rw [if_neg hdefines, ih]
      have hfalse := Bool.eq_false_of_not_eq_true hdefines
      constructor
      · rintro ⟨j, hj, hj', hlast, rfl⟩
        refine ⟨j, Nat.lt_succ_of_lt hj, hj', fun i hi hlt => ?_, rfl⟩
        rcases Nat.lt_succ_iff_lt_or_eq.mp hi with hi | rfl
        · exact hlast i hi hlt
        · exact hfalse
      · rintro ⟨j, hj, hj', hlast, rfl⟩
        have hne : j ≠ k := fun heq => hdefines (heq ▸ hj')
        exact ⟨j, by omega, hj', fun i hi => hlast i (Nat.lt_succ_of_lt hi), rfl⟩

/-- The labels are the names that some line before `k` defines. -/
theorem isSome_get?_labelsBefore {lines : List Text} {k : Nat} {name : Text} :
    ((labelsBefore lines k).get? name).isSome = true ↔ ∃ j < k, defines lines name j = true := by
  induction k with
  | zero =>
    constructor
    · intro h
      cases h
    · rintro ⟨j, hj, -⟩
      cases hj
  | succ k ih =>
    rw [get?_labelsBefore_succ]
    by_cases hdefines : defines lines name k = true
    · rw [if_pos hdefines]
      exact ⟨fun _ => ⟨k, Nat.lt_succ_self k, hdefines⟩, fun _ => rfl⟩
    · rw [if_neg hdefines, ih]
      constructor
      · rintro ⟨j, hj, hj'⟩
        exact ⟨j, Nat.lt_succ_of_lt hj, hj'⟩
      · rintro ⟨j, hj, hj'⟩
        have hne : j ≠ k := fun heq => hdefines (heq ▸ hj')
        exact ⟨j, by omega, hj'⟩

/-- Only a position of the source defines a label. -/
theorem lt_length_of_defines {lines : List Text} {name : Text} {k : Nat}
    (h : defines lines name k = true) : k < lines.length := by
  by_contra hk
  rw [defines, List.getElem?_eq_none (Nat.le_of_not_lt hk), Option.bind_none, Bool.and_eq_true] at h
  exact nomatch h.2

end WordMachine.Asm

namespace WordMachine

open Asm

/-! ## Programs -/

/-- What the `lines` of a source say about its program `p`. -/
structure Program.PlacedBy (p : Program) (lines : List Text) : Prop where
  /-- Entries are numbered from zero. -/
  pc : ∀ (i : Nat) (hi : i < p.entries.size), p.entries[i].pc = i
  /-- Entries come in the order of their lines. -/
  increasing : (p.entries.toList.map (·.lineNo)).Pairwise (· < ·)
  /-- An entry has the words of its line: those that are read if the line stands alone. -/
  words : ∀ e ∈ p.entries, ∃ (k : Nat) (line : Text) (i : SourceInstr),
    e.lineNo = k + 1 ∧ lines[k]? = some line ∧
    instr? line = some i ∧ e.words = i.words ∧
    (Scan.ofInput (alone line)).fault = none ∧
    (Scan.ofInput (alone line)).lines.toList.map (·.words) = [e.words]
  /-- Each instruction line in a text section has one entry, and no other line has one. -/
  lineNos : p.entries.toList.map (·.lineNo) =
    ((List.range lines.length).filter (isInstr lines)).map fun k : Nat => (k : Int) + 1
  /-- The labels are the names that some line in a text section `defines`. -/
  defined : ∀ name, (p.labels.get? name).isSome = true ↔ ∃ k, defines lines name k = true
  /-- A label stands for the number of instruction lines before the last line that defines it. -/
  value : ∀ name k, defines lines name k = true → (∀ j, k < j → defines lines name j = false) →
    p.labels.get? name = some (instrsBefore lines k : Int)
  /-- A label stands for an entry, or for the end of the program. -/
  bounded : ∀ name v, p.labels.get? name = some v → 0 ≤ v ∧ v ≤ p.entries.size

namespace Assembler

/-- Source lines that `q` picks have the numbers of the positions that `r` picks. -/
theorem map_lineNo_filter (lines : List Text) {q : SourceLine → Bool} {r : Nat → Bool}
    (hqr : ∀ k, r k = (sourceLine? lines k).any q) (ks : List Nat) :
    ((ks.filterMap (sourceLine? lines)).filter q).map (·.lineNo) = (ks.filter r).map (· + 1) := by
  induction ks with
  | nil => rfl
  | cons k ks ih =>
    have hk := hqr k
    cases hsource : sourceLine? lines k with
    | none =>
      rw [hsource, Option.any_none] at hk
      rw [List.filterMap_cons_none hsource, List.filter_cons_of_neg (by simp [hk]), ih]
    | some src =>
      obtain ⟨line, -, -, hsrc⟩ := sourceLine?_eq_some hsource
      have hlineNo : src.lineNo = k + 1 := congrArg SourceLine.lineNo hsrc
      rw [hsource, Option.any_some] at hk
      rw [List.filterMap_cons_some hsource, List.filter_cons, List.filter_cons, hk]
      split
      · rw [List.map_cons, List.map_cons, ih, hlineNo]
      · exact ih

/-- The source lines with an instruction have the numbers of the instruction lines. -/
theorem map_lineNo_instrs (lines : List Text) (ks : List Nat) :
    ((ks.filterMap (sourceLine? lines)).filter (·.instr.isSome)).map
        (fun src => (src.lineNo : Int)) =
      (ks.filter (isInstr lines)).map fun k : Nat => (k : Int) + 1 := by
  have hinstrs : ∀ k, isInstr lines k = (sourceLine? lines k).any (·.instr.isSome) := by
    intro k
    rw [isInstr_eq_sourceLine?]
    rcases sourceLine? lines k with _ | src
    · rfl
    · rfl
  have hnumbers := congrArg (List.map Int.ofNat) (map_lineNo_filter lines hinstrs ks)
  rw [List.map_map, List.map_map] at hnumbers
  exact hnumbers

/-- **The lines of a source account for its program `p`**, its entries and its labels. -/
theorem parse_placedBy (asm : Assembler) (input : Input) (p : Program)
    (h : (asm.parse input).result = .ok p) : p.PlacedBy (Input.segments input.bytes) := by
  have hassembled := assembled_of_parse h
  obtain ⟨hreads, hsegments⟩ := Scan.reads_ofInput (fault_of_parse h)
  generalize Input.segments input.bytes = lines at hreads hsegments
  have hlabels : p.labels = labelsBefore lines lines.length := by
    rw [hassembled.labels, hreads.lines, labelsBefore]
  have hpcs := hassembled.map_pc_entries (Scan.numbered_ofInput input)
  have hsize : p.entries.size = instrsBefore lines lines.length := by
    rw [hassembled.size_entries (Scan.numbered_ofInput input), hreads.pc]
  have hlineNos : p.entries.toList.map (·.lineNo) =
      ((List.range lines.length).filter (isInstr lines)).map fun k : Nat => (k : Int) + 1 := by
    rw [hassembled.entries, ← map_lineNo_instrs, ← hreads.lines]
    exact map_entries_of_good (fun _ _ _ _ => rfl) hassembled.good
  refine ⟨?_, ?_, ?_, hlineNos, ?_, ?_, ?_⟩
  · intro i hi
    have hi' : i < (Scan.ofInput input).pc := by
      rwa [hsize, ← hreads.pc] at hi
    have hpc := congrArg (·[i]?) hpcs
    simpa [hi, hi'] using hpc
  · rw [hlineNos, List.pairwise_map]
    refine (List.pairwise_lt_range.filter _).imp fun hlt => ?_
    omega
  · intro e he
    -- The entry comes from a source line, and the source line from a line of the source.
    obtain ⟨src, hsrc, i, encoding, hinstr, -, rfl⟩ := hassembled.exists_line_of_mem he
    have hcode := hreads.code src hsrc
    rw [hreads.lines] at hsrc
    obtain ⟨k, -, hsource⟩ := List.mem_filterMap.mp hsrc
    obtain ⟨line, hline, -, rfl⟩ := sourceLine?_eq_some hsource
    dsimp only at hcode hinstr
    rw [hinstr] at hcode
    have halone := Scan.words_alone (hsegments line (List.mem_of_getElem? hline)) hcode
    exact ⟨k, line, i, Nat.cast_succ k, hline, hinstr, rfl, halone⟩
  · intro name
    rw [hlabels, isSome_get?_labelsBefore]
    constructor
    · rintro ⟨k, -, hk⟩
      exact ⟨k, hk⟩
    · rintro ⟨k, hk⟩
      exact ⟨k, lt_length_of_defines hk, hk⟩
  · intro name k hk hlast
    rw [hlabels, get?_labelsBefore_iff]
    exact ⟨k, lt_length_of_defines hk, hk, fun j _ hj => hlast j hj, rfl⟩
  · intro name v hv
    rw [hlabels, get?_labelsBefore_iff] at hv
    obtain ⟨k, hk, -, -, rfl⟩ := hv
    have hle := instrsBefore_mono lines (Nat.le_of_lt hk)
    omega

set_option maxRecDepth 10000 in
/-- A label that is defined again on a line of its own, lines of a data section, which define
nothing, and a label after the last instruction. -/
theorem parse_placedBy_redefined :
    ∃ p, ((({} : Assembler).parse
        ⟨".text\na: add $1, $2, $3 # b: c\n.data\nd: jr $1\n.text 1\na :\n  SUB $1,, $2 $3\nend:",
          none⟩).result = .ok p ∧
      (p.entries.toList.map (fun e => (e.lineNo, e.words)), p.labels) =
        (([(2, ["add", "$1", "$2", "$3"]), (7, ["sub", "$1", "$2", "$3"])] :
            List (Int × List Text)),
          (⟨[("end", 2), ("a", 1)]⟩ : Labels))) ∧
      p.PlacedBy [".text", "a: add $1, $2, $3 # b: c", ".data", "d: jr $1", ".text 1", "a :",
        "  SUB $1,, $2 $3", "end:"] := by
  refine Exists.imp (fun p hp => ⟨hp, ?_⟩) (exists_ok_of_toOption_map (by decide +kernel))
  have hplaced := parse_placedBy {} _ p hp.1
  have hlines : Input.segments
      ".text\na: add $1, $2, $3 # b: c\n.data\nd: jr $1\n.text 1\na :\n  SUB $1,, $2 $3\nend:" =
      ([".text", "a: add $1, $2, $3 # b: c", ".data", "d: jr $1", ".text 1", "a :",
        "  SUB $1,, $2 $3", "end:"] : List Text) := by
    decide +kernel
  rwa [hlines] at hplaced

end Assembler

end WordMachine
