import WordMachine.Proofs.Placement
import Mathlib.Data.List.Forall2

/-!
# Reading on

Reading goes on from the state that the lines before have led to. Two readings that go on over lines
of the same content, from the same section, keep the distance that they had in lines and in
instructions: they find the same labels and instructions, each at that distance
(`Scan.Ahead.readOn`). So what a change of a source does to its source lines is known when it is
known what it does at the place of the change; `Scan.passed_data` says it for the lines of a data
section.
-/

namespace WordMachine

/-! ## Sources by their lines -/

/-- The `lines` of a source: what stands between the line feeds of an input that does not fail. -/
structure Input.HasLines (input : Input) (lines : List Text) : Prop where
  segments : Input.segments input.bytes = lines
  ends : input.failure = none

/-- Lines that `unlines` ends by line feeds make up a source. -/
theorem Input.hasLines_unlines {lines : List Text} (h : ∀ line ∈ lines, Text.byte '\n' ∉ line) :
    HasLines ⟨unlines lines, none⟩ lines :=
  ⟨segments_unlines h, rfl⟩

/-- A source is read to its end if all its lines are shorter than `maxLineLength`. -/
theorem Input.HasLines.fault? {input : Input} {lines : List Text} (h : input.HasLines lines)
    (hfits : ∀ line ∈ lines, line.length < maxLineLength) : input.fault? = none := by
  rw [← h.segments] at hfits
  exact fault?_of_fits h.ends hfits

namespace Asm

namespace Scan

/-- Reads on over `lines` from the state `s`. -/
def readOn (s : Scan) (lines : List Text) : Scan :=
  lines.foldl (fun s line => s.step (Input.dropReturn line)) s

theorem readOn_cons (s : Scan) (line : Text) (lines : List Text) :
    s.readOn (line :: lines) = (s.step (Input.dropReturn line)).readOn lines := rfl

theorem readOn_append (s : Scan) (before after : List Text) :
    s.readOn (before ++ after) = (s.readOn before).readOn after :=
  List.foldl_append

/-- A reading that has ended does not go on. -/
theorem readOn_of_ended {s : Scan} (h : s.fault.isSome = true) (lines : List Text) :
    s.readOn lines = s := by
  induction lines with
  | nil => rfl
  | cons line lines ih => rw [readOn_cons, step, if_pos h, ih]

/-- A reading that goes on to the end has not ended before. -/
theorem fault_of_readOn {s : Scan} {lines : List Text} (h : (s.readOn lines).fault = none) :
    s.fault = none := by
  by_contra hended
  rw [readOn_of_ended (Option.isSome_iff_ne_none.mpr hended)] at h
  exact hended h

/-- A source is read from its first line to its last one by `readOn`. -/
theorem ofInput_eq_readOn {input : Input} {lines : List Text} (h : input.HasLines lines)
    (hfits : ∀ line ∈ lines, line.length < Input.maxLineLength) :
    ofInput input = readOn {} lines := by
  have hread := h.fault? hfits
  have hlines : input.lines.foldl step {} = readOn {} lines := by
    rw [foldl_step_lines, Input.fitting_eq_segments hread, h.segments, upTo, List.take_length]
    rfl
  rw [ofInput, hlines, hread, Option.map_none]
  generalize readOn {} lines = s
  split
  · rfl
  · rename_i hgoing
    rw [Option.not_isSome_iff_eq_none] at hgoing
    rw [← hgoing]

/-- All lines of a source that is read to its end are shorter than `maxLineLength`. -/
theorem fits_of_going {input : Input} {lines : List Text} (h : input.HasLines lines)
    (hgoing : (ofInput input).fault = none) :
    ∀ line ∈ lines, line.length < Input.maxLineLength := by
  intro line hline
  rw [← h.segments] at hline
  exact ((reads_ofInput hgoing).2 line hline).fits

/-- What is known of a reading after the lines `before`, if it has not ended there. -/
theorem reads_readOn {before : List Text} (h : (readOn {} before).fault = none)
    (after : List Text) :
    (readOn {} before).Reads (before ++ after) before.length := by
  have hupTo : upTo (before ++ after) before.length = readOn {} before := by
    rw [upTo, List.take_left]
    rfl
  rw [← hupTo] at h ⊢
  exact reads_upTo (by simp) h

theorem Reads.lineNo_le {s : Scan} {lines : List Text} {k : Nat} (h : s.Reads lines k) :
    ∀ src ∈ s.lines.toList, src.lineNo ≤ k := by
  intro src hsrc
  rw [h.lines] at hsrc
  obtain ⟨j, hj, hsource⟩ := List.mem_filterMap.mp hsrc
  obtain ⟨line, -, -, rfl⟩ := sourceLine?_eq_some hsource
  exact List.mem_range.mp hj

end Scan

/-! ## Lines from which nothing is taken -/

/-- What a line says is decided by its `content`. -/
theorem ofLine_congr {line line' : Text} (h : content line = content line') :
    Statement.ofLine (Text.trim (Input.dropReturn line)) =
      Statement.ofLine (Text.trim (Input.dropReturn line')) := by
  unfold content at h
  simp only [Statement.ofLine, h]

/-- A line without content is `.blank`. -/
theorem ofLine_of_content_eq_nil {line : Text} (h : content line = []) :
    Statement.ofLine (Text.trim (Input.dropReturn line)) = .blank := by
  unfold content at h
  simp only [Statement.ofLine, h, List.isEmpty_nil, if_true]

/-- A section line is read as such. -/
theorem ofLine_of_section {line : Text} {opens : Bool} (h : section? line = some opens) :
    Statement.ofLine (Text.trim (Input.dropReturn line)) =
      if opens then .textSection else .dataSection := by
  have hsays := says_ofLine line
  generalize Statement.ofLine (Text.trim (Input.dropReturn line)) = statement at hsays
  cases hsays with
  | textSection hsection =>
    obtain rfl := Option.some.inj (hsection.symm.trans h)
    rfl
  | dataSection hsection =>
    obtain rfl := Option.some.inj (hsection.symm.trans h)
    rfl
  | blank _ _ hsection => exact absurd (hsection.symm.trans h) (Option.some_ne_none opens).symm
  | code hsection => exact absurd (hsection.symm.trans h) (Option.some_ne_none opens).symm
  | malformed hsection => exact absurd (hsection.symm.trans h) (Option.some_ne_none opens).symm

namespace Scan

/-- A reading `t` that has passed over `k` lines, and is otherwise where `s` was. -/
structure Passed (k : Nat) (s t : Scan) : Prop where
  lineNo : t.lineNo = s.lineNo + k
  inText : t.inText = s.inText
  pc : t.pc = s.pc
  lines : t.lines = s.lines
  fault : t.fault = s.fault

section Passing

variable {s t u : Scan} {line : Text}

theorem Passed.trans {j k : Nat} (h : s.Passed j t) (h' : t.Passed k u) : s.Passed (j + k) u where
  lineNo := by rw [h'.lineNo, h.lineNo, Nat.add_assoc]
  inText := h'.inText.trans h.inText
  pc := h'.pc.trans h.pc
  lines := h'.lines.trans h.lines
  fault := h'.fault.trans h.fault

/-- A line without content is passed over. -/
theorem passed_of_content_eq_nil (hgoing : s.fault = none) (h : content line = []) :
    s.Passed 1 (s.step (Input.dropReturn line)) := by
  rw [step_of_going hgoing, ofLine_of_content_eq_nil h]
  exact ⟨rfl, rfl, rfl, rfl, rfl⟩

/-- Outside of text sections, all lines that open no section are passed over. -/
theorem passed_of_section_eq_none (hgoing : s.fault = none) (hin : s.inText = false)
    (h : section? line = none) : s.Passed 1 (s.step (Input.dropReturn line)) := by
  rw [step_of_going hgoing]
  have hsays := says_ofLine line
  generalize Statement.ofLine (Text.trim (Input.dropReturn line)) = statement at hsays
  cases hsays with
  | blank => exact ⟨rfl, rfl, rfl, rfl, rfl⟩
  | textSection hsection => exact absurd (h.symm.trans hsection) (Option.some_ne_none true).symm
  | dataSection hsection => exact absurd (h.symm.trans hsection) (Option.some_ne_none false).symm
  | code =>
    rw [accept, if_neg (by rw [hin]; exact Bool.false_ne_true)]
    exact ⟨rfl, rfl, rfl, rfl, rfl⟩
  | malformed =>
    rw [accept, if_neg (by rw [hin]; exact Bool.false_ne_true)]
    exact ⟨rfl, rfl, rfl, rfl, rfl⟩

theorem passed_readOn (hgoing : s.fault = none) (hin : s.inText = false) {lines : List Text}
    (h : ∀ line ∈ lines, section? line = none) : s.Passed lines.length (s.readOn lines) := by
  induction lines generalizing s with
  | nil => exact ⟨rfl, rfl, rfl, rfl, rfl⟩
  | cons line lines ih =>
    have hfirst := passed_of_section_eq_none hgoing hin (h line List.mem_cons_self)
    have hrest := ih (hfirst.fault.trans hgoing) (hfirst.inText.trans hin)
      fun other hother => h other (List.mem_cons_of_mem line hother)
    have hall := hfirst.trans hrest
    rwa [Nat.add_comm] at hall

/-- A section line changes the section. -/
theorem step_section (hgoing : s.fault = none) {opens : Bool} (h : section? line = some opens) :
    s.step (Input.dropReturn line) =
      { s with lineNo := s.lineNo + 1
               text := Text.trim (Input.dropReturn line)
               inText := opens } := by
  rw [step_of_going hgoing, ofLine_of_section h]
  cases opens with
  | true => rfl
  | false => rfl

/-- **A data section inside a text section is passed over**, with the lines that open and close
it. -/
theorem passed_data (hgoing : s.fault = none) (hin : s.inText = true) {opening closing : Text}
    {lines : List Text} (hopening : section? opening = some false)
    (hlines : ∀ line ∈ lines, section? line = none) (hclosing : section? closing = some true) :
    s.Passed (lines.length + 2) (s.readOn (opening :: lines ++ [closing])) := by
  have hpassed := passed_readOn
    (s := { s with lineNo := s.lineNo + 1
                   text := Text.trim (Input.dropReturn opening)
                   inText := false })
    hgoing rfl hlines
  have hclose := step_section (hpassed.fault.trans hgoing) hclosing
  rw [List.cons_append, readOn_cons, readOn_append, step_section hgoing hopening]
  show s.Passed _ (Scan.step _ (Input.dropReturn closing))
  rw [hclose]
  refine ⟨?_, hin.symm, hpassed.pc, hpassed.lines, hpassed.fault⟩
  show (readOn _ lines).lineNo + 1 = s.lineNo + (lines.length + 2)
  rw [hpassed.lineNo]
  show s.lineNo + 1 + lines.length + 1 = s.lineNo + (lines.length + 2)
  omega

end Passing

end Scan

/-! ## Readings side by side -/

/-- The source line `m` lines and `d` instructions further on; its text may be another one. -/
structure SourceLine.Moved (m d : Nat) (line line' : SourceLine) : Prop where
  lineNo : line'.lineNo = line.lineNo + m
  label : line'.label = line.label
  instr : line'.instr = line.instr
  pc : line'.pc = line.pc + d

namespace Scan

/-- A reading that is `m` lines and `d` instructions ahead of another one, in the same section. -/
structure Ahead (m d : Nat) (s s' : Scan) : Prop where
  lineNo : s'.lineNo = s.lineNo + m
  inText : s'.inText = s.inText
  pc : s'.pc = s.pc + d
  fault : s'.fault = s.fault

/-- Two readings that have gone on, one from `s` to `t` and one from `s'` to `t'`, and have found
the same labels and instructions. -/
structure InStep (m d : Nat) (s s' t t' : Scan) : Prop where
  ahead : Ahead m d t t'
  later : s.lineNo ≤ t.lineNo
  lines : ∃ new new', t.lines.toList = s.lines.toList ++ new ∧
    t'.lines.toList = s'.lines.toList ++ new' ∧
    List.Forall₂ (SourceLine.Moved m d) new new' ∧ ∀ src ∈ new, s.lineNo < src.lineNo

section Readings

variable {m d : Nat} {s s' t t' u u' : Scan} {line line' : Text}

/-- A reading that has passed over `m` lines is ahead by these lines. -/
theorem Passed.ahead (h : s.Passed m t) : Ahead m 0 s t :=
  ⟨h.lineNo, h.inText, h.pc, h.fault⟩

theorem InStep.of_nothing (h : Ahead m d t t') (hlater : s.lineNo ≤ t.lineNo)
    (hlines : t.lines = s.lines) (hlines' : t'.lines = s'.lines) : InStep m d s s' t t' where
  ahead := h
  later := hlater
  lines :=
    ⟨[], [], by rw [hlines, List.append_nil], by rw [hlines', List.append_nil], .nil, by simp⟩

theorem InStep.trans (h : InStep m d s s' t t') (h' : InStep m d t t' u u') :
    InStep m d s s' u u' where
  ahead := h'.ahead
  later := h.later.trans h'.later
  lines := by
    obtain ⟨new, new', hnew, hnew', hmoved, hlater⟩ := h.lines
    obtain ⟨more, more', hmore, hmore', hmoved', hlater'⟩ := h'.lines
    refine ⟨new ++ more, new' ++ more', ?_, ?_, List.rel_append hmoved hmoved', ?_⟩
    · rw [hmore, hnew, List.append_assoc]
    · rw [hmore', hnew', List.append_assoc]
    · intro src hsrc
      rcases List.mem_append.mp hsrc with hsrc | hsrc
      · exact hlater src hsrc
      · exact h.later.trans_lt (hlater' src hsrc)

/-- The same `statement`, on lines at the distance of the readings. -/
theorem Ahead.accept (h : Ahead m d s s') (text text' : Text) (statement : Statement) :
    InStep m d s s'
      (Scan.accept { s with lineNo := s.lineNo + 1, text := text } statement)
      (Scan.accept { s' with lineNo := s'.lineNo + 1, text := text' } statement) := by
  have hlineNo : s'.lineNo + 1 = s.lineNo + 1 + m := by
    rw [h.lineNo]
    omega
  have hlater : s.lineNo ≤ s.lineNo + 1 := Nat.le_succ _
  cases statement with
  | blank => exact .of_nothing ⟨hlineNo, h.inText, h.pc, h.fault⟩ hlater rfl rfl
  | textSection => exact .of_nothing ⟨hlineNo, rfl, h.pc, h.fault⟩ hlater rfl rfl
  | dataSection => exact .of_nothing ⟨hlineNo, rfl, h.pc, h.fault⟩ hlater rfl rfl
  | malformed fault =>
    simp only [Scan.accept, h.inText]
    split
    · exact .of_nothing ⟨hlineNo, rfl, h.pc, rfl⟩ hlater rfl rfl
    · exact .of_nothing ⟨hlineNo, rfl, h.pc, h.fault⟩ hlater rfl rfl
  | code label instr =>
    simp only [Scan.accept, h.inText]
    split
    · refine ⟨⟨hlineNo, rfl, ?_, h.fault⟩, hlater, ?_⟩
      · show (if instr.isSome then s'.pc + 1 else s'.pc) =
          (if instr.isSome then s.pc + 1 else s.pc) + d
        rw [h.pc]
        split
        · omega
        · rfl
      · refine ⟨_, _, Array.toList_push, Array.toList_push, .cons ⟨hlineNo, rfl, rfl, h.pc⟩ .nil,
          ?_⟩
        intro src hsrc
        rw [List.mem_singleton.mp hsrc]
        exact Nat.lt_succ_self _
    · exact .of_nothing ⟨hlineNo, rfl, h.pc, h.fault⟩ hlater rfl rfl

/-- One more line of the same `content`. -/
theorem Ahead.step (h : Ahead m d s s') (hcontent : content line = content line') :
    InStep m d s s' (s.step (Input.dropReturn line)) (s'.step (Input.dropReturn line')) := by
  by_cases hended : s.fault.isSome = true
  · rw [Scan.step, Scan.step, h.fault, if_pos hended, if_pos hended]
    exact .of_nothing h (Nat.le_refl _) rfl rfl
  · have hgoing : s.fault = none := Option.not_isSome_iff_eq_none.mp hended
    rw [step_of_going hgoing, step_of_going (h.fault.trans hgoing), ofLine_congr hcontent]
    exact h.accept _ _ _

/-- **Two readings keep their distance over lines of the same `content`.** -/
theorem Ahead.readOn {lines lines' : List Text} (h : Ahead m d s s')
    (hlines : List.Forall₂ (fun line line' => content line = content line') lines lines') :
    InStep m d s s' (s.readOn lines) (s'.readOn lines') := by
  induction hlines generalizing s s' with
  | nil => exact .of_nothing h (Nat.le_refl _) rfl rfl
  | cons hcontent _ ih =>
    have hfirst := h.step hcontent
    exact hfirst.trans (ih hfirst.ahead)

/-- Two readings keep their distance over the same lines. -/
theorem Ahead.readOn_same (h : Ahead m d s s') (lines : List Text) :
    InStep m d s s' (s.readOn lines) (s'.readOn lines) :=
  h.readOn (List.forall₂_same.mpr fun _ _ => rfl)

end Readings

end Scan

end Asm

end WordMachine
