import WordMachine.Proofs.Placement

/-!
# Strict assembly

The one instruction without an encoding, `andi`, is a warning for a lenient assembler, which puts a
zero word in its place, and an error for a strict one. All other instructions are the same to both
(`Assembler.warns_or_agrees`). So a strict assembler stops at the first warning of a lenient one,
and agrees with it if there is none: `Assembler.parse_strict`.
-/

namespace WordMachine.Asm

/-! ## Single instructions -/

/-- Is it `andi`, the instruction without an encoding? -/
def SourceInstr.isAndi (i : SourceInstr) : Bool :=
  i.mnemonic == Mnemonic.andi.name

/-- Does the line hold the instruction without an encoding? -/
def SourceLine.isAndi (line : SourceLine) : Bool :=
  line.instr.any (·.isAndi)

/-- The fault is that `andi` is not supported, with some `advice`. -/
def IsAdvice (fault : SourceFault) : Prop :=
  ∃ advice, fault = .unsupported Mnemonic.andi.name advice

section Instructions

variable (labels : Labels) (pc : Nat) {i : SourceInstr}

/-- A strict assembler encodes any other instruction as a lenient one does, without a warning. -/
theorem encode_of_not_andi (h : i.isAndi = false) :
    encode true labels pc i = encode false labels pc i ∧
      ∀ e, encode false labels pc i = .ok e → e.warning = none := by
  cases hm : Mnemonic.ofName? i.mnemonic with
  | none =>
    have herror : ∀ strict,
        encode strict labels pc i = .error (.unknownInstruction i.mnemonic) := by
      intro strict
      simp only [encode, hm]
    refine ⟨by rw [herror, herror], fun e he => ?_⟩
    rw [herror] at he
    cases he
  | some m =>
    -- The encoding is the word of an instruction, whatever the assembler.
    obtain ⟨r, hr⟩ : ∃ r : Except SourceFault Instr, ∀ strict, encode strict labels pc i =
        r.map fun instr => ⟨instr.word, none⟩ := by
      simp only [encode, hm]
      cases m with
      | andi =>
        rw [SourceInstr.isAndi, Mnemonic.name_of_ofName? hm, beq_self_eq_true] at h
        cases h
      | _ => exact ⟨_, fun _ => rfl⟩
    refine ⟨by rw [hr, hr], fun e he => ?_⟩
    rw [hr] at he
    obtain ⟨instr, -, rfl⟩ := map_eq_ok.mp he
    rfl

/-- A lenient assembler gives a zero word and a warning, which is the error of a strict one; with
the wrong number of operands, both give the same error. -/
theorem encode_of_andi (h : i.isAndi = true) :
    (∃ fault, IsAdvice fault ∧ encode false labels pc i = .ok ⟨0, some fault⟩ ∧
        encode true labels pc i = .error fault) ∨
      ∃ fault, ∀ strict, encode strict labels pc i = .error fault := by
  have hm : Mnemonic.ofName? i.mnemonic = some .andi := by
    rw [eq_of_beq h, Mnemonic.ofName?_name]
  have hencode : ∀ strict, encode strict labels pc i = encodeAndi strict i.operands := by
    intro strict
    simp only [encode, hm]
  simp only [hencode]
  generalize i.operands = operands
  unfold encodeAndi
  split
  · exact .inl ⟨_, ⟨_, rfl⟩, rfl, rfl⟩
  · exact .inr ⟨_, fun _ => rfl⟩

end Instructions

end WordMachine.Asm

namespace WordMachine.Assembler

open Asm

/-! ## Single lines -/

/-- A line about which a lenient assembler gives the warning `w`, and at which a strict one
fails. -/
structure Warns (labels : Labels) (line : SourceLine) (w : SourceError) : Prop where
  isAndi : line.isAndi = true
  lineNo : w.lineNo = line.lineNo
  advice : IsAdvice w.fault
  good : isGood (encodeLine false labels line) = true
  warning : warning? (encodeLine false labels line) = some w
  bad : isGood (encodeLine true labels line) = false
  error : error? (encodeLine true labels line) = some w

/-- A line that is the same to both assemblers. -/
structure Agrees (labels : Labels) (line : SourceLine) : Prop where
  same : encodeLine true labels line = encodeLine false labels line
  silent : warning? (encodeLine false labels line) = none
  other : isGood (encodeLine false labels line) = true → line.isAndi = false

/-- **A line is warned about, or it is the same to both assemblers.** -/
theorem warns_or_agrees (labels : Labels) (line : SourceLine) :
    (∃ w, Warns labels line w) ∨ Agrees labels line := by
  cases hinstr : line.instr with
  | none =>
    refine .inr ⟨?_, ?_, fun _ => ?_⟩
    · simp only [encodeLine, hinstr]
    · simp only [encodeLine, hinstr, warning?]
    · rw [SourceLine.isAndi, hinstr, Option.any_none]
  | some i =>
    have hline : line.isAndi = i.isAndi := by
      rw [SourceLine.isAndi, hinstr, Option.any_some]
    have hencoded : ∀ strict, encodeLine strict labels line =
        (line, (encode strict labels line.pc i).map some) := by
      intro strict
      simp only [encodeLine, hinstr]
    by_cases handi : i.isAndi = true
    · rcases encode_of_andi labels line.pc handi with
        ⟨fault, hadvice, hlenient, hstrict⟩ | ⟨fault, h⟩
      · refine .inl
          ⟨⟨line.lineNo, line.text, fault⟩, hline.trans handi, rfl, hadvice, ?_, ?_, ?_, ?_⟩
        all_goals simp only [hencoded, hlenient, hstrict]; rfl
      · refine .inr ⟨?_, ?_, fun hgood => ?_⟩
        · rw [hencoded, hencoded, h, h]
        · simp only [hencoded, h]
          rfl
        · simp only [hencoded, h] at hgood
          cases hgood
    · have hother := Bool.eq_false_of_not_eq_true handi
      obtain ⟨hsame, hsilent⟩ := encode_of_not_andi labels line.pc hother
      refine .inr ⟨?_, ?_, fun _ => hline.trans hother⟩
      · rw [hencoded, hencoded, hsame]
      · rw [hencoded]
        rcases hencode : encode false labels line.pc i with fault | e
        · rfl
        · obtain ⟨code, warning⟩ := e
          obtain rfl : warning = none := hsilent _ hencode
          rfl

/-! ## All lines -/

section Lines

variable (labels : Labels)

/-- The first warning `w` is the first error of the strict assembler. -/
theorem find?_strict_of_warning {lines : List SourceLine} {w : SourceError} {ws : List SourceError}
    (h : ((lines.map (encodeLine false labels)).takeWhile isGood).filterMap warning? = w :: ws) :
    ((lines.map (encodeLine true labels)).find? (!isGood ·)).bind error? = some w ∧
      IsAdvice w.fault := by
  induction lines with
  | nil => cases h
  | cons line lines ih =>
    rw [List.map_cons] at h ⊢
    rcases warns_or_agrees labels line with ⟨w', hwarns⟩ | hagrees
    · rw [List.takeWhile_cons_of_pos hwarns.good, List.filterMap_cons_some hwarns.warning] at h
      obtain ⟨rfl, -⟩ := List.cons.inj h
      rw [List.find?_cons_of_pos (by rw [hwarns.bad]; rfl)]
      exact ⟨hwarns.error, hwarns.advice⟩
    · by_cases hgood : isGood (encodeLine false labels line) = true
      · rw [List.takeWhile_cons_of_pos hgood, List.filterMap_cons_none hagrees.silent] at h
        rw [hagrees.same, List.find?_cons_of_neg (by rw [hgood]; decide)]
        exact ih h
      · rw [List.takeWhile_cons_of_neg hgood] at h
        cases h

/-- Without a warning, both assemblers stop at the same line with the same encodings before it. -/
theorem strict_eq_of_no_warning {lines : List SourceLine}
    (h : ((lines.map (encodeLine false labels)).takeWhile isGood).filterMap warning? = []) :
    (lines.map (encodeLine true labels)).takeWhile isGood =
        (lines.map (encodeLine false labels)).takeWhile isGood ∧
      (lines.map (encodeLine true labels)).find? (!isGood ·) =
        (lines.map (encodeLine false labels)).find? (!isGood ·) := by
  induction lines with
  | nil => exact ⟨rfl, rfl⟩
  | cons line lines ih =>
    rw [List.map_cons] at h
    rw [List.map_cons, List.map_cons]
    rcases warns_or_agrees labels line with ⟨w, hwarns⟩ | hagrees
    · rw [List.takeWhile_cons_of_pos hwarns.good, List.filterMap_cons_some hwarns.warning] at h
      cases h
    · rw [hagrees.same]
      by_cases hgood : isGood (encodeLine false labels line) = true
      · rw [List.takeWhile_cons_of_pos hgood, List.filterMap_cons_none hagrees.silent] at h
        obtain ⟨htake, hfind⟩ := ih h
        rw [List.takeWhile_cons_of_pos hgood, List.takeWhile_cons_of_pos hgood, htake,
          List.find?_cons, List.find?_cons, hgood]
        exact ⟨rfl, hfind⟩
      · rw [List.takeWhile_cons_of_neg hgood, List.takeWhile_cons_of_neg hgood, List.find?_cons,
          List.find?_cons, Bool.eq_false_of_not_eq_true hgood]
        exact ⟨rfl, rfl⟩

/-- There is a warning for each of the `lines` that holds `andi`. -/
theorem map_lineNo_warnings {lines : List SourceLine}
    (hgood : ∀ line ∈ lines, isGood (encodeLine false labels line) = true) :
    ((lines.map (encodeLine false labels)).filterMap warning?).map (·.lineNo) =
      (lines.filter (·.isAndi)).map (·.lineNo) := by
  induction lines with
  | nil => rfl
  | cons line lines ih =>
    have hrest := ih fun other hother => hgood other (List.mem_cons_of_mem line hother)
    rw [List.map_cons]
    rcases warns_or_agrees labels line with ⟨w, hwarns⟩ | hagrees
    · rw [List.filterMap_cons_some hwarns.warning, List.filter_cons_of_pos hwarns.isAndi,
        List.map_cons, List.map_cons, hrest, hwarns.lineNo]
    · have hother := hagrees.other (hgood line List.mem_cons_self)
      rw [List.filterMap_cons_none hagrees.silent, List.filter_cons_of_neg (by rw [hother]; decide),
        hrest]

end Lines

/-- The second pass of the two assemblers. -/
theorem encodeLines_strict (asm : Assembler) (lines : List SourceLine) :
    (∀ w ws, ({ asm with strict := false }.encodeLines lines).assembler.warnings = w :: ws →
      ({ asm with strict := true }.encodeLines lines).result = .error w ∧ IsAdvice w.fault) ∧
    (({ asm with strict := false }.encodeLines lines).assembler.warnings = [] →
      ({ asm with strict := true }.encodeLines lines).result =
        ({ asm with strict := false }.encodeLines lines).result) := by
  constructor
  · intro w ws h
    obtain ⟨herror, hadvice⟩ := find?_strict_of_warning (Labels.ofLines lines) h
    refine ⟨?_, hadvice⟩
    simp only [encodeLines, herror]
  · intro h
    obtain ⟨htake, hfind⟩ := strict_eq_of_no_warning (Labels.ofLines lines) h
    simp only [encodeLines, htake, hfind]

/-! ## Sources -/

/-- Does the line at position `k` stand for `andi`? -/
def isAndiAt (lines : List Text) (k : Nat) : Bool :=
  inText lines k && (lines[k]?.bind instr?).any (·.isAndi)

theorem isAndiAt_eq_sourceLine? (lines : List Text) (k : Nat) :
    isAndiAt lines k = (sourceLine? lines k).any (·.isAndi) := by
  cases hline : lines[k]? with
  | none => simp [isAndiAt, sourceLine?, hline]
  | some line =>
    rw [isAndiAt, hline, sourceLine?_eq hline]
    cases inText lines k <;> cases hinstr : instr? line <;> cases label? line <;>
      simp [SourceLine.isAndi, hinstr]

end WordMachine.Assembler

namespace WordMachine

open Asm

/-- Does the entry `e` stand for `andi`? -/
def Entry.isAndi (e : Entry) : Bool :=
  e.words.head? == some Mnemonic.andi.name

namespace Assembler

/-- The entries of `andi` have the lines that hold it. -/
theorem map_lineNo_isAndi {strict : Bool} {lines : List SourceLine} {p : Program}
    (h : Assembled strict lines p) :
    (p.entries.toList.filter (·.isAndi)).map (·.lineNo) =
      (lines.filter (·.isAndi)).map fun line => (line.lineNo : Int) := by
  have hpairs : p.entries.toList.map (fun e => (e.lineNo, e.isAndi)) =
      (lines.filter (·.instr.isSome)).map fun line => ((line.lineNo : Int), line.isAndi) := by
    rw [h.entries]
    refine map_entries_of_good (fun line i code hinstr => ?_) h.good
    rw [Entry.isAndi, SourceLine.isAndi, hinstr]
    rfl
  have hfilter := congrArg (fun pairs => (pairs.filter (·.2)).map Prod.fst) hpairs
  simp only [List.filter_map, List.map_map, List.filter_filter] at hfilter
  have hsome : ∀ line : SourceLine, (line.isAndi && line.instr.isSome) = line.isAndi := by
    intro line
    rw [SourceLine.isAndi]
    rcases line.instr with _ | i
    · rfl
    · rw [Option.isSome_some, Bool.and_true]
  simpa only [Function.comp_def, hsome] using hfilter

/-- The entry of `andi` is the zero word. -/
theorem code_of_isAndi {lines : List SourceLine} {p : Program} (h : Assembled false lines p)
    {entry : Entry} (hentry : entry ∈ p.entries) (handi : entry.isAndi = true) :
    entry.code = 0 := by
  obtain ⟨line, -, i, e, -, hencode, rfl⟩ := h.exists_line_of_mem hentry
  have hi : i.isAndi = true := by
    simpa [Entry.isAndi, SourceInstr.isAndi, SourceInstr.words] using handi
  rcases encode_of_andi p.labels line.pc hi with ⟨fault, -, hlenient, -⟩ | ⟨fault, hfault⟩
  · rw [hlenient] at hencode
    cases hencode
    rfl
  · rw [hfault] at hencode
    cases hencode

/-- The warnings of a program `p` are those of the lines that hold `andi`. -/
theorem map_lineNo_warnings_of_parse {asm : Assembler} {input : Input} {p : Program}
    (hasm : asm.strict = false) (h : (asm.parse input).result = .ok p) :
    (asm.parse input).assembler.warnings.map (·.lineNo) =
      ((Scan.ofInput input).lines.toList.filter (·.isAndi)).map (·.lineNo) := by
  have hassembled := assembled_of_parse h
  obtain ⟨q, hq, -, hwarnings⟩ := parse_of_good asm (fault_of_parse h)
    fun line hline => hassembled.labels ▸ hassembled.good line hline
  obtain rfl : p = q := Except.ok.inj (h.symm.trans hq)
  rw [hwarnings, hassembled.warnings]
  rw [hasm] at hassembled ⊢
  exact map_lineNo_warnings p.labels hassembled.good

/-- **A strict assembler stops at the first warning of a lenient one**, with the warning `w` as its
error, and agrees with it if there is none. In a program that a lenient assembler accepts, the
warnings are one for each line that holds `andi`, in order, and its entries are zero words. -/
theorem parse_strict (asm : Assembler) (input : Input) :
    let lenient := { asm with strict := false }.parse input
    let strict := { asm with strict := true }.parse input
    let lines := Input.segments input.bytes
    (∀ w ws, lenient.assembler.warnings = w :: ws →
      strict.result = .error w ∧ ∃ advice, w.fault = .unsupported Mnemonic.andi.name advice) ∧
    (lenient.assembler.warnings = [] → strict.result = lenient.result) ∧
    ∀ p, lenient.result = .ok p →
      lenient.assembler.warnings.map (·.lineNo) =
        ((List.range lines.length).filter (isAndiAt lines)).map (· + 1) ∧
      (p.entries.toList.filter (·.isAndi)).map (·.lineNo) =
        lenient.assembler.warnings.map (fun w => (w.lineNo : Int)) ∧
      ∀ entry ∈ p.entries, entry.isAndi = true → entry.code = 0 := by
  intro lenient strict lines
  refine ⟨?_, ?_, ?_⟩
  · intro w ws h
    cases hfault : (Scan.ofInput input).fault with
    | none =>
      have hlenient : lenient = _ := parse_of_scan _ hfault
      have hstrict : strict = _ := parse_of_scan _ hfault
      rw [hlenient] at h
      rw [hstrict]
      exact (asm.encodeLines_strict _).1 w ws h
    | some fault =>
      -- The first pass fails before there is any warning.
      simp only [lenient, parse, Scan.error?, hfault, Option.map_some] at h
      cases h
  · intro h
    cases hfault : (Scan.ofInput input).fault with
    | none =>
      have hlenient : lenient = _ := parse_of_scan _ hfault
      have hstrict : strict = _ := parse_of_scan _ hfault
      rw [hlenient] at h ⊢
      rw [hstrict]
      exact (asm.encodeLines_strict _).2 h
    | some fault =>
      simp only [strict, lenient, parse, Scan.error?, hfault, Option.map_some]
  · intro p hp
    have hassembled := assembled_of_parse hp
    have hnumbers := map_lineNo_warnings_of_parse rfl hp
    obtain ⟨hreads, -⟩ := Scan.reads_ofInput (fault_of_parse hp)
    refine ⟨?_, ?_, ?_⟩
    · rw [← map_lineNo_filter lines (isAndiAt_eq_sourceLine? lines), ← hreads.lines]
      exact hnumbers
    · have hcast := congrArg (List.map Int.ofNat) hnumbers
      rw [List.map_map, List.map_map] at hcast
      rw [map_lineNo_isAndi hassembled]
      exact hcast.symm
    · intro entry hentry handi
      exact code_of_isAndi hassembled hentry handi

set_option maxRecDepth 10000 in
/-- Two warnings before an unknown instruction, and a line of a data section that gives none: the
lenient assembler fails at the last line, and the strict one at the first warning. -/
theorem parse_strict_unknown :
    let source : Input :=
      ⟨".text\nandi $1, $2, 3\n.data\nandi $1\n.text\n ANDI $4,$5,6 # 7\nnand", none⟩
    let first : SourceError := ⟨2, "andi $1, $2, 3",
      .unsupported "andi" ["addi $29, $0, 3", "and $1, $2, $29"]⟩
    (({ strict := false } : Assembler).parse source).assembler.warnings =
        [first, ⟨6, "ANDI $4,$5,6 # 7",
          .unsupported "andi" ["addi $29, $0, 6", "and $4, $5, $29"]⟩] ∧
      (({ strict := false } : Assembler).parse source).result.toBool = false ∧
      (({ strict := true } : Assembler).parse source).result = .error first := by
  intro source first
  have hwarnings : (({ strict := false } : Assembler).parse source).assembler.warnings =
      [first, ⟨6, "ANDI $4,$5,6 # 7",
        .unsupported "andi" ["addi $29, $0, 6", "and $4, $5, $29"]⟩] := by
    decide +kernel
  exact ⟨hwarnings, by decide +kernel, ((parse_strict {} source).1 _ _ hwarnings).1⟩

end Assembler

end WordMachine
