import WordMachine.Proofs.FreshLabel

/-!
# Relocation

A source to which one instruction is put in front, in a text section of its own, is the same program
one instruction further on (`Assembler.parse_relocated`). Jumps to labels go one instruction
further, and branches to labels do not depend on their position. Both follow from what is read: the
source lines are those of the source, three lines and one instruction further on
(`Asm.Scan.readOn_relocated`).
-/

namespace WordMachine.Asm

/-- A `line` that is read as the instruction `i` without a label. -/
structure IsInstrLine (line : Text) (i : SourceInstr) : Prop where
  read : (Scan.ofInput (alone line)).fault = none
  code : (Scan.ofInput (alone line)).lines.toList.map (fun src => (src.label, src.instr)) =
    [(none, some i)]

/-- Such a line fits the line buffer. -/
theorem IsInstrLine.isSegment {line : Text} {i : SourceInstr} (h : IsInstrLine line i)
    (hfeed : Text.byte '\n' ∉ line) : Input.IsSegment line := by
  have hlines : Input.HasLines (alone line) [".text", line] := by
    refine Input.hasLines_unlines fun l hl => ?_
    rcases List.mem_pair.mp hl with rfl | rfl
    · decide
    · exact hfeed
  exact ⟨hfeed, Scan.fits_of_going hlines h.read line (List.mem_cons_of_mem _ List.mem_cons_self)⟩

/-- Such a line says that it is one. -/
theorem IsInstrLine.ofLine_eq {line : Text} {i : SourceInstr} (h : IsInstrLine line i)
    (hsegment : Input.IsSegment line) :
    Statement.ofLine (Text.trim (Input.dropReturn line)) = .code none (some i) := by
  have hread := h.read
  have hcode := h.code
  rw [Scan.ofInput_alone hsegment] at hread hcode
  generalize Statement.ofLine (Text.trim (Input.dropReturn line)) = statement at hread hcode
  cases statement with
  | blank => cases hcode
  | textSection => cases hcode
  | dataSection => cases hcode
  | malformed fault => cases hread
  | code label instr =>
    obtain ⟨hlabel, hinstr⟩ := Prod.mk.inj (List.cons.inj hcode).1
    rw [show label = none from hlabel, show instr = some i from hinstr]

namespace Scan

/-- What is read of the lines in front, from `.text` to `.data`. -/
theorem readOn_front {line : Text} {i : SourceInstr} (h : IsInstrLine line i)
    (hsegment : Input.IsSegment line) :
    readOn {} [".text", line, ".data"] =
      { lineNo := 3
        text := Text.trim (Input.dropReturn ".data")
        inText := false
        pc := 1
        lines := #[⟨2, Text.trim (Input.dropReturn line), none, some i, 0⟩]
        fault := none } := by
  have htext : section? ".text" = some true := by decide +kernel
  have hdata : section? ".data" = some false := by decide +kernel
  rw [readOn_cons, step_section rfl htext, readOn_cons, step_of_going rfl, h.ofLine_eq hsegment,
    accept, if_pos rfl, readOn_cons, step_section rfl hdata]
  rfl

/-- **The source lines after the lines in front** are three lines and one instruction further on. -/
theorem readOn_relocated {line : Text} {i : SourceInstr} (h : IsInstrLine line i)
    (hsegment : Input.IsSegment line) (lines : List Text) :
    (readOn {} (".text" :: line :: ".data" :: lines)).fault = (readOn {} lines).fault ∧
      ∃ first moved,
        (readOn {} (".text" :: line :: ".data" :: lines)).lines.toList = first :: moved ∧
        first.lineNo = 2 ∧ first.label = none ∧ first.instr = some i ∧ first.pc = 0 ∧
        List.Forall₂ (SourceLine.Displaced (· + 3) 1) (readOn {} lines).lines.toList moved := by
  have hread : readOn {} (".text" :: line :: ".data" :: lines) =
      (readOn {} [".text", line, ".data"]).readOn lines :=
    readOn_append {} [".text", line, ".data"] lines
  have hahead : Ahead 3 1 {} (readOn {} [".text", line, ".data"]) := by
    rw [readOn_front h hsegment]
    exact ⟨rfl, rfl, rfl, rfl⟩
  have hinstep := hahead.readOn_same lines
  obtain ⟨new, moved, hnew, hmoved, hlines, -⟩ := hinstep.lines
  rw [readOn_front h hsegment] at hmoved
  rw [hread, hnew, readOn_front h hsegment]
  refine ⟨?_, _, moved, hmoved, rfl, rfl, rfl, rfl, ?_⟩
  · rw [← readOn_front h hsegment]
    exact hinstep.ahead.fault
  · refine hlines.imp fun src src' hsrc => ⟨?_, hsrc.label, hsrc.instr, hsrc.pc⟩
    rw [hsrc.lineNo]
    push_cast
    rfl

end Scan

/-- A number names the same place whatever the `labels` are. -/
theorem resolves_of_isLabel {labels : Labels}
    (h : ∀ name v, labels.get? name = some v → isLabel name = true) : Resolves 0 {} labels := by
  intro operand goal hgoal
  have hfree : labels.get? operand = none := by
    rw [Option.eq_none_iff_forall_ne_some]
    intro v hv
    have hnone : Table.get? ({} : Labels) operand = none := rfl
    exact ne_of_target (h operand v hv) hnone hgoal rfl
  obtain ⟨value, hvalue, heq⟩ := bind_eq_ok.mp hgoal
  cases heq
  rw [target, hfree]
  exact bind_eq_ok.mpr ⟨value, hvalue, rfl⟩

end WordMachine.Asm

namespace WordMachine.Assembler

open Asm

/-- Relocated labels, with a line `first` in front that has none. -/
theorem moved_relocated {first : SourceLine} {lines moved : List SourceLine}
    (hlabel : first.label = none) (h : List.Forall₂ (SourceLine.Displaced (· + 3) 1) lines moved) :
    Labels.Moved (fun _ => True) 1 (Labels.ofLines lines) (Labels.ofLines (first :: moved)) := by
  have hfirst : Labels.ofLines (first :: moved) = moved.foldl Labels.withLine {} := by
    show moved.foldl Labels.withLine (Labels.withLine {} first) = moved.foldl Labels.withLine {}
    rw [Labels.withLine, hlabel]
  rw [hfirst]
  exact Labels.moved_foldl (fun _ _ => rfl) h

/-- The instruction `i` in front is encoded as it is without labels, since its operands are no
labels. -/
theorem encodeLine_front {strict : Bool} {labels : Labels} {first : SourceLine} {i : SourceInstr}
    {e : Encoding} (hforms : ∀ name v, labels.get? name = some v → isLabel name = true)
    (hencode : encode strict {} 0 i = .ok e) (hinstr : first.instr = some i) (hpc : first.pc = 0) :
    isGood (encodeLine strict labels first) = true ∧
      entryOf? (encodeLine strict labels first) = some ⟨first.lineNo, 0, i.words, e.code⟩ := by
  have hfront : encode strict labels first.pc i = .ok e := by
    have hmoved := encode_moved (resolves_of_isLabel hforms) hencode
    rwa [movedCode_zero, Nat.add_zero, ← hpc] at hmoved
  have hgood : isGood (encodeLine strict labels first) = true := by
    simp [isGood, encodeLine, hinstr, hfront, Except.map]
  obtain ⟨e', hencode', hentry⟩ := exists_entry_of_instr_eq_some hinstr hgood
  obtain rfl := Except.ok.inj (hencode'.symm.trans hfront)
  rw [hpc] at hentry
  exact ⟨hgood, hentry⟩

/-- **A program `p` is relocated by an instruction in front of it.** -/
theorem parse_relocated (asm : Assembler) {input input' : Input} {line : Text} {lines : List Text}
    {i : SourceInstr} {e : Encoding} {p : Program} (hinput : input.HasLines lines)
    (hinput' : input'.HasLines (".text" :: line :: ".data" :: lines))
    (hp : (asm.parse input).result = .ok p) (hline : IsInstrLine line i)
    (hencode : encode asm.strict {} 0 i = .ok e) :
    ∃ p', (asm.parse input').result = .ok p' ∧
      p'.entries.toList =
        ⟨2, 0, i.words, e.code⟩ :: p.entries.toList.map (Entry.displaced p.labels (· + 3) 1) ∧
      (∀ name, p'.labels.get? name = (p.labels.get? name).map (· + 1)) ∧
      ∀ entry ∈ p.entries,
        entry.words.head? = some Mnemonic.bne.name ∨ entry.words.head? = some Mnemonic.blt.name →
        (entry.displaced p.labels (· + 3) 1).code = entry.code := by
  have hgoing := fault_of_parse hp
  have hassembled := assembled_of_parse hp
  have hold := Scan.fits_of_going hinput hgoing
  have hsegment : Input.IsSegment line := by
    have hmem : line ∈ Input.segments input'.bytes := by
      rw [hinput'.segments]
      exact List.mem_cons_of_mem _ List.mem_cons_self
    exact hline.isSegment (Input.noFeed_of_mem_segments hmem)
  have hall : ∀ l ∈ Text.ofString ".text" :: line :: ".data" :: lines,
      l.length < Input.maxLineLength := by
    rw [List.forall_mem_cons, List.forall_mem_cons, List.forall_mem_cons]
    exact ⟨by decide, hsegment.fits, by decide, hold⟩
  rw [Scan.ofInput_eq_readOn hinput hold] at hgoing hassembled
  obtain ⟨hfault, first, moved, hlines, hlineNo, hlabel, hinstr, hpc, hmoved⟩ :=
    Scan.readOn_relocated hline hsegment lines
  rw [← Scan.ofInput_eq_readOn hinput' hall] at hfault hlines
  have hlabels := moved_relocated hlabel hmoved
  rw [← hassembled.labels] at hlabels
  obtain ⟨hgood, hentries⟩ := encodeLines_displaced hmoved
    (resolves_of_moved hlabels fun _ _ _ => trivial) hassembled.good
  -- The names in the new table are those in the old one, so the line in front cannot mean any of
  -- them.
  have hforms : ∀ name v, (Labels.ofLines (first :: moved)).get? name = some v →
      isLabel name = true := by
    intro name v hv
    rw [hlabels name trivial] at hv
    obtain ⟨there, hthere, -⟩ := Option.map_eq_some_iff.mp hv
    exact isLabel_of_parse hp hthere
  obtain ⟨hfirst, hentry⟩ := encodeLine_front hforms hencode hinstr hpc
  have hgood' : ∀ src ∈ first :: moved,
      isGood (encodeLine asm.strict (Labels.ofLines (first :: moved)) src) = true :=
    List.forall_mem_cons.mpr ⟨hfirst, hgood⟩
  rw [← hlines] at hgood'
  obtain ⟨p', hp', hassembled', -⟩ := parse_of_good asm (hfault.trans hgoing) hgood'
  rw [hlines] at hassembled'
  refine ⟨p', hp', ?_, ?_, ?_⟩
  · rw [hassembled'.entries, hassembled'.labels, List.map_cons, List.filterMap_cons_some hentry,
      hentries, ← hassembled.entries, hlineNo]
    rfl
  · intro name
    rw [hassembled'.labels, hlabels name trivial, Nat.cast_one]
  · intro entry _ hbranch
    show movedCode p.labels 1 entry.words entry.code = entry.code
    rcases hbranch with hhead | hhead <;>
    · obtain ⟨operands, hwords⟩ := List.head?_eq_some_iff.mp hhead
      rw [hwords, movedCode_of_jump_eq_none rfl]

set_option maxRecDepth 10000 in
/-- A jump and a jump with link to labels, a branch to a label, and a jump to a number. -/
theorem parse_relocated_jumps :
    ∃ p p', (({} : Assembler).parse
        ⟨Input.unlines [".text", "a: j b", "b: bne $1, $2, a", "jal a", "bex 2"], none⟩).result =
          .ok p ∧
      (({} : Assembler).parse
        ⟨Input.unlines [".text", "J 0x7ffffff", ".data", ".text", "a: j b", "b: bne $1, $2, a",
          "jal a", "bex 2"], none⟩).result = .ok p' ∧
      p.entries.toList.map (·.code) = [0x08000001, 0x10820000, 0x18000000, 0xb0000002] ∧
      p'.entries.toList.map (·.code) =
        [0x0fffffff, 0x08000002, 0x10820000, 0x18000001, 0xb0000002] ∧
      p.labels.get? "a" = some 0 ∧ p'.labels.get? "a" = some 1 := by
  obtain ⟨p, hp, hprogram⟩ := exists_ok_of_toOption_map
    (x := (({} : Assembler).parse
      ⟨Input.unlines [".text", "a: j b", "b: bne $1, $2, a", "jal a", "bex 2"], none⟩).result)
    (f := fun p => (p.entries.toList, p.labels))
    (b := ([⟨2, 0, ["j", "b"], 0x08000001⟩, ⟨3, 1, ["bne", "$1", "$2", "a"], 0x10820000⟩,
      ⟨4, 2, ["jal", "a"], 0x18000000⟩, ⟨5, 3, ["bex", "2"], 0xb0000002⟩], ⟨[("b", 1), ("a", 0)]⟩))
    (by decide +kernel)
  obtain ⟨hentries, hlabels⟩ := Prod.mk.inj hprogram
  have hinput : Input.HasLines
      ⟨Input.unlines [".text", "a: j b", "b: bne $1, $2, a", "jal a", "bex 2"], none⟩
      [".text", "a: j b", "b: bne $1, $2, a", "jal a", "bex 2"] :=
    ⟨by decide +kernel, rfl⟩
  have hinput' : Input.HasLines
      ⟨Input.unlines [".text", "J 0x7ffffff", ".data", ".text", "a: j b", "b: bne $1, $2, a",
        "jal a", "bex 2"], none⟩
      [".text", "J 0x7ffffff", ".data", ".text", "a: j b", "b: bne $1, $2, a", "jal a", "bex 2"] :=
    ⟨by decide +kernel, rfl⟩
  have hline : IsInstrLine "J 0x7ffffff" ⟨"j", ["0x7ffffff"]⟩ :=
    ⟨by decide +kernel, by decide +kernel⟩
  have hencode : encode false {} 0 ⟨"j", ["0x7ffffff"]⟩ = .ok ⟨0x0fffffff, none⟩ := by
    decide +kernel
  obtain ⟨p', hp', hentries', hlabels', -⟩ := parse_relocated {} hinput hinput' hp hline hencode
  rw [hentries, hlabels] at hentries'
  refine ⟨p, p', hp, hp', ?_, ?_, ?_, ?_⟩
  · rw [hentries]
    rfl
  · rw [hentries']
    decide +kernel
  · rw [hlabels]
    decide
  · rw [hlabels', hlabels]
    decide

end WordMachine.Assembler
