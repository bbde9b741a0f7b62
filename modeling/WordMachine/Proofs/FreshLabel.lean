import WordMachine.Proofs.Displacement
import WordMachine.Proofs.Range

/-!
# Fresh labels

A line that holds only a label takes no place in the program. If the label is new, no operand can
mean it: an operand that is accepted names another label or is a number, and no number looks like a
label (`Literal.not_isLabel`).

* `Assembler.parse_fresh_label`: such a line changes nothing but the table of labels, and the
  numbers of the lines after it.
* `Assembler.parse_longest_label`: it has to fit the line buffer, as any line has to.
-/

namespace WordMachine.Asm

open Text (byte isVisible)

/-! ## Names of labels -/

section Names

variable {name : Text}

/-- The bytes of a name that a label can have, one that `isLabel` accepts. -/
theorem mem_of_isLabel (h : isLabel name = true) :
    ∀ b ∈ name, (isLabelStart b || Text.isDigit b) = true := by
  unfold isLabel at h
  split at h
  · cases h
  · rename_i b t
    rw [Bool.and_eq_true, List.all_eq_true] at h
    rw [List.forall_mem_cons, h.1, Bool.true_or]
    exact ⟨rfl, h.2⟩

/-- They can all be seen. -/
theorem visible_of_isLabel (h : isLabel name = true) : ∀ b ∈ name, isVisible b = true := by
  intro b hb
  have hbyte := mem_of_isLabel h b hb
  simp only [isLabelStart, Bool.or_eq_true, beq_iff_eq] at hbyte
  rcases hbyte with ((hletter | rfl) | rfl) | hdigit
  · exact Text.isVisible_of_isLetter hletter
  · decide
  · decide
  · exact Text.isVisible_of_isDigit hdigit

/-- A byte `c` that is none of them is not in the name. -/
theorem not_mem_of_isLabel (h : isLabel name = true) {c : UInt8}
    (hc : (isLabelStart c || Text.isDigit c) = false) : c ∉ name := by
  intro hmem
  rw [mem_of_isLabel h c hmem] at hc
  cases hc

/-- A digit begins no label. -/
theorem isLabelStart_of_isDigit {b : UInt8} (h : Text.isDigit b = true) :
    isLabelStart b = false := by
  have h0 : (byte '0').toNat = 48 := rfl
  have h9 : (byte '9').toNat = 57 := rfl
  have hletter : Text.isLetter b = false := by
    have ha : (byte 'a').toNat = 97 := rfl
    have hA : (byte 'A').toNat = 65 := rfl
    simp only [Text.isDigit, Text.isLetter, Bool.and_eq_true, Bool.or_eq_false_iff,
      Bool.and_eq_false_iff, decide_eq_true_eq, decide_eq_false_iff_not,
      UInt8.le_iff_toNat_le] at h ⊢
    omega
  have hscore : b ≠ byte '_' := ne_of_test h (by decide)
  have hdot : b ≠ byte '.' := ne_of_test h (by decide)
  rw [isLabelStart, hletter, beq_false_of_ne hscore, beq_false_of_ne hdot]
  rfl

/-- **No literal has the form of a label**, so no number is taken for one. -/
theorem Literal.not_isLabel {t : Text} {i : Int} (h : Literal t i) : isLabel t = false := by
  cases h with
  | hex => rfl
  | plus => rfl
  | minus => rfl
  | unsigned hds =>
    obtain ⟨hne, hdigits, -⟩ := numeral_ten_iff.mp hds
    obtain ⟨b, ds, rfl⟩ := List.exists_cons_of_ne_nil hne
    rw [isLabel, isLabelStart_of_isDigit (hdigits b List.mem_cons_self), Bool.false_and]

/-- A line `t` that says that it defines a label has a name of that form on it. -/
theorem isLabel_of_ofLine {t label : Text} {instr : Option SourceInstr}
    (h : Statement.ofLine t = .code (some label) instr) : isLabel label = true := by
  have hinstr : ∀ {l : Option Text} {u : Text}, instrStatement l u = .code (some label) instr →
      l = some label := by
    intro l u hcode
    unfold instrStatement at hcode
    split at hcode
    · cases hcode
      rfl
    · split at hcode
      · cases hcode
      · cases hcode
        rfl
  unfold Statement.ofLine at h
  dsimp only at h
  split at h
  · cases h
  split at h
  · cases h
  split at h
  · cases h
  unfold codeStatement at h
  split at h
  · rename_i first rest _
    dsimp only at h
    split at h
    · rename_i hlabel
      obtain rfl := Option.some.inj (hinstr h)
      exact hlabel
    · cases h
  · exact absurd (hinstr h) (Option.some_ne_none label).symm

/-- A line with the label `name` alone. -/
theorem ofLine_label (h : isLabel name = true) :
    Statement.ofLine (Text.trim (Input.dropReturn (name ++ ":"))) = .code (some name) none := by
  have hvisible : ∀ b ∈ name ++ ":", isVisible b = true := by
    intro b hb
    rcases List.mem_append.mp hb with hb | hb
    · exact visible_of_isLabel h b hb
    · rw [List.mem_singleton.mp hb]
      decide
  have hcomment : byte '#' ∉ name ++ ":" := by
    rw [List.mem_append, not_or]
    exact ⟨not_mem_of_isLabel h (by decide), by decide⟩
  have hcut : Text.cut? (byte ':') (name ++ ":") = some (name, []) :=
    cut?_append_cons (not_mem_of_isLabel h (by decide)) []
  -- The colon tells the line from one that opens a section.
  have hfield : ∀ opening : Text, byte ':' ∉ opening → Text.firstField (name ++ ":") ≠ opening := by
    rintro _ hopening rfl
    apply hopening
    have hwhole : Text.firstField (name ++ ":") = name ++ ":" := by
      have hlength := Text.fieldLengthFrom_append hvisible 0 []
      rw [List.append_nil, Text.fieldLengthFrom, Nat.zero_add] at hlength
      rw [Text.firstField, Text.splitField, hlength]
      simp
    rw [hwhole]
    exact List.mem_append_right name List.mem_cons_self
  have hempty : (name ++ Text.ofString ":").isEmpty = false :=
    List.isEmpty_eq_false_iff.mpr (List.append_ne_nil_of_right_ne_nil name (by decide))
  have htrim : Text.trim name = name := Text.trim_of_visible (visible_of_isLabel h)
  rw [Input.trim_dropReturn, Text.trim_of_visible hvisible]
  simp only [Statement.ofLine, dropComment_of_not_mem hcomment, Text.trim_of_visible hvisible,
    hempty, beq_false_of_ne (hfield ".text" (by decide)),
    beq_false_of_ne (hfield ".data" (by decide)), codeStatement, hcut, htrim, h,
    Bool.false_eq_true, if_false, if_true]
  rfl

end Names

/-! ## A line with a label -/

/-- What one more line with the label `name` alone does to a reading in a text section. -/
theorem Scan.step_label {s : Scan} {name : Text} (hgoing : s.fault = none) (hin : s.inText = true)
    (h : isLabel name = true) :
    s.step (Input.dropReturn (name ++ ":")) =
      { s with
        lineNo := s.lineNo + 1
        text := Text.trim (Input.dropReturn (name ++ ":"))
        lines := s.lines.push
          ⟨s.lineNo + 1, Text.trim (Input.dropReturn (name ++ ":")), some name, none, s.pc⟩ } := by
  rw [step_of_code hgoing hin (ofLine_label h)]
  rfl

/-- **A line with a label puts in one source line**, `mark`, which has no instruction; the lines
after it get other numbers. -/
theorem Scan.readOn_label {before after : List Text} {name : Text}
    (hgoing : (readOn {} (before ++ after)).fault = none)
    (hin : Asm.inText (before ++ after) before.length = true) (h : isLabel name = true) :
    (readOn {} (before ++ (name ++ ":") :: after)).fault = none ∧
      ∃ first new new' mark, (readOn {} (before ++ after)).lines.toList = first ++ new ∧
        (readOn {} (before ++ (name ++ ":") :: after)).lines.toList = first ++ mark :: new' ∧
        mark.label = some name ∧ mark.instr = none ∧
        mark.pc = instrsBefore (before ++ after) before.length ∧
        List.Forall₂ (SourceLine.Displaced (numberAfter before.length 1) 0) first first ∧
        List.Forall₂ (SourceLine.Displaced (numberAfter before.length 1) 0) new new' := by
  rw [readOn_append] at hgoing
  have hreads := reads_readOn (fault_of_readOn hgoing) after
  have hstep := step_label (fault_of_readOn hgoing) (hreads.inText.trans hin) h
  have hahead : Ahead 1 0 (readOn {} before)
      ((readOn {} before).step (Input.dropReturn (name ++ ":"))) := by
    rw [hstep]
    exact ⟨rfl, rfl, rfl, rfl⟩
  have hinstep := hahead.readOn_same after
  obtain ⟨new, new', hnew, hnew', hmoved, hlater⟩ := hinstep.lines
  rw [hreads.lineNo] at hlater
  rw [hstep, Array.toList_push, List.append_assoc] at hnew'
  refine ⟨?_, (readOn {} before).lines.toList, new, new',
    ⟨(readOn {} before).lineNo + 1, Text.trim (Input.dropReturn (name ++ ":")), some name, none,
      (readOn {} before).pc⟩, ?_, ?_, rfl, rfl, hreads.pc, ?_, ?_⟩
  · rw [readOn_append]
    exact hinstep.ahead.fault.trans hgoing
  · rw [readOn_append, hnew]
  · rw [readOn_append, readOn_cons, hstep]
    exact hnew'
  · exact displaced_before 1 hreads.lineNo_le
  · exact displaced_after hmoved hlater

/-- A `name` that no line defines is not defined by the lines at other places. -/
theorem undefined_displaced {place : Int → Int} {d : Nat} {lines lines' : List SourceLine}
    {name : Text} (h : List.Forall₂ (SourceLine.Displaced place d) lines lines')
    (hfresh : ∀ line ∈ lines, line.label ≠ some name) :
    ∀ line ∈ lines', line.label ≠ some name := by
  induction h with
  | nil => exact hfresh
  | cons hline _ ih =>
    rw [List.forall_mem_cons] at hfresh ⊢
    rw [hline.label]
    exact ⟨hfresh.1, ih hfresh.2⟩

section Table

variable {place : Int → Int} {first new new' : List SourceLine} {mark : SourceLine} {name : Text}

/-- All names but the new one, `name`, keep their values. -/
theorem moved_label (hnew : List.Forall₂ (SourceLine.Displaced place 0) new new')
    (hlabel : mark.label = some name) :
    Labels.Moved (· ≠ name) 0 (Labels.ofLines (first ++ new))
      (Labels.ofLines (first ++ mark :: new')) := by
  rw [Labels.ofLines_append, Labels.ofLines_append, List.foldl_cons]
  refine Labels.moved_foldl (fun x hx => ?_) hnew
  rw [Labels.get?_withLine, hlabel, if_neg fun heq => hx (Option.some.inj heq).symm, Nat.cast_zero]
  simp

/-- The new `name` has the value `mark.pc` of its line. -/
theorem get?_label (hnew : List.Forall₂ (SourceLine.Displaced place 0) new new')
    (hlabel : mark.label = some name) (hfresh : (Labels.ofLines (first ++ new)).get? name = none) :
    (Labels.ofLines (first ++ mark :: new')).get? name = some (mark.pc : Int) := by
  rw [Labels.ofLines_append, Labels.get?_foldl_eq_none_iff] at hfresh
  rw [Labels.ofLines_append, List.foldl_cons,
    Labels.get?_foldl_of_undefined (undefined_displaced hnew hfresh.2), Labels.get?_withLine,
    if_pos hlabel]

end Table

/-- No `operand` that names a place is a `name` that is new. -/
theorem ne_of_target {labels : Labels} {name : Text} (h : isLabel name = true)
    (hfresh : labels.get? name = none) {operand : Text} {goal : Target}
    (hgoal : target labels operand = .ok goal) : operand ≠ name := by
  rintro rfl
  have hliteral : ∀ i, ¬Literal operand i := by
    intro i hi
    rw [hi.not_isLabel] at h
    cases h
  rw [target, hfresh, parseImmediate_eq_error hliteral] at hgoal
  cases hgoal

end WordMachine.Asm

namespace WordMachine.Assembler

open Asm

/-- The labels of a program have the form of labels, so `isLabel` accepts them. -/
theorem isLabel_of_parse {asm : Assembler} {input : Input} {p : Program}
    (h : (asm.parse input).result = .ok p) {name : Text} {v : Int}
    (hget : p.labels.get? name = some v) :
    isLabel name = true := by
  rw [(assembled_of_parse h).labels] at hget
  obtain ⟨line, hline, hlabel, -⟩ := exists_line_of_get?_ofLines hget
  have hcode := (Scan.reads_ofInput (fault_of_parse h)).1.code line hline
  rw [hlabel] at hcode
  exact isLabel_of_ofLine hcode

/-- A source line `mark` without an instruction makes no difference to the entries. -/
theorem encodeLines_mark {strict : Bool} {labels : Labels} {first rest : List SourceLine}
    {mark : SourceLine} (hinstr : mark.instr = none)
    (hgood : ∀ line ∈ first ++ rest, isGood (encodeLine strict labels line) = true) :
    (∀ line ∈ first ++ mark :: rest, isGood (encodeLine strict labels line) = true) ∧
      ((first ++ mark :: rest).map (encodeLine strict labels)).filterMap entryOf? =
        ((first ++ rest).map (encodeLine strict labels)).filterMap entryOf? := by
  rw [List.forall_mem_append] at hgood ⊢
  rw [List.forall_mem_cons]
  refine ⟨⟨hgood.1, by simp [isGood, encodeLine, hinstr], hgood.2⟩, ?_⟩
  rw [List.map_append, List.map_append, List.map_cons, List.filterMap_append, List.filterMap_append,
    List.filterMap_cons_none (no_entry_of_instr_eq_none hinstr)]

/-- **A fresh label changes nothing but the table of labels.** The line `name:` is put in after the
lines `before`; the program `p'` has the words of `p`, at the same program counters. -/
theorem parse_fresh_label (asm : Assembler) {input input' : Input} {before after : List Text}
    {name : Text} {p : Program} (hinput : input.HasLines (before ++ after))
    (hinput' : input'.HasLines (before ++ (name ++ ":") :: after))
    (hp : (asm.parse input).result = .ok p) (hin : inText (before ++ after) before.length = true)
    (hname : isLabel name = true) (hfresh : p.labels.get? name = none)
    (hfits : name.length + 1 < Input.maxLineLength) :
    ∃ p', (asm.parse input').result = .ok p' ∧
      p'.entries.toList =
        p.entries.toList.map (fun e => { e with lineNo := numberAfter before.length 1 e.lineNo }) ∧
      p'.image = p.image ∧
      (∀ other, p'.labels.get? other =
        if other = name then some (instrsBefore (before ++ after) before.length : Int)
        else p.labels.get? other) ∧
      ∀ t i, Literal t i → p'.labels.get? t = none := by
  have hgoing := fault_of_parse hp
  have hassembled := assembled_of_parse hp
  have hold := Scan.fits_of_going hinput hgoing
  rw [Scan.ofInput_eq_readOn hinput hold] at hgoing hassembled
  have hall : ∀ line ∈ before ++ (name ++ ":") :: after, line.length < Input.maxLineLength := by
    rw [List.forall_mem_append] at hold ⊢
    rw [List.forall_mem_cons, List.length_append]
    exact ⟨hold.1, hfits, hold.2⟩
  obtain ⟨hgoing', first, new, new', mark, hlines, hlines', hlabel, hinstr, hpc, hfirst, hnew⟩ :=
    Scan.readOn_label hgoing hin hname
  rw [← Scan.ofInput_eq_readOn hinput' hall] at hgoing' hlines'
  rw [hlines] at hassembled
  have hmoved : Labels.Moved (· ≠ name) 0 p.labels (Labels.ofLines (first ++ mark :: new')) :=
    hassembled.labels ▸ moved_label hnew hlabel
  have hvalue : (Labels.ofLines (first ++ mark :: new')).get? name = some (mark.pc : Int) :=
    get?_label hnew hlabel (hassembled.labels ▸ hfresh)
  have hresolves := resolves_of_moved hmoved fun _ _ hgoal => ne_of_target hname hfresh hgoal
  -- The lines of the source first, at their new places and with the new labels; then the line with
  -- the label among them.
  obtain ⟨hgood, hentries⟩ := encodeLines_displaced (List.rel_append hfirst hnew) hresolves
    hassembled.good
  obtain ⟨hgood', hmark⟩ := encodeLines_mark hinstr hgood
  rw [← hlines'] at hgood' hmark hmoved hvalue
  obtain ⟨p', hp', hassembled', -⟩ := parse_of_good asm hgoing' hgood'
  have hsame : p'.entries.toList =
      p.entries.toList.map fun e => { e with lineNo := numberAfter before.length 1 e.lineNo } := by
    rw [hassembled'.entries, hassembled'.labels, hmark, hlines', hentries, ← hassembled.entries,
      Entry.displaced_zero]
  refine ⟨p', hp', hsame, ?_, ?_, ?_⟩
  · rw [Program.image, hsame, List.map_map]
    rfl
  · intro other
    rw [hassembled'.labels]
    split
    · rename_i heq
      rw [heq, hvalue, hpc]
    · rename_i hne
      rw [hmoved other hne, Nat.cast_zero]
      simp
  · intro t i hliteral
    rw [Option.eq_none_iff_forall_ne_some]
    intro v hv
    have hform := isLabel_of_parse hp' hv
    rw [hliteral.not_isLabel] at hform
    cases hform

set_option maxRecDepth 10000 in
/-- A label with the name `.text` of a section, between a jump to a number and a branch to another
label. -/
theorem parse_fresh_label_section :
    ∃ p p', (({} : Assembler).parse
        ⟨Input.unlines [".text", "a: j 0x10", "bne $1, $2, a"], none⟩).result = .ok p ∧
      p.labels.get? ".text" = none ∧
      (({} : Assembler).parse
        ⟨Input.unlines [".text", "a: j 0x10", ".text:", "bne $1, $2, a"], none⟩).result = .ok p' ∧
      p'.image = p.image ∧ p'.labels.get? ".text" = some 1 ∧
      p'.labels.get? "a" = p.labels.get? "a" := by
  obtain ⟨p, hp, hfresh⟩ := exists_ok_of_toOption_map
    (x := (({} : Assembler).parse
      ⟨Input.unlines [".text", "a: j 0x10", "bne $1, $2, a"], none⟩).result)
    (f := fun p => p.labels.get? ".text") (b := none) (by decide +kernel)
  have hinput : Input.HasLines ⟨Input.unlines [".text", "a: j 0x10", "bne $1, $2, a"], none⟩
      (([".text", "a: j 0x10"] : List Text) ++ (["bne $1, $2, a"] : List Text)) :=
    ⟨by decide +kernel, rfl⟩
  have hinput' : Input.HasLines
      ⟨Input.unlines [".text", "a: j 0x10", ".text:", "bne $1, $2, a"], none⟩
      (([".text", "a: j 0x10"] : List Text) ++
        ((".text" : Text) ++ (":" : Text)) :: (["bne $1, $2, a"] : List Text)) :=
    ⟨by decide +kernel, rfl⟩
  obtain ⟨p', hp', -, himage, hlabels, -⟩ :=
    parse_fresh_label {} hinput hinput' hp (by decide +kernel) (by decide) hfresh (by decide)
  refine ⟨p, p', hp, hfresh, hp', himage, ?_, ?_⟩
  · rw [hlabels, if_pos rfl]
    decide +kernel
  · rw [hlabels, if_neg (by decide)]

/-- A label of 65535 bytes, as many as a line can have, leaves no room for the colon. -/
theorem parse_longest_label :
    ∃ name p, isLabel name = true ∧
      (({} : Assembler).parse ⟨Input.unlines [".text"], none⟩).result = .ok p ∧
      inText [".text"] 1 = true ∧ p.labels.get? name = none ∧
      ∀ p', (({} : Assembler).parse ⟨Input.unlines [".text", name ++ ":"], none⟩).result ≠
        .ok p' := by
  have hname : ∀ n, isLabel (List.replicate (n + 1) (Text.byte 'a')) = true := by
    intro n
    rw [List.replicate_succ, isLabel, List.all_replicate]
    simp [show isLabelStart (Text.byte 'a') = true by decide]
  obtain ⟨p, hp, hlabels⟩ := exists_ok_of_toOption_map
    (x := (({} : Assembler).parse ⟨Input.unlines [".text"], none⟩).result)
    (f := fun p => p.labels) (b := {}) (by decide +kernel)
  refine ⟨List.replicate 65535 (Text.byte 'a'), p, hname 65534, hp, by decide +kernel, ?_, ?_⟩
  · rw [hlabels]
    rfl
  · intro p' hp'
    have hlines : Input.HasLines
        ⟨Input.unlines [".text", List.replicate 65535 (Text.byte 'a') ++ ":"], none⟩
        [".text", List.replicate 65535 (Text.byte 'a') ++ ":"] := by
      refine Input.hasLines_unlines fun line hline => ?_
      rcases List.mem_pair.mp hline with rfl | rfl
      · decide
      · rw [List.mem_append, not_or]
        exact ⟨not_mem_of_isLabel (hname 65534) (by decide), by decide⟩
    have hfits := Scan.fits_of_going hlines (fault_of_parse hp') _
      (List.mem_cons_of_mem _ List.mem_cons_self)
    rw [List.length_append, List.length_replicate] at hfits
    exact absurd hfits (by decide)

end WordMachine.Assembler
