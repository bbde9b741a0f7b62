import WordMachine.Proofs.Displacement

/-!
# Layout

Comments, white space, blank lines, data sections and carriage returns are the layout of a source. A
change of the layout leaves the program as it is, but for the numbers of the lines that its entries
come from. Most changes keep the `content` of each line, which decides what the line says; the
others put in lines that are passed over.

* `content_eq`: the content of a line is what is left of it without comment and white space.
* `sameLines_of_relaid`: any number of changes of the layout keep the source lines.
* `Assembler.parse_relaid`: layout does not matter.
-/

namespace WordMachine.Asm

open Text (byte isVisible Blanks not_mem_of_blanks)

/-! ## Comments -/

/-- The text up to its comment; `p` and `q` are the two bytes before the text. -/
def uncommented (p q : UInt8) : Text → Text
  | [] => []
  | b :: t =>
    if b == byte '#' && !(p == byte '0' && q == byte 'x') then [] else b :: uncommented q b t

/-- A comment starts where the text up to it ends. -/
theorem take_commentStart (n : Nat) (p q : UInt8) (t : Text) :
    ∃ k, commentStart n p q t = n + k ∧ t.take k = uncommented p q t := by
  induction t generalizing n p q with
  | nil => exact ⟨0, rfl, rfl⟩
  | cons b t ih =>
    rw [commentStart, uncommented]
    split
    · exact ⟨0, rfl, rfl⟩
    · obtain ⟨k, hstart, htake⟩ := ih (n + 1) q b
      refine ⟨k + 1, ?_, ?_⟩
      · rw [hstart]
        omega
      · rw [List.take_succ_cons, htake]

theorem dropComment_eq (t : Text) : dropComment t = uncommented 0 0 t := by
  obtain ⟨k, hstart, htake⟩ := take_commentStart 0 0 0 t
  rw [dropComment, hstart, Nat.zero_add, htake]

/-- The byte `p` before the last one matters only if it is a zero. -/
theorem uncommented_of_ne_zero {p : UInt8} (hp : p ≠ byte '0') (q : UInt8) (t : Text) :
    uncommented p q t = uncommented 0 q t := by
  cases t with
  | nil => rfl
  | cons b t =>
    rw [uncommented, uncommented, beq_false_of_ne hp, show (0 == byte '0') = false by decide]

/-- After a byte `q` that can be no part of `0x`, a comment starts as it does at the start of a
line. -/
theorem uncommented_of_ne {q : UInt8} (hzero : q ≠ byte '0') (hx : q ≠ byte 'x') (p : UInt8)
    (t : Text) :
    uncommented p q t = dropComment t := by
  rw [dropComment_eq]
  cases t with
  | nil => rfl
  | cons b t =>
    rw [uncommented, uncommented, beq_false_of_ne hx, show (0 == byte 'x') = false by decide,
      Bool.and_false, Bool.and_false, uncommented_of_ne_zero hzero]

/-- A text `t` without a `#` has no comment. -/
theorem uncommented_of_not_mem {t : Text} (ht : byte '#' ∉ t) (p q : UInt8) :
    uncommented p q t = t := by
  obtain ⟨k, hstart, htake⟩ := take_commentStart 0 p q t
  rw [commentStart_of_not_mem ht, Nat.zero_add, Nat.zero_add] at hstart
  rw [← htake, ← hstart, List.take_length]

/-- A comment in the text `t` hides all that comes after it; without one, what comes after it is
looked at. -/
theorem uncommented_append (p q : UInt8) (t : Text) :
    (∀ u, uncommented p q (t ++ u) = uncommented p q t) ∨
      ∃ p' q', ∀ u, uncommented p q (t ++ u) = t ++ uncommented p' q' u := by
  induction t generalizing p q with
  | nil => exact .inr ⟨p, q, fun u => rfl⟩
  | cons b t ih =>
    by_cases hstart : (b == byte '#' && !(p == byte '0' && q == byte 'x')) = true
    · refine .inl fun u => ?_
      rw [List.cons_append, uncommented, uncommented, if_pos hstart, if_pos hstart]
    · have hcons : ∀ u, uncommented p q (b :: u) = b :: uncommented q b u := fun u => if_neg hstart
      rcases ih q b with h | ⟨p', q', h⟩
      · refine .inl fun u => ?_
        rw [List.cons_append, hcons, hcons, h]
      · refine .inr ⟨p', q', fun u => ?_⟩
        rw [List.cons_append, hcons, h, List.cons_append]

section White

variable {w w' : Text}

/-- There is no comment in white space `w`, and none is hidden by it. -/
theorem dropComment_blanks_append (hw : Blanks w) (t : Text) :
    dropComment (w ++ t) = w ++ dropComment t := by
  -- The induction goes from byte to byte, so all that is kept of the white space is that none of
  -- its bytes can be seen: what is left of an encoding without its first byte is no white space.
  have hunseen := hw.not_visible
  clear hw
  induction w with
  | nil => rfl
  | cons b w ih =>
    have hne : ∀ c, isVisible c = true → b ≠ c := fun c hc =>
      (ne_of_test hc (hunseen b List.mem_cons_self)).symm
    have hrest := ih fun c hc => hunseen c (List.mem_cons_of_mem b hc)
    rw [dropComment_eq, List.cons_append, uncommented, beq_false_of_ne (hne (byte '#') (by decide)),
      Bool.false_and, if_neg Bool.false_ne_true, List.cons_append,
      uncommented_of_ne (hne (byte '0') (by decide)) (hne (byte 'x') (by decide)), hrest]

/-- White space `w` and `w'` around a text makes no difference to what is left of it without comment
and white space. -/
theorem trim_dropComment_blanks (hw : Blanks w) (hw' : Blanks w') (t : Text) :
    Text.trim (dropComment (w ++ t ++ w')) = Text.trim (dropComment t) := by
  rw [List.append_assoc, dropComment_blanks_append hw, Text.trim_blanks_append hw, dropComment_eq,
    dropComment_eq]
  rcases uncommented_append 0 0 t with h | ⟨p, q, h⟩
  · rw [h]
  · have hself := h []
    rw [List.append_nil] at hself
    rw [h, hself, uncommented_of_not_mem (not_mem_of_blanks hw' (by decide)),
      Text.trim_append_blanks t hw']
    rw [uncommented, List.append_nil]

/-- A carriage return at the end of a line is white space, `w`. -/
theorem exists_blanks_dropReturn (line : Text) :
    ∃ w, Blanks w ∧ line = Input.dropReturn line ++ w := by
  unfold Input.dropReturn
  split
  · rename_i hlast
    obtain ⟨start, rfl⟩ := List.getLast?_eq_some_iff.mp (beq_iff_eq.mp hlast)
    exact ⟨_, Text.blanks_return, by rw [List.dropLast_concat]⟩
  · exact ⟨[], .nil, (List.append_nil line).symm⟩

/-- **The content of a line is what is left of it without comment and white space.** It makes no
difference that white space is taken away before the comment as well. -/
theorem content_eq (line : Text) : content line = Text.trim (dropComment line) := by
  obtain ⟨r, hr, hreturn⟩ := exists_blanks_dropReturn line
  obtain ⟨w, w', hw, hw', htrim⟩ := Text.exists_blanks_trim (Input.dropReturn line)
  -- What was taken away at first is put back, from the inside out.
  calc content line
      = Text.trim (dropComment (w ++ Text.trim (Input.dropReturn line) ++ w')) :=
        (trim_dropComment_blanks hw hw' _).symm
    _ = Text.trim (dropComment ([] ++ Input.dropReturn line ++ r)) := by
        rw [← htrim, trim_dropComment_blanks .nil hr]
    _ = Text.trim (dropComment line) := by rw [List.nil_append, ← hreturn]

/-- White space `w` and `w'` at the ends of a line makes no difference to its content. -/
theorem content_blanks (hw : Blanks w) (hw' : Blanks w') (line : Text) :
    content (w ++ line ++ w') = content line := by
  rw [content_eq, content_eq, trim_dropComment_blanks hw hw']

/-- A comment `c` after a space makes no difference to the content of a line. -/
theorem content_comment (line c : Text) : content (line ++ " #" ++ c) = content line := by
  have hcomment : Text.ofString " #" ++ c = byte ' ' :: byte '#' :: c := rfl
  rw [content_eq, content_eq, dropComment_eq, dropComment_eq, List.append_assoc, hcomment]
  rcases uncommented_append 0 0 line with h | ⟨p, q, h⟩
  · rw [h]
  · have hself := h []
    have hspace : uncommented p q (byte ' ' :: byte '#' :: c) = [byte ' '] := by
      rw [uncommented, show (byte ' ' == byte '#') = false by decide, Bool.false_and,
        if_neg Bool.false_ne_true, uncommented, show (byte ' ' == byte 'x') = false by decide,
        Bool.and_false, if_pos (by decide)]
    rw [List.append_nil, uncommented, List.append_nil] at hself
    rw [h, hself, hspace, Text.trim_append_blanks line Text.blanks_space]

end White

/-- A line that is blank, or holds only a comment. -/
inductive Void : Text → Prop
  | blank {w : Text} (hw : Blanks w) : Void w
  | comment {w : Text} (hw : Blanks w) (c : Text) : Void (w ++ byte '#' :: c)

/-- A line that is `Void` has no content. -/
theorem Void.content_eq_nil {line : Text} (h : Void line) : content line = [] := by
  cases h with
  | @blank w hw =>
    have hcontent := content_blanks hw .nil []
    rwa [List.append_nil, List.append_nil] at hcontent
  | @comment w hw c =>
    have hcomment : dropComment (byte '#' :: c) = [] := by
      rw [dropComment_eq, uncommented, if_pos (by decide)]
    rw [content_eq, dropComment_blanks_append hw, hcomment, Text.trim_blanks_append hw]
    rfl

/-! ## Changes of the layout -/

/-- A change of the layout of a source that puts in `count` lines after the first `n` ones. -/
inductive Edit : List Text → List Text → Nat → Nat → Prop
  /-- A comment after a space, at the end of a line. -/
  | comment (before : List Text) (line c : Text) (after : List Text) :
      Edit (before ++ line :: after) (before ++ (line ++ " #" ++ c) :: after) before.length 0
  /-- White space at the ends of a line. -/
  | blanks (before : List Text) (line : Text) (after : List Text) {w w' : Text} (hw : Blanks w)
      (hw' : Blanks w') :
      Edit (before ++ line :: after) (before ++ (w ++ line ++ w') :: after) before.length 0
  /-- A carriage return in front of the line feed. -/
  | carriageReturn (before : List Text) (line : Text) (after : List Text) :
      Edit (before ++ line :: after) (before ++ (line ++ "\r") :: after) before.length 0
  /-- A line that is blank, or holds only a comment. -/
  | void (before after : List Text) {line : Text} (hline : Void line) :
      Edit (before ++ after) (before ++ line :: after) before.length 1
  /-- A data section inside a text section. -/
  | data (before after : List Text) (hin : inText (before ++ after) before.length = true)
      {opening closing : Text} {lines : List Text} (hopening : section? opening = some false)
      (hlines : ∀ line ∈ lines, section? line = none) (hclosing : section? closing = some true) :
      Edit (before ++ after) (before ++ (opening :: lines ++ [closing]) ++ after) before.length
        (lines.length + 2)

/-- Any number of changes of the layout, with the new number `place` of each line. -/
inductive Relaid : List Text → List Text → (Int → Int) → Prop
  | refl (lines : List Text) : Relaid lines lines id
  | edit {lines lines' lines'' : List Text} {place : Int → Int} {n count : Nat}
      (h : Relaid lines lines' place) (hedit : Edit lines' lines'' n count) :
      Relaid lines lines'' (numberAfter n count ∘ place)

/-- Lines that are displaced twice, by `place` and by `place'`. -/
theorem displaced_trans {place place' : Int → Int} {lines lines' lines'' : List SourceLine}
    (h : List.Forall₂ (SourceLine.Displaced place 0) lines lines')
    (h' : List.Forall₂ (SourceLine.Displaced place' 0) lines' lines'') :
    List.Forall₂ (SourceLine.Displaced (place' ∘ place) 0) lines lines'' := by
  induction h generalizing lines'' with
  | nil =>
    cases h'
    exact .nil
  | cons hline _ ih =>
    cases h' with
    | cons hline' hrest =>
      refine .cons ⟨?_, hline'.label.trans hline.label, hline'.instr.trans hline.instr,
        hline'.pc.trans hline.pc⟩ (ih hrest)
      rw [hline'.lineNo, hline.lineNo, Function.comp_apply]

namespace Scan

/-- Two sources of which the reading gives the same source lines, but for their numbers and texts,
or ends with the same fault; `place` gives the new number of each line. -/
structure SameLines (place : Int → Int) (lines lines' : List Text) : Prop where
  fault : (readOn {} lines').fault = (readOn {} lines).fault
  lines : (readOn {} lines).fault = none →
    List.Forall₂ (SourceLine.Displaced place 0) (readOn {} lines).lines.toList
      (readOn {} lines').lines.toList

section Edits

variable {before rest rest' : List Text} {place place' : Int → Int}

/-- A reading that has ended before a change, in the lines `before`, does not get to it. -/
theorem sameLines_of_going
    (h : (readOn {} before).fault = none → SameLines place (before ++ rest) (before ++ rest')) :
    SameLines place (before ++ rest) (before ++ rest') := by
  by_cases hgoing : (readOn {} before).fault = none
  · exact h hgoing
  · have hended := Option.isSome_iff_ne_none.mpr hgoing
    constructor
    · rw [readOn_append, readOn_append, readOn_of_ended hended, readOn_of_ended hended]
    · rw [readOn_append, readOn_of_ended hended]
      exact fun hnone => absurd hnone hgoing

/-- Two readings that keep their distance from the place of the change on. -/
theorem InStep.sameLines {m : Nat} {s' : Scan} (hgoing : (readOn {} before).fault = none)
    (hlines : s'.lines = (readOn {} before).lines)
    (h : InStep m 0 (readOn {} before) s' (readOn {} (before ++ rest))
      (readOn {} (before ++ rest'))) :
    SameLines (numberAfter before.length m) (before ++ rest) (before ++ rest') := by
  have hreads := reads_readOn hgoing []
  obtain ⟨new, new', hnew, hnew', hmoved, hlater⟩ := h.lines
  rw [hreads.lineNo] at hlater
  refine ⟨h.ahead.fault, fun _ => ?_⟩
  rw [hnew, hnew', hlines]
  exact List.rel_append (displaced_before m hreads.lineNo_le) (displaced_after hmoved hlater)

/-- A `line` that is changed to `line'`, of the same content. -/
theorem sameLines_of_content {line line' : Text} (h : content line = content line')
    (after : List Text) :
    SameLines (numberAfter before.length 0) (before ++ line :: after)
      (before ++ line' :: after) := by
  refine sameLines_of_going fun hgoing => InStep.sameLines hgoing rfl ?_
  have hahead : Ahead 0 0 (readOn {} before) (readOn {} before) := ⟨rfl, rfl, rfl, rfl⟩
  rw [readOn_append, readOn_append]
  exact hahead.readOn (.cons h (List.forall₂_same.mpr fun _ _ => rfl))

/-- Lines that are put in after `before` and passed over. -/
theorem sameLines_of_passed {m : Nat} {lines : List Text}
    (h : (readOn {} before).fault = none →
      (readOn {} before).Passed m ((readOn {} before).readOn lines)) (after : List Text) :
    SameLines (numberAfter before.length m) (before ++ after) (before ++ (lines ++ after)) := by
  refine sameLines_of_going fun hgoing => InStep.sameLines hgoing (h hgoing).lines ?_
  rw [readOn_append, readOn_append, readOn_append]
  exact (h hgoing).ahead.readOn_same after

/-- **One change of the layout keeps the source lines**, with the numbers that `numberAfter`
says. -/
theorem sameLines_of_edit {lines lines' : List Text} {n count : Nat}
    (h : Edit lines lines' n count) :
    SameLines (numberAfter n count) lines lines' := by
  cases h with
  | comment before line c after => exact sameLines_of_content (content_comment line c).symm after
  | blanks before line after hw hw' =>
    exact sameLines_of_content (content_blanks hw hw' line).symm after
  | carriageReturn before line after =>
    exact sameLines_of_content (content_blanks .nil Text.blanks_return line).symm after
  | @void before after line hline =>
    have hpassed : (readOn {} before).fault = none →
        (readOn {} before).Passed 1 ((readOn {} before).readOn [line]) := fun hgoing =>
      passed_of_content_eq_nil hgoing hline.content_eq_nil
    exact sameLines_of_passed hpassed after
  | @data before after hin opening closing lines hopening hlines hclosing =>
    rw [List.append_assoc]
    refine sameLines_of_passed (fun hgoing => ?_) after
    have hsection := (reads_readOn hgoing after).inText.trans hin
    exact passed_data hgoing hsection hopening hlines hclosing

/-- One change after another, with the numbers `place' ∘ place`. -/
theorem SameLines.trans {lines lines' lines'' : List Text} (h : SameLines place lines lines')
    (h' : SameLines place' lines' lines'') : SameLines (place' ∘ place) lines lines'' where
  fault := h'.fault.trans h.fault
  lines := by
    intro hgoing
    exact displaced_trans (h.lines hgoing) (h'.lines (h.fault.trans hgoing))

/-- **Any number of changes of the layout keep the source lines**, with the new number `place` of
each. -/
theorem sameLines_of_relaid {lines lines' : List Text} (h : Relaid lines lines' place) :
    SameLines place lines lines' := by
  induction h with
  | refl => exact ⟨rfl, fun _ => List.forall₂_same.mpr fun _ _ => ⟨rfl, rfl, rfl, rfl⟩⟩
  | edit _ hedit ih => exact ih.trans (sameLines_of_edit hedit)

end Edits

end Scan

/-- Lines that get other numbers only have the same labels. -/
theorem ofLines_displaced {place : Int → Int} {lines lines' : List SourceLine}
    (h : List.Forall₂ (SourceLine.Displaced place 0) lines lines') :
    Labels.ofLines lines' = Labels.ofLines lines := by
  have hfold : ∀ labels : Labels,
      lines'.foldl Labels.withLine labels = lines.foldl Labels.withLine labels := by
    induction h with
    | nil => exact fun labels => rfl
    | @cons line line' _ _ hline _ ih =>
      intro labels
      have hsame : labels.withLine line' = labels.withLine line := by
        rw [Labels.withLine, Labels.withLine, hline.label, hline.pc]
        rfl
      rw [List.foldl_cons, List.foldl_cons, hsame, ih]
  exact hfold {}

end WordMachine.Asm

namespace WordMachine.Assembler

open Asm

/-! ## Programs -/

/-- A source is accepted if it is read to its end and no source line is faulty. -/
theorem exists_parse_ok_iff (asm : Assembler) (input : Input) :
    (∃ p, (asm.parse input).result = .ok p) ↔
      (Scan.ofInput input).fault = none ∧ ∀ line ∈ (Scan.ofInput input).lines.toList,
        isGood (encodeLine asm.strict (Labels.ofLines (Scan.ofInput input).lines.toList) line) =
          true := by
  constructor
  · rintro ⟨p, hp⟩
    have hassembled := assembled_of_parse hp
    refine ⟨fault_of_parse hp, ?_⟩
    rw [← hassembled.labels]
    exact hassembled.good
  · rintro ⟨hscan, hgood⟩
    obtain ⟨p, hp, -⟩ := parse_of_good asm hscan hgood
    exact ⟨p, hp⟩

/-- Lines that get other numbers only are faulty as before. -/
theorem good_displaced_iff {strict : Bool} {labels : Labels} {place : Int → Int}
    {lines lines' : List SourceLine}
    (h : List.Forall₂ (SourceLine.Displaced place 0) lines lines') :
    (∀ line ∈ lines', isGood (encodeLine strict labels line) = true) ↔
      ∀ line ∈ lines, isGood (encodeLine strict labels line) = true := by
  induction h with
  | nil => simp
  | cons hline _ ih =>
    rw [List.forall_mem_cons, List.forall_mem_cons, ih]
    simp only [isGood, encodeLine, hline.instr, hline.pc, Nat.add_zero]

/-- **Layout does not matter.** A source with another layout, `Relaid`, is accepted if the source
is. Its program `p'` has the same labels and the same entries as `p`, each with the new number
`place` of its line. -/
theorem parse_relaid (asm : Assembler) {input input' : Input} {lines lines' : List Text}
    {place : Int → Int} (hinput : input.HasLines lines) (hinput' : input'.HasLines lines')
    (hfits : ∀ line ∈ lines, line.length < Input.maxLineLength)
    (hfits' : ∀ line ∈ lines', line.length < Input.maxLineLength) (h : Relaid lines lines' place) :
    ((∃ p', (asm.parse input').result = .ok p') ↔ ∃ p, (asm.parse input).result = .ok p) ∧
      ∀ p p', (asm.parse input).result = .ok p → (asm.parse input').result = .ok p' →
        p'.entries.toList = p.entries.toList.map (fun e => { e with lineNo := place e.lineNo }) ∧
        p'.labels = p.labels := by
  obtain ⟨hfault, hlines⟩ := Scan.sameLines_of_relaid h
  rw [← Scan.ofInput_eq_readOn hinput hfits, ← Scan.ofInput_eq_readOn hinput' hfits']
    at hfault hlines
  constructor
  · rw [exists_parse_ok_iff, exists_parse_ok_iff, hfault]
    refine and_congr_right fun hgoing => ?_
    rw [ofLines_displaced (hlines hgoing)]
    exact good_displaced_iff (hlines hgoing)
  · intro p p' hp hp'
    have hdisplaced := hlines (fault_of_parse hp)
    have hassembled := assembled_of_parse hp
    have hassembled' := assembled_of_parse hp'
    have hlabels : p'.labels = p.labels := by
      rw [hassembled'.labels, hassembled.labels, ofLines_displaced hdisplaced]
    refine ⟨?_, hlabels⟩
    rw [hassembled'.entries, hlabels,
      (encodeLines_displaced hdisplaced (resolves_self p.labels) hassembled.good).2,
      ← hassembled.entries, Entry.displaced_zero]

set_option maxRecDepth 10000 in
/-- A change of each kind: a comment, a no-break space and a tab in front of a line, a line with a
comment only, a data section whose lines look like code, and a carriage return. -/
theorem parse_relaid_everywhere :
    ∃ p p', (({} : Assembler).parse
        ⟨Input.unlines [".text", "a: addi $1, $0, 7", "j a"], none⟩).result = .ok p ∧
      (({} : Assembler).parse
        ⟨Input.unlines [".text\r", "# start", "\u00a0\ta: addi $1, $0, 7 #0x#7", ".data", "a: j",
          ".text", "j a"], none⟩).result = .ok p' ∧
      p.entries.toList.map (fun e => (e.lineNo, e.pc)) = [(2, 0), (3, 1)] ∧
      p'.entries.toList.map (fun e => (e.lineNo, e.pc)) = [(3, 0), (7, 1)] ∧
      p'.image = p.image ∧ p'.labels = p.labels := by
  have hnbsp : ("\u00a0" : Text) ∈ Text.blankCodes := by decide +kernel
  have htab : ("\t" : Text) ∈ Text.blankCodes := by decide +kernel
  have hcomment : Void ("# start" : Text) := .comment .nil " start"
  have hopening : section? ".data" = some false := by decide +kernel
  have hline : ∀ line ∈ [("a: j" : Text)], section? line = none := by decide +kernel
  have hclosing : section? ".text" = some true := by decide +kernel
  have hrelaid := (Relaid.refl [".text", "a: addi $1, $0, 7", "j a"]).edit
    (.comment [".text"] "a: addi $1, $0, 7" "0x#7" ["j a"])
  have hrelaid := hrelaid.edit (.blanks [".text"] _ ["j a"] (.cons hnbsp (.cons htab .nil)) .nil)
  have hrelaid := hrelaid.edit (.void [".text"] _ hcomment)
  have hrelaid := hrelaid.edit
    (.data [".text", "# start", _] ["j a"] (by decide +kernel) hopening hline hclosing)
  have hrelaid := hrelaid.edit (.carriageReturn [] ".text" _)
  obtain ⟨hiff, hsame⟩ := parse_relaid {}
    (show Input.HasLines ⟨Input.unlines [".text", "a: addi $1, $0, 7", "j a"], none⟩ _ from
      ⟨by decide +kernel, rfl⟩)
    (show Input.HasLines ⟨Input.unlines [".text\r", "# start", "\u00a0\ta: addi $1, $0, 7 #0x#7",
      ".data", "a: j", ".text", "j a"], none⟩ _ from ⟨by decide +kernel, rfl⟩)
    (by decide +kernel) (by decide +kernel) hrelaid
  obtain ⟨p, hp, hplaces⟩ := exists_ok_of_toOption_map
    (x := (({} : Assembler).parse
      ⟨Input.unlines [".text", "a: addi $1, $0, 7", "j a"], none⟩).result)
    (f := fun p => p.entries.toList.map fun e => (e.lineNo, e.pc)) (b := [(2, 0), (3, 1)])
    (by decide +kernel)
  obtain ⟨p', hp'⟩ := hiff.mpr ⟨p, hp⟩
  obtain ⟨hentries, hlabels⟩ := hsame p p' hp hp'
  refine ⟨p, p', hp, hp', hplaces, ?_, ?_, hlabels⟩
  · have hmoved := congrArg (List.map (Prod.map (numberAfter 0 0 ∘ numberAfter 3 3 ∘
      numberAfter 1 1 ∘ numberAfter 1 0 ∘ numberAfter 1 0 ∘ id) id)) hplaces
    rw [List.map_map] at hmoved
    rw [hentries, List.map_map]
    exact hmoved.trans (by decide)
  · rw [Program.image, hentries, List.map_map]
    rfl

end WordMachine.Assembler
