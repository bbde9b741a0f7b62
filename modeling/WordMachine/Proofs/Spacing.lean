import WordMachine.Proofs.FirstError
import WordMachine.Proofs.Layout

/-!
# White space between operands

The name of an instruction ends at any white space, but only some white-space characters separate
operands: tab, form feed, carriage return and space. One of these may stand for another one between
the name and the operands of an instruction. Any other white-space character becomes a part of an
operand, so that it cannot be exchanged for another one without a change of the words of the
instruction.

* `Asm.operandList_spaced_iff` says so for a list of operands.
* `Assembler.parse_spaced_iff` says so for a source, and `Assembler.parse_no_break_space` is a
  source that is not accepted any more.
-/

namespace WordMachine.Asm

open Text (byte isVisible Blanks not_mem_of_blanks)

/-! ## Operands -/

/-- The characters that separate operands, as commas do. -/
def gaps : List Char :=
  ['\t', '\n', '\u000c', '\r', ' ']

/-- A gap `b` in the middle separates the operands before it from those after it. -/
theorem operandList_append_gap {b : UInt8} (hb : isGap b = true) (s t : Text) :
    operandList (s ++ b :: t) = operandList s ++ operandList t := by
  rw [operandList, List.splitOnP_append_cons s t (by rw [hb, Bool.or_true]), List.filter_append]
  rfl

/-- Nothing but commas and gaps is lost between operands. -/
theorem flatten_operandList (t : Text) :
    (operandList t).flatten = t.filter fun b => !(b == byte ',' || isGap b) := by
  rw [operandList, List.flatten_filter_not_isEmpty]
  induction t with
  | nil => rfl
  | cons b t ih =>
    rw [List.splitOnP_cons_eq_if_modifyHead]
    split
    · rename_i hb
      rw [List.flatten_cons, List.nil_append, ih, List.filter_cons_of_neg (by simp [hb])]
    · rename_i hb
      obtain ⟨first, rest, hsplit⟩ := List.exists_cons_of_ne_nil
        (List.splitOnP_ne_nil (fun b => b == byte ',' || isGap b) t)
      rw [hsplit] at ih ⊢
      rw [List.modifyHead_cons, List.flatten_cons, List.cons_append, ← List.flatten_cons, ih,
        List.filter_cons_of_pos (by simpa using hb)]

/-- A text with the character `c` between two parts. -/
def spaced (u : Text) (c : Char) (v : Text) : Text :=
  u ++ String.utf8EncodeChar c ++ v

/-- What is left of two white-space characters `c` and `c'` without commas and gaps differs, unless
both are gaps. -/
theorem eq_or_gaps_of_filter {c c' : Char} (hc : c ∈ Text.blanks) (hc' : c' ∈ Text.blanks)
    (h : (String.utf8EncodeChar c).filter (fun b => !(b == byte ',' || isGap b)) =
      (String.utf8EncodeChar c').filter fun b => !(b == byte ',' || isGap b)) :
    c = c' ∨ c ∈ gaps ∧ c' ∈ gaps := by
  have hall : Text.blanks.all (fun c => Text.blanks.all fun c' => decide
      ((String.utf8EncodeChar c).filter (fun b => !(b == byte ',' || isGap b)) =
          (String.utf8EncodeChar c').filter (fun b => !(b == byte ',' || isGap b)) →
        c = c' ∨ c ∈ gaps ∧ c' ∈ gaps)) = true := by
    decide +kernel
  exact of_decide_eq_true (List.all_eq_true.mp (List.all_eq_true.mp hall c hc) c' hc') h

/-- A gap is one byte. -/
theorem exists_byte_of_gaps {c : Char} (hc : c ∈ gaps) :
    ∃ b, String.utf8EncodeChar c = [b] ∧ isGap b = true := by
  have hall : gaps.all (fun c => (String.utf8EncodeChar c).length == 1 &&
      (String.utf8EncodeChar c).all isGap) = true := by
    decide +kernel
  have hgap := List.all_eq_true.mp hall c hc
  rw [Bool.and_eq_true, beq_iff_eq, List.all_eq_true] at hgap
  obtain ⟨b, hb⟩ := List.length_eq_one_iff.mp hgap.1
  exact ⟨b, hb, hgap.2 b (hb ▸ List.mem_cons_self)⟩

theorem operandList_spaced_gap {c : Char} (hc : c ∈ gaps) (s t : Text) :
    operandList (spaced s c t) = operandList s ++ operandList t := by
  obtain ⟨b, hb, hgap⟩ := exists_byte_of_gaps hc
  rw [spaced, hb, List.append_assoc, List.singleton_append]
  exact operandList_append_gap hgap s t

/-- **The white-space character `c'` can stand for `c` between operands exactly if both are
gaps.** -/
theorem operandList_spaced_iff {c c' : Char} (hc : c ∈ Text.blanks) (hc' : c' ∈ Text.blanks)
    (s t : Text) :
    operandList (spaced s c t) = operandList (spaced s c' t) ↔ c = c' ∨ c ∈ gaps ∧ c' ∈ gaps := by
  constructor
  · intro h
    have hflat := congrArg List.flatten h
    rw [flatten_operandList, flatten_operandList, spaced, spaced, List.filter_append,
      List.filter_append, List.filter_append, List.filter_append, List.append_cancel_right_eq,
      List.append_cancel_left_eq] at hflat
    exact eq_or_gaps_of_filter hc hc' hflat
  · rintro (rfl | ⟨hgap, hgap'⟩)
    · rfl
    · rw [operandList_spaced_gap hgap, operandList_spaced_gap hgap']

/-- Characters that can stand for each other between operands have codes of the same length. -/
theorem length_spaced {c c' : Char} (h : c = c' ∨ c ∈ gaps ∧ c' ∈ gaps) (u v : Text) :
    (spaced u c' v).length = (spaced u c v).length := by
  rcases h with rfl | ⟨hc, hc'⟩
  · rfl
  · obtain ⟨b, hb, -⟩ := exists_byte_of_gaps hc
    obtain ⟨b', hb', -⟩ := exists_byte_of_gaps hc'
    rw [spaced, spaced, hb, hb']
    simp only [List.length_append, List.length_cons]

/-! ## The place between operands -/

/-- The parts `u` and `v` of an instruction line before and after a place behind the name of the
instruction: the place is not in a comment, the label, if there is one, and the name stand before
it, and something stands after it. -/
structure Between (u v : Text) : Prop where
  uncommented : dropComment u = u
  named : (instr? u).isSome = true
  labelled : byte ':' ∈ dropComment v → byte ':' ∈ u
  followed : Text.trim (dropComment v) ≠ []

/-- A text `u` that has no comment has none when more is written after it. -/
theorem uncommented_append_of_eq {p q : UInt8} {u : Text} (h : uncommented p q u = u) :
    ∃ p' q', ∀ t, uncommented p q (u ++ t) = u ++ uncommented p' q' t := by
  induction u generalizing p q with
  | nil => exact ⟨p, q, fun t => rfl⟩
  | cons b u ih =>
    rw [uncommented] at h
    split at h
    · cases h
    · rename_i hb
      obtain ⟨p', q', hrest⟩ := ih (List.cons.inj h).2
      refine ⟨p', q', fun t => ?_⟩
      rw [List.cons_append, uncommented, if_neg hb, hrest, List.cons_append]

/-- Where the white space `w` stands, a comment starts as it does at the start of a line. -/
theorem uncommented_blanks_append {w : Text} (hw : Blanks w) (hne : w ≠ []) (p q : UInt8)
    (t : Text) :
    uncommented p q (w ++ t) = w ++ dropComment t := by
  rw [← dropComment_blanks_append hw, dropComment_eq]
  obtain ⟨b, w, rfl⟩ := List.exists_cons_of_ne_nil hne
  have hb : ∀ c, isVisible c = true → b ≠ c := fun c hc =>
    (ne_of_test hc (hw.not_visible b List.mem_cons_self)).symm
  rw [List.cons_append, uncommented, uncommented, beq_false_of_ne (hb (byte '#') (by decide)),
    Bool.false_and, Bool.false_and,
    uncommented_of_ne (hb (byte '0') (by decide)) (hb (byte 'x') (by decide)),
    uncommented_of_ne (hb (byte '0') (by decide)) (hb (byte 'x') (by decide))]

/-- A line with an instruction opens no section and is not blank. -/
theorem body_of_instr? {line : Text} (h : (instr? line).isSome = true) :
    body line ≠ [] ∧ section? line = none ∧ content line ≠ [] := by
  have hbody : body line ≠ [] := by
    intro hnil
    rw [instr?, if_pos hnil] at h
    cases h
  have hsection : section? line = none := by
    by_contra hsome
    exact hbody (if_pos (Option.isSome_iff_ne_none.mpr hsome))
  refine ⟨hbody, hsection, fun hnil => hbody ?_⟩
  rw [body, hsection, hnil]
  rfl

theorem utf8EncodeChar_ne_nil {c : Char} (hc : c ∈ Text.blanks) : String.utf8EncodeChar c ≠ [] :=
  (Text.prefixFree_blankCodes _ (List.mem_map_of_mem hc)).1

theorem blanks_of_mem {c : Char} (hc : c ∈ Text.blanks) : Blanks (String.utf8EncodeChar c) := by
  have hcoded : Blanks (String.utf8EncodeChar c ++ []) := .cons (List.mem_map_of_mem hc) .nil
  rwa [List.append_nil] at hcoded

/-- The first field ends where the white space `c` is, or before. -/
theorem splitField_spaced {c : Char} (hc : c ∈ Text.blanks) (s t : Text) :
    Text.splitField (spaced s c t) = ((Text.splitField s).1, spaced (Text.splitField s).2 c t) :=
  Text.splitField_append_code (List.mem_map_of_mem hc) s t

/-- A line with an instruction says so, unless something is wrong with it. -/
theorem ofLine_of_instr? {line : Text} (hformed : malformation? line = none)
    (hinstr : (instr? line).isSome = true) :
    Statement.ofLine (Text.trim (Input.dropReturn line)) = .code (label? line) (instr? line) := by
  have hnone : instr? line ≠ none := Option.isSome_iff_ne_none.mp hinstr
  have hsays := says_ofLine line
  generalize Statement.ofLine (Text.trim (Input.dropReturn line)) = statement at hsays
  cases hsays with
  | blank _ hno => exact absurd hno hnone
  | textSection hsection => exact absurd (nothing_of_section hsection).2 hnone
  | dataSection hsection => exact absurd (nothing_of_section hsection).2 hnone
  | code => rfl
  | malformed _ hfault =>
    rw [hformed] at hfault
    cases hfault

section Place

variable {u v : Text} (h : Between u v)

include h

/-- There is no comment before the white space `c`, and none is hidden by it. -/
theorem Between.dropComment_spaced {c : Char} (hc : c ∈ Text.blanks) :
    dropComment (spaced u c v) = spaced u c (dropComment v) := by
  have hwhole := h.uncommented
  rw [dropComment_eq] at hwhole
  obtain ⟨p, q, hafter⟩ := uncommented_append_of_eq hwhole
  rw [spaced, spaced, dropComment_eq, List.append_assoc, hafter,
    uncommented_blanks_append (blanks_of_mem hc) (utf8EncodeChar_ne_nil hc), List.append_assoc]

/-- The content of the line: the white space `c` in its middle is not trimmed, and neither is white
space directly before it. -/
theorem Between.content_spaced : ∃ z t, Blanks z ∧ t ≠ [] ∧ Text.trimEnd t = t ∧ t ⊆ dropComment v ∧
    ∀ c ∈ Text.blanks, content (spaced u c v) = spaced (Text.trim u ++ z) c t := by
  obtain ⟨z, hz, hbefore⟩ := Text.exists_blanks_trimEnd (Text.trimStart u)
  obtain ⟨w, hw, hafter⟩ := Text.exists_blanks_trimEnd (dropComment v)
  rw [← Text.trim] at hbefore
  have hstart : Text.trimStart u ≠ [] := by
    have hcontent := (body_of_instr? h.named).2.2
    rw [content_eq, h.uncommented] at hcontent
    rw [hbefore]
    exact List.append_ne_nil_of_left_ne_nil hcontent z
  have hend : Text.trimEnd (dropComment v) ≠ [] := by
    intro hnil
    apply h.followed
    rw [hafter, hnil, Text.trim_append_blanks [] hw]
    rfl
  refine ⟨z, Text.trimEnd (dropComment v), hz, hend, ?_, ?_, fun c hc => ?_⟩
  · exact Text.trimEnd_eq_self fun code hcode => Text.not_suffix_trimEnd hcode _
  · intro b hb
    rw [hafter]
    exact List.mem_append_left w hb
  · rw [content_eq, h.dropComment_spaced hc, ← hbefore]
    exact Text.trim_append_code (List.mem_map_of_mem hc) hstart hend

/-- **White space behind the name leaves the label of the line as it is**, and it stands in the
`body` of the line. -/
theorem Between.body_spaced : ∃ s t, s ≠ [] ∧ ∀ c ∈ Text.blanks,
    label? (spaced u c v) = label? u ∧ body (spaced u c v) = spaced s c t := by
  obtain ⟨hbody, hsection, hnonempty⟩ := body_of_instr? h.named
  obtain ⟨z, t, hz, ht, hend, hsubset, hcontent⟩ := h.content_spaced
  have hu : content u = Text.trim u := by rw [content_eq, h.uncommented]
  have hsection' : ∀ c ∈ Text.blanks, section? (spaced u c v) = none := by
    intro c hc
    have hfield : Text.firstField (content (spaced u c v)) = Text.firstField (content u) := by
      rw [hcontent c hc, Text.firstField, splitField_spaced hc, hu]
      exact Text.firstField_append_blanks hz _
    rw [section?] at hsection ⊢
    rw [hfield]
    exact hsection
  by_cases hcolon : byte ':' ∈ u
  · -- The label is cut off in the part before the white space.
    obtain ⟨name, r, htrim, hname⟩ :=
      List.eq_append_cons_of_mem ((Text.mem_trim_iff (by decide)).mpr hcolon)
    obtain ⟨hlabel, hrest⟩ := parts_of_cut? hsection (by rw [hu, htrim, cut?_append_cons hname])
    have hstart : Text.trimStart (r ++ z) ≠ [] := by
      intro hnil
      apply hbody
      rw [hrest, ← Text.trim_append_blanks r hz, Text.trim, hnil]
      rfl
    refine ⟨Text.trimStart (r ++ z), t, hstart, fun c hc => ?_⟩
    have hsplit : spaced (Text.trim u ++ z) c t = name ++ byte ':' :: spaced (r ++ z) c t := by
      rw [htrim, spaced, spaced]
      simp only [List.append_assoc, List.cons_append]
    obtain ⟨hlabel', hrest'⟩ := parts_of_cut? (hsection' c hc)
      (by rw [hcontent c hc, hsplit, cut?_append_cons hname])
    have hmiddle := Text.trim_append_code (List.mem_map_of_mem hc) hstart (hend.symm ▸ ht)
    rw [hend] at hmiddle
    exact ⟨hlabel'.trans hlabel.symm, hrest'.trans hmiddle⟩
  · -- Without a colon before the white space there is none after it.
    have hbefore : byte ':' ∉ Text.trim u := fun hmem =>
      hcolon ((Text.mem_trim_iff (by decide)).mp hmem)
    have hafter : byte ':' ∉ t := fun hmem => hcolon (h.labelled (hsubset hmem))
    have hlabel := (parts_of_no_cut? hsection (by rw [hu, cut?_of_not_mem hbefore])).1
    refine ⟨Text.trim u ++ z, t, List.append_ne_nil_of_left_ne_nil (hu ▸ hnonempty) z,
      fun c hc => ?_⟩
    have hwhole : byte ':' ∉ spaced (Text.trim u ++ z) c t := by
      rw [spaced, List.mem_append, List.mem_append, List.mem_append, not_or, not_or, not_or]
      exact ⟨⟨⟨hbefore, not_mem_of_blanks hz (by decide)⟩,
        not_mem_of_blanks (blanks_of_mem hc) (by decide)⟩, hafter⟩
    obtain ⟨hlabel', hrest'⟩ := parts_of_no_cut? (hsection' c hc)
      (by rw [hcontent c hc, cut?_of_not_mem hwhole])
    exact ⟨hlabel'.trans hlabel.symm, hrest'.trans (hcontent c hc)⟩

/-- The instruction on the line: only its operands depend on the white space `c`. -/
theorem Between.ofLine_spaced {c₀ : Char} (hc₀ : c₀ ∈ Text.blanks)
    (hformed : malformation? (spaced u c₀ v) = none) :
    ∃ name s t, ∀ c ∈ Text.blanks, Statement.ofLine (Text.trim (Input.dropReturn (spaced u c v))) =
      .code (label? u) (some ⟨name, operandList (spaced s c t)⟩) := by
  obtain ⟨s, t, hs, hparts⟩ := h.body_spaced
  have hhead : ∀ c, (spaced s c t).head? = s.head? := by
    intro c
    rw [spaced, List.append_assoc, List.head?_append_of_ne_nil s hs]
  have hfield : ∀ c ∈ Text.blanks, Text.firstField (spaced s c t) = Text.firstField s := by
    intro c hc
    rw [Text.firstField, splitField_spaced hc]
    rfl
  refine ⟨Text.lower (Text.splitField s).1, (Text.splitField s).2, t, fun c hc => ?_⟩
  obtain ⟨hlabel, hbody⟩ := hparts c hc
  obtain ⟨hlabel₀, hbody₀⟩ := hparts c₀ hc₀
  have hwell : malformation? (spaced u c v) = none := by
    rw [malformation?, hlabel₀, hbody₀, hhead, hfield c₀ hc₀] at hformed
    rw [malformation?, hlabel, hbody, hhead, hfield c hc, hformed]
  have hne : spaced s c t ≠ [] := by
    rw [spaced, List.append_assoc]
    exact List.append_ne_nil_of_left_ne_nil hs _
  have hinstr : instr? (spaced u c v) =
      some ⟨Text.lower (Text.splitField s).1, operandList (spaced (Text.splitField s).2 c t)⟩ := by
    rw [instr?, hbody, if_neg hne, splitField_spaced hc]
  rw [ofLine_of_instr? hwell (by rw [hinstr, Option.isSome_some]), hlabel, hinstr]

end Place

/-! ## Readings -/

namespace Scan

variable {before after : List Text} {line line' : Text}

/-- A source that is read to its end has no malformed `line` in a text section. -/
theorem malformation?_of_going (hgoing : (readOn {} (before ++ line :: after)).fault = none)
    (hin : Asm.inText (before ++ line :: after) before.length = true) :
    malformation? line = none := by
  have hline : (before ++ line :: after)[before.length]? = some line := by simp
  rw [readOn_append] at hgoing
  have hstart := fault_of_readOn hgoing
  rw [readOn_cons] at hgoing
  have hends := ((reads_readOn hstart (line :: after)).step_ends hstart hline).2.2
  rwa [fault_of_readOn hgoing, malformedAt?_eq hline, if_pos hin, eq_comm] at hends

/-- **Two lines with instructions**, in sources that are equal otherwise, give source lines that
differ there only. -/
theorem readOn_code {label : Option Text} {i i' : SourceInstr}
    (hgoing : (readOn {} (before ++ line :: after)).fault = none)
    (hin : Asm.inText (before ++ line :: after) before.length = true)
    (hline : Statement.ofLine (Text.trim (Input.dropReturn line)) = .code label (some i))
    (hline' : Statement.ofLine (Text.trim (Input.dropReturn line')) = .code label (some i')) :
    (readOn {} (before ++ line' :: after)).fault = none ∧
      ∃ first src src' rest rest',
        (readOn {} (before ++ line :: after)).lines.toList = first ++ src :: rest ∧
        (readOn {} (before ++ line' :: after)).lines.toList = first ++ src' :: rest' ∧
        src.instr = some i ∧ src'.instr = some i' ∧ (i = i' → SourceLine.Displaced id 0 src src') ∧
        List.Forall₂ (SourceLine.Displaced id 0) rest rest' := by
  rw [readOn_append] at hgoing
  have hstart := fault_of_readOn hgoing
  have htext := (reads_readOn hstart (line :: after)).inText.trans hin
  have hstep := step_of_code hstart htext hline
  have hstep' := step_of_code hstart htext hline'
  have hlines := congrArg (·.lines.toList) hstep
  have hlines' := congrArg (·.lines.toList) hstep'
  rw [Array.toList_push] at hlines hlines'
  have hahead : Ahead 0 0 ((readOn {} before).step (Input.dropReturn line))
      ((readOn {} before).step (Input.dropReturn line')) := by
    rw [hstep, hstep']
    exact ⟨rfl, rfl, rfl, rfl⟩
  have hinstep := hahead.readOn_same after
  obtain ⟨rest, rest', hrest, hrest', hmoved, -⟩ := hinstep.lines
  rw [hlines, List.append_assoc] at hrest
  rw [hlines', List.append_assoc] at hrest'
  rw [readOn_append, readOn_append]
  refine ⟨hinstep.ahead.fault.trans hgoing, _, _, _, rest, rest', hrest, hrest', rfl, rfl, ?_, ?_⟩
  · rintro rfl
    exact ⟨rfl, rfl, rfl, rfl⟩
  · refine hmoved.imp fun _ _ hsame => ⟨?_, hsame.label, hsame.instr, hsame.pc⟩
    rw [hsame.lineNo]
    rfl

end Scan

end WordMachine.Asm

namespace WordMachine.Assembler

open Asm

/-! ## Programs -/

variable {asm : Assembler} {input input' : Input} {p : Program}

/-- The words of the entries are those of the `lines` with instructions. -/
theorem Assembled.map_words_entries {strict : Bool} {lines : List SourceLine}
    (h : Assembled strict lines p) :
    p.entries.toList.map (·.words) = (lines.filter (·.instr.isSome)).map (·.words) := by
  rw [h.entries]
  refine map_entries_of_good (fun line i code hinstr => ?_) h.good
  rw [SourceLine.words, hinstr]

/-- Source lines that are `Displaced` by nothing, and so differ in their texts only, are assembled
to the same program. -/
theorem parse_of_same (hp : (asm.parse input).result = .ok p)
    (hgoing : (Scan.ofInput input').fault = none)
    (h : List.Forall₂ (SourceLine.Displaced id 0) (Scan.ofInput input).lines.toList
      (Scan.ofInput input').lines.toList) :
    ∃ p', (asm.parse input').result = .ok p' ∧ p'.entries = p.entries ∧ p'.labels = p.labels := by
  have hassembled := assembled_of_parse hp
  have hlabels := ofLines_displaced h
  rw [← hassembled.labels] at hlabels
  obtain ⟨hgood, hentries⟩ := encodeLines_displaced h (resolves_self p.labels) hassembled.good
  obtain ⟨p', hp', hassembled', -⟩ := parse_of_good asm hgoing (hlabels.symm ▸ hgood)
  have hsame : p'.labels = p.labels := hassembled'.labels.trans hlabels
  refine ⟨p', hp', Array.ext' ?_, hsame⟩
  rw [hassembled'.entries, hsame, hentries, ← hassembled.entries, Entry.displaced_zero]
  exact List.map_id _

/-- The words of the entries tell the instructions `i` and `i'` of two programs apart. -/
theorem instr_eq_of_words {p' : Program} {strict : Bool} {first rest rest' : List SourceLine}
    {src src' : SourceLine} {i i' : SourceInstr}
    (hassembled : Assembled strict (first ++ src :: rest) p)
    (hassembled' : Assembled strict (first ++ src' :: rest') p') (hinstr : src.instr = some i)
    (hinstr' : src'.instr = some i')
    (hwords : p'.entries.toList.map (·.words) = p.entries.toList.map (·.words)) : i = i' := by
  rw [hassembled.map_words_entries, hassembled'.map_words_entries, List.filter_append,
    List.filter_append, List.filter_cons_of_pos (by rw [hinstr', Option.isSome_some]),
    List.filter_cons_of_pos (by rw [hinstr, Option.isSome_some]), List.map_append, List.map_append,
    List.map_cons, List.map_cons] at hwords
  have hhead := (List.cons.inj (List.append_cancel_left hwords)).1
  rw [SourceLine.words, SourceLine.words, hinstr, hinstr'] at hhead
  obtain ⟨hname, hoperands⟩ := List.cons.inj hhead
  cases i
  cases i'
  dsimp only at hname hoperands
  rw [hname, hoperands]

/-- A line `line'` of the same length fits as well. -/
theorem fits_of_length {before after : List Text} {line line' : Text}
    (hlength : line'.length = line.length)
    (hfits : ∀ l ∈ before ++ line :: after, l.length < Input.maxLineLength) :
    ∀ l ∈ before ++ line' :: after, l.length < Input.maxLineLength := by
  rw [List.forall_mem_append, List.forall_mem_cons] at hfits ⊢
  rwa [hlength]

/-- **Which white space can be exchanged between the name and the operands of an instruction.** The
source with `c'` for `c` there is accepted with the same words and the same image if and only if the
character is the same or both are in `gaps`; the whole program is then the same. -/
theorem parse_spaced_iff (asm : Assembler) {input input' : Input} {before after : List Text}
    {u v : Text} {c c' : Char} {p : Program}
    (hinput : input.HasLines (before ++ spaced u c v :: after))
    (hinput' : input'.HasLines (before ++ spaced u c' v :: after))
    (hp : (asm.parse input).result = .ok p)
    (hin : inText (before ++ spaced u c v :: after) before.length = true) (hplace : Between u v)
    (hc : c ∈ Text.blanks) (hc' : c' ∈ Text.blanks) :
    ((∃ p', (asm.parse input').result = .ok p' ∧
        p'.entries.toList.map (·.words) = p.entries.toList.map (·.words) ∧ p'.image = p.image) ↔
      c = c' ∨ c ∈ gaps ∧ c' ∈ gaps) ∧
    (c = c' ∨ c ∈ gaps ∧ c' ∈ gaps →
      ∃ p', (asm.parse input').result = .ok p' ∧ p'.entries = p.entries ∧
        p'.labels = p.labels) := by
  have hgoing := fault_of_parse hp
  have hfits := Scan.fits_of_going hinput hgoing
  have hscan := Scan.ofInput_eq_readOn hinput hfits
  rw [hscan] at hgoing
  obtain ⟨name, s, t, hstatement⟩ :=
    hplace.ofLine_spaced hc (Scan.malformation?_of_going hgoing hin)
  obtain ⟨hgoing', first, src, src', rest, rest', hlines, hlines', hinstr, hinstr', hsame, hrest⟩ :=
    Scan.readOn_code hgoing hin (hstatement c hc) (hstatement c' hc')
  have hiff := operandList_spaced_iff hc hc' s t
  have haccepted : c = c' ∨ c ∈ gaps ∧ c' ∈ gaps →
      ∃ p', (asm.parse input').result = .ok p' ∧ p'.entries = p.entries ∧ p'.labels = p.labels := by
    intro hcond
    have hscan' := Scan.ofInput_eq_readOn hinput' (fits_of_length (length_spaced hcond u v) hfits)
    refine parse_of_same hp (hscan' ▸ hgoing') ?_
    rw [hscan, hscan', hlines, hlines']
    exact List.rel_append (List.forall₂_same.mpr fun _ _ => ⟨rfl, rfl, rfl, rfl⟩)
      (.cons (hsame (by rw [hiff.mpr hcond])) hrest)
  refine ⟨⟨?_, fun hcond => ?_⟩, haccepted⟩
  · rintro ⟨p', hp', hwords, -⟩
    have hscan' := Scan.ofInput_eq_readOn hinput' (Scan.fits_of_going hinput' (fault_of_parse hp'))
    have hassembled := assembled_of_parse hp
    have hassembled' := assembled_of_parse hp'
    rw [hscan, hlines] at hassembled
    rw [hscan', hlines'] at hassembled'
    have heq := instr_eq_of_words hassembled hassembled' hinstr hinstr' hwords
    exact hiff.mp (congrArg (·.operands) heq)
  · obtain ⟨p', hp', hentries, -⟩ := haccepted hcond
    exact ⟨p', hp', by rw [hentries], by rw [Program.image, Program.image, hentries]⟩

set_option maxRecDepth 10000 in
/-- A tab for a space, on a line with a label and a comment. -/
theorem parse_spaced_iff_tab :
    ∃ p p', (({} : Assembler).parse
        ⟨Input.unlines [".text", spaced "a: blt $1," ' ' "$2 , a # x:y"], none⟩).result = .ok p ∧
      (({} : Assembler).parse
        ⟨Input.unlines [".text", spaced "a: blt $1," '\t' "$2 , a # x:y"], none⟩).result = .ok p' ∧
      p.entries.toList.map (·.words) = ([["blt", "$1", "$2", "a"]] : List (List Text)) ∧
      p'.entries = p.entries ∧ p'.labels = p.labels := by
  obtain ⟨p, hp, hwords⟩ := exists_ok_of_toOption_map
    (x := (({} : Assembler).parse
      ⟨Input.unlines [".text", spaced "a: blt $1," ' ' "$2 , a # x:y"], none⟩).result)
    (f := fun p => p.entries.toList.map (·.words))
    (b := ([["blt", "$1", "$2", "a"]] : List (List Text)))
    (by decide +kernel)
  have hplace : Between "a: blt $1," "$2 , a # x:y" :=
    ⟨by decide +kernel, by decide +kernel, by decide +kernel, by decide +kernel⟩
  have hspace : Input.HasLines
      ⟨Input.unlines [".text", spaced "a: blt $1," ' ' "$2 , a # x:y"], none⟩
      (([".text"] : List Text) ++ spaced "a: blt $1," ' ' "$2 , a # x:y" :: []) :=
    ⟨by decide +kernel, rfl⟩
  have htab : Input.HasLines
      ⟨Input.unlines [".text", spaced "a: blt $1," '\t' "$2 , a # x:y"], none⟩
      (([".text"] : List Text) ++ spaced "a: blt $1," '\t' "$2 , a # x:y" :: []) :=
    ⟨by decide +kernel, rfl⟩
  obtain ⟨p', hp', hentries, hlabels⟩ := (parse_spaced_iff {} hspace htab hp (by decide +kernel)
    hplace (by decide) (by decide)).2 (.inr (by decide))
  exact ⟨p, p', hp, hp', hwords, hentries, hlabels⟩

set_option maxRecDepth 10000 in
/-- A no-break space for a space: the source is not accepted any more. -/
theorem parse_no_break_space :
    Between "add $1," "$2, $3" ∧ inText [".text", spaced "add $1," ' ' "$2, $3"] 1 = true ∧
      ' ' ∈ Text.blanks ∧ '\u00a0' ∈ Text.blanks ∧
      (∃ p, (({} : Assembler).parse
        ⟨Input.unlines [".text", spaced "add $1," ' ' "$2, $3"], none⟩).result = .ok p) ∧
      ∀ p', (({} : Assembler).parse
        ⟨Input.unlines [".text", spaced "add $1," '\u00a0' "$2, $3"], none⟩).result ≠ .ok p' := by
  refine ⟨⟨by decide +kernel, by decide +kernel, by decide +kernel, by decide +kernel⟩,
    by decide +kernel, by decide, by decide, ?_, ?_⟩
  · obtain ⟨p, hp, -⟩ := exists_ok_of_toOption_map
      (x := (({} : Assembler).parse
        ⟨Input.unlines [".text", spaced "add $1," ' ' "$2, $3"], none⟩).result)
      (f := fun p => p.image) (b := #[0x00443000]) (by decide +kernel)
    exact ⟨p, hp⟩
  · intro p' hp'
    have hrejected : (({} : Assembler).parse
        ⟨Input.unlines [".text", spaced "add $1," '\u00a0' "$2, $3"],
          none⟩).result.toOption.isSome = false := by
      decide +kernel
    rw [hp'] at hrejected
    cases hrejected

end WordMachine.Assembler
