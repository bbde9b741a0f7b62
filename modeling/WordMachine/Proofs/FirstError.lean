import WordMachine.Proofs.Placement

/-!
# The first error

A source that is not assembled is reported with one error, at one of its lines. A malformed line in
a text section ends the first pass, so the first of these lines is named whatever else is wrong,
also on the lines before it. If there is none, reading may end too early, and the last line that was
delivered is named. Only then are the instructions encoded, with all labels of the source, and the
first of them that cannot be encoded is named.

* `isFirstError_or_isFaultless`: something is wrong with a source, or nothing is.
* `Assembler.parse_of_isFirstError`, `Assembler.parse_of_isFaultless`: what is found is reported.
* `Assembler.parse_first_error`: both directions, for every source.
-/

namespace WordMachine.Asm

/-! ## Faults of lines -/

/-- What ends the first pass at the position `k`: the line there is malformed, and in a text
section. -/
def malformedAt? (lines : List Text) (k : Nat) : Option SourceFault :=
  if inText lines k then lines[k]?.bind malformation? else none

/-- What ends the second pass at the position `k`: the line there has an instruction, and is in a
text section, but with all labels of the `lines` the instruction has no encoding. -/
def unencodableAt? (strict : Bool) (lines : List Text) (k : Nat) : Option SourceFault :=
  if inText lines k then
    (lines[k]?.bind instr?).bind fun i =>
      faultOf (encode strict (labelsBefore lines lines.length) (instrsBefore lines k) i)
  else none

/-- A pass ends at the first position `k` where there is a `fault`. -/
structure IsFirst (fault? : Nat → Option SourceFault) (k : Nat) (fault : SourceFault) : Prop where
  found : fault? k = some fault
  before : ∀ j < k, fault? j = none

theorem isFirst_or_none (fault? : Nat → Option SourceFault) :
    (∃ k fault, IsFirst fault? k fault) ∨ ∀ k, fault? k = none := by
  by_cases hsome : ∃ k, fault? k ≠ none
  · obtain ⟨fault, hfault⟩ := Option.ne_none_iff_exists'.mp (Nat.find_spec hsome)
    refine .inl ⟨Nat.find hsome, fault, hfault, fun j hj => ?_⟩
    exact not_not.mp (Nat.find_min hsome hj)
  · exact .inr fun k => not_not.mp (not_exists.mp hsome k)

/-- The error of a source, by the `lines` that are delivered and what ends their delivery too early.
A source that is read to its end has all its lines delivered. -/
inductive IsFirstError (strict : Bool) (lines : List Text) (readFault? : Option ReadFault) :
    SourceError → Prop
  /-- The first malformed line, however the delivery ends and whatever can be encoded. -/
  | malformed {k : Nat} {line : Text} {fault : SourceFault} (hline : lines[k]? = some line)
      (hfirst : IsFirst (malformedAt? lines) k fault) :
      IsFirstError strict lines readFault? ⟨k + 1, Text.trim line, fault⟩
  /-- The last line that is delivered; without any, the error has the number zero and no text. -/
  | read {fault : ReadFault} (hformed : ∀ k, malformedAt? lines k = none)
      (hread : readFault? = some fault) :
      IsFirstError strict lines readFault?
        ⟨lines.length, (lines.getLast?.map Text.trim).getD [], .read fault⟩
  /-- The first instruction that cannot be encoded. -/
  | unencodable {k : Nat} {line : Text} {fault : SourceFault}
      (hformed : ∀ k, malformedAt? lines k = none) (hread : readFault? = none)
      (hline : lines[k]? = some line) (hfirst : IsFirst (unencodableAt? strict lines) k fault) :
      IsFirstError strict lines readFault? ⟨k + 1, Text.trim line, fault⟩

/-- Nothing is wrong with the lines, and all of them are delivered. -/
structure IsFaultless (strict : Bool) (lines : List Text) (readFault? : Option ReadFault) :
    Prop where
  formed : ∀ k, malformedAt? lines k = none
  read : readFault? = none
  encodable : ∀ k, unencodableAt? strict lines k = none

section Positions

variable {strict : Bool} {lines : List Text} {k : Nat} {line : Text} {fault : SourceFault}

theorem malformedAt?_eq (hline : lines[k]? = some line) :
    malformedAt? lines k = if inText lines k then malformation? line else none := by
  rw [malformedAt?, hline, Option.bind_some]

/-- Only a line can be malformed, so there is one at the position `k`. -/
theorem exists_line_of_malformedAt? (h : malformedAt? lines k = some fault) :
    ∃ line, lines[k]? = some line := by
  unfold malformedAt? at h
  split at h
  · obtain ⟨line, hline, -⟩ := Option.bind_eq_some_iff.mp h
    exact ⟨line, hline⟩
  · cases h

/-- Only the instruction of a source line can have no encoding, so there is one at the position
`k`. -/
theorem exists_sourceLine_of_unencodableAt? (h : unencodableAt? strict lines k = some fault) :
    ∃ line, lines[k]? = some line ∧
      sourceLine? lines k =
        some ⟨k + 1, Text.trim line, label? line, instr? line, instrsBefore lines k⟩ := by
  unfold unencodableAt? at h
  split at h
  · rename_i hin
    obtain ⟨i, hi, -⟩ := Option.bind_eq_some_iff.mp h
    obtain ⟨line, hline, hinstr⟩ := Option.bind_eq_some_iff.mp hi
    refine ⟨line, hline, ?_⟩
    rw [sourceLine?_eq hline, if_pos (by simp [hin, hinstr]), Input.trim_dropReturn]
  · cases h

/-- **Something is wrong with a source, or nothing is.** -/
theorem isFirstError_or_isFaultless (strict : Bool) (lines : List Text)
    (readFault? : Option ReadFault) :
    (∃ e, IsFirstError strict lines readFault? e) ∨ IsFaultless strict lines readFault? := by
  -- The cases come in the order in which the passes look for faults.
  rcases isFirst_or_none (malformedAt? lines) with ⟨k, fault, hfirst⟩ | hformed
  · obtain ⟨line, hline⟩ := exists_line_of_malformedAt? hfirst.found
    exact .inl ⟨_, .malformed hline hfirst⟩
  · cases hread : readFault? with
    | some fault => exact .inl ⟨_, .read hformed rfl⟩
    | none =>
      rcases isFirst_or_none (unencodableAt? strict lines) with ⟨k, fault, hfirst⟩ | hencodable
      · obtain ⟨line, hline, -⟩ := exists_sourceLine_of_unencodableAt? hfirst.found
        exact .inl ⟨_, .unencodable hformed rfl hline hfirst⟩
      · exact .inr ⟨hformed, rfl, hencodable⟩

end Positions

/-! ## The end of the first pass -/

namespace Scan

section Ends

variable {s : Scan} {lines : List Text} {k : Nat} {line : Text} {fault : SourceFault}

/-- What a line says changes neither its number nor its text. -/
theorem place_accept (s : Scan) (statement : Statement) :
    (s.accept statement).lineNo = s.lineNo ∧ (s.accept statement).text = s.text := by
  unfold accept
  split
  · exact ⟨rfl, rfl⟩
  · exact ⟨rfl, rfl⟩
  · exact ⟨rfl, rfl⟩
  · split <;> exact ⟨rfl, rfl⟩
  · split <;> exact ⟨rfl, rfl⟩

/-- What a `line` says ends the reading if the line is malformed, in a text section. -/
theorem fault_accept {statement : Statement} (h : Says line statement) (hstart : s.fault = none) :
    (s.accept statement).fault = if s.inText then malformation? line else none := by
  cases h with
  | blank hlabel hinstr hsection =>
    rw [malformation?_of_nothing hlabel hinstr, ite_self]
    exact hstart
  | textSection hsection =>
    obtain ⟨hlabel, hinstr⟩ := nothing_of_section hsection
    rw [malformation?_of_nothing hlabel hinstr, ite_self]
    exact hstart
  | dataSection hsection =>
    obtain ⟨hlabel, hinstr⟩ := nothing_of_section hsection
    rw [malformation?_of_nothing hlabel hinstr, ite_self]
    exact hstart
  | code hsection hformed hsome =>
    rw [hformed, ite_self, accept]
    split
    · exact hstart
    · exact hstart
  | malformed hsection hformed =>
    rw [hformed, accept]
    split
    · rfl
    · exact hstart

/-- One more line, at the position `k`: its number, its text, and whether it ends the reading. -/
theorem Reads.step_ends (h : s.Reads lines k) (hstart : s.fault = none)
    (hline : lines[k]? = some line) :
    (s.step (Input.dropReturn line)).lineNo = k + 1 ∧
      (s.step (Input.dropReturn line)).text = Text.trim line ∧
      (s.step (Input.dropReturn line)).fault = malformedAt? lines k := by
  have hsays := says_ofLine line
  rw [Input.trim_dropReturn] at hsays
  rw [step_of_going hstart, Input.trim_dropReturn, malformedAt?_eq hline, ← h.inText, ← h.lineNo]
  obtain ⟨hlineNo, htext⟩ := place_accept
    { s with lineNo := s.lineNo + 1, text := Text.trim line } (Statement.ofLine (Text.trim line))
  exact ⟨hlineNo, htext, fault_accept hsays hstart⟩

/-- Reading goes on to the position `k` if no line before it is malformed. -/
theorem fault_upTo (hk : k ≤ lines.length) (hformed : ∀ j < k, malformedAt? lines j = none) :
    (upTo lines k).fault = none := by
  induction k with
  | zero => rfl
  | succ k ih =>
    have hline : lines[k]? = some lines[k] := List.getElem?_eq_getElem hk
    have hk' : k ≤ lines.length := Nat.le_of_succ_le hk
    have hstart := ih hk' fun j hj => hformed j (Nat.lt_succ_of_lt hj)
    rw [upTo_succ hline, ((reads_upTo hk' hstart).step_ends hstart hline).2.2]
    exact hformed k (Nat.lt_succ_self k)

/-- What is known after the line at the position `k`, if no line before it is malformed. -/
theorem upTo_succ_ends (hline : lines[k]? = some line)
    (hformed : ∀ j < k, malformedAt? lines j = none) :
    (upTo lines (k + 1)).lineNo = k + 1 ∧ (upTo lines (k + 1)).text = Text.trim line ∧
      (upTo lines (k + 1)).fault = malformedAt? lines k := by
  have hk : k ≤ lines.length := Nat.le_of_lt (List.getElem?_eq_some_iff.mp hline).1
  have hstart := fault_upTo hk hformed
  rw [upTo_succ hline]
  exact (reads_upTo hk hstart).step_ends hstart hline

/-- The text of the last line that has been read, with `k` lines behind. -/
theorem text_upTo (hk : k ≤ lines.length) (hformed : ∀ j < k, malformedAt? lines j = none) :
    (upTo lines k).text = ((lines.take k).getLast?.map Text.trim).getD [] := by
  cases k with
  | zero => rfl
  | succ k =>
    have hline : lines[k]? = some lines[k] := List.getElem?_eq_getElem hk
    obtain ⟨-, htext, -⟩ := upTo_succ_ends hline fun j hj => hformed j (Nat.lt_succ_of_lt hj)
    rw [htext, List.take_add_one, hline, Option.toList_some, List.getLast?_concat]
    rfl

/-- Once reading has ended, the lines after that make no difference: `upTo lines m` is the same for
all `m` from `k` on. -/
theorem upTo_of_ended (hended : (upTo lines k).fault.isSome = true) {m : Nat} (hm : k ≤ m) :
    upTo lines m = upTo lines k := by
  induction m, hm using Nat.le_induction with
  | base => rfl
  | succ m hm ih =>
    cases hline : lines[m]? with
    | none => rw [upTo, List.take_add_one, hline, Option.toList_none, List.append_nil, ← ih, upTo]
    | some line => rw [upTo_succ hline, ih, Scan.step, if_pos hended]

/-- **The first malformed line is where reading ends**, at the position `k`. -/
theorem error?_upTo_length (hline : lines[k]? = some line)
    (hfirst : IsFirst (malformedAt? lines) k fault) :
    (upTo lines lines.length).error? = some ⟨k + 1, Text.trim line, fault⟩ := by
  have hk : k < lines.length := (List.getElem?_eq_some_iff.mp hline).1
  obtain ⟨hlineNo, htext, hfault⟩ := upTo_succ_ends hline hfirst.before
  rw [hfirst.found] at hfault
  have hended : (upTo lines (k + 1)).fault.isSome = true := by rw [hfault, Option.isSome_some]
  rw [upTo_of_ended hended hk, error?, hfault, hlineNo, htext, Option.map_some]

end Ends

/-- A malformed line is reported however the delivery of lines ends. -/
theorem error?_ofInput_of_malformed {input : Input} {k : Nat} {line : Text} {fault : SourceFault}
    (hline : (Input.fitting input.bytes)[k]? = some line)
    (hfirst : IsFirst (malformedAt? (Input.fitting input.bytes)) k fault) :
    (ofInput input).error? = some ⟨k + 1, Text.trim line, fault⟩ := by
  have herror := error?_upTo_length hline hfirst
  have hended : (upTo (Input.fitting input.bytes) (Input.fitting input.bytes).length).fault.isSome =
      true := by
    have hsome := congrArg Option.isSome herror
    rwa [error?, Option.isSome_map, Option.isSome_some] at hsome
  rw [ofInput, foldl_step_lines, if_pos hended, herror]

/-- Without a malformed line, reading ends as the delivery of lines does. -/
theorem error?_ofInput_of_formed {input : Input}
    (hformed : ∀ k, malformedAt? (Input.fitting input.bytes) k = none) :
    (ofInput input).error? = input.fault?.map fun fault =>
      ⟨(Input.fitting input.bytes).length,
        ((Input.fitting input.bytes).getLast?.map Text.trim).getD [], .read fault⟩ := by
  have hfault := fault_upTo (Nat.le_refl _) fun k _ => hformed k
  have htext := text_upTo (Nat.le_refl _) fun k _ => hformed k
  have hlineNo := (reads_upTo (Nat.le_refl _) hfault).lineNo
  rw [List.take_length] at htext
  rw [ofInput, foldl_step_lines, hfault, Option.isSome_none, if_neg Bool.false_ne_true, error?,
    htext, hlineNo, Option.map_map]
  rfl

/-- Without any fault, reading takes what the lines that are delivered hold. -/
theorem reads_ofInput_of_formed {input : Input}
    (hformed : ∀ k, malformedAt? (Input.fitting input.bytes) k = none)
    (hread : input.fault? = none) :
    (ofInput input).fault = none ∧
      (ofInput input).Reads (Input.fitting input.bytes) (Input.fitting input.bytes).length := by
  have herror := error?_ofInput_of_formed hformed
  rw [hread, Option.map_none] at herror
  have hfault : (ofInput input).fault = none := Option.map_eq_none_iff.mp herror
  rw [Input.fitting_eq_segments hread]
  exact ⟨hfault, (reads_ofInput hfault).1⟩

end Scan

end WordMachine.Asm

namespace WordMachine.Assembler

open Asm

/-! ## The end of the second pass -/

theorem isGood_iff {e : Encoded} : isGood e = true ↔ faultOf e.2 = none := by
  obtain ⟨line, result⟩ := e
  cases result with
  | ok encoding => simp [isGood, faultOf]
  | error fault => simp [isGood, faultOf]

/-- The second pass ends at the first line `src` whose instruction cannot be encoded. -/
theorem encodeLines_of_fault (asm : Assembler) (labels : Labels) {before after : List SourceLine}
    {src : SourceLine} {fault : SourceFault}
    (hlabels : Labels.ofLines (before ++ src :: after) = labels)
    (hbefore : ∀ line ∈ before, faultOf (encodeLine asm.strict labels line).2 = none)
    (hsrc : faultOf (encodeLine asm.strict labels src).2 = some fault) :
    (asm.encodeLines (before ++ src :: after)).result = .error ⟨src.lineNo, src.text, fault⟩ := by
  have hnone : (before.map (encodeLine asm.strict labels)).find? (!isGood ·) = none := by
    rw [List.find?_eq_none]
    intro e he
    obtain ⟨line, hline, rfl⟩ := List.mem_map.mp he
    simp [isGood_iff.mpr (hbefore line hline)]
  have hbad : isGood (encodeLine asm.strict labels src) = false := by
    rw [Bool.eq_false_iff, Ne, isGood_iff, hsrc]
    exact Option.some_ne_none fault
  have herror : error? (encodeLine asm.strict labels src) = some ⟨src.lineNo, src.text, fault⟩ := by
    rw [error?, faultOf_eq_some_iff.mp hsrc]
    rfl
  simp only [encodeLines, hlabels, List.map_append, List.map_cons, List.find?_append, hnone,
    List.find?_cons, hbad, Bool.not_false, Option.none_or, Option.bind_some, herror]

section Positions

variable {strict : Bool} {lines : List Text} {k : Nat}

/-- The source line `src` is encoded with the fault of its position `k`. -/
theorem faultOf_encodeLine {src : SourceLine} (h : sourceLine? lines k = some src) :
    faultOf (encodeLine strict (labelsBefore lines lines.length) src).2 =
      unencodableAt? strict lines k := by
  obtain ⟨line, hline, hin, rfl⟩ := sourceLine?_eq_some h
  rw [unencodableAt?, if_pos hin, hline, Option.bind_some, encodeLine]
  cases hinstr : instr? line with
  | none => rfl
  | some i => rw [Option.bind_some, faultOf_map]

/-- The source lines before the source line `src`, and those after it. -/
theorem filterMap_range_eq {f : Nat → Option SourceLine} {src : SourceLine} (hsrc : f k = some src)
    {n : Nat} (hk : k < n) :
    ∃ after, (List.range n).filterMap f = (List.range k).filterMap f ++ src :: after := by
  obtain ⟨m, rfl⟩ := Nat.exists_eq_add_of_lt hk
  refine ⟨((List.range m).map (k + 1 + ·)).filterMap f, ?_⟩
  rw [show k + m + 1 = k + 1 + m by omega, List.range_add, List.range_succ]
  simp [List.filterMap_append, hsrc]

end Positions

/-! ## The error of a source -/

section Errors

variable {asm : Assembler} {input : Input}

/-- **The error that is found is reported**: `e` is the result of `parse`. -/
theorem parse_of_isFirstError {e : SourceError}
    (h : IsFirstError asm.strict (Input.fitting input.bytes) input.fault? e) :
    (asm.parse input).result = .error e := by
  cases h with
  | malformed hline hfirst =>
    rw [parse_of_error asm (Scan.error?_ofInput_of_malformed hline hfirst)]
  | read hformed hread =>
    have herror := Scan.error?_ofInput_of_formed hformed
    rw [hread, Option.map_some] at herror
    rw [parse_of_error asm herror]
  | @unencodable k line fault hformed hread hline hfirst =>
    obtain ⟨hfault, hreads⟩ := Scan.reads_ofInput_of_formed hformed hread
    generalize Input.fitting input.bytes = lines at hline hfirst hreads
    obtain ⟨line', hline', hsource⟩ := exists_sourceLine_of_unencodableAt? hfirst.found
    obtain rfl : line = line' := Option.some.inj (hline.symm.trans hline')
    have hk : k < lines.length := (List.getElem?_eq_some_iff.mp hline).1
    obtain ⟨after, hsplit⟩ := filterMap_range_eq hsource hk
    rw [parse_of_scan asm hfault, hreads.lines, hsplit]
    -- The table of labels is that of all lines, also of those after the one that is named.
    refine encodeLines_of_fault asm (labelsBefore lines lines.length) ?_ ?_ ?_
    · rw [labelsBefore, hsplit]
    · intro src hsrc
      obtain ⟨j, hj, hsrc⟩ := List.mem_filterMap.mp hsrc
      rw [faultOf_encodeLine hsrc]
      exact hfirst.before j (List.mem_range.mp hj)
    · rw [faultOf_encodeLine hsource, hfirst.found]

/-- **A source is assembled if nothing is wrong with it.** -/
theorem parse_of_isFaultless (h : IsFaultless asm.strict (Input.fitting input.bytes) input.fault?) :
    ∃ p, (asm.parse input).result = .ok p := by
  obtain ⟨hfault, hreads⟩ := Scan.reads_ofInput_of_formed h.formed h.read
  have hencodable := h.encodable
  generalize Input.fitting input.bytes = lines at hreads hencodable
  obtain ⟨p, hp, -⟩ := parse_of_good asm hfault (by
    intro src hsrc
    rw [hreads.lines] at hsrc ⊢
    obtain ⟨j, -, hsource⟩ := List.mem_filterMap.mp hsrc
    rw [isGood_iff, ← labelsBefore, faultOf_encodeLine hsource]
    exact hencodable j)
  exact ⟨p, hp⟩

/-- **A source that is not assembled is reported with its first error**, and every other source is
assembled. -/
theorem parse_first_error (asm : Assembler) (input : Input) :
    (∀ e, (asm.parse input).result = .error e ↔
        IsFirstError asm.strict (Input.fitting input.bytes) input.fault? e) ∧
      ((∃ p, (asm.parse input).result = .ok p) ↔
        IsFaultless asm.strict (Input.fitting input.bytes) input.fault?) := by
  have htotal := isFirstError_or_isFaultless asm.strict (Input.fitting input.bytes) input.fault?
  constructor
  · intro e
    refine ⟨fun herror => ?_, parse_of_isFirstError⟩
    rcases htotal with ⟨e', he'⟩ | hfaultless
    · rw [parse_of_isFirstError he', Except.error.injEq] at herror
      exact herror ▸ he'
    · obtain ⟨p, hp⟩ := parse_of_isFaultless hfaultless
      rw [hp] at herror
      cases herror
  · refine ⟨?_, parse_of_isFaultless⟩
    rintro ⟨p, hp⟩
    rcases htotal with ⟨e, he⟩ | hfaultless
    · rw [parse_of_isFirstError he] at hp
      cases hp
    · exact hfaultless

set_option maxRecDepth 10000 in
/-- A malformed line is named although the instruction `nand` before it has no encoding. The colon
in the data section is not looked at. -/
example :
    let lines : List Text := [".text", "nand", ".data", ": 1", ".text", "  a b: j a # .\r"]
    unencodableAt? false lines 1 = some (.unknownInstruction "nand") ∧
      malformedAt? lines 3 = none ∧ malformedAt? lines 5 = some .labelSyntax ∧
      (Scan.ofInput ⟨Input.unlines lines, none⟩).error? =
        some ⟨6, "a b: j a # .", .labelSyntax⟩ := by
  decide +kernel

end Errors

end WordMachine.Assembler
