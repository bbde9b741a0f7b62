import WordMachine.Proofs.Literal
import WordMachine.Proofs.RoundTrip
import Mathlib.Data.List.ReduceOption

/-!
# The grammar of images

What a line of an image may hold (`Denotes`): a comment, white space, and a number with no more
digits than the layout has.

* `step_cases`, `foldl_step_cases`: what one line, and what some lines, do to a reading.
* `read_grammar`: reading accepts exactly the images whose lines are all of this form, and gives
  their numbers in order; else it ends at the first line that is not, and keeps the words of the
  lines before.
-/

namespace WordMachine

namespace Image

open Text (byte Trimmed Numeral)

/-! ## Lines -/

/-- The part of a line before its comment, which starts at the first two neighbouring slashes. -/
inductive Uncommented (line : Text) : Text → Prop
  | whole (hnone : ∀ t rest, line ≠ t ++ byte '/' :: byte '/' :: rest) : Uncommented line line
  | cut {t rest : Text} (hcut : line = t ++ byte '/' :: byte '/' :: rest)
      (hfirst : ∀ t' rest', line = t' ++ byte '/' :: byte '/' :: rest' → t.length ≤ t'.length) :
      Uncommented line t

/-- What a line holds: the `content` before its comment, without white space at its ends. -/
def Holds (line content : Text) : Prop :=
  ∃ t, Uncommented line t ∧ Trimmed t content

/-- What a line stands for in an image of at most `columns` digits for each word: nothing, or a
number. -/
inductive Denotes (base columns : Nat) (line : Text) : Option Nat → Prop
  | nothing (h : Holds line []) : Denotes base columns line none
  | number {ds : Text} {n : Nat} (h : Holds line ds) (hnumber : Numeral base ds n)
      (hcolumns : ds.length ≤ columns) : Denotes base columns line (some n)

/-- One more byte `b` in front of a line, if no comment starts there. -/
theorem Uncommented.cons {b : UInt8} {line t : Text} (h : Uncommented line t)
    (hb : ¬(b = byte '/' ∧ line.head? = some (byte '/'))) : Uncommented (b :: line) (b :: t) := by
  -- A comment in the longer line is one in the line.
  have hin : ∀ u rest, b :: line = u ++ byte '/' :: byte '/' :: rest →
      ∃ u', u = b :: u' ∧ line = u' ++ byte '/' :: byte '/' :: rest := by
    intro u rest heq
    cases u with
    | nil =>
      rw [List.nil_append, List.cons.injEq] at heq
      exact absurd ⟨heq.1, by rw [heq.2, List.head?_cons]⟩ hb
    | cons c u =>
      rw [List.cons_append, List.cons.injEq] at heq
      exact ⟨u, by rw [heq.1], heq.2⟩
  cases h with
  | whole hnone =>
    refine .whole fun u rest heq => ?_
    obtain ⟨u', -, heq'⟩ := hin u rest heq
    exact hnone u' rest heq'
  | cut hcut hfirst =>
    refine .cut (by rw [hcut, List.cons_append]) fun u rest' heq => ?_
    obtain ⟨u', rfl, heq'⟩ := hin u rest' heq
    exact Nat.succ_le_succ (hfirst u' rest' heq')

/-- A comment starts where the part before it ends, `k` bytes into the line. -/
theorem exists_uncommented (n : Nat) (line : Text) :
    ∃ k, commentStart n line = n + k ∧ Uncommented line (line.take k) := by
  induction line generalizing n with
  | nil => exact ⟨0, rfl, .whole fun t rest heq => by simp at heq⟩
  | cons b line ih =>
    rw [commentStart]
    split
    · rename_i hstart
      rw [Bool.and_eq_true, beq_iff_eq, beq_iff_eq] at hstart
      obtain ⟨rest, hrest⟩ := List.head?_eq_some_iff.mp hstart.2
      have hcut : b :: line = [] ++ byte '/' :: byte '/' :: rest := by
        rw [hstart.1, hrest, List.nil_append]
      exact ⟨0, rfl, .cut hcut fun t' rest' _ => Nat.zero_le _⟩
    · rename_i hstart
      rw [Bool.and_eq_true, beq_iff_eq, beq_iff_eq] at hstart
      obtain ⟨k, hk, huncommented⟩ := ih (n + 1)
      exact ⟨k + 1, by omega, huncommented.cons hstart⟩

/-- There is one part of a line before its comment: `t` and `t'` are the same. -/
theorem Uncommented.unique {line t t' : Text} (h : Uncommented line t) (h' : Uncommented line t') :
    t = t' := by
  cases h with
  | whole hnone =>
    cases h' with
    | whole => rfl
    | cut hcut => exact absurd hcut (hnone _ _)
  | cut hcut hfirst =>
    cases h' with
    | whole hnone => exact absurd hcut (hnone _ _)
    | cut hcut' hfirst' =>
      have hlength := Nat.le_antisymm (hfirst _ _ hcut') (hfirst' _ _ hcut)
      exact (List.append_inj (hcut.symm.trans hcut') hlength).1

/-- **A line is read for what it holds**: `lineContent` computes it. -/
theorem holds_iff {line content : Text} : Holds line content ↔ lineContent line = content := by
  obtain ⟨k, hk, huncommented⟩ := exists_uncommented 0 line
  rw [Nat.zero_add] at hk
  rw [lineContent, hk, ← Text.trimmed_iff]
  constructor
  · rintro ⟨t, ht, htrimmed⟩
    rwa [← ht.unique huncommented]
  · exact fun htrimmed => ⟨_, huncommented, htrimmed⟩

/-! ## Reading -/

section Reading

variable {d : Digits} {r : Reading}

/-- The reading after a `line` that stands for `v`. -/
def Reading.next (r : Reading) (line : Text) (v : Option Nat) : Reading :=
  { r with lineNo := r.lineNo + 1, count := r.count + line.length + 1
           words := r.words ++ v.toList.map UInt32.ofNat }

/-- The reading after a `line` that does not belong to an image. -/
def Reading.stop (r : Reading) (line : Text) : Reading :=
  { r with lineNo := r.lineNo + 1, count := r.count + line.length + 1
           error := some (.line (r.lineNo + 1) line) }

/-- **What one line does to a reading**: it gives what it stands for, as `next` says, or it ends the
reading, as `stop` says. -/
theorem step_cases (d : Digits) (hr : r.error = none) (line : Text) :
    (∃ v, Denotes d.radix.base d.width line v ∧ r.step d line = r.next line v) ∨
      (∀ v, ¬Denotes d.radix.base d.width line v) ∧ r.step d line = r.stop line := by
  have hholds : Holds line (lineContent line) := holds_iff.mpr rfl
  have hbase : d.radix.base ≤ 36 := (base_range d.radix).2.trans (by decide)
  -- Whatever the line stands for, it is its content that does.
  have hcases : ∀ v, Denotes d.radix.base d.width line v →
      lineContent line = [] ∨ (lineContent line).length ≤ d.width ∧
        ∃ n, Text.natOf? d.radix.base (lineContent line) = some n := by
    intro v hv
    cases hv with
    | nothing h => exact .inl (holds_iff.mp h)
    | number h hnumber hcolumns =>
      rw [← holds_iff.mp h] at hnumber hcolumns
      exact .inr ⟨hcolumns, _, (Text.numeral_iff hbase).mp hnumber⟩
  simp only [Reading.step, hr, Option.isSome_none, Bool.false_eq_true, if_false]
  split
  · rename_i hempty
    rw [List.isEmpty_iff.mp hempty] at hholds
    exact .inl ⟨none, .nothing hholds, by simp [Reading.next, hr]⟩
  · rename_i hempty
    rw [List.isEmpty_iff] at hempty
    split
    · rename_i hlong
      refine .inr ⟨fun v hv => ?_, by simp [Reading.stop]⟩
      rcases hcases v hv with hnil | ⟨hcolumns, -⟩
      · exact hempty hnil
      · omega
    · rename_i hcolumns
      cases hvalue : Text.natOf? d.radix.base (lineContent line) with
      | some n =>
        refine .inl ⟨some n, .number hholds ((Text.numeral_iff hbase).mpr hvalue) (by omega), ?_⟩
        simp [Reading.next, hr]
      | none =>
        refine .inr ⟨fun v hv => ?_, by simp [Reading.stop]⟩
        rcases hcases v hv with hnil | ⟨-, n, hn⟩
        · exact hempty hnil
        · rw [hvalue] at hn
          cases hn

/-- The reading after `lines` that stand for `vs`. -/
def Reading.after (r : Reading) (lines : List Text) (vs : List (Option Nat)) : Reading :=
  { r with lineNo := r.lineNo + lines.length, count := r.count + (lines.map (·.length + 1)).sum
           words := r.words ++ vs.reduceOption.map UInt32.ofNat }

theorem after_nil (r : Reading) : r.after [] [] = r := by
  simp [Reading.after]

theorem after_cons (r : Reading) (line : Text) (v : Option Nat) (lines : List Text)
    (vs : List (Option Nat)) :
    (r.next line v).after lines vs = r.after (line :: lines) (v :: vs) := by
  simp only [Reading.after, Reading.next, Reading.mk.injEq, List.length_cons, List.map_cons,
    List.sum_cons, and_true]
  refine ⟨by omega, by omega, ?_⟩
  apply Array.ext'
  cases v with
  | none => simp
  | some n => simp

/-- A reading that has ended, so that `r.error` is there, reads no more lines. -/
theorem foldl_step_of_ended (hr : r.error.isSome = true) (lines : List Text) :
    lines.foldl (Reading.step d) r = r := by
  induction lines with
  | nil => rfl
  | cons line lines ih => rw [List.foldl_cons, Reading.step, if_pos hr, ih]

/-- **What some lines do to a reading**: they give what they stand for, or the first one that does
not belong to an image, `line`, ends it. -/
theorem foldl_step_cases (d : Digits) (hr : r.error = none) (lines : List Text) :
    (∃ vs, List.Forall₂ (Denotes d.radix.base d.width) lines vs ∧
        lines.foldl (Reading.step d) r = r.after lines vs) ∨
      ∃ good line rest vs, lines = good ++ line :: rest ∧
        List.Forall₂ (Denotes d.radix.base d.width) good vs ∧
        (∀ v, ¬Denotes d.radix.base d.width line v) ∧
        lines.foldl (Reading.step d) r = (r.after good vs).stop line := by
  induction lines generalizing r with
  | nil => exact .inl ⟨[], .nil, (after_nil r).symm⟩
  | cons line lines ih =>
    rw [List.foldl_cons]
    rcases step_cases d hr line with ⟨v, hv, hstep⟩ | ⟨hnone, hstep⟩ <;> rw [hstep]
    · have hnext : (r.next line v).error = none := hr
      rcases ih hnext with ⟨vs, hvs, hrun⟩ | ⟨good, bad, rest, vs, rfl, hvs, hbad, hrun⟩
      · exact .inl ⟨v :: vs, .cons hv hvs, by rw [hrun, after_cons]⟩
      · exact .inr
          ⟨line :: good, bad, rest, v :: vs, rfl, .cons hv hvs, hbad, by rw [hrun, after_cons]⟩
    · have hended : (r.stop line).error.isSome = true := rfl
      rw [foldl_step_of_ended hended]
      exact .inr ⟨[], line, lines, [], rfl, .nil, hnone, by rw [after_nil]⟩

end Reading

/-! ## Numbers -/

/-- A line has no larger number than a word of `columns` digits. -/
theorem Denotes.lt {base columns n : Nat} {line : Text} (h : Denotes base columns line (some n))
    (hbase : 0 < base) (hmax : base ≤ 36) : n < base ^ columns := by
  cases h with
  | @number ds _ _ hnumber hcolumns =>
    calc n < base ^ ds.length := Text.lt_pow_of_natOf? ((Text.numeral_iff hmax).mp hnumber)
      _ ≤ base ^ columns := Nat.pow_le_pow_right hbase hcolumns

theorem exists_denotes {base columns : Nat} {lines : List Text} {vs : List (Option Nat)}
    (h : List.Forall₂ (Denotes base columns) lines vs) :
    ∀ line ∈ lines, ∃ v, Denotes base columns line v := by
  induction h with
  | nil => simp
  | cons hv _ ih => exact List.forall_mem_cons.mpr ⟨⟨_, hv⟩, ih⟩

/-- The words of some lines have the numbers of the lines, if all digits fit 32 bits. -/
theorem map_toNat_words {d : Digits} (hbits : d.radix.base ^ d.width ≤ 2 ^ 32) {lines : List Text}
    {vs : List (Option Nat)} (h : List.Forall₂ (Denotes d.radix.base d.width) lines vs) :
    (vs.reduceOption.map UInt32.ofNat).map (·.toNat) = vs.reduceOption := by
  obtain ⟨hpos, hmax⟩ := base_range d.radix
  induction h with
  | nil => rfl
  | @cons line v _ _ hv _ ih =>
    cases v with
    | none => simpa using ih
    | some n =>
      have hn := hv.lt (by omega) (by omega)
      have hword : (UInt32.ofNat n).toNat = n := by
        rw [UInt32.toNat_ofNat', Nat.mod_eq_of_lt (by omega)]
      simpa [hword] using ih

/-! ## Images -/

/-- What a reading comes to if the input does not end it. -/
def Reading.result (r : Reading) : Read :=
  ⟨r.count, r.words, r.error⟩

/-- An input that is read to its end comes to what its lines come to, by `Reading.result`. -/
theorem read_eq_result {layout : Layout} {d : Digits} (hd : layout.digits = .ok d)
    (prior : Array Word) {input : Input} (hends : input.failure = none)
    (hfits : ∀ segment ∈ Input.segments input.bytes, segment.length < Input.maxLineLength) :
    read layout prior input =
      (((Input.segments input.bytes).map Input.dropReturn).foldl (Reading.step d) {}).result := by
  simp only [read, hd, Input.lines, Input.fitting_of_fits hfits, Input.fault?_of_fits hends hfits,
    Option.map_none, Reading.result]
  generalize ((Input.segments input.bytes).map Input.dropReturn).foldl (Reading.step d) {} = r
  cases r.error with
  | none => rfl
  | some e => rfl

/-- The digits of a valid layout hold no more than a word of 32 bits. -/
theorem bits_le {layout : Layout} (h : layout.IsValid) : layout.bits ≤ 32 := by
  unfold Layout.IsValid at h
  unfold Layout.bits Layout.columns
  split_ifs <;> omega

/-- A layout that is not valid has no digits; its radix is looked at first. -/
theorem digits_of_not_isValid {layout : Layout} (h : ¬layout.IsValid) :
    layout.digits =
      .error
        (if layout.radix = 0 ∨ layout.radix = 2 ∨ layout.radix = 16 then .width else .radix) := by
  unfold Layout.IsValid at h
  grind [Layout.digits, Radix.fullWidth]

/-- **Reading accepts exactly the images.** An input that is read to its end is accepted if each of
its lines stands for nothing or for a number of the layout, and the words are then these numbers, in
order. Else the error names the first line that does not, and the words of the lines before it are
kept. Under a layout that is not valid, nothing is read and the words stay `prior`. -/
theorem read_grammar (layout : Layout) (prior : Array Word) (input : Input)
    (hends : input.failure = none)
    (hfits : ∀ segment ∈ Input.segments input.bytes, segment.length < Input.maxLineLength) :
    let lines := (Input.segments input.bytes).map Input.dropReturn
    let out := read layout prior input
    let bytes := fun ls : List Text => (ls.map (·.length + 1)).sum
    (layout.IsValid →
      (out.error = none ↔ ∀ line ∈ lines, ∃ v, Denotes layout.base layout.columns line v) ∧
      (out.error = none →
        ∃ vs, List.Forall₂ (Denotes layout.base layout.columns) lines vs ∧
          out.words.toList.map (·.toNat) = vs.reduceOption ∧ out.count = bytes lines) ∧
      (out.error ≠ none →
        ∃ good line rest vs, lines = good ++ line :: rest ∧
          List.Forall₂ (Denotes layout.base layout.columns) good vs ∧
          (∀ v, ¬Denotes layout.base layout.columns line v) ∧
          out.error = some (.line (good.length + 1) line) ∧
          out.words.toList.map (·.toNat) = vs.reduceOption ∧ out.count = bytes (good ++ [line]))) ∧
    (¬layout.IsValid →
      out = ⟨0, prior,
        some (if layout.radix = 0 ∨ layout.radix = 2 ∨ layout.radix = 16 then .width
          else .radix)⟩) := by
  intro lines out bytes
  constructor
  · intro hvalid
    obtain ⟨d, hd⟩ := Layout.exists_hasDigits hvalid
    have hbits : d.radix.base ^ d.width ≤ 2 ^ 32 := by
      rw [hd.pow_eq]
      exact Nat.pow_le_pow_right (by decide) (bits_le hvalid)
    have hread : out = (lines.foldl (Reading.step d) {}).result :=
      read_eq_result hd.digits_eq prior hends hfits
    rw [hread, ← hd.base_eq, ← hd.width_eq]
    rcases foldl_step_cases d (rfl : ({} : Reading).error = none) lines with
      ⟨vs, hvs, hrun⟩ | ⟨good, line, rest, vs, heq, hvs, hbad, hrun⟩
    · have hwords : (Reading.after {} lines vs).words.toList.map (·.toNat) = vs.reduceOption := by
        simpa [Reading.after] using map_toNat_words hbits hvs
      have hcount : (Reading.after {} lines vs).count = bytes lines := by
        simp [Reading.after, bytes]
      rw [hrun]
      exact ⟨iff_of_true rfl (exists_denotes hvs), fun _ => ⟨vs, hvs, hwords, hcount⟩,
        fun hne => absurd rfl hne⟩
    · have herror :
          ((Reading.after {} good vs).stop line).error = some (.line (good.length + 1) line) := by
        simp [Reading.after, Reading.stop]
      have hwords :
          ((Reading.after {} good vs).stop line).words.toList.map (·.toNat) = vs.reduceOption := by
        simpa [Reading.after, Reading.stop] using map_toNat_words hbits hvs
      have hcount : ((Reading.after {} good vs).stop line).count = bytes (good ++ [line]) := by
        simp [Reading.after, Reading.stop, bytes]
        omega
      have hsome : ((Reading.after {} good vs).stop line).error ≠ none := by
        rw [herror]
        exact Option.some_ne_none _
      rw [hrun]
      refine ⟨iff_of_false hsome ?_, fun hnone => absurd hnone hsome,
        fun _ => ⟨good, line, rest, vs, heq, hvs, hbad, herror, hwords, hcount⟩⟩
      intro hall
      obtain ⟨v, hv⟩ := hall line (by rw [heq]; simp)
      exact hbad v hv
  · intro hinvalid
    show read layout prior input = _
    rw [read, digits_of_not_isValid hinvalid]

/-- Two hexadecimal digits for each word: a comment, a blank line, white space of two kinds, and a
line with a mark that no number has. -/
theorem read_grammar_marked :
    let input : Input := ⟨"0A // ten\r\n\n\u00a0\t1f\n0x\n7", none⟩
    (⟨16, 2⟩ : Layout).IsValid ∧
      (∀ segment ∈ Input.segments input.bytes, segment.length < Input.maxLineLength) ∧
      ∃ good rest vs,
        (Input.segments input.bytes).map Input.dropReturn = good ++ ("0x" : Text) :: rest ∧
        List.Forall₂ (Denotes 16 2) good vs ∧ (∀ v, ¬Denotes 16 2 "0x" v) ∧ good.length = 3 ∧
        vs.reduceOption = [10, 31] := by
  intro input
  have hvalid : (⟨16, 2⟩ : Layout).IsValid := by decide
  have hfits : ∀ segment ∈ Input.segments input.bytes, segment.length < Input.maxLineLength := by
    decide +kernel
  have herror : (read ⟨16, 2⟩ #[7] input).error = some (.line 4 "0x") := by decide +kernel
  have hwords : (read ⟨16, 2⟩ #[7] input).words.toList.map (·.toNat) = [10, 31] := by decide +kernel
  obtain ⟨-, -, hbad⟩ := (read_grammar ⟨16, 2⟩ #[7] input rfl hfits).1 hvalid
  obtain ⟨good, line, rest, vs, hlines, hvs, hnone, hline, hvalues, -⟩ :=
    hbad (by rw [herror]; simp)
  rw [herror, Option.some.injEq, ImageError.line.injEq] at hline
  obtain ⟨hlength, rfl⟩ := hline
  exact ⟨hvalid, hfits, good, rest, vs, hlines, hvs, hnone, by omega, by rw [← hvalues, hwords]⟩

end Image

end WordMachine
