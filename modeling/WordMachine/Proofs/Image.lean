import WordMachine.Image
import WordMachine.Proofs.Lines
import WordMachine.Proofs.Numeral
import WordMachine.Proofs.Sink

/-!
# Images read back

An image is written with one word on each line, through a buffer. Reading it gives the words,
reduced to the digits that the layout has room for.

* `write_eq_write`: a sink takes of an image what it takes of its text at once.
* `read_render`: an image is read back, each word as `kept`.
-/

namespace WordMachine

namespace Image

open Text (byte)

/-! ## Words as lines -/

/-- The digits of the word `w`, as they stand on its line. -/
def wordText (d : Digits) (w : Word) : Text :=
  Text.padLeft d.width (byte '0') (Text.upperDigits d.radix.base (w.toNat % d.radix.base ^ d.width))

/-- An image is its words as lines, each ended by a line feed. -/
theorem render_eq_unlines (d : Digits) (words : Array Word) :
    render d words = Input.unlines (words.toList.map (wordText d)) := by
  rw [render, Input.unlines, List.flatMap_map]
  rfl

theorem base_range (r : Radix) : 1 < r.base ∧ r.base ≤ 16 := by
  cases r <;> decide

/-- The digits of `w` denote its remainder, modulo `base ^ width`. -/
theorem natOf?_wordText (d : Digits) (w : Word) :
    Text.natOf? d.radix.base (wordText d w) = some (w.toNat % d.radix.base ^ d.width) :=
  Text.natOf?_zeros_append Text.spells_upper (base_range d.radix).1 (base_range d.radix).2 _ _

/-- A word has exactly `d.width` digits. -/
theorem length_wordText {d : Digits} (hwidth : 0 < d.width) (w : Word) :
    (wordText d w).length = d.width := by
  have hlt : w.toNat % d.radix.base ^ d.width < d.radix.base ^ d.width :=
    Nat.mod_lt _ (Nat.pow_pos (Nat.lt_trans Nat.zero_lt_one (base_range d.radix).1))
  have hdigits : (Text.upperDigits d.radix.base (w.toNat % d.radix.base ^ d.width)).length ≤
      d.width := by
    rw [Text.upperDigits, List.length_map]
    exact (Nat.length_toDigits_le_iff (base_range d.radix).1 hwidth).mpr hlt
  rw [wordText, Text.padLeft, List.length_append, List.length_replicate]
  omega

/-! ## Writing -/

/-- A layout gives at least one digit, and no more than bits. -/
theorem width_range {layout : Layout} {d : Digits} (h : layout.digits = .ok d) :
    0 < d.width ∧ d.width ≤ 32 := by
  grind [Layout.digits, Radix.fullWidth]

/-- The line of a word fits a buffer, having at most `Buffer.size` bytes. -/
theorem length_line_le {layout : Layout} {d : Digits} (h : layout.digits = .ok d)
    (words : List Word) :
    ∀ t ∈ words.map (wordLine d), t.length ≤ Buffer.size := by
  obtain ⟨hpos, hle⟩ := width_range h
  intro t ht
  obtain ⟨w, -, rfl⟩ := List.mem_map.mp ht
  have hline : wordLine d w = wordText d w ++ [byte '\n'] := rfl
  rw [hline, List.length_append, length_wordText hpos, List.length_singleton, Buffer.size]
  omega

/-- **A sink takes of an image what it takes of its text at once**, and fails where it would. -/
theorem write_eq_write {layout : Layout} {d : Digits} (h : layout.digits = .ok d)
    (words : Array Word) (sink : Sink) :
    (write layout words sink).sink = (sink.write (render d words)).1 ∧
      (write layout words sink).error = (sink.write (render d words)).2.map .write := by
  have hwrite := Sink.writeBuffered_eq_write sink (length_line_le h words.toList)
  rw [← List.flatMap_def, ← render] at hwrite
  rw [← hwrite, write, h]
  exact ⟨rfl, rfl⟩

/-- An image that was written without an error was written whole, as `render` has it. -/
theorem text_of_write {layout : Layout} {words : Array Word} {sink : Sink}
    (h : (write layout words sink).error = none) :
    ∃ d, layout.digits = .ok d ∧
      (write layout words sink).sink.text = sink.text ++ render d words := by
  cases hdigits : layout.digits with
  | error e =>
    rw [write, hdigits] at h
    cases h
  | ok d =>
    obtain ⟨hsink, herror⟩ := write_eq_write hdigits words sink
    rw [herror, Option.map_eq_none_iff] at h
    exact ⟨d, rfl, by rw [hsink, Sink.text_of_write h]⟩

/-! ## Lines of words -/

/-- The digits of a word are digits and letters. -/
theorem isDigitOf_of_mem_wordText {d : Digits} {w : Word} {b : UInt8} (hb : b ∈ wordText d w) :
    Text.isDigit b = true ∨ Text.isLetter b = true := by
  rw [wordText, Text.padLeft, List.mem_append] at hb
  rcases hb with hb | hb
  · rw [List.eq_of_mem_replicate hb]
    exact .inl (by decide)
  · exact Text.isDigit_or_isLetter_of_isDigitOf (base_range d.radix).2
      (Text.isDigitOf_of_mem_map_toDigits Text.spells_upper (base_range d.radix).1
        (base_range d.radix).2 _ b hb)

theorem isVisible_of_mem_wordText {d : Digits} {w : Word} {b : UInt8} (hb : b ∈ wordText d w) :
    Text.isVisible b = true := by
  rcases isDigitOf_of_mem_wordText hb with h | h
  · exact Text.isVisible_of_isDigit h
  · exact Text.isVisible_of_isLetter h

/-- A text `t` without a slash has no comment. -/
theorem commentStart_of_not_mem {t : Text} (ht : byte '/' ∉ t) (n : Nat) :
    commentStart n t = n + t.length := by
  induction t generalizing n with
  | nil => rfl
  | cons b t ih =>
    have hb : (b == byte '/') = false := beq_false_of_ne fun h => ht (h ▸ List.mem_cons_self)
    rw [commentStart, hb, Bool.false_and, if_neg (by decide),
      ih fun h => ht (List.mem_cons_of_mem b h), List.length_cons]
    omega

/-- There is nothing on the line of `w` but its digits. -/
theorem lineContent_wordText (d : Digits) (w : Word) :
    lineContent (wordText d w) = wordText d w := by
  have hslash : byte '/' ∉ wordText d w := by
    intro hmem
    rcases isDigitOf_of_mem_wordText hmem with h | h <;> revert h <;> decide
  rw [lineContent, commentStart_of_not_mem hslash, Nat.zero_add, List.take_length,
    Text.trim_of_visible fun b hb => isVisible_of_mem_wordText hb]

/-! ## Reading -/

/-- A word as it is read, with the digits that the layout has room for. -/
def kept (d : Digits) (w : Word) : Word :=
  UInt32.ofNat (w.toNat % d.radix.base ^ d.width)

/-- The line of the word `w` gives the word, as it is `kept`. -/
theorem step_wordText {d : Digits} (hwidth : 0 < d.width) {r : Reading} (hr : r.error = none)
    (w : Word) :
    r.step d (wordText d w) =
      { r with lineNo := r.lineNo + 1, count := r.count + d.width + 1
               words := r.words.push (kept d w) } := by
  have hlength := length_wordText hwidth w
  have hempty : (wordText d w).isEmpty = false := by
    rw [List.isEmpty_eq_false_iff_exists_mem]
    exact List.exists_mem_of_length_pos (by omega)
  simp only [Reading.step, hr, lineContent_wordText, hempty, natOf?_wordText, hlength,
    Option.isSome_none, Bool.false_eq_true, if_false, gt_iff_lt, Nat.lt_irrefl, kept]

/-- The lines of the words `ws` give the words. -/
theorem foldl_step_wordText {d : Digits} (hwidth : 0 < d.width) (ws : List Word) :
    ∀ r : Reading, r.error = none →
      (ws.map (wordText d)).foldl (Reading.step d) r =
        { r with lineNo := r.lineNo + ws.length, count := r.count + ws.length * (d.width + 1)
                 words := r.words ++ (ws.map (kept d)).toArray } := by
  induction ws with
  | nil =>
    intro r _
    simp
  | cons w ws ih =>
    intro r hr
    rw [List.map_cons, List.foldl_cons, ih (r.step d (wordText d w)), step_wordText hwidth hr]
    · simp only [Reading.mk.injEq, List.length_cons, Nat.succ_mul, and_true]
      refine ⟨by omega, by omega, ?_⟩
      simp
    · rw [step_wordText hwidth hr]
      exact hr

/-- **An image is read back**: its words come out with the digits that the layout has room for, and
its bytes are counted; what the memory held `prior` to that is gone. -/
theorem read_render {layout : Layout} {d : Digits} (hd : layout.digits = .ok d)
    (hwidth : 0 < d.width) (hfits : d.width < Input.maxLineLength) (prior words : Array Word) :
    read layout prior ⟨render d words, none⟩ =
      ⟨words.size * (d.width + 1), words.map (kept d), none⟩ := by
  have hls : ∀ l ∈ words.toList.map (wordText d), Input.IsLine l := by
    intro l hl
    obtain ⟨w, -, rfl⟩ := List.mem_map.mp hl
    refine Input.isLine_of_visible (fun b hb => .inl (isVisible_of_mem_wordText hb)) ?_
    rw [length_wordText hwidth]
    exact hfits
  have hwords : (words.toList.map (kept d)).toArray = words.map (kept d) := Array.ext' (by simp)
  rw [render_eq_unlines]
  simp only [read, hd, Input.lines_unlines_of_isLine hls,
    Input.fault?_unlines fun l hl => (hls l hl).toIsSegment,
    foldl_step_wordText hwidth words.toList {} rfl, hwords]
  simp

/-- Eight hexadecimal digits hold a word. -/
theorem kept_full (w : Word) : kept ⟨.hex, 8⟩ w = w := by
  have hw := w.toNat_lt
  have hmod : w.toNat % Radix.hex.base ^ 8 = w.toNat := Nat.mod_eq_of_lt hw
  rw [kept, hmod, UInt32.ofNat_toNat]

end Image

end WordMachine
