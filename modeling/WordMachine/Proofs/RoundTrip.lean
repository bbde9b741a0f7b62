import WordMachine.Proofs.Image

/-!
# Images under one layout

What is written under a layout is read under the same layout: each word comes back with the bits
that its digits hold, and writing and reading count the same bytes. What was read under a layout has
no more bits than that, so it comes back as it is. `Image.read_write` says so for every valid
layout.
-/

namespace WordMachine

/-! ## Layouts -/

namespace Layout

/-- A layout with a known radix, and with no more digits than 32 bits take. -/
def IsValid (layout : Layout) : Prop :=
  (layout.radix = 0 ∨ layout.radix = 16) ∧ 0 ≤ layout.width ∧ layout.width ≤ 8 ∨
    layout.radix = 2 ∧ 0 ≤ layout.width ∧ layout.width ≤ 32

instance (layout : Layout) : Decidable layout.IsValid :=
  inferInstanceAs (Decidable (_ ∨ _))

/-- The digits of a word; if no `width` is given, as many as 32 bits take. -/
def columns (layout : Layout) : Nat :=
  if layout.width ≠ 0 then layout.width.toNat
  else if layout.radix = 2 then 32
  else 8

/-- The base of the digits. -/
def base (layout : Layout) : Nat :=
  if layout.radix = 2 then 2 else 16

/-- The bits that the digits of a word hold. -/
def bits (layout : Layout) : Nat :=
  if layout.radix = 2 then layout.columns else 4 * layout.columns

/-- The digits `d` of a valid layout. -/
structure HasDigits (layout : Layout) (d : Digits) : Prop where
  digits_eq : layout.digits = .ok d
  base_eq : d.radix.base = layout.base
  width_eq : d.width = layout.columns
  pow_eq : d.radix.base ^ d.width = 2 ^ layout.bits
  width_pos : 0 < d.width
  width_le : d.width ≤ 32

/-- A word has at least one digit, and no more than 32. -/
theorem columns_range {layout : Layout} (h : layout.IsValid) :
    0 < layout.columns ∧ layout.columns ≤ 32 := by
  unfold IsValid at h
  unfold columns
  split_ifs <;> omega

/-- A valid layout has digits. -/
theorem exists_hasDigits {layout : Layout} (h : layout.IsValid) : ∃ d, layout.HasDigits d := by
  obtain ⟨hpos, hle⟩ := columns_range h
  rcases h with ⟨hradix, hlow, hhigh⟩ | ⟨hradix, hlow, hhigh⟩
  · refine ⟨⟨.hex, layout.columns⟩, ?_, ?_, rfl, ?_, hpos, hle⟩
    · grind [digits, columns, Radix.fullWidth]
    · rw [base, if_neg (by omega)]
      rfl
    · rw [bits, if_neg (by omega), Nat.pow_mul]
      rfl
  · refine ⟨⟨.binary, layout.columns⟩, ?_, ?_, rfl, ?_, hpos, hle⟩
    · grind [digits, columns, Radix.fullWidth]
    · rw [base, if_pos hradix]
      rfl
    · rw [bits, if_pos hradix]
      rfl

end Layout

namespace Image

/-! ## Written bytes -/

/-- Each word of an image takes a line of its `d.width` digits. -/
theorem length_render {d : Digits} (hwidth : 0 < d.width) (words : Array Word) :
    (render d words).length = words.size * (d.width + 1) := by
  rw [render_eq_unlines, Input.unlines, List.length_flatMap, List.map_map]
  have hline : ((fun l : Text => (l ++ [Text.byte '\n']).length) ∘ wordText d) =
      fun _ => d.width + 1 := by
    funext w
    rw [Function.comp_apply, List.length_append, length_wordText hwidth, List.length_singleton]
  rw [hline]
  simp

/-- An image goes whole into a sink that takes everything. -/
theorem write_unbounded {layout : Layout} {d : Digits} (hd : layout.digits = .ok d)
    (hwidth : 0 < d.width) (words : Array Word) :
    (write layout words {}).error = none ∧
      (write layout words {}).sink.text = render d words ∧
      (write layout words {}).count = words.size * (d.width + 1) := by
  obtain ⟨hsink, herror⟩ := write_eq_write hd words {}
  have hall := @Sink.write_unbounded {} rfl (render d words)
  have hcount := Sink.count_of_writeBuffered {} (length_line_le hd words.toList)
  rw [← List.flatMap_def, ← render, hall, length_render hwidth] at hcount
  rw [hsink, herror, hall]
  refine ⟨rfl, by simp [Sink.text], ?_⟩
  rw [write, hd]
  exact hcount rfl

/-! ## Words that were read -/

/-- All `words` can be written with the digits `d`. -/
def Fits (d : Digits) (words : Array Word) : Prop :=
  ∀ w ∈ words, w.toNat < d.radix.base ^ d.width

/-- A line gives no word that is longer than its digits `d`. -/
theorem fits_step {d : Digits} {r : Reading} (hr : Fits d r.words) (line : Text) :
    Fits d (r.step d line).words := by
  unfold Reading.step
  split
  · exact hr
  · dsimp only
    split
    · exact hr
    · split
      · exact hr
      · rename_i hlength
        split
        · rename_i n hn
          intro w hw
          rcases Array.mem_push.mp hw with hw | rfl
          · exact hr w hw
          -- The line has at most as many digits as the layout.
          · calc (UInt32.ofNat n).toNat ≤ n := by
                  rw [UInt32.toNat_ofNat']
                  exact Nat.mod_le _ _
              _ < d.radix.base ^ (lineContent line).length := Text.lt_pow_of_natOf? hn
              _ ≤ d.radix.base ^ d.width :=
                  Nat.pow_le_pow_right (Nat.lt_of_succ_lt (base_range d.radix).1)
                    (Nat.le_of_not_lt hlength)
        · exact hr

/-- Reading gives no word that is longer than its digits `d`. -/
theorem fits_read {layout : Layout} {d : Digits} (hd : layout.digits = .ok d) (prior : Array Word)
    (input : Input) : Fits d (read layout prior input).words := by
  have hrun : ∀ (ls : List Text) (r : Reading), Fits d r.words →
      Fits d (ls.foldl (Reading.step d) r).words := by
    intro ls
    induction ls with
    | nil => exact fun r hr => hr
    | cons l ls ih => exact fun r hr => ih (r.step d l) (fits_step hr l)
  simp only [read, hd]
  exact hrun input.lines {} (by simp [Fits])

/-- Words that fit are `kept` as they are. -/
theorem map_kept_of_fits {d : Digits} {words : Array Word} (h : Fits d words) :
    words.map (kept d) = words := by
  have hkept : ∀ w ∈ words, kept d w = w := by
    intro w hw
    rw [kept, Nat.mod_eq_of_lt (h w hw), UInt32.ofNat_toNat]
  rw [Array.map_congr_left hkept, Array.map_id']

/-- The number of a word that is `kept`. -/
theorem toNat_kept (d : Digits) (w : Word) :
    (kept d w).toNat = w.toNat % d.radix.base ^ d.width := by
  have hw := w.toNat_lt
  have hle := Nat.mod_le w.toNat (d.radix.base ^ d.width)
  rw [kept, UInt32.toNat_ofNat', Nat.mod_eq_of_lt (by omega)]

/-- **An image is read back under its `layout`.** Its words come back with the bits that their
digits hold, and writing and reading count its bytes alike. So an image that is read under a layout,
written under it and read again has the same words. -/
theorem read_write (layout : Layout) (hvalid : layout.IsValid) :
    (∀ words prior : Array Word,
      let out := write layout words {}
      let back := read layout prior ⟨out.sink.text, none⟩
      out.error = none ∧ back.error = none ∧
        back.words.toList.map (·.toNat) = words.toList.map (·.toNat % 2 ^ layout.bits) ∧
        out.sink.text.length = words.size * (layout.columns + 1) ∧
        out.count = words.size * (layout.columns + 1) ∧
        back.count = words.size * (layout.columns + 1)) ∧
    ∀ (prior : Array Word) (input : Input), (read layout prior input).error = none →
      ∀ prior' : Array Word,
        let words := (read layout prior input).words
        let out := write layout words {}
        let back := read layout prior' ⟨out.sink.text, none⟩
        out.error = none ∧ back.error = none ∧ back.words = words := by
  obtain ⟨d, hd⟩ := Layout.exists_hasDigits hvalid
  have hfits : d.width < Input.maxLineLength := Nat.lt_of_le_of_lt hd.width_le (by decide)
  have hout := write_unbounded hd.digits_eq hd.width_pos
  have hback := read_render hd.digits_eq hd.width_pos hfits
  refine ⟨?_, ?_⟩
  · intro words prior out back
    obtain ⟨herror, htext, hcount⟩ := hout words
    have hread : back = ⟨words.size * (d.width + 1), words.map (kept d), none⟩ := by
      show read layout prior ⟨out.sink.text, none⟩ = _
      rw [htext, hback]
    rw [hread, htext, hcount, length_render hd.width_pos, hd.width_eq, ← hd.pow_eq,
      Array.toList_map, List.map_map]
    exact ⟨herror, rfl, List.map_congr_left fun w _ => toNat_kept d w, rfl, rfl, rfl⟩
  · intro prior input _ prior' words out back
    obtain ⟨herror, htext, -⟩ := hout words
    have hread : back = ⟨words.size * (d.width + 1), words, none⟩ := by
      show read layout prior' ⟨out.sink.text, none⟩ = _
      rw [htext, hback, map_kept_of_fits (fits_read hd.digits_eq prior input)]
    rw [hread]
    exact ⟨herror, rfl, rfl⟩

/-- Two hexadecimal digits: a word that is cut, and a text with a comment, a blank line and a short
line. -/
theorem read_write_bytes :
    (⟨16, 2⟩ : Layout).IsValid ∧
      (read ⟨16, 2⟩ #[7] ⟨(write ⟨16, 2⟩ #[0x1ab, 5] {}).sink.text, none⟩).words.toList.map
        (·.toNat) = [0xab, 5] ∧
      (read ⟨16, 2⟩ #[] ⟨"f // first\r\n\n 0A", none⟩).error = none ∧
      (read ⟨16, 2⟩ #[3]
        ⟨(write ⟨16, 2⟩ (read ⟨16, 2⟩ #[] ⟨"f // first\r\n\n 0A", none⟩).words {}).sink.text,
          none⟩).words = #[15, 10] := by
  have hvalid : (⟨16, 2⟩ : Layout).IsValid := by decide
  have haccepted : (read ⟨16, 2⟩ #[] ⟨"f // first\r\n\n 0A", none⟩).error = none := by
    decide +kernel
  obtain ⟨hback, hagain⟩ := read_write ⟨16, 2⟩ hvalid
  refine ⟨hvalid, (hback #[0x1ab, 5] #[7]).2.2.1.trans (by decide), haccepted, ?_⟩
  rw [(hagain #[] _ haccepted #[3]).2.2]
  decide +kernel

end Image

end WordMachine
