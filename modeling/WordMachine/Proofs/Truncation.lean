import WordMachine.Proofs.RoundTrip

/-!
# Images cut short

A sink with a bound takes the first bytes of an image, and the rest is lost. Words run over the ends
of blocks, and the buffer is handed on only when a word does not fit or the image ends; so the bytes
that were put into it until the sink failed are whole blocks, up to the one in which the bound lies
(`Sink.count_writeBuffered`). `Image.write_bounded` says it for an image.
-/

namespace WordMachine

namespace Sink

variable {sink : Sink} {bound : Bound}

/-- A sink with a `bound` fails exactly if there is no room for the whole text `t`. -/
theorem write_eq_none_iff (h : sink.bound = some bound) (t : Text) :
    (sink.write t).2 = none ↔ t.length ≤ bound.size - sink.taken.size := by
  rw [write, h]
  dsimp only
  split
  · rename_i hroom
    exact ⟨fun _ => hroom, fun _ => rfl⟩
  · rename_i hroom
    exact ⟨fun hnone => absurd hnone (Option.some_ne_none _), fun hle => absurd hle hroom⟩

/-- **What is put into the buffer ends with the block in which the room of the sink ends**: the
sizes of blocks are `Buffer.size`. -/
theorem count_writeBuffered (h : sink.bound = some bound) {ts : List Text}
    (hts : ∀ t ∈ ts, t.length ≤ Buffer.size) :
    (sink.writeBuffered ts).count =
      min ts.flatten.length (Buffer.size * ((bound.size - sink.taken.size) / Buffer.size + 1)) := by
  obtain ⟨room, hroom⟩ : ∃ room, room = bound.size - sink.taken.size := ⟨_, rfl⟩
  have hfits := write_eq_none_iff h
  rw [← hroom] at hfits ⊢
  have hcarries := carries_putAll sink hts
  rw [writeBuffered]
  generalize Buffer.putAll { sink } 0 ts = put at hcarries ⊢
  obtain ⟨b, n⟩ := put
  dsimp only at hcarries ⊢
  cases hcarries with
  | @going k hlow hhigh hsink =>
    have hblocks : k * Buffer.size ≤ room := by
      have htake := (hfits _).mp (congrArg Prod.snd hsink)
      rwa [List.length_take_of_le hlow] at htake
    unfold Buffer.size at hhigh hblocks ⊢
    omega
  | @failed k failure hblock hbefore hsink =>
    have hblocks : k * Buffer.size ≤ room := by
      have htake := (hfits _).mp hbefore
      rwa [List.length_take_of_le
        (Nat.le_trans (Nat.mul_le_mul_right _ (Nat.le_succ k)) hblock)] at htake
    have hlast : room < (k + 1) * Buffer.size := by
      by_contra hle
      have htake := (hfits (ts.flatten.take ((k + 1) * Buffer.size))).mpr (by
        rw [List.length_take_of_le hblock]
        exact Nat.le_of_not_lt hle)
      rw [hsink] at htake
      cases htake
    unfold Buffer.size at hblock hblocks hlast ⊢
    omega

end Sink

namespace Image

/-- **An image on a sink that fills up.** The sink takes the first `limit` bytes of the image, or
all if there are no more; there is no error exactly if these are all; and the bytes that are counted
are those of the image up to the end of the block of the buffer in which the bound lies. -/
theorem write_bounded (layout : Layout) (hvalid : layout.IsValid) (words : Array Word) (limit : Nat)
    (failure : Failure) :
    let whole := write layout words {}
    let total := words.size * (layout.columns + 1)
    let out := write layout words ⟨some ⟨limit, failure⟩, #[]⟩
    whole.error = none ∧ whole.sink.text.length = total ∧
      out.sink.text = whole.sink.text.take (min limit total) ∧
      (out.error = none ↔ total ≤ limit) ∧
      (out.error ≠ none → out.error = some (.write failure)) ∧
      out.count = min total (4096 * (limit / 4096 + 1)) := by
  intro whole total out
  obtain ⟨d, hd⟩ := Layout.exists_hasDigits hvalid
  obtain ⟨hnone, hwhole, -⟩ := write_unbounded hd.digits_eq hd.width_pos words
  obtain ⟨hsink, herror⟩ := write_eq_write hd.digits_eq words ⟨some ⟨limit, failure⟩, #[]⟩
  obtain ⟨htext, hfailure⟩ := Sink.write_of_bound ⟨limit, failure⟩ (render d words)
  have hcount := Sink.count_writeBuffered (rfl : (⟨some ⟨limit, failure⟩, #[]⟩ : Sink).bound = _)
    (length_line_le hd.digits_eq words.toList)
  have htotal : (render d words).length = total := by
    rw [length_render hd.width_pos, hd.width_eq]
  rw [← List.flatMap_def, ← render, htotal] at hcount
  rw [htotal] at htext hfailure
  refine ⟨hnone, ?_, ?_, ?_, ?_, ?_⟩
  · rw [hwhole, htotal]
  · rw [hsink, htext, hwhole]
  · rw [herror, hfailure]
    split <;> simp [*]
  · rw [herror, hfailure]
    split <;> simp
  · show (write layout words ⟨some ⟨limit, failure⟩, #[]⟩).count = _
    rw [write, hd.digits_eq]
    exact hcount

/-- An image of 4500 bytes, on a sink that is one byte short of the first block. The word that runs
over the end of the block is counted up to there. -/
theorem write_bounded_block :
    ({} : Layout).IsValid ∧
      let out := write {} (Array.replicate 500 0xcafe) ⟨some ⟨4095, ⟨"no space"⟩⟩, #[]⟩
      out.sink.text.length = 4095 ∧ out.error = some (.write ⟨"no space"⟩) ∧ out.count = 4096 := by
  have hvalid : ({} : Layout).IsValid := by decide
  have htotal :
      (Array.replicate 500 (0xcafe : Word)).size * (({} : Layout).columns + 1) = 4500 := by
    rw [Array.size_replicate]
    decide
  obtain ⟨-, hlength, htext, hnone, herror, hcount⟩ :=
    write_bounded {} hvalid (Array.replicate 500 0xcafe) 4095 ⟨"no space"⟩
  rw [htotal] at hlength htext hnone hcount
  refine ⟨hvalid, ?_, ?_, hcount⟩
  · rw [htext, List.length_take, hlength]
    rfl
  · exact herror fun h => absurd (hnone.mp h) (by decide)

end Image

end WordMachine
