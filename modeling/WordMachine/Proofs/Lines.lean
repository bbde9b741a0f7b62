import WordMachine.Proofs.Trimming
import WordMachine.Text.Input
import Mathlib.Data.List.TakeWhile

/-!
# Lines read back

A text that is made by ending each of some lines with a line feed (`unlines`) is read as these
lines, if each of them can be told from its neighbours: it has no line feed in it and fits the line
buffer (`IsSegment`). A carriage return at its end is dropped.

* `lines_unlines`: reading such a text delivers its lines.
* `fitting_eq_segments`: an input that is read to its end has all its segments delivered.
-/

namespace WordMachine.Input

open Text (byte)

/-- The lines `ls` as a text, each of them ended by a line feed. -/
def unlines (ls : List Text) : Text :=
  ls.flatMap fun l => l ++ [byte '\n']

/-- A text `l` that can stand between two line feeds. -/
structure IsSegment (l : Text) : Prop where
  noFeed : byte '\n' ∉ l
  fits : l.length < maxLineLength

/-- A text `l` that is read as it stands when it stands on a line. -/
structure IsLine (l : Text) : Prop extends IsSegment l where
  noReturn : l.getLast? ≠ some (byte '\r')

/-- The bytes of visible characters and the space are neither line feeds nor carriage returns. -/
theorem isLine_of_visible {l : Text} (hl : ∀ b ∈ l, Text.isVisible b = true ∨ b = byte ' ')
    (hlength : l.length < maxLineLength) : IsLine l where
  noFeed := by
    intro hmem
    rcases hl _ hmem with h | h <;> revert h <;> decide
  noReturn := by
    intro hlast
    rcases hl _ (List.mem_of_getLast? hlast) with h | h <;> revert h <;> decide
  fits := hlength

/-- A line as it stands has no carriage return to drop. -/
theorem IsLine.dropReturn_eq {l : Text} (hl : IsLine l) : dropReturn l = l := by
  rw [dropReturn, if_neg (by simpa using hl.noReturn)]

/-- A carriage return that is dropped would be trimmed as well. -/
theorem trim_dropReturn (line : Text) : Text.trim (dropReturn line) = Text.trim line := by
  unfold dropReturn
  split
  · rename_i hlast
    obtain ⟨start, rfl⟩ := List.getLast?_eq_some_iff.mp (beq_iff_eq.mp hlast)
    rw [List.dropLast_concat, Text.trim_append_blanks start Text.blanks_return]
  · rfl

/-- Cutting at line feeds gives the lines `ls`, which have none, and an empty stretch after the last
one. -/
theorem splitOn_unlines {ls : List Text} (hls : ∀ l ∈ ls, byte '\n' ∉ l) :
    (unlines ls).splitOn (byte '\n') = ls ++ [[]] := by
  induction ls with
  | nil => rfl
  | cons l ls ih =>
    have hrest : unlines (l :: ls) = l ++ byte '\n' :: unlines ls := by
      simp [unlines]
    rw [hrest, List.splitOn_append_cons_self_of_not_mem (hls l List.mem_cons_self),
      ih fun m hm => hls m (List.mem_cons_of_mem l hm), List.cons_append]

/-- The segments of a text made of lines `ls` are these lines, whether they fit the line buffer or
not. -/
theorem segments_unlines {ls : List Text} (hls : ∀ l ∈ ls, byte '\n' ∉ l) :
    segments (unlines ls) = ls := by
  rw [segments, splitOn_unlines hls]
  simp

section Segments

variable {ls : List Text} (hls : ∀ l ∈ ls, IsSegment l)

include hls

/-- All segments of `unlines ls` fit the line buffer. -/
theorem fitting_unlines : fitting (unlines ls) = ls := by
  rw [fitting, segments_unlines fun l hl => (hls l hl).noFeed, List.takeWhile_eq_self_iff]
  intro l hl
  simpa using (hls l hl).fits

/-- **Reading `unlines ls` delivers its lines**, without the carriage returns at their ends. -/
theorem lines_unlines (failure : Option Failure) :
    lines ⟨unlines ls, failure⟩ = ls.map dropReturn := by
  rw [lines, fitting_unlines hls]

/-- Nothing ends the reading of `unlines ls` early. -/
theorem fault?_unlines : fault? ⟨unlines ls, none⟩ = none := by
  rw [fault?, fitting_unlines hls, segments_unlines fun l hl => (hls l hl).noFeed]
  simp

end Segments

/-- What stands between two marks has no mark in it: `isMark` holds of no byte of `l`. -/
theorem noMark_of_mem_splitOnP {isMark : UInt8 → Bool} {t l : Text} (h : l ∈ t.splitOnP isMark) :
    ∀ b ∈ l, isMark b = false := by
  induction t generalizing l with
  | nil =>
    rw [List.splitOnP_nil, List.mem_singleton] at h
    subst h
    exact fun b hb => absurd hb List.not_mem_nil
  | cons b t ih =>
    rw [List.splitOnP_cons_eq_if_modifyHead] at h
    split at h
    · rcases List.mem_cons.mp h with rfl | h
      · exact fun b hb => absurd hb List.not_mem_nil
      · exact ih h
    · rename_i hb
      obtain ⟨first, rest, hsplit⟩ := List.exists_cons_of_ne_nil (List.splitOnP_ne_nil isMark t)
      rw [hsplit, List.modifyHead_cons] at h
      rcases List.mem_cons.mp h with rfl | h
      · rw [List.forall_mem_cons]
        exact ⟨Bool.eq_false_iff.mpr hb, ih (hsplit ▸ List.mem_cons_self)⟩
      · exact ih (hsplit ▸ List.mem_cons_of_mem first h)

theorem not_mem_of_mem_splitOn {mark : UInt8} {t l : Text} (h : l ∈ t.splitOn mark) : mark ∉ l := by
  intro hmem
  have hmark := noMark_of_mem_splitOnP h mark hmem
  rw [beq_self_eq_true] at hmark
  cases hmark

/-- A segment has no line feed in it. -/
theorem noFeed_of_mem_segments {bytes l : Text} (h : l ∈ segments bytes) : byte '\n' ∉ l := by
  refine not_mem_of_mem_splitOn (t := bytes) ?_
  unfold segments at h
  dsimp only at h
  split at h
  · exact List.dropLast_subset _ h
  · exact h

/-- What is read of an input stood between two line feeds. -/
theorem isSegment_of_mem_fitting {bytes l : Text} (h : l ∈ fitting bytes) : IsSegment l where
  noFeed := noFeed_of_mem_segments (List.takeWhile_subset _ h)
  fits := by simpa using List.mem_takeWhile_imp h

/-- Segments that fit the line buffer are all delivered, so they are `fitting`. -/
theorem fitting_of_fits {bytes : Text} (h : ∀ l ∈ segments bytes, l.length < maxLineLength) :
    fitting bytes = segments bytes := by
  rw [fitting, List.takeWhile_eq_self_iff]
  intro l hl
  simpa using h l hl

/-- An input that does not fail is read to its end if its segments fit the line buffer. -/
theorem fault?_of_fits {input : Input} (hends : input.failure = none)
    (h : ∀ l ∈ segments input.bytes, l.length < maxLineLength) : input.fault? = none := by
  rw [fault?, fitting_of_fits h, hends, if_neg (Nat.lt_irrefl _)]
  rfl

/-- An input that is read to its end has no segment that does not fit: all are `fitting`. -/
theorem fitting_eq_segments {input : Input} (h : input.fault? = none) :
    fitting input.bytes = segments input.bytes := by
  unfold fault? at h
  split at h
  · cases h
  · rename_i hlength
    exact (List.takeWhile_prefix _).eq_of_length_le (Nat.le_of_not_lt hlength)

/-- Lines `ls` that stand as they are read are delivered as they stand. -/
theorem lines_unlines_of_isLine {ls : List Text} (hls : ∀ l ∈ ls, IsLine l)
    (failure : Option Failure) : lines ⟨unlines ls, failure⟩ = ls := by
  rw [lines_unlines fun l hl => (hls l hl).toIsSegment,
    List.map_congr_left fun l hl => (hls l hl).dropReturn_eq, List.map_id']

end WordMachine.Input
