import WordMachine.Text.Sink
import Mathlib.Tactic

/-!
# What a sink takes

A sink takes the first bytes of all that is written, up to its bound. It makes no difference whether
a text is written at once, in parts (`Sink.writeAll_eq_write`), or in parts through a buffer
(`Sink.writeBuffered_eq_write`): the sink ends with the same bytes, and it fails or does not fail
alike. The invariant of the buffer is `Buffer.Carries`.
-/

namespace WordMachine

namespace Sink

/-! ## Texts written in parts -/

/-- Two texts are written by writing `s`, and then `t` unless `s` has failed. -/
theorem write_append (sink : Sink) (s t : Text) :
    sink.write (s ++ t) =
      if (sink.write s).2.isSome then sink.write s else (sink.write s).1.write t := by
  obtain ⟨bound, taken⟩ := sink
  have htaken : ∀ u : Text, taken ++ (s ++ u) = taken ++ s ++ u := fun u => Array.ext' (by simp)
  cases bound with
  | none => simp [write, htaken]
  | some bound =>
    have hsize : (taken ++ s).size = taken.size + s.length := by
      rw [← Array.length_toList, Array.toList_appendList, List.length_append, Array.length_toList]
    by_cases hs : s.length ≤ bound.size - taken.size
    · have hroom : bound.size - (taken.size + s.length) = bound.size - taken.size - s.length := by
        omega
      have hfits : s.length + t.length ≤ bound.size - taken.size ↔
          t.length ≤ bound.size - taken.size - s.length := by omega
      simp only [write, if_pos hs, Option.isSome_none, Bool.false_eq_true, if_false, hsize, hroom,
        List.length_append, hfits, List.take_append, List.take_of_length_le hs, htaken]
    · have hboth : ¬s.length + t.length ≤ bound.size - taken.size := by omega
      have hnone : bound.size - taken.size - s.length = 0 := by omega
      simp [write, if_neg hs, hboth, List.take_append, hnone]

/-- Nothing is taken of an empty text. -/
theorem write_nil (sink : Sink) : sink.write [] = (sink, none) := by
  obtain ⟨bound, taken⟩ := sink
  cases bound <;> simp [write]

/-- **The texts `ts` are written one after the other as they are written at once.** -/
theorem writeAll_eq_write (sink : Sink) (ts : List Text) :
    sink.writeAll ts = sink.write ts.flatten := by
  induction ts generalizing sink with
  | nil => rw [writeAll, List.flatten_nil, write_nil]
  | cons t ts ih =>
    rw [writeAll, List.flatten_cons, write_append]
    rcases sink.write t with ⟨next, _ | failure⟩
    · exact ih next
    · rfl

/-- A sink without a bound takes everything. -/
theorem write_unbounded {sink : Sink} (h : sink.bound = none) (t : Text) :
    sink.write t = ({ sink with taken := sink.taken ++ t }, none) := by
  rw [write, h]

/-- A sink that starts with nothing takes the bytes up to `bound.size`, and fails if there are
more. -/
theorem write_of_bound (bound : Bound) (t : Text) :
    ((⟨some bound, #[]⟩ : Sink).write t).1.text = t.take (min bound.size t.length) ∧
      ((⟨some bound, #[]⟩ : Sink).write t).2 =
        if t.length ≤ bound.size then none else some bound.failure := by
  by_cases ht : t.length ≤ bound.size
  · simp [write, text, ht]
  · simp [write, text, ht, Nat.min_eq_left (Nat.le_of_not_le ht)]

/-- A write without a failure is taken whole. -/
theorem text_of_write {sink : Sink} {t : Text} (h : (sink.write t).2 = none) :
    (sink.write t).1.text = sink.text ++ t := by
  unfold write at h ⊢
  split
  · simp [text]
  · dsimp only at h ⊢
    split
    · simp [text]
    · rename_i bound hbound hroom
      simp only [hbound, if_neg hroom] at h
      cases h

end Sink

/-! ## Buffers -/

namespace Buffer

/-- A buffer into which the text `t` was to be put, in front of a sink that was `start` at first,
with the number of bytes that were put in. Whole blocks of the text have gone through, and the
buffer holds the rest; or the sink has failed at a block, which is the last one that was put in. -/
inductive Carries (start : Sink) (t : Text) : Buffer → Nat → Prop
  | going {b : Buffer} {k : Nat} (hlow : k * size ≤ t.length) (hhigh : t.length ≤ (k + 1) * size)
      (hsink : start.write (t.take (k * size)) = (b.sink, none))
      (hheld : b.held.toList = t.drop (k * size)) (hgoing : b.failure = none) :
      Carries start t b t.length
  | failed {b : Buffer} {k : Nat} {failure : Failure} (hblock : (k + 1) * size ≤ t.length)
      (hbefore : (start.write (t.take (k * size))).2 = none)
      (hsink : start.write (t.take ((k + 1) * size)) = (b.sink, some failure))
      (hfailed : b.failure = some failure) : Carries start t b ((k + 1) * size)

section Runs

variable {start : Sink} {b : Buffer} {s t : Text} {n : Nat}

/-- A buffer in front of a sink holds nothing at first. -/
theorem carries_nil (start : Sink) : Carries start [] { sink := start } 0 :=
  .going (k := 0) (by simp) (by simp) (Sink.write_nil start) rfl rfl

/-- What is handed on by `flush` when the buffer has been filled up to its end. -/
theorem flush_of_going (hgoing : b.failure = none) (hsink : start.write s = (b.sink, none))
    (hheld : b.held.toList = t) :
    start.write (s ++ t) = (b.flush.sink, b.flush.failure) := by
  rw [Sink.write_append, hsink, flush, hgoing, hheld]
  rfl

/-- **One more text `t` is put into the buffer**, or its part up to the end of a block that the sink
does not take. -/
theorem Carries.put (h : Carries start s b n) (hgoing : b.failure = none) (ht : t.length ≤ size) :
    Carries start (s ++ t) (b.put t).1 (n + (b.put t).2) := by
  obtain ⟨sink, held, _⟩ := b
  dsimp only at hgoing
  subst hgoing
  cases h with
  | failed _ _ _ hfailed => cases hfailed
  | @going k hlow hhigh hsink hheld _ =>
    have hsize : held.size = s.length - k * size := by
      rw [← Array.length_toList, hheld, List.length_drop]
    have hblock : (k + 1) * size = k * size + size := Nat.succ_mul k size
    simp only [Buffer.put, hsize, Option.isSome_none, Bool.false_eq_true, if_false]
    split
    · -- The text fits.
      rw [← List.length_append]
      refine .going (k := k) ?_ ?_ ?_ ?_ rfl
      · rw [List.length_append]
        omega
      · rw [List.length_append]
        omega
      · rw [List.take_append_of_le_length hlow, hsink]
      · rw [List.drop_append_of_le_length hlow, ← hheld, Array.toList_appendList]
    · -- The buffer is filled up to its end, which is the end of a block, and handed on.
      rename_i hroom
      obtain ⟨room, hfill⟩ : ∃ room, room = size - (s.length - k * size) := ⟨_, rfl⟩
      rw [← hfill] at hroom ⊢
      have hend : s.length + room = (k + 1) * size := by omega
      have hheld' : (held ++ t.take room).toList = s.drop (k * size) ++ t.take room := by
        rw [Array.toList_appendList, hheld]
      have hflush := flush_of_going (b := ⟨sink, held ++ t.take room, none⟩) rfl hsink hheld'
      rw [← List.append_assoc, List.take_append_drop, ← List.take_length_add_append, hend] at hflush
      split
      · rename_i hfailed
        obtain ⟨failure, hfailure⟩ := Option.isSome_iff_exists.mp hfailed
        rw [hfailure] at hflush
        rw [hend]
        refine .failed ?_ ?_ hflush hfailure
        · rw [List.length_append]
          omega
        · rw [List.take_append_of_le_length hlow, hsink]
      · rename_i hgoing
        rw [Option.not_isSome_iff_eq_none] at hgoing
        rw [hgoing] at hflush
        rw [← List.length_append]
        refine .going (k := k + 1) ?_ ?_ hflush ?_ hgoing
        · rw [List.length_append]
          omega
        · rw [List.length_append, Nat.succ_mul (k + 1)]
          omega
        · rw [← hend, List.drop_length_add_append]

/-- Nothing of a text `t` that would come after a failure is put in. -/
theorem Carries.append_of_failed (h : Carries start s b n) (hfailed : b.failure.isSome = true)
    (t : Text) :
    Carries start (s ++ t) b n := by
  cases h with
  | going _ _ _ _ hgoing =>
    rw [hgoing] at hfailed
    cases hfailed
  | @failed k failure hblock hbefore hsink hfailure =>
    have hbefore' : k * size ≤ s.length :=
      Nat.le_trans (Nat.mul_le_mul_right size (Nat.le_succ k)) hblock
    refine .failed ?_ ?_ ?_ hfailure
    · rw [List.length_append]
      omega
    · rwa [List.take_append_of_le_length hbefore']
    · rwa [List.take_append_of_le_length hblock]

/-- **The texts `ts` are put into the buffer one after the other**, until the sink fails. -/
theorem Carries.putAll {ts : List Text} (h : Carries start s b n) (hgoing : b.failure = none)
    (hts : ∀ t ∈ ts, t.length ≤ size) :
    Carries start (s ++ ts.flatten) (b.putAll n ts).1 (b.putAll n ts).2 := by
  induction ts generalizing s b n with
  | nil =>
    rw [List.flatten_nil, List.append_nil]
    exact h
  | cons t ts ih =>
    rw [List.forall_mem_cons] at hts
    have hput := h.put hgoing hts.1
    rw [Buffer.putAll, List.flatten_cons, ← List.append_assoc]
    generalize b.put t = next at hput ⊢
    obtain ⟨b', m⟩ := next
    dsimp only at hput ⊢
    split
    · rename_i hfailed
      exact hput.append_of_failed hfailed _
    · rename_i hgoing'
      exact ih hput (Option.not_isSome_iff_eq_none.mp hgoing') hts.2

/-- What is held back at the end is handed on, unless the sink has failed before. -/
theorem Carries.flush (h : Carries start t b n) :
    start.write t = (b.flush.sink, b.flush.failure) := by
  cases h with
  | @going k _ _ hsink hheld hgoing =>
    rw [← flush_of_going hgoing hsink hheld, List.take_append_drop]
  | @failed k failure _ _ hsink hfailed =>
    conv_lhs => rw [← List.take_append_drop ((k + 1) * size) t]
    rw [Sink.write_append, hsink, Buffer.flush, hfailed]
    simp [hfailed]

end Runs

end Buffer

/-! ## Writing through a buffer -/

namespace Sink

variable (sink : Sink) {ts : List Text} (hts : ∀ t ∈ ts, t.length ≤ Buffer.size)

include hts

/-- What is known when all texts `ts` have been put in. -/
theorem carries_putAll : Buffer.Carries sink ts.flatten (Buffer.putAll { sink } 0 ts).1
    (Buffer.putAll { sink } 0 ts).2 :=
  (Buffer.carries_nil sink).putAll rfl hts

/-- **Through a buffer, a sink takes what it takes of the texts `ts` at once.** -/
theorem writeBuffered_eq_write :
    ((sink.writeBuffered ts).sink, (sink.writeBuffered ts).failure) = sink.write ts.flatten :=
  (carries_putAll sink hts).flush.symm

/-- Texts that are written without a failure are counted whole. -/
theorem count_of_writeBuffered (h : (sink.write ts.flatten).2 = none) :
    (sink.writeBuffered ts).count = ts.flatten.length := by
  rw [← writeBuffered_eq_write sink hts] at h
  have hcarries := carries_putAll sink hts
  unfold writeBuffered at h ⊢
  generalize Buffer.putAll { sink } 0 ts = put at hcarries h ⊢
  obtain ⟨b, n⟩ := put
  dsimp only at hcarries h ⊢
  cases hcarries with
  | going => rfl
  | failed _ _ _ hfailed =>
    rw [Buffer.flush, hfailed] at h
    simp [hfailed] at h

end Sink

end WordMachine
