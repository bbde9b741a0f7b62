import WordMachine.Machine.Monitor
import WordMachine.Proofs.Residue
import Mathlib.Data.Fintype.BigOperators

/-!
# Machines that come to an end

A machine has halted when there is no instruction at its program counter, or when the instruction
jumps to itself; from then on it stays where it is. Apart from its tick count, a machine has as many
states as program counter, registers and data memory can hold, and each state determines the next.

* `Machine.core_iterate_next_of_halted`: a halted machine stays where it is.
* `Machine.exists_repeat`: a machine comes back to a state within `stateCount` ticks.
* `Machine.not_stops_of_stateCount`: one that has not come to an end by then never will.
-/

namespace WordMachine.Machine

/-! ## Single ticks -/

/-- The machine after a tick; a tick that fails leaves it as it is. -/
def next (m : Machine) : Machine :=
  match m.fetch? with
  | none => m
  | some w => (m.execute w).1

/-- The error of a tick. -/
def tickError? (m : Machine) : Option TickError :=
  match m.fetch? with
  | none => some .pcEmpty
  | some w => (m.execute w).2.map .exec

/-- The program has ended: it was left, or it has come to a jump that goes to itself. -/
def Halted (m : Machine) : Prop :=
  m.fetch? = none ∨ ∃ w, m.fetch? = some w ∧ Instr.ofWord w = .j m.pc.toNat

/-- The program has ended, or its next instruction cannot be executed. -/
def Stops (m : Machine) : Prop :=
  m.Halted ∨ m.tickError? ≠ none

instance (m : Machine) : Decidable m.Halted :=
  decidable_of_iff (m.fetch?.all (Instr.ofWord · == .j m.pc.toNat) = true) (by
    unfold Halted
    rcases m.fetch? with _ | w <;> simp)

instance (m : Machine) : Decidable m.Stops :=
  inferInstanceAs (Decidable (_ ∨ _))

/-- The instruction of `w` takes effect, or it has a fault and changes nothing. -/
theorem execute_cases (m : Machine) (w : Word) :
    (∃ effect, m.effect (Instr.ofWord w) = .ok effect ∧ m.execute w = (m.apply effect, none)) ∨
      ∃ fault, m.effect (Instr.ofWord w) = .error fault ∧ m.execute w = (m, some ⟨w, fault⟩) := by
  unfold execute
  rcases m.effect (Instr.ofWord w) with fault | effect
  · exact .inr ⟨fault, rfl, rfl⟩
  · exact .inl ⟨effect, rfl, rfl⟩

/-- The error of an instruction carries the word at the program counter. -/
theorem fetch?_of_tickError? {m : Machine} {cause : ExecError}
    (h : m.tickError? = some (.exec cause)) : m.fetch? = some cause.word := by
  unfold tickError? at h
  split at h
  · cases h
  · rename_i w hfetch
    obtain ⟨cause', hcause, heq⟩ := Option.map_eq_some_iff.mp h
    obtain rfl : cause' = cause := TickError.exec.inj heq
    rcases m.execute_cases w with ⟨effect, -, hexecute⟩ | ⟨fault, -, hexecute⟩
    · rw [hexecute] at hcause
      cases hcause
    · rw [hexecute] at hcause
      cases hcause
      exact hfetch

/-- No instruction changes the instruction memory or the size of the data memory. -/
theorem execute_memories (m : Machine) (w : Word) :
    (m.execute w).1.code = m.code ∧ (m.execute w).1.data.size = m.data.size := by
  rcases m.execute_cases w with ⟨effect, -, h⟩ | ⟨fault, -, h⟩
  · rw [h]
    refine ⟨rfl, ?_⟩
    show (writeData m.data effect.store).size = m.data.size
    rcases effect.store with _ | ⟨address, value⟩
    · rfl
    · exact Array.size_setIfInBounds
  · rw [h]
    exact ⟨rfl, rfl⟩

/-- No tick changes the instruction memory or the size of the data memory. -/
theorem next_memories (m : Machine) :
    m.next.code = m.code ∧ m.next.data.size = m.data.size := by
  unfold next
  split
  · exact ⟨rfl, rfl⟩
  · exact m.execute_memories _

theorem iterate_next_memories (m : Machine) (n : Nat) :
    (next^[n] m).code = m.code ∧ (next^[n] m).data.size = m.data.size := by
  induction n with
  | zero => exact ⟨rfl, rfl⟩
  | succ n ih =>
    rw [Function.iterate_succ_apply']
    obtain ⟨hcode, hsize⟩ := (next^[n] m).next_memories
    exact ⟨hcode.trans ih.1, hsize.trans ih.2⟩

/-! ## Machines without their tick count -/

/-- The machine with its tick count at zero; what a machine does depends on this alone. -/
def core (m : Machine) : Machine :=
  { m with ticks := 0 }

theorem effect_core (m : Machine) (i : Instr) : m.core.effect i = m.effect i := by
  cases i <;> rfl

/-- Executing an instruction does not depend on the tick count. -/
theorem execute_core (m : Machine) (w : Word) :
    (m.core.execute w).1.core = (m.execute w).1.core ∧ (m.core.execute w).2 = (m.execute w).2 := by
  unfold execute
  rw [effect_core]
  rcases m.effect (Instr.ofWord w) with fault | effect
  · exact ⟨rfl, rfl⟩
  · exact ⟨rfl, rfl⟩

theorem core_next (m : Machine) : m.core.next.core = m.next.core := by
  unfold next
  rw [show m.core.fetch? = m.fetch? from rfl]
  rcases m.fetch? with _ | w
  · rfl
  · exact (m.execute_core w).1

theorem stops_core (m : Machine) : m.core.Stops ↔ m.Stops := by
  have herror : m.core.tickError? = m.tickError? := by
    unfold tickError?
    rw [show m.core.fetch? = m.fetch? from rfl]
    rcases m.fetch? with _ | w
    · rfl
    · exact congrArg (Option.map TickError.exec) (m.execute_core w).2
  unfold Stops
  rw [herror]
  exact Iff.rfl

/-- Machines that differ in their tick counts only go the same way, for all `n` ticks. -/
theorem core_iterate_next {m m' : Machine} (h : m.core = m'.core) (n : Nat) :
    (next^[n] m).core = (next^[n] m').core := by
  induction n with
  | zero => exact h
  | succ n ih =>
    rw [Function.iterate_succ_apply', Function.iterate_succ_apply', ← core_next (next^[n] m), ih,
      core_next]

/-- **A halted machine stays where it is**: only its tick count may change, so its `core` does
not. -/
theorem core_iterate_next_of_halted {m : Machine} (h : m.Halted) (n : Nat) :
    (next^[n] m).core = m.core := by
  have hone : m.next.core = m.core := by
    unfold next
    rcases h with hnone | ⟨w, hfetch, hjump⟩
    · rw [hnone]
    · rw [hfetch]
      show (m.execute w).1.core = m.core
      unfold execute
      rw [hjump]
      show core ⟨Word.ofInt m.pc.toNat, m.regs, m.ticks + 1, m.code, m.data⟩ = m.core
      rw [Word.ofInt_toNat]
      rfl
  induction n with
  | zero => rfl
  | succ n ih => rw [Function.iterate_succ_apply, core_iterate_next hone, ih]

/-! ## Counting states -/

/-- The words that make up a state of the machine: program counter, registers and data memory. -/
def row (m : Machine) : List Word :=
  m.pc :: (m.regs.toList ++ m.data.toList)

theorem length_row (m : Machine) : m.row.length = 33 + m.data.size := by
  simp [row]
  omega

/-- Machines with the same words in `row` and the same instruction memory differ in their tick
counts only. -/
theorem core_eq_of_row {m m' : Machine} (hcode : m.code = m'.code) (hrow : m.row = m'.row) :
    m.core = m'.core := by
  obtain ⟨pc, regs, ticks, code, data⟩ := m
  obtain ⟨pc', regs', ticks', code', data'⟩ := m'
  obtain ⟨hpc, hrest⟩ := List.cons.inj hrow
  obtain ⟨hregs, hdata⟩ := List.append_inj hrest (by simp)
  obtain rfl : pc = pc' := hpc
  obtain rfl : regs = regs' := Vector.toList_inj.mp hregs
  obtain rfl : data = data' := Array.toList_inj.mp hdata
  obtain rfl : code = code' := hcode
  rfl

/-- The number of states of a machine: one for each `row`. -/
def stateCount (m : Machine) : Nat :=
  2 ^ (32 * (33 + m.data.size))

/-- **A machine comes back to a state** within as many ticks as it has states: after `i` and after
`j` ticks it has the same `core`. -/
theorem exists_repeat (m : Machine) :
    ∃ i j, i < j ∧ j ≤ m.stateCount ∧ (next^[i] m).core = (next^[j] m).core := by
  have hlength : ∀ n, ((next^[n] m).row.map UInt32.toFin).length = 33 + m.data.size := by
    intro n
    rw [List.length_map, length_row, (m.iterate_next_memories n).2]
  have hcard : Fintype.card (List.Vector (Fin UInt32.size) (33 + m.data.size)) <
      Fintype.card (Fin (m.stateCount + 1)) := by
    rw [card_vector, Fintype.card_fin, Fintype.card_fin, show UInt32.size = 2 ^ 32 from rfl,
      ← Nat.pow_mul]
    exact Nat.lt_succ_self _
  obtain ⟨i, j, hne, hrow⟩ := Fintype.exists_ne_map_eq_of_card_lt
    (fun n => ⟨(next^[n.val] m).row.map UInt32.toFin, hlength n⟩) hcard
  have hcore : (next^[i] m).core = (next^[j] m).core := by
    apply core_eq_of_row
    · rw [(m.iterate_next_memories i).1, (m.iterate_next_memories j).1]
    · have hinj : Function.Injective UInt32.toFin := fun a b h => UInt32.toFin_inj.mp h
      exact hinj.list_map (congrArg Subtype.val hrow)
  have hi := i.isLt
  have hj := j.isLt
  rcases Nat.lt_or_gt_of_ne (Fin.val_ne_of_ne hne) with hlt | hlt
  · exact ⟨i, j, hlt, by omega, hcore⟩
  · exact ⟨j, i, hlt, by omega, hcore.symm⟩

/-- **A machine that has not come to an end after as many ticks as it has states never will.** It
does not stop after any number `n` of ticks. -/
theorem not_stops_of_stateCount {m : Machine}
    (h : ∀ n < m.stateCount, ¬(next^[n] m).Stops) (n : Nat) : ¬(next^[n] m).Stops := by
  obtain ⟨i, j, hij, hj, hcore⟩ := m.exists_repeat
  induction n using Nat.strongRecOn with
  | ind n ih =>
    by_cases hn : n < j
    · exact h n (by omega)
    -- The state was there `j - i` ticks before.
    · have hback : (next^[n] m).core = (next^[n - j + i] m).core := by
        rw [show next^[n] m = next^[n - j] (next^[j] m) by
            rw [← Function.iterate_add_apply, Nat.sub_add_cancel (Nat.le_of_not_lt hn)],
          Function.iterate_add_apply]
        exact core_iterate_next hcore.symm (n - j)
      rw [← stops_core, hback, stops_core]
      exact ih (n - j + i) (by omega)

end WordMachine.Machine
