import WordMachine.Proofs.Emulation
import WordMachine.Proofs.Halting

/-!
# Runs and ticks

A run of an emulator is a sequence of ticks of its machine. It goes on to the first state that is
halted, or at which a tick fails, and to the limit if there is none before. What a run comes to does
not depend on the limit, if the limit is not reached, and a run that is cut short can be taken up
again. All this is in `Emulator.FollowsTicks`, which every emulator satisfies:
`Emulator.followsTicks`. Beneath it are `Emulator.runFor_add`, by which runs are put together, and
`Emulator.runFor_eq_none_iff`, by which a run is over exactly if the machine stops on the way.
-/

namespace WordMachine

/-! ## Ticks of the machine -/

namespace Monitor

/-- The monitor after `n` ticks of its machine. -/
def afterTicks (n : Nat) (m : Monitor) : Monitor :=
  (fun m => m.tick.1)^[n] m

theorem machine_reset (m : Monitor) : m.reset.machine = m.machine.reset := by
  unfold reset
  split
  · rfl
  · rfl

theorem execute_eq (m : Monitor) (w : Word) :
    (m.execute w).1.machine = (m.machine.execute w).1 ∧
      (m.execute w).2 = (m.machine.execute w).2 := by
  obtain ⟨machine, _ | _, log⟩ := m
  · exact ⟨rfl, rfl⟩
  · exact ⟨rfl, rfl⟩

/-- A tick of a monitor is one of its machine. -/
theorem tick_eq (m : Monitor) :
    m.tick.1.machine = m.machine.next ∧ m.tick.2 = m.machine.tickError? := by
  unfold tick Machine.next Machine.tickError?
  rcases m.machine.fetch? with _ | w
  · exact ⟨rfl, rfl⟩
  · obtain ⟨hmachine, herror⟩ := m.execute_eq w
    exact ⟨hmachine, congrArg (Option.map TickError.exec) herror⟩

theorem machine_afterTicks (n : Nat) (m : Monitor) :
    (m.afterTicks n).machine = Machine.next^[n] m.machine := by
  induction n with
  | zero => rfl
  | succ n ih =>
    rw [afterTicks, Function.iterate_succ_apply', Function.iterate_succ_apply', ← ih]
    exact (tick_eq _).1

/-- The first number `k` of ticks after which the machine is halted, or the next tick fails. -/
def FirstStop (m : Monitor) (k : Nat) : Prop :=
  IsLeast {n | (m.afterTicks n).machine.Halted ∨ (m.afterTicks n).tick.2 ≠ none} k

/-- The first stop is the first `k` at which `Machine.next^[k]` leads to a state that `Stops`. -/
theorem firstStop_iff {m : Monitor} {k : Nat} :
    m.FirstStop k ↔ (Machine.next^[k] m.machine).Stops ∧
      ∀ j < k, ¬(Machine.next^[j] m.machine).Stops := by
  have hstops : ∀ n, ((m.afterTicks n).machine.Halted ∨ (m.afterTicks n).tick.2 ≠ none) ↔
      (Machine.next^[n] m.machine).Stops := by
    intro n
    rw [(m.afterTicks n).tick_eq.2, machine_afterTicks]
    exact Iff.rfl
  constructor
  · rintro ⟨hk, hlow⟩
    refine ⟨(hstops k).mp hk, fun j hj hj' => ?_⟩
    exact Nat.not_le_of_lt hj (hlow ((hstops j).mpr hj'))
  · rintro ⟨hk, hlow⟩
    refine ⟨(hstops k).mpr hk, fun j hj => ?_⟩
    by_contra hlt
    exact hlow j (Nat.lt_of_not_le hlt) ((hstops j).mp hj)

/-- A machine that stops has a first stop. -/
theorem exists_firstStop {m : Monitor} {j : Nat} (h : (Machine.next^[j] m.machine).Stops) :
    ∃ k ≤ j, m.FirstStop k := by
  classical
  have hex : ∃ j, (Machine.next^[j] m.machine).Stops := ⟨j, h⟩
  refine ⟨Nat.find hex, Nat.find_min' hex h, ?_⟩
  exact firstStop_iff.mpr ⟨Nat.find_spec hex, fun i hi => Nat.find_min hex hi⟩

end Monitor

/-- The end of a tick at the line `lineNo`, by the error of the instruction. -/
def TickEnd.ofError (lineNo : Int) : Option ExecError → TickEnd
  | none => .running
  | some error => .failed ⟨lineNo, .exec error⟩

/-- The run was cut short by its limit. -/
def RunEnd.HitsLimit (ending : RunEnd) : Prop :=
  ∃ lineNo, ending = .failed ⟨lineNo, .tickLimit⟩

namespace Emulator

/-- The emulator after `n` ticks of its machine. -/
def afterTicks (n : Nat) (e : Emulator) : Emulator :=
  ⟨e.toMonitor.afterTicks n, e.program⟩

/-! ## Ticks of the emulator -/

/-- The jump to itself is the instruction `j` with the target `pc`. -/
theorem isSelfJump_iff {pc w : Word} : isSelfJump pc w = true ↔ Instr.ofWord w = .j pc.toNat := by
  unfold isSelfJump Instr.ofWord
  rcases Operation.ofCode? (Field.op.get w) with _ | op
  · simp
  · cases op <;> simp

/-- **On a machine that is `Halted`**, a tick says that the program has ended, and changes
nothing. -/
theorem tick_of_halted {e : Emulator} (h : e.machine.Halted) : e.tick = (e, .done) := by
  unfold tick
  rcases h with hnone | ⟨w, hfetch, hjump⟩
  · rw [hnone]
  · rw [hfetch]
    exact if_pos (isSelfJump_iff.mpr hjump)

/-- **On any other machine**, a tick is one of the machine, with the line in its error. -/
theorem tick_of_not_halted {e : Emulator} (h : ¬e.machine.Halted) :
    ∃ monitor error, e.toMonitor.tick = (monitor, error.map .exec) ∧
      (error ≠ none → monitor.machine = e.machine) ∧
      e.tick = (⟨monitor, e.program⟩, .ofError e.lineNo error) := by
  obtain ⟨w, hfetch⟩ : ∃ w, e.machine.fetch? = some w :=
    Option.ne_none_iff_exists'.mp fun hnone => h (.inl hnone)
  have hjump : ¬isSelfJump e.machine.pc w = true := by
    intro hself
    exact h (.inr ⟨w, hfetch, isSelfJump_iff.mp hself⟩)
  obtain ⟨hmachine, herror⟩ := e.toMonitor.execute_eq w
  -- An instruction with a fault changes nothing, so the line is the one before the tick.
  have hkept :
      (e.toMonitor.execute w).2 ≠ none → (e.toMonitor.execute w).1.machine = e.machine := by
    intro hne
    rw [herror] at hne
    rw [hmachine]
    rcases e.machine.execute_cases w with ⟨effect, -, hexecute⟩ | ⟨fault, -, hexecute⟩
    · rw [hexecute] at hne
      exact absurd rfl hne
    · rw [hexecute]
  refine ⟨(e.toMonitor.execute w).1, (e.toMonitor.execute w).2, ?_, hkept, ?_⟩
  · rw [Monitor.tick, hfetch]
  · obtain ⟨monitor, program⟩ := e
    rw [tick, hfetch]
    dsimp only
    rw [if_neg hjump]
    rcases hresult : monitor.execute w with ⟨after, _ | error⟩
    · rfl
    · rw [hresult] at hkept
      have hsame : after.machine = monitor.machine := hkept (by simp)
      simp only [TickEnd.ofError, lineNo, pc, hsame]

/-- A machine that does not stop makes a tick, and is still `.running`. -/
theorem tick_of_not_stops {e : Emulator} (h : ¬e.machine.Stops) :
    e.tick = (e.afterTicks 1, .running) := by
  obtain ⟨monitor, error, hmonitor, -, htick⟩ := tick_of_not_halted fun hhalted => h (.inl hhalted)
  have hnone : error = none := by
    by_contra hsome
    refine h (.inr ?_)
    rw [← e.toMonitor.tick_eq.2, hmonitor]
    simpa using hsome
  have hafter : e.afterTicks 1 = ⟨monitor, e.program⟩ := by
    show (⟨e.toMonitor.tick.1, e.program⟩ : Emulator) = _
    rw [hmonitor]
  rw [htick, hafter, hnone]
  rfl

/-- A machine that stops without being halted has an error, and stays as it is. -/
theorem tick_of_stops {e : Emulator} (h : ¬e.machine.Halted) (hstops : e.machine.Stops) :
    ∃ monitor error, e.toMonitor.tick = (monitor, some (.exec error)) ∧
      monitor.machine = e.machine ∧
      e.tick = (⟨monitor, e.program⟩, .failed ⟨e.lineNo, .exec error⟩) := by
  obtain ⟨monitor, error, hmonitor, hsame, htick⟩ := tick_of_not_halted h
  have hsome : error ≠ none := by
    rintro rfl
    refine hstops.resolve_left h ?_
    rw [← e.toMonitor.tick_eq.2, hmonitor]
    rfl
  obtain ⟨error, rfl⟩ := Option.ne_none_iff_exists'.mp hsome
  exact ⟨monitor, error, hmonitor, hsame hsome, htick⟩

/-- A tick that fails does so for the instruction at the program counter, and leaves all but the log
of `e` as it is. -/
theorem tick_failed {e e' : Emulator} {error : RuntimeError} (h : e.tick = (e', .failed error)) :
    ∃ cause, error = ⟨e.lineNo, .exec cause⟩ ∧ e.machine.fetch? = some cause.word ∧
      e'.machine = e.machine ∧ e'.program = e.program := by
  by_cases hhalted : e.machine.Halted
  · rw [tick_of_halted hhalted] at h
    cases h
  · obtain ⟨monitor, _ | cause, hmonitor, hsame, htick⟩ := tick_of_not_halted hhalted
    · rw [htick] at h
      cases h
    · rw [htick] at h
      cases h
      refine ⟨cause, rfl, Machine.fetch?_of_tickError? ?_, hsame (by simp), rfl⟩
      rw [← e.toMonitor.tick_eq.2, hmonitor]
      rfl

theorem machine_tick {e : Emulator} (h : ¬e.machine.Halted) :
    e.tick.1.machine = e.machine.next := by
  obtain ⟨monitor, error, hmonitor, -, htick⟩ := tick_of_not_halted h
  rw [htick, ← e.toMonitor.tick_eq.1, hmonitor]

theorem program_tick (e : Emulator) : e.tick.1.program = e.program := by
  by_cases hhalted : e.machine.Halted
  · rw [tick_of_halted hhalted]
  · obtain ⟨monitor, error, -, -, htick⟩ := tick_of_not_halted hhalted
    rw [htick]

/-- A tick keeps the instruction memory and the size of the data memory. -/
theorem memories_tick (e : Emulator) :
    e.tick.1.machine.code = e.machine.code ∧
      e.tick.1.machine.data.size = e.machine.data.size := by
  by_cases hhalted : e.machine.Halted
  · rw [tick_of_halted hhalted]
    exact ⟨rfl, rfl⟩
  · rw [machine_tick hhalted]
    exact e.machine.next_memories

/-! ## Runs up to a number of ticks -/

/-- A run of `m` ticks that is not over can be taken up again for `n` more. -/
theorem runFor_add (m n : Nat) (e : Emulator) :
    runFor (m + n) e =
      if (runFor m e).2 = none then runFor n (runFor m e).1 else runFor m e := by
  induction m generalizing e with
  | zero => rw [Nat.zero_add, runFor, if_pos rfl]
  | succ m ih =>
    rw [Nat.succ_add, runFor, runFor]
    rcases e.tick with ⟨next, _ | _ | error⟩
    · exact ih next
    · rfl
    · rfl

/-- A run of `m` ticks that is over is the same with any higher limit `n`. -/
theorem runFor_of_le {m n : Nat} {e : Emulator} (h : (runFor m e).2 ≠ none) (hle : m ≤ n) :
    runFor n e = runFor m e := by
  obtain ⟨k, rfl⟩ := Nat.exists_eq_add_of_le hle
  rw [runFor_add, if_neg h]

/-- The `rounds` of `size` ticks make up one long run. -/
theorem runRounds_eq (size rounds : Nat) (e : Emulator) :
    runRounds size rounds e = runFor (rounds * size) e := by
  induction rounds generalizing e with
  | zero =>
    rw [Nat.zero_mul]
    rfl
  | succ rounds ih =>
    rw [Nat.succ_mul, Nat.add_comm (rounds * size), runFor_add, runRounds]
    rcases runFor size e with ⟨next, _ | ending⟩
    · exact ih next
    · rfl

/-- While the machine does not stop, a run makes `n` ticks. -/
theorem runFor_of_running {n : Nat} {e : Emulator}
    (h : ∀ j < n, ¬(Machine.next^[j] e.machine).Stops) : runFor n e = (e.afterTicks n, none) := by
  induction n generalizing e with
  | zero => rfl
  | succ n ih =>
    have hmachine : (e.afterTicks 1).machine = Machine.next e.machine :=
      e.toMonitor.machine_afterTicks 1
    rw [runFor, tick_of_not_stops (h 0 (Nat.succ_pos n))]
    show runFor n (e.afterTicks 1) = ((e.afterTicks 1).afterTicks n, none)
    apply ih
    intro j hj
    rw [hmachine, ← Function.iterate_succ_apply]
    exact h (j + 1) (Nat.succ_lt_succ hj)

/-- A run is over where the machine stops. -/
theorem runFor_ne_none_of_stops {e : Emulator} (h : e.machine.Stops) (n : Nat) :
    (runFor (n + 1) e).2 ≠ none := by
  rw [runFor]
  by_cases hhalted : e.machine.Halted
  · rw [tick_of_halted hhalted]
    simp
  · obtain ⟨monitor, error, -, -, htick⟩ := tick_of_stops hhalted h
    rw [htick]
    simp

/-- A run goes on to the first stop `k` of the machine. -/
theorem runFor_of_firstStop {k n : Nat} {e : Emulator} (hk : e.toMonitor.FirstStop k)
    (hlt : k < n) :
    (e.afterTicks k).machine.Stops ∧
      runFor n e = runFor (n - k - 1 + 1) (e.afterTicks k) := by
  obtain ⟨hstops, hrunning⟩ := Monitor.firstStop_iff.mp hk
  constructor
  · show (e.toMonitor.afterTicks k).machine.Stops
    rw [Monitor.machine_afterTicks]
    exact hstops
  · have hsum : runFor (k + (n - k - 1 + 1)) e = runFor (n - k - 1 + 1) (e.afterTicks k) := by
      rw [runFor_add, runFor_of_running hrunning, if_pos rfl]
    rw [← hsum, show k + (n - k - 1 + 1) = n by omega]

/-- **A run of `n` ticks is over exactly if the machine stops on the way.** -/
theorem runFor_eq_none_iff {n : Nat} {e : Emulator} :
    (runFor n e).2 = none ↔ ∀ j < n, ¬(Machine.next^[j] e.machine).Stops := by
  constructor
  · intro hnone j hj hstops
    obtain ⟨k, hle, hk⟩ := Monitor.exists_firstStop hstops
    obtain ⟨hstops, hrun⟩ := runFor_of_firstStop hk (Nat.lt_of_le_of_lt hle hj)
    rw [hrun] at hnone
    exact runFor_ne_none_of_stops hstops _ hnone
  · intro h
    rw [runFor_of_running h]

/-- A run that is over has come to its `ending` by its last tick, up to which a `P` that ticks
preserve holds. -/
theorem runFor_last_tick {P : Emulator → Prop} (hstep : ∀ e, P e → P e.tick.1) {n : Nat}
    {e e' : Emulator} {ending : RunEnd} (he : P e) (h : runFor n e = (e', some ending)) :
    (ending = .done ∨ ∃ last error, P last ∧ last.tick = (e', .failed error) ∧
      ending = .failed error) := by
  induction n generalizing e with
  | zero => cases h
  | succ n ih =>
    have hafter := hstep e he
    rw [runFor] at h
    rcases htick : e.tick with ⟨next, _ | _ | error⟩
    all_goals rw [htick] at h hafter
    · exact ih hafter h
    · cases h
      exact .inl rfl
    · cases h
      exact .inr ⟨e, error, he, htick, rfl⟩

/-- A run that is over was not cut short, and is not endless. -/
theorem ending_of_runFor {n : Nat} {e : Emulator} {ending : RunEnd}
    (h : (runFor n e).2 = some ending) : ¬ending.HitsLimit ∧ ending ≠ .endless := by
  have hrun : runFor n e = ((runFor n e).1, some ending) := by rw [← h]
  have hlast := runFor_last_tick (P := fun _ => True) (fun _ _ => trivial) trivial hrun
  rcases hlast with rfl | ⟨last, error, -, htick, rfl⟩
  · refine ⟨?_, by simp⟩
    rintro ⟨lineNo, h⟩
    cases h
  · obtain ⟨cause, rfl, -⟩ := tick_failed htick
    refine ⟨?_, by simp⟩
    rintro ⟨lineNo, h⟩
    cases h

/-! ## Runs -/

/-- A run with a limit `max` is `runFor` this many ticks. -/
theorem run_of_pos {max : Int} (h : 0 < max) (e : Emulator) :
    e.run max = ((runFor max.toNat e).1,
      (runFor max.toNat e).2.getD (.failed ⟨(runFor max.toNat e).1.lineNo, .tickLimit⟩)) := by
  rw [run, if_neg (by omega)]

theorem hitsLimit_run_iff {max : Int} (h : 0 < max) {e : Emulator} :
    (e.run max).2.HitsLimit ↔ (runFor max.toNat e).2 = none := by
  rw [run_of_pos h]
  constructor
  · intro hlimit
    by_contra hsome
    obtain ⟨ending, hending⟩ := Option.ne_none_iff_exists'.mp hsome
    rw [hending] at hlimit
    exact (ending_of_runFor hending).1 hlimit
  · intro hnone
    rw [hnone]
    exact ⟨_, rfl⟩

/-- A run without a limit is one with more ticks `n` than the machine has states. -/
theorem run_zero (e : Emulator) :
    ∃ n, e.machine.stateCount ≤ n ∧
      e.run 0 = ((runFor n e).1, (runFor n e).2.getD .endless) := by
  obtain ⟨n, hn⟩ : ∃ n, n = e.stateBound * roundSize := ⟨_, rfl⟩
  refine ⟨n, ?_, ?_⟩
  · rw [hn]
    exact Nat.le_mul_of_pos_right _ (by decide)
  · rw [run, if_pos rfl, runRounds_eq, ← hn]

/-- **A run without a limit finds every `ending`.** -/
theorem run_zero_of_runFor {n : Nat} {e : Emulator} {ending : RunEnd}
    (h : (runFor n e).2 = some ending) : e.run 0 = ((runFor n e).1, ending) := by
  obtain ⟨bound, hbound, hrun⟩ := e.run_zero
  have hover : (runFor bound e).2 ≠ none := by
    intro hnone
    rw [runFor_eq_none_iff] at hnone
    have hnever :=
      Machine.not_stops_of_stateCount fun j hj => hnone j (Nat.lt_of_lt_of_le hj hbound)
    rw [runFor_eq_none_iff.mpr fun j _ => hnever j] at h
    cases h
  have hsame : runFor bound e = runFor n e := by
    rcases Nat.le_total n bound with hle | hle
    · exact runFor_of_le (by rw [h]; simp) hle
    · exact (runFor_of_le hover hle).symm
  rw [hrun, hsame, h, Option.getD_some]

/-- A run is `.endless` exactly if the machine never stops. -/
theorem run_zero_endless_iff {e : Emulator} :
    (e.run 0).2 = .endless ↔ ∀ k, ¬e.toMonitor.FirstStop k := by
  constructor
  · intro hendless k hk
    obtain ⟨hstops, hrun⟩ := runFor_of_firstStop hk (Nat.lt_succ_self k)
    obtain ⟨ending, hending⟩ := Option.ne_none_iff_exists'.mp (runFor_ne_none_of_stops hstops _)
    rw [← hrun] at hending
    rw [run_zero_of_runFor hending] at hendless
    exact (ending_of_runFor hending).2 hendless
  · intro hnever
    obtain ⟨bound, -, hrun⟩ := e.run_zero
    have hnone : (runFor bound e).2 = none := by
      rw [runFor_eq_none_iff]
      intro j _ hstops
      obtain ⟨k, -, hk⟩ := Monitor.exists_firstStop hstops
      exact hnever k hk
    rw [hrun, hnone, Option.getD_none]

/-- An `ending` other than that for want of ticks is the end of a bounded run. -/
theorem runFor_of_getD {n : Nat} {e e' : Emulator} {other ending : RunEnd}
    (h : ((runFor n e).1, (runFor n e).2.getD other) = (e', ending)) (hne : other ≠ ending) :
    runFor n e = (e', some ending) := by
  rcases hend : runFor n e with ⟨next, _ | found⟩
  all_goals rw [hend] at h
  · exact absurd (Prod.mk.inj h).2 hne
  · cases h
    rfl

/-- A run that fails for an instruction does so by its `last` tick. -/
theorem run_last_tick {P : Emulator → Prop} (hstep : ∀ e, P e → P e.tick.1) {max : Int}
    {e e' : Emulator} {lineNo : Int} {cause : ExecError} (he : P e)
    (h : e.run max = (e', .failed ⟨lineNo, .exec cause⟩)) :
    ∃ last, P last ∧ last.tick = (e', .failed ⟨lineNo, .exec cause⟩) := by
  -- With any limit, the end of the run is that of a bounded one.
  obtain ⟨n, hn⟩ : ∃ n, runFor n e = (e', some (.failed ⟨lineNo, .exec cause⟩)) := by
    by_cases hmax : max = 0
    · obtain ⟨n, -, hrun⟩ := e.run_zero
      rw [hmax, hrun] at h
      exact ⟨n, runFor_of_getD h (by simp)⟩
    · rw [run, if_neg hmax] at h
      exact ⟨max.toNat, runFor_of_getD h (by simp)⟩
  rcases runFor_last_tick hstep he hn with hdone | ⟨last, error, hlast, htick, herror⟩
  · cases hdone
  · cases herror
    exact ⟨last, hlast, htick⟩

/-- What an emulator `e` does, by the ticks of its machine. -/
structure FollowsTicks (e : Emulator) : Prop where
  /-- On a halted machine, a tick says that the program has ended, and changes nothing. -/
  tick_done : e.machine.Halted → e.tick = (e, .done)
  /-- A halted machine stays where it is, however many ticks it makes. -/
  still : e.machine.Halted → ∀ n, (e.toMonitor.afterTicks n).machine.core = e.machine.core
  /-- On any other machine, a tick is one of the machine, with the line in its error. -/
  tick : ¬e.machine.Halted → ∃ monitor error,
    e.toMonitor.tick = (monitor, error.map .exec) ∧
      e.tick = (⟨monitor, e.program⟩, .ofError e.lineNo error)
  /-- A run ends where the machine is halted. -/
  run_done : ∀ (max : Int) (k : Nat), e.toMonitor.FirstStop k → k < max →
    (e.afterTicks k).machine.Halted → e.run max = (e.afterTicks k, .done)
  /-- A run ends with the error of a tick, which leaves the machine as it is. -/
  run_failed : ∀ (max : Int) (k : Nat), e.toMonitor.FirstStop k → k < max →
    ¬(e.afterTicks k).machine.Halted → ∃ monitor error,
      (e.afterTicks k).toMonitor.tick = (monitor, some (.exec error)) ∧
      monitor.machine = (e.afterTicks k).machine ∧
      e.run max = (⟨monitor, e.program⟩, .failed ⟨(e.afterTicks k).lineNo, .exec error⟩)
  /-- Otherwise a run is cut short when it has made as many ticks as it may. -/
  run_limit : ∀ max : Int, 0 < max → (∀ k, e.toMonitor.FirstStop k → max ≤ k) →
    e.run max = (e.afterTicks max.toNat, .failed ⟨(e.afterTicks max.toNat).lineNo, .tickLimit⟩)
  /-- A run that is cut short can be taken up again. -/
  run_run : ∀ m n : Int, 0 < m → 0 < n → (e.run m).2.HitsLimit →
    (e.run m).1.run n = e.run (m + n)
  /-- A run that is not cut short does not depend on its limit. -/
  run_more : ∀ n : Int, 0 < n → ¬(e.run n).2.HitsLimit →
    e.run 0 = e.run n ∧ ∀ n', n ≤ n' → e.run n' = e.run n
  /-- A run without a limit goes on for ever exactly if the machine never stops. -/
  run_endless : (e.run 0).2 = .endless ↔ ∀ k, ¬e.toMonitor.FirstStop k

/-- **A run is made of the ticks of the machine**: up to the first state that is halted or at which
a tick fails, or up to its limit, whichever comes first. -/
theorem followsTicks (e : Emulator) : e.FollowsTicks where
  tick_done := tick_of_halted
  still := by
    intro h n
    rw [Monitor.machine_afterTicks]
    exact Machine.core_iterate_next_of_halted h n
  tick := by
    intro h
    obtain ⟨monitor, error, hmonitor, -, htick⟩ := tick_of_not_halted h
    exact ⟨monitor, error, hmonitor, htick⟩
  run_done := by
    intro max k hk hlt h
    obtain ⟨-, hrun⟩ := runFor_of_firstStop hk (n := max.toNat) (by omega)
    rw [run_of_pos (by omega), hrun, runFor, tick_of_halted h]
    rfl
  run_failed := by
    intro max k hk hlt h
    obtain ⟨hstops, hrun⟩ := runFor_of_firstStop hk (n := max.toNat) (by omega)
    obtain ⟨monitor, error, hmonitor, hsame, htick⟩ := tick_of_stops h hstops
    refine ⟨monitor, error, hmonitor, hsame, ?_⟩
    rw [run_of_pos (by omega), hrun, runFor, htick]
    rfl
  run_limit := by
    intro max hpos hlimit
    have hrunning : ∀ j < max.toNat, ¬(Machine.next^[j] e.machine).Stops := by
      intro j hj hstops
      obtain ⟨k, hle, hk⟩ := Monitor.exists_firstStop hstops
      have hmax := hlimit k hk
      omega
    rw [run_of_pos hpos, runFor_of_running hrunning, Option.getD_none]
  run_run := by
    intro m n hm hn hlimit
    have hnone := (hitsLimit_run_iff hm).mp hlimit
    have hsum : runFor (m + n).toNat e = runFor n.toNat (runFor m.toNat e).1 := by
      rw [Int.toNat_add (by omega) (by omega), runFor_add, if_pos hnone]
    rw [run_of_pos hm, run_of_pos hn, run_of_pos (by omega : 0 < m + n), hsum]
  run_more := by
    intro n hn hlimit
    have hover : (runFor n.toNat e).2 ≠ none := fun hnone =>
      hlimit ((hitsLimit_run_iff hn).mpr hnone)
    obtain ⟨ending, hending⟩ := Option.ne_none_iff_exists'.mp hover
    rw [run_of_pos hn, hending, Option.getD_some]
    refine ⟨run_zero_of_runFor hending, ?_⟩
    intro n' hle
    rw [run_of_pos (by omega), runFor_of_le hover (by omega), hending, Option.getD_some]
  run_endless := run_zero_endless_iff

/-- An addition, and a jump to itself: the first stop is after one tick, which is where a run
without a limit ends, and where a run of one tick is cut short. -/
theorem followsTicks_selfJump :
    let e : Emulator := { machine := { code := #[0x28400001, 0x08000001], data := #[] } }
    e.toMonitor.FirstStop 1 ∧ (e.afterTicks 1).machine.Halted ∧ (e.run 1).2.HitsLimit ∧
      (e.run 1).1.run 1 = (e.afterTicks 1, .done) ∧ e.run 0 = (e.afterTicks 1, .done) := by
  intro e
  have hfirst : e.toMonitor.FirstStop 1 := Monitor.firstStop_iff.mpr (by decide +kernel)
  have hhalted : (e.afterTicks 1).machine.Halted := by decide +kernel
  have hlimit : (e.run 1).2.HitsLimit := (hitsLimit_run_iff (by decide)).mpr (by decide +kernel)
  have hdone := e.followsTicks.run_done 2 1 hfirst (by decide) hhalted
  refine ⟨hfirst, hhalted, hlimit, ?_, ?_⟩
  · rw [e.followsTicks.run_run 1 1 (by decide) (by decide) hlimit]
    exact hdone
  · have hnot : ¬(e.run 2).2.HitsLimit := by
      rw [hdone]
      rintro ⟨lineNo, h⟩
      cases h
    rw [(e.followsTicks.run_more 2 (by decide) hnot).1, hdone]

end Emulator

end WordMachine
