import WordMachine.Proofs.Ticks

/-!
# Resets

Whatever is done to an emulator, its data memory keeps its size, and all else that a machine holds
is set by a reset. So an emulator that is reset is in the state of a new one with the same program.
Emulators in the same state are `Twins`: they cannot be told apart by what is done to them
afterwards, and only their logs may differ. `Emulator.reset_forgets` puts the two together.
-/

namespace WordMachine.Emulator

/-! ## What is done to an emulator -/

/-- Something that is done to an emulator, from outside or by itself. -/
inductive Event where
  /-- Gives it the program `p`, which a reset puts into the instruction memory. -/
  | assign (p : Program)
  | load (image : Array Word)
  | tick
  | run (max : Int)
  | reset
  | setPc (pc : Word)
  | setReg (r : Reg) (value : Word)
  | store (address value : Word)
  | setVerbose (verbose : Bool)

/-- What is seen of an `Event`. -/
inductive Reply where
  | nothing
  | ticked (ending : TickEnd)
  | ran (ending : RunEnd)
  | stored (error : Option AddressError)

/-- The emulator after an event, and what is seen of it. A `store` that fails changes nothing. -/
def Event.perform (e : Emulator) : Event → Emulator × Reply
  | assign p => (e.withProgram p, .nothing)
  | load image => (e.load image, .nothing)
  | tick => (e.tick.1, .ticked e.tick.2)
  | run max => ((e.run max).1, .ran (e.run max).2)
  | reset => (e.reset, .nothing)
  | setPc pc => ({ e with toMonitor.machine := { e.machine with pc := pc } }, .nothing)
  | setReg r value => ({ e with toMonitor.machine := e.machine.setReg r value }, .nothing)
  | store address value =>
    match e.machine.data.store address value with
    | .ok data => ({ e with toMonitor.machine := { e.machine with data := data } }, .stored none)
    | .error error => (e, .stored (some error))
  | setVerbose verbose => ({ e with toMonitor.verbose := verbose }, .nothing)

/-- The emulator after a sequence of events, and the `Reply` to each. -/
def undergo (e : Emulator) : List Event → Emulator × List Reply
  | [] => (e, [])
  | event :: events =>
    let after := event.perform e
    ((undergo after.1 events).1, after.2 :: (undergo after.1 events).2)

/-! ## The size of the data memory -/

/-- After a reset only the program, and the size of the data memory, are what they were. -/
theorem machine_reset (e : Emulator) :
    e.reset.machine =
      { code := e.program.image, data := Memory.zeros e.machine.data.size } := by
  rw [reset, Monitor.machine_reset]
  rfl

/-- No `event` changes the size of the data memory. -/
theorem size_perform (e : Emulator) (event : Event) :
    (event.perform e).1.machine.data.size = e.machine.data.size := by
  cases event with
  | tick => exact e.memories_tick.2
  | run max =>
    apply run_invariant (P := fun after => after.machine.data.size = e.machine.data.size)
    · intro after hafter
      rw [after.memories_tick.2, hafter]
    · rfl
  | reset =>
    show e.reset.machine.data.size = _
    rw [machine_reset]
    exact Array.size_replicate
  | store address value =>
    rw [Event.perform, Memory.store]
    by_cases hcovers : e.machine.data.covers address = true
    · rw [if_pos hcovers]
      exact Array.size_setIfInBounds
    · rw [if_neg hcovers]
  | _ => rfl

theorem size_undergo (e : Emulator) (events : List Event) :
    (e.undergo events).1.machine.data.size = e.machine.data.size := by
  induction events generalizing e with
  | nil => rfl
  | cons event events ih =>
    show ((event.perform e).1.undergo events).1.machine.data.size = _
    rw [ih, size_perform]

/-! ## Emulators in the same state -/

/-- The emulators `e` and `e'` are in the same state; they may differ in what they log. -/
structure Twins (e e' : Emulator) : Prop where
  machine : e.machine = e'.machine
  program : e.program = e'.program

section Twins

variable {e e' : Emulator}

theorem Twins.lineNo (h : Twins e e') : e.lineNo = e'.lineNo := by
  unfold Emulator.lineNo Emulator.pc
  rw [h.machine, h.program]

theorem tick_of_twins (h : Twins e e') : Twins e.tick.1 e'.tick.1 ∧ e.tick.2 = e'.tick.2 := by
  by_cases hhalted : e.machine.Halted
  · rw [tick_of_halted hhalted, tick_of_halted (h.machine ▸ hhalted)]
    exact ⟨h, rfl⟩
  · have hhalted' : ¬e'.machine.Halted := h.machine ▸ hhalted
    refine ⟨⟨?_, ?_⟩, ?_⟩
    · rw [machine_tick hhalted, machine_tick hhalted', h.machine]
    · rw [program_tick, program_tick, h.program]
    · obtain ⟨_, error, hmonitor, -, htick⟩ := tick_of_not_halted hhalted
      obtain ⟨_, error', hmonitor', -, htick'⟩ := tick_of_not_halted hhalted'
      have herror : error.map TickError.exec = error'.map TickError.exec := by
        calc
          error.map TickError.exec = e.machine.tickError? := by
            rw [← e.toMonitor.tick_eq.2, hmonitor]
          _ = e'.machine.tickError? := by rw [h.machine]
          _ = error'.map TickError.exec := by rw [← e'.toMonitor.tick_eq.2, hmonitor']
      have hsame : error = error' := by
        apply Option.map_injective (f := TickError.exec) fun _ _ => TickError.exec.inj
        exact herror
      rw [htick, htick', h.lineNo, hsame]

theorem runFor_of_twins (limit : Nat) (h : Twins e e') :
    Twins (runFor limit e).1 (runFor limit e').1 ∧ (runFor limit e).2 = (runFor limit e').2 := by
  induction limit generalizing e e' with
  | zero => exact ⟨h, rfl⟩
  | succ limit ih =>
    obtain ⟨htwins, hending⟩ := tick_of_twins h
    rw [runFor, runFor]
    generalize e.tick = result at htwins hending ⊢
    generalize e'.tick = result' at htwins hending ⊢
    obtain ⟨next, ending⟩ := result
    obtain ⟨next', ending'⟩ := result'
    obtain rfl : ending = ending' := hending
    rcases ending with _ | _ | error
    · exact ih htwins
    · exact ⟨htwins, rfl⟩
    · exact ⟨htwins, rfl⟩

theorem run_of_twins (max : Int) (h : Twins e e') :
    Twins (e.run max).1 (e'.run max).1 ∧ (e.run max).2 = (e'.run max).2 := by
  have hbound : e.stateBound = e'.stateBound := by
    unfold stateBound
    rw [h.machine]
  by_cases hmax : max = 0
  · obtain ⟨limit, hlimit⟩ : ∃ limit, limit = e'.stateBound * roundSize := ⟨_, rfl⟩
    obtain ⟨htwins, hending⟩ := runFor_of_twins limit h
    rw [run, run, if_pos hmax, if_pos hmax, runRounds_eq, runRounds_eq, hbound, ← hlimit]
    exact ⟨htwins, congrArg (Option.getD · .endless) hending⟩
  · obtain ⟨htwins, hending⟩ := runFor_of_twins max.toNat h
    rw [run, run, if_neg hmax, if_neg hmax]
    refine ⟨htwins, ?_⟩
    show (runFor max.toNat e).2.getD _ = (runFor max.toNat e').2.getD _
    rw [hending, htwins.lineNo]

/-- An `event` leads emulators in the same state to the same state, and looks the same. -/
theorem perform_of_twins (h : Twins e e') (event : Event) :
    Twins (event.perform e).1 (event.perform e').1 ∧
      (event.perform e).2 = (event.perform e').2 := by
  cases event with
  | tick =>
    obtain ⟨htwins, hending⟩ := tick_of_twins h
    exact ⟨htwins, congrArg Reply.ticked hending⟩
  | run max =>
    obtain ⟨htwins, hending⟩ := run_of_twins max h
    exact ⟨htwins, congrArg Reply.ran hending⟩
  | reset =>
    refine ⟨⟨?_, h.program⟩, rfl⟩
    show e.reset.machine = e'.reset.machine
    rw [machine_reset, machine_reset, h.machine, h.program]
  | store address value =>
    rw [Event.perform, Event.perform, h.machine]
    rcases e'.machine.data.store address value with error | data
    · exact ⟨h, rfl⟩
    · exact ⟨⟨rfl, h.program⟩, rfl⟩
  | assign p => exact ⟨⟨h.machine, rfl⟩, rfl⟩
  | load image => exact ⟨⟨h.machine, rfl⟩, rfl⟩
  | setVerbose verbose => exact ⟨⟨h.machine, h.program⟩, rfl⟩
  | setPc pc =>
    refine ⟨⟨?_, h.program⟩, rfl⟩
    show { e.machine with pc := pc } = { e'.machine with pc := pc }
    rw [h.machine]
  | setReg r value =>
    refine ⟨⟨?_, h.program⟩, rfl⟩
    show e.machine.setReg r value = e'.machine.setReg r value
    rw [h.machine]

theorem undergo_of_twins (h : Twins e e') (events : List Event) :
    Twins (e.undergo events).1 (e'.undergo events).1 ∧
      (e.undergo events).2 = (e'.undergo events).2 := by
  induction events generalizing e e' with
  | nil => exact ⟨h, rfl⟩
  | cons event events ih =>
    obtain ⟨htwins, hreply⟩ := perform_of_twins h event
    obtain ⟨hlast, hreplies⟩ := ih htwins
    exact ⟨hlast, congrArg₂ List.cons hreply hreplies⟩

end Twins

/-- **A reset forgets the past.** Whatever was done to an emulator, after a reset its machine is
that of a `new` emulator with a data memory of the same size and the same program, and any `future`
of both gives the same replies and leads to the same state. -/
theorem reset_forgets (size : Nat) (past future : List Event) :
    let used := ((new size).undergo past).1
    let fresh := (new size).withProgram used.program
    used.reset.machine = fresh.reset.machine ∧
      (used.reset.undergo future).2 = (fresh.reset.undergo future).2 ∧
      (used.reset.undergo future).1.machine = (fresh.reset.undergo future).1.machine := by
  intro used fresh
  have hsize : used.machine.data.size = fresh.machine.data.size := size_undergo (new size) past
  have htwins : Twins used.reset fresh.reset := by
    refine ⟨?_, rfl⟩
    rw [machine_reset, machine_reset, hsize]
    rfl
  obtain ⟨hlast, hreplies⟩ := undergo_of_twins htwins future
  exact ⟨htwins.machine, hreplies, hlast.machine⟩

end WordMachine.Emulator
