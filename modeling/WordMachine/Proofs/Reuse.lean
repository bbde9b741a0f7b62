import WordMachine.Proofs.Assembly

/-!
# Using an assembler again

An assembler keeps the labels and the warnings of its last run. Neither reaches the next run: what
comes out of a `Call` depends on its flags and its source alone, whatever the calls before it were
and however they ended. The labels that are kept are those of the last source that could be read.
Both are said by `Assembler.run_reused`.
-/

namespace WordMachine.Assembler

open Asm

/-- A call of an assembler: the flags that are set for it, and the source. -/
structure Call where
  verbose : Bool := false
  strict : Bool := false
  input : Input

/-- What the assembler `asm` gives when it is called. -/
def Call.run (call : Call) (asm : Assembler) : Run :=
  { asm with verbose := call.verbose, strict := call.strict }.parse call.input

/-- The labels of the source, if it can be read to its end. -/
def Call.labels? (call : Call) : Option Labels :=
  match (Scan.ofInput call.input).error? with
  | some _ => none
  | none => some (Labels.ofLines (Scan.ofInput call.input).lines.toList)

/-- The assembler after a sequence of `calls`. -/
def afterCalls (asm : Assembler) (calls : List Call) : Assembler :=
  calls.foldl (fun asm call => (call.run asm).assembler) asm

/-! ## Single calls -/

/-- What comes out of a run depends on the flags and the source: `asm` and `asm'` with the same
flags give the same program or error, the same warnings and the same log, whatever labels and
warnings they hold. -/
theorem parse_congr {asm asm' : Assembler} (hverbose : asm.verbose = asm'.verbose)
    (hstrict : asm.strict = asm'.strict) (input : Input) :
    (asm.parse input).result = (asm'.parse input).result ∧
      (asm.parse input).assembler.warnings = (asm'.parse input).assembler.warnings ∧
      (asm.parse input).log = (asm'.parse input).log := by
  cases herror : (Scan.ofInput input).error? with
  | some e =>
    rw [parse_of_error asm herror, parse_of_error asm' herror]
    exact ⟨rfl, rfl, rfl⟩
  | none =>
    have hscan := Option.map_eq_none_iff.mp herror
    rw [parse_of_scan asm hscan, parse_of_scan asm' hscan]
    simp only [encodeLines, hverbose, hstrict, and_self]

/-- The flags are set at each call, so `asm` and `asm'` give the same when they are called. -/
theorem Call.run_congr (call : Call) (asm asm' : Assembler) :
    (call.run asm).result = (call.run asm').result ∧
      (call.run asm).assembler.warnings = (call.run asm').assembler.warnings ∧
      (call.run asm).log = (call.run asm').log := by
  apply parse_congr
  · rfl
  · rfl

/-- A call leaves the labels of its source, or `asm.labels` if it cannot be read. That some line
cannot be encoded makes no difference. -/
theorem labels_run (asm : Assembler) (call : Call) :
    (call.run asm).assembler.labels = call.labels?.getD asm.labels := by
  cases herror : (Scan.ofInput call.input).error? with
  | some e =>
    rw [Call.run, parse_of_error _ herror]
    simp only [Call.labels?, herror, Option.getD_none]
  | none =>
    rw [Call.run, parse_of_scan _ (Option.map_eq_none_iff.mp herror)]
    simp only [Call.labels?, herror, Option.getD_some, encodeLines]

/-! ## Sequences of calls -/

/-- After a sequence of `calls` there are the labels of the last source that could be read. -/
theorem labels_afterCalls (asm : Assembler) (calls : List Call) :
    (asm.afterCalls calls).labels = (calls.filterMap Call.labels?).getLast?.getD asm.labels := by
  induction calls generalizing asm with
  | nil => rfl
  | cons call calls ih =>
    show ((call.run asm).assembler.afterCalls calls).labels = _
    rw [ih, labels_run]
    cases hlabels : call.labels? with
    | none => rw [List.filterMap_cons_none hlabels, Option.getD_none]
    | some labels =>
      rw [List.filterMap_cons_some hlabels, List.getLast?_cons, Option.getD_some, Option.getD_some]

/-- **An assembler carries nothing over.** After any `earlier` calls of one assembler, a call gives
the program or the error, the warnings and the log that it gives on a new assembler. The labels that
the assembler then has are those of the last source that could be read, and there are none if none
could be. -/
theorem run_reused (earlier : List Call) (call : Call) :
    let reused := call.run (({} : Assembler).afterCalls earlier)
    let fresh := call.run {}
    reused.result = fresh.result ∧
      reused.assembler.warnings = fresh.assembler.warnings ∧
      reused.log = fresh.log ∧
      reused.assembler.labels = ((earlier ++ [call]).filterMap Call.labels?).getLast?.getD {} := by
  intro reused fresh
  obtain ⟨hresult, hwarnings, hlog⟩ :=
    call.run_congr (({} : Assembler).afterCalls earlier) {}
  refine ⟨hresult, hwarnings, hlog, ?_⟩
  have hlast : ({} : Assembler).afterCalls (earlier ++ [call]) = reused.assembler := by
    rw [afterCalls, List.foldl_append]
    rfl
  rw [← hlast]
  exact labels_afterCalls {} (earlier ++ [call])

set_option maxRecDepth 10000 in
/-- A label of a source that cannot be encoded is still there after one that cannot be read, and
names nothing in the source after it. -/
example :
    let kept := ({} : Assembler).afterCalls
      [{ input := ⟨".text\nloop: nand", none⟩ }, { input := ⟨".text\n.word 1", none⟩ }]
    kept.labels.get? "loop" = some 0 ∧
      (Call.run { input := ⟨".text\nj loop", none⟩ } kept).result.toBool = false := by
  decide +kernel

end WordMachine.Assembler
