import WordMachine.Asm.Encode
import WordMachine.Program.Basic

/-!
# The assembler

Assembly takes two passes: `Scan.ofInput` reads all source lines and their labels, and `encodeLines`
encodes the instructions. `parse` runs both and stops at the first line that is at fault. An
assembler keeps the labels and the warnings of its last run.
-/

namespace WordMachine

open Asm

/-- An assembler. -/
structure Assembler where
  /-- Logs each source line that it encodes, as `logLine` says. -/
  verbose : Bool := false
  /-- Takes instructions without an encoding for errors. -/
  strict : Bool := false
  labels : Labels := {}
  warnings : List SourceError := []

namespace Assembler

/-- A source line with its encoding; lines without an instruction have none. -/
abbrev Encoded := SourceLine × Except SourceFault (Option Encoding)

/-- The encoding of `line`, once the `labels` are known; with `strict`, as `encode` has it. -/
def encodeLine (strict : Bool) (labels : Labels) (line : SourceLine) : Encoded :=
  (line, match line.instr with
    | some i => (encode strict labels line.pc i).map some
    | none => .ok none)

/-- Has the line been encoded without a fault? Then `error? e` is `none`. -/
def isGood (e : Encoded) : Bool :=
  match e.2 with
  | .ok _ => true
  | .error _ => false

/-- The error of an encoded line, with the number and the text of the line. -/
def error? (e : Encoded) : Option SourceError :=
  match e.2 with
  | .ok _ => none
  | .error fault => some ⟨e.1.lineNo, e.1.text, fault⟩

/-- The warning about an encoded line: the fault that `encode` found but passed over. -/
def warning? (e : Encoded) : Option SourceError :=
  match e.2 with
  | .ok (some ⟨_, some fault⟩) => some ⟨e.1.lineNo, e.1.text, fault⟩
  | _ => none

/-- The program entry of an encoded line, which is `none` for a line with a label alone. -/
def entryOf? (e : Encoded) : Option Entry :=
  match e.2 with
  | .ok (some encoding) => some ⟨e.1.lineNo, e.1.pc, e.1.words, encoding.code⟩
  | _ => none

/-- The log line about a source line. -/
def logLine (line : SourceLine) : Text :=
  Text.decimal line.lineNo ++ ": " ++ Text.paddedHex 3 line.pc ++ ": " ++ line.text

/-- What a run of an assembler gives: the assembler after it, the program or the first error in
`result`, and the log. -/
structure Run where
  assembler : Assembler
  result : Except SourceError Program
  log : List Text

/-- The second pass, over the source lines of the first one. The lines before the first error are
`good`; the log goes on to the line of the error. -/
def encodeLines (asm : Assembler) (lines : List SourceLine) : Run :=
  let labels := Labels.ofLines lines
  let encoded := lines.map (encodeLine asm.strict labels)
  let good := encoded.takeWhile isGood
  let bad := encoded.find? (!isGood ·)
  let warnings := good.filterMap warning?
  { assembler := { asm with labels := labels, warnings := warnings }
    result :=
      match bad.bind error? with
      | some e => .error e
      | none => .ok { entries := (good.filterMap entryOf?).toArray, labels := labels,
                      warnings := warnings }
    log := if asm.verbose then (good ++ bad.toList).map fun e => logLine e.1 else [] }

/-- Assembles a source: `encodeLines` on the lines of `Scan.ofInput input`, unless the reading ended
in an error. -/
def parse (asm : Assembler) (input : Input) : Run :=
  let scan := Scan.ofInput input
  match scan.error? with
  | some e => { assembler := { asm with warnings := [] }, result := .error e, log := [] }
  | none => asm.encodeLines scan.lines.toList

end Assembler

end WordMachine
