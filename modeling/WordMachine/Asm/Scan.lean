import WordMachine.Asm.Statement
import WordMachine.Table

/-!
# Scanning a source

A source is read line by line by `Scan.step`. Inside a text section, the lines that hold a label or
an instruction become source lines; an instruction line takes the next program counter, and a label
names it. The first malformed line of a text section ends the reading. `Labels.ofLines` collects the
labels of the source lines.
-/

namespace WordMachine.Asm

/-- A line of a text section that holds a label or an instruction. -/
structure SourceLine where
  /-- The number of the line in the source, from one. -/
  lineNo : Nat
  /-- The line without white space at its ends. -/
  text : Text
  label : Option Text
  instr : Option SourceInstr
  /-- The program counter of the instruction `instr`, or of the next one, if there is none on the
  line. -/
  pc : Nat
  deriving DecidableEq, Repr

/-- The name and the operands of the instruction on the line. -/
def SourceLine.words (line : SourceLine) : List Text :=
  match line.instr with
  | some i => i.words
  | none => []

/-- The state of reading a source: the number and the text of the last line, the section and the
program counter after it, the source lines so far, and the `fault` that ended the reading. -/
structure Scan where
  lineNo : Nat := 0
  text : Text := []
  inText : Bool := false
  pc : Nat := 0
  lines : Array SourceLine := #[]
  fault : Option SourceFault := none

namespace Scan

/-- Takes the statement of the current line into account, whose number is `s.lineNo`. -/
def accept (s : Scan) : Statement → Scan
  | .blank => s
  | .textSection => { s with inText := true }
  | .dataSection => { s with inText := false }
  | .code label instr =>
    if s.inText then
      { s with
        pc := if instr.isSome then s.pc + 1 else s.pc
        lines := s.lines.push ⟨s.lineNo, s.text, label, instr, s.pc⟩ }
    else s
  | .malformed fault => if s.inText then { s with fault := some fault } else s

/-- Reads one more line, unless `s.fault` has ended the reading. -/
def step (s : Scan) (line : Text) : Scan :=
  if s.fault.isSome then s
  else
    let text := Text.trim line
    accept { s with lineNo := s.lineNo + 1, text := text } (Statement.ofLine text)

/-- Reads a whole source: `step` over its lines, and then the fault of the input itself, if it has
one. -/
def ofInput (input : Input) : Scan :=
  let s := input.lines.foldl step {}
  if s.fault.isSome then s else { s with fault := input.fault?.map .read }

/-- The error that ended the reading, at the line `s.lineNo`. -/
def error? (s : Scan) : Option SourceError :=
  s.fault.map fun fault => ⟨s.lineNo, s.text, fault⟩

end Scan

end WordMachine.Asm

namespace WordMachine

/-! ## Labels -/

/-- The program counters that labels stand for. -/
abbrev Labels := Table Text Int

/-- The labels of source lines; the last definition of a label counts, as `insert` overwrites. -/
def Labels.ofLines (lines : List Asm.SourceLine) : Labels :=
  lines.foldl (fun labels line =>
    match line.label with
    | some label => labels.insert label line.pc
    | none => labels) {}

end WordMachine
