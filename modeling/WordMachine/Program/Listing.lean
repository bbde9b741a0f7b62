import WordMachine.Program.Basic
import WordMachine.Text.Sink

/-!
# Listings

The listing of a program (`listingLines`) has a line for each entry, after a line for each label of
its program counter.
-/

namespace WordMachine.Program

/-- The labels of the program counter `pc`, in ascending order of their bytes. -/
def labelsAt (p : Program) (pc : Int) : List Text :=
  ((p.labels.entries.filter fun e => e.2 == pc).map (·.1)).mergeSort fun a b => decide (a ≤ b)

/-- The line that lists the entry `e`: its program counter, word, disassembly and place in the
source. -/
def entryLine (e : Entry) : Text :=
  Text.paddedHex 4 e.pc ++ ": " ++ Text.upperHex 8 e.code.toNat ++ "  " ++
    Text.padRight 24 (Text.byte ' ') e.code.disassemble ++ " ; " ++ Text.ofInt e.lineNo ++ ": " ++
    Text.join " " e.words ++ "\n"

/-- The lines of the listing: each entry after the labels of its program counter. -/
def listingLines (p : Program) : List Text :=
  p.entries.toList.flatMap fun e =>
    (p.labelsAt e.pc).map (fun (label : Text) => label ++ ":\n") ++ [entryLine e]

/-- Writes the listing to a sink, each line for itself. -/
def list (p : Program) (sink : Sink) : Sink × Option Failure :=
  sink.writeAll p.listingLines

end WordMachine.Program
