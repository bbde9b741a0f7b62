import WordMachine.Asm.Fault
import WordMachine.Files.Disk

/-!
# Outcomes of commands

What `assemble` and `emulate` leave behind, and the lines that they write about a file.
-/

namespace WordMachine.Command

/-- What a command leaves behind: its exit status, and what it wrote to its two outputs. -/
structure Outcome where
  status : Nat
  stdout : Sink
  stderr : Text

/-- The text `t` as a line. -/
def line (t : Text) : Text :=
  t ++ "\n"

/-- The lines of a log. -/
def logText (lines : List Text) : Text :=
  lines.flatMap line

/-- A line with a `message` about something in a `file`. -/
def about (file message : Text) : Text :=
  line (file ++ ": " ++ message)

/-- The lines that report the `warnings` about a source `file`. -/
def warningLines (file : Text) (warnings : List SourceError) : Text :=
  warnings.flatMap fun w => about file (Message.format "warning: %v" [.text w.message])

end WordMachine.Command
