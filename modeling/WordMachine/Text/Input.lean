import WordMachine.Text.Basic

/-!
# Inputs and their lines

An input is read to its end, or until the device under it fails. Reading it by lines cuts it at line
feeds and drops one carriage return at the end of each line. A line may have at most
`maxLineLength - 1` bytes, its carriage return included and its line feed not; a longer one ends the
reading.
-/

namespace WordMachine

/-- A failure of a device, with the words that report it. -/
structure Failure where
  reason : Text
  deriving DecidableEq, Repr

/-- The `bytes` to read, and the `failure` that follows them instead of a regular end. -/
structure Input where
  bytes : Text
  failure : Option Failure := none

/-- What ends the reading of lines too early. -/
inductive ReadFault where
  /-- The line does not fit the line buffer. -/
  | lineTooLong
  /-- The device failed. -/
  | device (failure : Failure)
  deriving DecidableEq, Repr

/-- The words that report the fault, for a failure of the device its `reason`. -/
def ReadFault.message : ReadFault → Text
  | .lineTooLong => "bufio.Scanner: token too long"
  | .device failure => failure.reason

namespace Input

/-- A line of this many bytes no longer fits the line buffer. -/
def maxLineLength : Nat := 65536

/-- The `line` without a carriage return at its end; only one is dropped. -/
def dropReturn (line : Text) : Text :=
  if line.getLast? == some (Text.byte '\r') then line.dropLast else line

/-- The stretches between line feeds in `bytes`; an empty one at the very end is no line. -/
def segments (bytes : Text) : List Text :=
  let all := bytes.splitOn (Text.byte '\n')
  if all.getLast? == some [] then all.dropLast else all

/-- The segments of `bytes` before the first one that does not fit the line buffer. -/
def fitting (bytes : Text) : List Text :=
  (segments bytes).takeWhile (·.length < maxLineLength)

/-- The lines that reading delivers: those of `fitting`, without carriage returns at their ends. -/
def lines (input : Input) : List Text :=
  (fitting input.bytes).map dropReturn

/-- What ends the reading of lines, if it is not the end of the input: a line of `maxLineLength`
bytes or more, or else the failure of the device. -/
def fault? (input : Input) : Option ReadFault :=
  if (fitting input.bytes).length < (segments input.bytes).length then some .lineTooLong
  else input.failure.map .device

end Input

end WordMachine
