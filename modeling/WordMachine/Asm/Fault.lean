import WordMachine.Message
import WordMachine.Text.Input

/-!
# Faults of a source

What can be wrong with a line of source (`SourceFault`), and the place where it is (`SourceError`).
-/

namespace WordMachine

/-- What is wrong with a line of source. -/
inductive SourceFault where
  /-- Reading ended before the end of the source. -/
  | read (fault : ReadFault)
  /-- What stands before a colon is not a name, in the sense of `isLabel`. -/
  | labelSyntax
  | unknownDirective (name : Text)
  | unknownInstruction (mnemonic : Text)
  | operandMissing
  | operandExtra
  | notRegister (operand : Text)
  | notImmediate (operand : Text)
  | notMemoryOperand (operand : Text)
  /-- The instruction has no encoding; `advice` are lines to use instead. -/
  | unsupported (mnemonic : Text) (advice : List Text)
  deriving DecidableEq, Repr

/-- The words that report the fault. -/
def SourceFault.message : SourceFault → Text
  | .read fault => fault.message
  | .labelSyntax => Message.format "label syntax" []
  | .unknownDirective name => Message.format "unknown directive '%v'" [.text name]
  | .unknownInstruction mnemonic => Message.format "unknown instruction '%v'" [.text mnemonic]
  | .operandMissing => Message.format "operand missing" []
  | .operandExtra => Message.format "excessive operands" []
  | .notRegister operand => Message.format "'%v' is not a register" [.text operand]
  | .notImmediate operand => Message.format "'%v' is not an immediate" [.text operand]
  | .notMemoryOperand operand => Message.format "'%v' is not a memory operand" [.text operand]
  | .unsupported mnemonic advice =>
    Message.format "%v not supported by the cpu, encoded as a zero word; consider: %v"
      [.text mnemonic, .text (Text.join "; " advice)]

/-- A fault with the number and the trimmed text of its line. -/
structure SourceError where
  lineNo : Nat
  line : Text
  fault : SourceFault
  deriving DecidableEq, Repr

/-- The words that report the error: `lineNo`, the `line` in quotes, and the message of the
fault. -/
def SourceError.message (e : SourceError) : Text :=
  Message.format "line %d '%v' %v" [.int e.lineNo, .text e.line, .text e.fault.message]

end WordMachine
