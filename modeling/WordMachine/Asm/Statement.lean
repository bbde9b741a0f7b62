import WordMachine.Asm.Operand
import WordMachine.Text.Blank
import WordMachine.Text.LowerCase

/-!
# Statements

What a line of source says, whatever stands around it (`Statement.ofLine`): it is blank, opens a
text or a data section, or holds a label, an instruction or both. Instruction names are not
sensitive to case; operands are separated by commas and gaps.
-/

namespace WordMachine.Asm

open Text (byte)

/-- The index of the `#` that starts a comment, counted on from `n`; `p` and `q` are the two bytes
before. A `#` directly after `0x` starts none. -/
def commentStart (n : Nat) (p q : UInt8) : Text → Nat
  | [] => n
  | b :: t =>
    if b == byte '#' && !(p == byte '0' && q == byte 'x') then n
    else commentStart (n + 1) q b t

/-- The line without its comment, which begins at `commentStart`. -/
def dropComment (t : Text) : Text :=
  t.take (commentStart 0 0 0 t)

/-- The operands in the text `t`: what stands between commas and gaps. -/
def operandList (t : Text) : List Text :=
  (t.splitOnP fun b => b == byte ',' || isGap b).filter (!·.isEmpty)

/-! ## Forms of a line -/

/-- An instruction as it is written: its name in lower case, and its operands. -/
structure SourceInstr where
  mnemonic : Text
  operands : List Text
  deriving DecidableEq, Repr

/-- The name and the operands. -/
def SourceInstr.words (i : SourceInstr) : List Text :=
  i.mnemonic :: i.operands

/-- What a line says. -/
inductive Statement where
  | blank
  /-- A text section begins, `.text`. -/
  | textSection
  /-- A data section begins, `.data`. -/
  | dataSection
  /-- A label, an instruction, or both. -/
  | code (label : Option Text) (instr : Option SourceInstr)
  | malformed (fault : SourceFault)
  deriving DecidableEq, Repr

/-- Can the byte begin a label? -/
def isLabelStart (b : UInt8) : Bool :=
  Text.isLetter b || b == byte '_' || b == byte '.'

/-- Is the text a name that a label can have? It has only bytes of `isLabelStart` and digits, and a
digit is not the first one. -/
def isLabel (t : Text) : Bool :=
  match t with
  | [] => false
  | b :: t => isLabelStart b && t.all fun b => isLabelStart b || Text.isDigit b

/-- What the part `t` of a line after its `label` says. -/
def instrStatement (label : Option Text) (t : Text) : Statement :=
  match t with
  | [] => .code label none
  | b :: _ =>
    if b == byte '.' then .malformed (.unknownDirective (Text.firstField t))
    else
      let (mnemonic, rest) := Text.splitField t
      .code label (some ⟨Text.lower mnemonic, operandList rest⟩)

/-- What the line `t` says that is neither blank nor a section line. -/
def codeStatement (t : Text) : Statement :=
  match Text.cut? (byte ':') t with
  | some (name, rest) =>
    let label := Text.trim name
    if isLabel label then instrStatement (some label) (Text.trim rest) else .malformed .labelSyntax
  | none => instrStatement none t

/-- What a line says, once its comment and the white space at its ends are gone. -/
def Statement.ofLine (line : Text) : Statement :=
  let content := Text.trim (dropComment line)
  if content.isEmpty then .blank
  else if Text.firstField content == ".text" then .textSection
  else if Text.firstField content == ".data" then .dataSection
  else codeStatement content

end WordMachine.Asm
