import WordMachine.Machine.Memory
import WordMachine.Text.Blank
import WordMachine.Text.Sink

/-!
# Memory images

The text form of a memory: one word a line, in hexadecimal or binary digits. `render` and `write`
make an image of words, `read` reads it back. A layout gives the radix and the number of digits; `0`
stands for hexadecimal, and for as many digits as 32 bits take. Two slashes start a comment.
-/

namespace WordMachine

/-- The settings of an image as they are given. -/
structure Layout where
  radix : Int := 0
  width : Int := 0
  deriving DecidableEq, Repr

/-- The two kinds of digits. -/
inductive Radix where
  | hex | binary
  deriving DecidableEq, Repr

/-- The settings of an image as they are used: the `radix`, and the number of digits of a word, its
`width`. -/
structure Digits where
  radix : Radix
  width : Nat
  deriving DecidableEq, Repr

/-- What is wrong with an image or its layout. -/
inductive ImageError where
  | radix
  | width
  /-- A line that is not a word, with its number and its text. -/
  | line (lineNo : Nat) (text : Text)
  /-- Reading ended before the end of the image. -/
  | read (fault : ReadFault)
  /-- Writing failed. -/
  | write (failure : Failure)
  deriving DecidableEq, Repr

/-- The words that report the error. -/
def ImageError.message : ImageError → Text
  | .radix => Message.format "radix unknown" []
  | .width => Message.format "word width out of range" []
  | .line lineNo text =>
    Message.format "line %d '%v' is not a memory word" [.int lineNo, .text text]
  | .read fault => fault.message
  | .write failure => failure.reason

namespace Radix

/-- The base of the digits. -/
def base : Radix → Nat
  | hex => 16
  | binary => 2

/-- How many digits 32 bits take. -/
def fullWidth : Radix → Nat
  | hex => 8
  | binary => 32

end Radix

/-- The meaning of a layout; the radix is looked at first, so `ImageError.radix` comes before
`ImageError.width`. -/
def Layout.digits (layout : Layout) : Except ImageError Digits :=
  let withRadix (r : Radix) : Except ImageError Digits :=
    if layout.width = 0 then .ok ⟨r, r.fullWidth⟩
    else if layout.width < 0 ∨ layout.width > r.fullWidth then .error .width
    else .ok ⟨r, layout.width.toNat⟩
  if layout.radix = 0 ∨ layout.radix = 16 then withRadix .hex
  else if layout.radix = 2 then withRadix .binary
  else .error .radix

namespace Image

/-! ## Writing -/

/-- The line of the word `w`; digits beyond `d.width` are cut off on the left. -/
def wordLine (d : Digits) (w : Word) : Text :=
  Text.padLeft d.width (Text.byte '0')
    (Text.upperDigits d.radix.base (w.toNat % d.radix.base.pow d.width)) ++ "\n"

/-- The text of an image: the lines of the `words`, one after the other. -/
def render (d : Digits) (words : Array Word) : Text :=
  words.toList.flatMap (wordLine d)

/-- What `write` came to. -/
structure Written where
  sink : Sink
  count : Nat
  error : Option ImageError

/-- Writes an image of `words` through a buffer, word by word. -/
def write (layout : Layout) (words : Array Word) (sink : Sink) : Written :=
  match layout.digits with
  | .error e => ⟨sink, 0, some e⟩
  | .ok d =>
    let flushed := sink.writeBuffered (words.toList.map (wordLine d))
    ⟨flushed.sink, flushed.count, flushed.failure.map .write⟩

/-! ## Reading -/

/-- The index of the first two neighbouring slashes, counted on from `n`; the end if there are
none. -/
def commentStart (n : Nat) : Text → Nat
  | [] => n
  | b :: t =>
    if b == Text.byte '/' && t.head? == some (Text.byte '/') then n else commentStart (n + 1) t

/-- The line without its comment and the white space around what is left. -/
def lineContent (line : Text) : Text :=
  Text.trim (line.take (commentStart 0 line))

/-- The state of reading an image: the lines and bytes so far, the words, and the error that ended
the reading. -/
structure Reading where
  lineNo : Nat := 0
  count : Nat := 0
  words : Array Word := #[]
  error : Option ImageError := none

/-- Reads one more line, unless `r.error` has ended the reading. -/
def Reading.step (d : Digits) (r : Reading) (line : Text) : Reading :=
  if r.error.isSome then r
  else
    let r := { r with lineNo := r.lineNo + 1, count := r.count + line.length + 1 }
    let content := lineContent line
    if content.isEmpty then r
    else if content.length > d.width then { r with error := some (.line r.lineNo line) }
    else match Text.natOf? d.radix.base content with
      | some n => { r with words := r.words.push (UInt32.ofNat n) }
      | none => { r with error := some (.line r.lineNo line) }

/-- What `read` came to: the bytes of its lines, the words of the memory after it, and the error. -/
structure Read where
  count : Nat
  words : Array Word
  error : Option ImageError

/-- Reads an image into a memory that holds `prior`, which is left as it is only if the layout is at
fault. -/
def read (layout : Layout) (prior : Array Word) (input : Input) : Read :=
  match layout.digits with
  | .error e => ⟨0, prior, some e⟩
  | .ok d =>
    let r := input.lines.foldl (Reading.step d) {}
    ⟨r.count, r.words, if r.error.isSome then r.error else input.fault?.map .read⟩

end Image

end WordMachine
