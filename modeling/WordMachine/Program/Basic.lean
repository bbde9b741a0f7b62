import WordMachine.Asm.Scan

/-!
# Programs

A program holds its instruction words, each with its program counter and its place in the source,
and the labels. `find?` looks for an entry by binary search.
-/

namespace WordMachine

/-- An instruction word with its place in the source. -/
structure Entry where
  lineNo : Int := 0
  pc : Int
  words : List Text := []
  code : Word
  deriving DecidableEq, Repr

/-- An assembled program. -/
structure Program where
  entries : Array Entry := #[]
  labels : Labels := {}
  warnings : List SourceError := []

namespace Program

/-- The instruction words, in order, without their places. -/
def image (p : Program) : Array Word :=
  (p.entries.toList.map (·.code)).toArray

/-- The program counters with their instruction words, in order. -/
def placedWords (p : Program) : List (Int × Word) :=
  p.entries.toList.map fun e => (e.pc, e.code)

/-- The program that a bare memory image stands for; it has no source. -/
def ofImage (words : Array Word) : Program :=
  { entries := (words.toList.zipIdx.map fun (w, i) => { pc := i, code := w }).toArray }

/-! ## Look-up -/

/-- Does `a` come before `b`, by the sign of their 64-bit difference? -/
def precedes (a b : Int) : Bool :=
  (a - b).bmod 0x10000000000000000 < 0

/-- Halves the range from `i` to `j` until it is empty, keeping the entries before `pc` to its left;
`fuel` is at least the length of the range. -/
def searchFrom (entries : Array Entry) (pc : Int) : Nat → Nat → Nat → Nat
  | 0, i, _ => i
  | fuel + 1, i, j =>
    if i < j then
      let mid := (i + j) / 2
      match entries[mid]? with
      | some e =>
        if precedes e.pc pc then searchFrom entries pc fuel (mid + 1) j
        else searchFrom entries pc fuel i mid
      | none => i
    else i

/-- The entry with the program counter `pc`, found by binary search. -/
def find? (p : Program) (pc : Int) : Option Entry :=
  match p.entries[searchFrom p.entries pc p.entries.size 0 p.entries.size]? with
  | some e => if e.pc = pc then some e else none
  | none => none

/-- The line that `pc` comes from; zero if it comes from none. -/
def lineAt (p : Program) (pc : Int) : Int :=
  match p.find? pc with
  | some e => e.lineNo
  | none => 0

/-- The instruction word at `pc`; zero if there is none. -/
def codeAt (p : Program) (pc : Int) : Word :=
  match p.find? pc with
  | some e => e.code
  | none => 0

end Program

end WordMachine
