import WordMachine.Main
import WordMachine.Proofs.Blank
import WordMachine.Proofs.Trimming
import WordMachine.Proofs.Lines
import WordMachine.Proofs.Numeral
import WordMachine.Proofs.Literal
import WordMachine.Proofs.Operand
import WordMachine.Proofs.Packing
import WordMachine.Proofs.Encode
import WordMachine.Proofs.Assembly
import WordMachine.Proofs.Disassembly
import WordMachine.Proofs.Residue
import WordMachine.Proofs.Transfer
import WordMachine.Proofs.Image
import WordMachine.Proofs.Reference
import WordMachine.Proofs.Emulation
import WordMachine.Proofs.Saving
import WordMachine.Proofs.Agreement
import WordMachine.Proofs.Reassembly
import WordMachine.Proofs.Placement
import WordMachine.Proofs.Atomic
import WordMachine.Proofs.RoundTrip
import WordMachine.Proofs.Halting
import WordMachine.Proofs.Ticks
import WordMachine.Proofs.Lookup
import WordMachine.Proofs.Located
import WordMachine.Proofs.Strict
import WordMachine.Proofs.Arithmetic
import WordMachine.Proofs.Execution
import WordMachine.Proofs.Reset
import WordMachine.Proofs.Reuse
import WordMachine.Proofs.Range
import WordMachine.Proofs.Grammar
import WordMachine.Proofs.FirstError
import WordMachine.Proofs.Reading
import WordMachine.Proofs.Displacement
import WordMachine.Proofs.Layout
import WordMachine.Proofs.FreshLabel
import WordMachine.Proofs.Relocation
import WordMachine.Proofs.Advice
import WordMachine.Proofs.Sink
import WordMachine.Proofs.ImageGrammar
import WordMachine.Proofs.Listing
import WordMachine.Proofs.Spacing
import WordMachine.Proofs.Truncation
