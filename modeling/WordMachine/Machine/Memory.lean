import WordMachine.Isa.Word
import WordMachine.Message

/-!
# Memories

A memory is a row of words, addressed from zero; `load` and `store` fail outside of it.
-/

namespace WordMachine

/-- A word-addressed memory. -/
abbrev Memory := Array Word

/-- An address at which a memory has no word. -/
structure AddressError where
  address : Word
  deriving DecidableEq, Repr

/-- The words that report the error. -/
def AddressError.message (e : AddressError) : Text :=
  Message.format "address 0x%x out of range" [.int e.address.toNat]

namespace Memory

/-- A memory of `size` zeros. -/
def zeros (size : Nat) : Memory :=
  Array.replicate size 0

/-- Does the memory have a word at the address? It does if `address` is below its size. -/
def covers (m : Memory) (address : Word) : Bool :=
  address.toNat < m.size

/-- The word at `address`, if the memory covers it. -/
def load (m : Memory) (address : Word) : Except AddressError Word :=
  match m[address.toNat]? with
  | some w => .ok w
  | none => .error ⟨address⟩

/-- The memory with `value` at an address that it covers; any other address changes nothing. -/
def put (m : Memory) (address value : Word) : Memory :=
  m.setIfInBounds address.toNat value

/-- The memory with `value` at `address`, if it covers the address. -/
def store (m : Memory) (address value : Word) : Except AddressError Memory :=
  if m.covers address then .ok (m.put address value) else .error ⟨address⟩

/-- The memory with all words zero. -/
def clear (m : Memory) : Memory :=
  zeros m.size

end Memory

end WordMachine
