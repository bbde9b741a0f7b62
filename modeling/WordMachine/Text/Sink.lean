import WordMachine.Text.Input

/-!
# Sinks

A sink takes bytes until it has taken as many as its `bound` allows. A `write` that goes beyond that
stores what still fits and fails. A `Buffer` in front of a sink holds bytes back until more are put
in than it can hold, and until all are put in; once the sink has failed, nothing more goes through.
-/

namespace WordMachine

/-- How many bytes a sink takes in all, its `size`, and its `failure` once there are more. -/
structure Bound where
  size : Nat
  failure : Failure
  deriving DecidableEq, Repr

/-- The bytes taken so far, and the bound on them. -/
structure Sink where
  bound : Option Bound := none
  taken : Array UInt8 := #[]
  deriving DecidableEq, Repr

namespace Sink

/-- The bytes in `taken`, in order. -/
def text (sink : Sink) : Text :=
  sink.taken.toList

/-- Takes as many of the bytes `t` as it may, and fails if these are not all. -/
def write (sink : Sink) (t : Text) : Sink × Option Failure :=
  match sink.bound with
  | none => ({ sink with taken := sink.taken ++ t }, none)
  | some bound =>
    let room := bound.size - sink.taken.size
    if t.length ≤ room then ({ sink with taken := sink.taken ++ t }, none)
    else ({ sink with taken := sink.taken ++ t.take room }, some bound.failure)

/-- Writes one text after the other, and stops at the first failure of a `write`. -/
def writeAll : Sink → List Text → Sink × Option Failure
  | sink, [] => (sink, none)
  | sink, t :: ts =>
    match sink.write t with
    | (sink, none) => sink.writeAll ts
    | (sink, some failure) => (sink, some failure)

/-- What buffered writing came to: the bytes that went into the buffer until it ended, and the
failure that ended it. -/
structure Flushed where
  sink : Sink
  count : Nat
  failure : Option Failure

end Sink

/-- A buffer in front of a sink: the bytes that it holds back, and the failure of the sink. -/
structure Buffer where
  sink : Sink
  held : Array UInt8 := #[]
  failure : Option Failure := none

namespace Buffer

/-- How many bytes a buffer holds. -/
def size : Nat := 4096

/-- Hands on the bytes that are held back, unless the sink has failed before. -/
def flush (b : Buffer) : Buffer :=
  if b.failure.isSome then b
  else
    let (sink, failure) := b.sink.write b.held.toList
    ⟨sink, #[], failure⟩

/-- Puts a text `t` that is no longer than a buffer into it, and counts the bytes. Of a text that
does not fit, the part that does is put in, and the rest after the buffer has been handed on. -/
def put (b : Buffer) (t : Text) : Buffer × Nat :=
  let room := size - b.held.size
  if b.failure.isSome then (b, 0)
  else if t.length ≤ room then ({ b with held := b.held ++ t }, t.length)
  else
    let full := { b with held := b.held ++ t.take room }.flush
    if full.failure.isSome then (full, room)
    else ({ full with held := (t.drop room).toArray }, t.length)

/-- Puts in one text after the other, `count` bytes being put in before, and stops at the first
failure. -/
def putAll : Buffer → Nat → List Text → Buffer × Nat
  | b, count, [] => (b, count)
  | b, count, t :: ts =>
    let (b, n) := b.put t
    if b.failure.isSome then (b, count + n) else b.putAll (count + n) ts

end Buffer

/-- Writes the texts `ts` one after the other through a buffer, none of them longer than the
buffer. -/
def Sink.writeBuffered (sink : Sink) (ts : List Text) : Flushed :=
  let (b, count) := Buffer.putAll { sink } 0 ts
  let b := b.flush
  ⟨b.sink, count, b.failure⟩

end WordMachine
