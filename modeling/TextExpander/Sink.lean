import TextExpander.Error
import TextExpander.Text.Utf8

/-!
# Sinks

Where output goes. A sink takes bytes and hands them on. It may be able to hand on only so many in
all. A write that goes beyond that leaves what can be handed on, and fails. Handing everything on at
the end may fail too.

A sink may hold small pieces back, to hand them on together. A piece that does not fit with those
held back makes the sink hand them on first, and a piece as large as all it may hold back is handed
on at once. No piece is ever split. This never changes what is written in the end, but it can be
seen by someone who reads the output before its end, and in when a write fails.

## Main definitions

* `Sink`: what an output took, and how much it hands on.
* `Sink.write`, `Sink.flush`: writing text, and handing on what was written.
* `Sink.handedOn`: what can be read of the output so far.

## Main results

* `Sink.bytes_write_of_unlimited`: without a limit, a write adds its bytes and nothing else.
* `Sink.bytes_write_of_unbuffered`: if nothing is held back, a limit cuts off what was written.
-/

namespace TextExpander

/-- An output. -/
structure Sink where
  /-- The number of bytes that it hands on in all; no limit if there is none. -/
  limit : Option Nat := none
  /-- The reason that it gives for not handing on more. -/
  reason : WriteFault := .full
  /-- Whether handing on what was written fails at the end. -/
  failsFlush : Bool := false
  /-- The bytes that it took. -/
  accepted : Array UInt8 := #[]
  /-- The number of bytes that it may hold back. -/
  capacity : Nat := 0
  /-- The number of bytes that it holds back, the last ones that it took. -/
  held : Nat := 0
  deriving DecidableEq, Repr

namespace Sink

/-- The bytes that a sink took. -/
def bytes (s : Sink) : List UInt8 :=
  s.accepted.toList

/-- The text that a sink took, as far as its bytes are text. -/
def text (s : Sink) : Text :=
  Utf8.decodeLossy s.bytes

/-- The number of bytes that were handed on. -/
def reach (s : Sink) : Nat :=
  s.accepted.size - s.held

/-- The bytes that were handed on. -/
def handedOn (s : Sink) : Array UInt8 :=
  s.accepted.extract 0 s.reach

/-! ### Writing -/

/-- A sink that hands on no more than it can. If it should have, that is a failure. -/
def settle (s : Sink) : Sink × Option Error :=
  match s.limit with
  | none => (s, none)
  | some limit =>
    if s.reach ≤ limit then (s, none)
    else ({ s with accepted := s.accepted.extract 0 limit, held := 0 }, some (.output s.reason))

/-- The number of bytes held back after a piece of the given size, where `held` bytes are held back
before it. -/
def holdBack (capacity held size : Nat) : Nat :=
  if capacity ≤ size then 0 else if held + size ≤ capacity then held + size else size

/-- Writes a text that comes in pieces. -/
def write (s : Sink) (pieces : List Text) : Sink × Option Error :=
  let held := (pieces.map Text.byteLength).foldl (holdBack s.capacity) s.held
  settle { s with accepted := s.accepted ++ Utf8.encode pieces.flatten, held }

/-- Hands on what was written. -/
def flush (s : Sink) : Sink × Option Error :=
  match settle { s with held := 0 } with
  | (s, some e) => (s, some e)
  | (s, none) => (s, if s.failsFlush then some (.output .flushFailed) else none)

/-! ### What a write does to the bytes -/

theorem bytes_write_of_unlimited {s : Sink} (h : s.limit = none) (pieces : List Text) :
    (s.write pieces).1.bytes = s.bytes ++ Utf8.encode pieces.flatten := by
  simp [write, settle, h, bytes]

theorem foldl_holdBack_zero (sizes : List Nat) : sizes.foldl (holdBack 0) 0 = 0 := by
  induction sizes with
  | nil => rfl
  | cons n sizes ih => simpa [holdBack] using ih

theorem bytes_write_of_unbuffered {s : Sink} (hcapacity : s.capacity = 0) (hheld : s.held = 0)
    (pieces : List Text) :
    (s.write pieces).1.bytes =
      match s.limit with
      | none => s.bytes ++ Utf8.encode pieces.flatten
      | some limit => (s.bytes ++ Utf8.encode pieces.flatten).take limit := by
  cases hlimit : s.limit with
  | none => exact bytes_write_of_unlimited hlimit pieces
  | some limit =>
    simp only [write, settle, hlimit, hcapacity, hheld, foldl_holdBack_zero, reach]
    split
    · next h =>
      rw [Nat.sub_zero, ← Array.length_toList, Array.toList_appendList] at h
      rw [bytes, bytes, List.take_of_length_le h, Array.toList_appendList]
    · simp [bytes]

end Sink

end TextExpander
