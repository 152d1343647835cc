import MenuPages.Markup.Escape
import MenuPages.Text.Utf8

/-!
# Writing to a sink

A sink takes bytes in portions of its own choosing, until it has taken as many as it has room for;
from then on it takes none. Writing everything means offering what is left again and again, and a
write of which nothing is taken is a failure.

A value is escaped on the way: `Sink.writeEscaped` offers the longest run that needs no escaping,
of which the sink may take a part, or else writes one whole entity. It never needs to hold back a
part of an entity between two offers.
-/

namespace MenuPages

/-- A receiver of bytes. `portion` says how many bytes it would take of an offer, from what it has
received and what it is offered; it never takes more than is offered or than it has room for. -/
structure Sink where
  room : Nat
  portion : (received offer : List UInt8) → Nat
  received : List UInt8 := []

/-- Why writing failed. -/
inductive WriteFailure where
  /-- Nothing was taken of an offer that was not empty. -/
  | nothingTaken
  deriving DecidableEq, Repr

def WriteFailure.kind : WriteFailure → Text
  | .nothingTaken => "WriteZero".toList

def WriteFailure.message : WriteFailure → Text
  | .nothingTaken => "failed to write whole buffer".toList

namespace Sink

/-- A sink that takes at most `chunk` bytes of an offer and `room` bytes in all. -/
def ofChunk (room chunk : Nat) : Sink := { room, portion := fun _ _ => chunk }

/-- How many bytes of an offer are taken. -/
def taken (k : Sink) (offer : List UInt8) : Nat :=
  min (k.portion k.received offer) (min offer.length (k.room - k.received.length))

/-- The sink after an offer. -/
def accept (k : Sink) (offer : List UInt8) : Sink :=
  { k with received := k.received ++ offer.take (k.taken offer) }

/-- Offers bytes until all are taken. -/
def writeAll (k : Sink) : List UInt8 → Except WriteFailure Unit × Sink
  | [] => (.ok (), k)
  | b :: bytes =>
    if k.taken (b :: bytes) = 0 then
      (.error .nothingTaken, k)
    else
      (k.accept (b :: bytes)).writeAll ((b :: bytes).drop (k.taken (b :: bytes)))
termination_by bytes => bytes.length
decreasing_by simp only [List.length_drop, List.length_cons]; omega

/-- The entity for a byte that markup reads as its own. -/
def entityBytes? (b : UInt8) : Option (List UInt8) :=
  (Markup.entity? (Char.ofNat b.toNat)).map Text.encode

/-- The bytes up to the first one that needs escaping. -/
def cleanRun (bytes : List UInt8) : List UInt8 := bytes.takeWhile fun b => (entityBytes? b).isNone

/-- Offers bytes in escaped form until all are taken. -/
def writeEscaped (k : Sink) : List UInt8 → Except WriteFailure Unit × Sink
  | [] => (.ok (), k)
  | b :: bytes =>
    match entityBytes? b with
    | some entity =>
      match k.writeAll entity with
      | (.error e, k) => (.error e, k)
      | (.ok (), k) => k.writeEscaped bytes
    | none =>
      if k.taken (cleanRun (b :: bytes)) = 0 then
        (.error .nothingTaken, k)
      else
        (k.accept (cleanRun (b :: bytes))).writeEscaped
          ((b :: bytes).drop (k.taken (cleanRun (b :: bytes))))
termination_by bytes => bytes.length
decreasing_by
  · simp
  · simp only [List.length_drop, List.length_cons]; omega

/-- Writes one piece of a page. -/
def writePiece (k : Sink) : Piece → Except WriteFailure Unit × Sink
  | .markup s => k.writeAll s.encode
  | .value s => k.writeEscaped s.encode

/-- Writes the pieces of a page in order, up to the first failure. -/
def writePieces (k : Sink) : List Piece → Except WriteFailure Unit × Sink
  | [] => (.ok (), k)
  | piece :: pieces =>
    match k.writePiece piece with
    | (.error e, k) => (.error e, k)
    | (.ok (), k) => k.writePieces pieces

end Sink

end MenuPages
