import PropertyGraph.Encode

/-!
# Writing to a sink

A sink takes bytes a few at a time.  What is written is offered until everything is taken; then the
sink is flushed. A sink that takes nothing when something is offered, or that fails, ends the writing;
a call that is interrupted takes nothing and is made again, so it does not count as a reply.
-/

namespace PropertyGraph

/-- What a sink does with an offer: it takes some of the bytes, or it fails for a reason. -/
inductive Reply where
  | taken (bytes : Nat)
  | failed (reason : String)
deriving DecidableEq

/-- A sink: how it answers an offer of a number of bytes after it has taken some, and how it answers a
flush. -/
structure Sink where
  write : (received offered : Nat) → Reply
  flush : Option String

namespace Sink

/-- The reason for a failure when a sink takes nothing. -/
def nothingTaken : String := "failed to write whole buffer"

/-- Offers bytes until all of them are taken, and gives what was received; `room` bounds the number of
offers. -/
def offer (sink : Sink) : Nat → List UInt8 → List UInt8 → Except String Unit × List UInt8
  | 0, received, _ => (.error nothingTaken, received)
  | _, received, [] => (.ok (), received)
  | room + 1, received, rest =>
    match sink.write received.length rest.length with
    | .failed reason => (.error reason, received)
    | .taken 0 => (.error nothingTaken, received)
    | .taken n => offer sink room (received ++ rest.take n) (rest.drop n)

/-- Offers all bytes and flushes the sink. -/
def writeAll (sink : Sink) (bytes : List UInt8) : Except String Unit × List UInt8 :=
  match sink.offer (bytes.length + 1) [] bytes with
  | (.ok _, received) =>
    match sink.flush with
    | none => (.ok (), received)
    | some reason => (.error reason, received)
  | failure => failure

end Sink

/-- Writes the text of a value to a sink.  If the value cannot be written the sink gets nothing. -/
def Registry.toSink {α : Type} [Encode α] (r : Registry) (x : α) (sink : Sink) :
    Except EncodeError Unit × List UInt8 :=
  match r.toText x with
  | .error e => (.error e, [])
  | .ok text =>
    match sink.writeAll text.toUTF8.data.toList with
    | (.ok _, received) => (.ok (), received)
    | (.error reason, received) => (.error (.io reason), received)

end PropertyGraph
