import Runspace.Channel.Notice
import Runspace.Channel.Source
import Runspace.Wire.Decoder

/-!
# Receivers — the receiving half of a connection

A receiver takes chunks of bytes off its source, records off the bytes, messages off the records,
and tells of each message that arrives or is lost. A corrupt record ends it, and so does the end
of its source.

* `Receiver.takeChunk`, `Receiver.takeChunks`: what chunks bring;
* `Receiver.takeEnd`: what the end of the source brings;
* `Receiver.arrive`: what an arrival at the source brings.
-/

namespace Runspace

/-! ## Fragments -/

/-- What a fragment brings: nothing yet, a message, or the news of a lost one. -/
def Reassembler.notices (r : Reassembler) (f : Fragment) : Reassembler × List Notice :=
  match r.feed f with
  | (.incomplete, r) => (r, [])
  | (.complete body, r) =>
    match Message.decode f.target body with
    | .ok m => (r, [.message m])
    | .error fault => (r, [.framingError f.target (.malformed fault)])
  | (.lost fault, r) => (r, [.framingError fault.target fault.toFault])

/-- What some fragments bring, in order. -/
def Reassembler.allNotices (r : Reassembler) : List Fragment → Reassembler × List Notice
  | [] => (r, [])
  | f :: fs =>
    let (r, now) := r.notices f
    let (r, later) := r.allNotices fs
    (r, now ++ later)

/-! ## Receivers -/

/-- The receiving half of a connection. -/
structure Receiver where
  source : Source := {}
  decoder : Decoder := Decoder.empty
  reassembler : Reassembler
  isReceiving : Bool := true

namespace Receiver

/-- A receiver that takes no more chunks. -/
def stop (r : Receiver) : Receiver :=
  { r with isReceiving := false, source := { r.source with hasTaker := false } }

/-- A receiver whose source is given up as well. -/
def abandon (r : Receiver) : Receiver :=
  { r.stop with source := { ended := some .lost, hasTaker := false } }

/-- What a chunk brings. When nobody listens, the first record ends the receiver. -/
def takeChunk (r : Receiver) (isHeard : Bool) (chunk : Bytes) : Receiver × List Notice :=
  if r.isReceiving then
    let (fragments, stopped) := (r.decoder.extend chunk).drain
    if isHeard || fragments.isEmpty then
      let (reassembler, notices) := r.reassembler.allNotices fragments
      match stopped with
      | .incomplete decoder => ({ r with decoder, reassembler }, notices)
      | .corrupt fault decoder =>
        ({ r with decoder, reassembler }.stop,
          notices ++ [.closed (some (.transport (.corrupt fault)))])
    else (r.stop, [])
  else (r, [])

/-- What some chunks bring, in order. -/
def takeChunks (r : Receiver) (isHeard : Bool) : List Bytes → Receiver × List Notice
  | [] => (r, [])
  | chunk :: rest =>
    let (r, now) := r.takeChunk isHeard chunk
    let (r, later) := r.takeChunks isHeard rest
    (r, now ++ later)

/-- Why the channel has ended, once its source has: a failed source counts before a lost one, and
both before bytes that are no record. -/
def endFault? (r : Receiver) : ReadEnd → Option Fault
  | .failed fault => some (.transport fault)
  | .lost => some .channelClosed
  | .finished =>
    if r.decoder.buffered = 0 then none else some (.transport (.truncated r.decoder.buffered))

/-- What the end of the source brings. -/
def takeEnd (r : Receiver) (readEnd : ReadEnd) : Receiver × List Notice :=
  if r.isReceiving then (r.stop, [.closed (r.endFault? readEnd)]) else (r, [])

/-- What an arrival at the source brings. -/
def arrive (r : Receiver) (isHeard : Bool) (a : Arrival) : Receiver × List Notice :=
  match r.source.ended with
  | some _ => (r, [])
  | none =>
    let (chunks, source) := r.source.take a
    match source.ended with
    | none => { r with source }.takeChunks isHeard chunks
    | some readEnd => { r with source }.takeEnd readEnd

end Receiver

end Runspace
