import Runspace.Channel.Sink
import Runspace.Wire.Decoder
import Runspace.Wire.Reassembly
import Runspace.Wire.Split

/-!
# Peers — the far end of a channel

A peer stands for the host: it puts together what a sink has taken, and cuts its own messages into
small fragments.

* `Peer.read`: the messages that have become complete;
* `Peer.say`: the bytes of a message of its own.
-/

namespace Runspace

/-- A message that a peer has received. -/
structure Delivery where
  target : Target
  body : Bytes
  fragments : Nat

/-- The far end of a channel. -/
structure Peer where
  /-- How many writes of the sink it has looked at. -/
  seen : Nat := 0
  decoder : Decoder := Decoder.empty
  reassembler : Reassembler := Reassembler.new 18446744073709551615
  fragments : Nat := 0
  splitter : Splitter := { maxPayload := minFragmentPayload }

namespace Peer

/-- Takes some records and says which messages they complete. -/
def gather (p : Peer) : List Fragment → Peer × List Delivery
  | [] => (p, [])
  | f :: fs =>
    let (outcome, reassembler) := p.reassembler.feed f
    let count := p.fragments + 1
    match outcome with
    | .complete body =>
      let (p, later) := { p with reassembler, fragments := 0 }.gather fs
      (p, ⟨f.target, body, count⟩ :: later)
    | _ => { p with reassembler, fragments := count }.gather fs

/-- Takes what a sink has taken since the peer last looked. -/
def read (p : Peer) (sink : Sink) : Peer × List Delivery :=
  let (fragments, stop) := (p.decoder.extend (sink.writtenSince p.seen)).drain
  { p with seen := sink.writes.length, decoder := stop.rest }.gather fragments

/-- The bytes of the peer's next message. -/
def say (p : Peer) (target : Target) (body : Bytes) : Peer × Bytes :=
  let (fragments, splitter) := p.splitter.push target body
  ({ p with splitter }, fragments.flatMap Fragment.record)

/-- The bytes of the peer's next messages, one string for each. -/
def sayAll (p : Peer) : List (Target × Bytes) → Peer × List Bytes
  | [] => (p, [])
  | (target, body) :: rest =>
    let (p, bytes) := p.say target body
    let (p, later) := p.sayAll rest
    (p, bytes :: later)

end Peer

end Runspace
