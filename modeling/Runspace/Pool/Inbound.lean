import Runspace.Channel.Notice
import Runspace.Pool.Admission

/-!
# Inbound — what the channel's news do to a pool

News carry the generation of their channel, and only those of the current one count.

* `Pool.receive`: a message of the host;
* `Pool.lose`: a message that was lost on its way, in either direction;
* `Pool.lineClosed`: the end of the channel;
* `Pool.notice`, `Pool.lineStopped`: the news by generation.
-/

namespace Runspace

namespace Pool

/-! ## Messages to the pool -/

/-- Why the host ended the pool. -/
def endReason (state : HostPoolState) (reason : Option String) : String :=
  reason.getD (if state = .closed then "host closed the pool" else "host reported the pool broken")

/-- The host has opened the pool. This counts only as its answer. -/
def hostOpened (p : Pool) : Pool :=
  match p.handshake with
  | none => p
  | some a =>
    let line := p.line.map fun l => { l with isReady := true }
    let p := { p with line, state := .opened, handshake := none }
    p.admitQueued.resolve a (.ok ())

/-- The host has ended the pool: this is its answer if one is due, and otherwise the end of all
that runs or waits. -/
def hostEnded (p : Pool) (e : Fault) : Pool :=
  match p.handshake with
  | some a => p.answer a (.error e)
  | none =>
    if p.state = .opened then
      let p := { p with state := .broken }
      (p.failAll e (p.idsWhere fun s => s = .running ∨ s = .queued)).detach
    else p

/-- Takes a message to the pool as a whole. -/
def receivePool (p : Pool) : Payload → Pool
  | .poolState .opened _ => p.hostOpened
  | .poolState state reason => p.hostEnded (.connection (endReason state reason))
  | _ => p

/-! ## Messages to pipelines -/

/-- Takes a message to a pipeline that runs. -/
def receiveRunning (p : Pool) (id : PipelineId) : Payload → Pool
  | .record k v => p.modify id (·.push k v)
  | .pipelineState .completed _ => p.finish id .completed none
  | .pipelineState .failed reason => p.finish id .failed (some (remoteFailure reason))
  | .pipelineState .stopped _ => p.finish id .stopped none
  | _ => p

/-- Takes a message to a pipeline; without effect unless the pipeline runs. -/
def receivePipeline (p : Pool) (id : PipelineId) (payload : Payload) : Pool :=
  match p.registered? id with
  | none => p
  | some c => if c.state = .running then p.receiveRunning id payload else p

/-- Takes a message of the host. -/
def receive (p : Pool) (m : Message) : Pool :=
  match m.target with
  | .pool => p.receivePool m.payload
  | .pipeline id => p.receivePipeline id m.payload

/-! ## Losses -/

/-- A message was lost: this fails the pipeline that it addressed, or the attempt that the host
must answer. -/
def lose (p : Pool) (target : Target) (e : Fault) : Pool :=
  match target with
  | .pool =>
    match p.handshake with
    | some a => p.answer a (.error e.asConnection)
    | none => p
  | .pipeline id =>
    match p.registered? id with
    | none => p
    | some c => if c.state = .running then p.finish id .failed (some e.record) else p

/-- Why the channel has ended, as the failure of a connection. -/
def closeReason : Option Fault → Fault
  | some e => e.asConnection
  | none => .connection "remote host closed the channel"

/-- The channel has ended. An attempt that the host must answer fails and cleans up itself;
otherwise an opened pool is disconnected, all that runs has failed, and all that waits goes on
waiting. -/
def lineClosed (p : Pool) (e : Option Fault) : Pool :=
  match p.handshake with
  | some a => p.answer a (.error (closeReason e))
  | none =>
    if p.state = .opened then
      let p := { p with state := .disconnected }
      (p.failAll (closeReason e) (p.idsWhere fun s => s = .running)).detach
    else p.detach

/-! ## News by generation -/

/-- Takes the news of a channel. -/
def notice (p : Pool) (generation : Nat) (n : Notice) : Pool :=
  if generation = p.generation then
    match n with
    | .message m => p.receive m
    | .framingError target e => p.lose target e
    | .sendFailed target e => p.lose target e
    | .closed e => p.lineClosed e
  else p

/-- A channel accepts no more messages. -/
def lineStopped (p : Pool) (generation : Nat) : Pool :=
  { p with
    line := p.line.map fun l => if l.generation = generation then { l with isAccepting := false }
      else l }

end Pool

end Runspace
