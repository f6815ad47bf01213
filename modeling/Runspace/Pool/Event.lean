import Runspace.Pool.Batch
import Runspace.Pool.Inbound
import Runspace.Pool.Lifecycle

/-!
# Events — a pool as one machine

Every call and every piece of news is an event, and a pool is what its events made of it. Any
event may come at any time; one that makes no sense at the moment changes nothing.

* `Pool.Event`, `Pool.step`, `Pool.run`.
-/

namespace Runspace

namespace Pool

/-- What can happen to a pool. -/
inductive Event where
  | beginOpen
  | beginReconnect
  | connected (a : Attempt)
  | connectFailed (a : Attempt) (e : Fault)
  | resume (a : Attempt)
  | beginClose
  | endClose
  | setMaxRunspaces (n : Nat)
  | create (commands : List Command)
  | submit (commands : List Command)
  | submitBatched (chain : Chain)
  | beginInvoke (id : PipelineId)
  | stop (id : PipelineId)
  | dispose (id : PipelineId)
  | takeStream (id : PipelineId) (k : StreamKind)
  | notice (generation : Nat) (n : Notice)
  | lineStopped (generation : Nat)

/-- What an event makes of a pool. -/
def step (p : Pool) : Event → Pool
  | .beginOpen => p.beginOpen.1
  | .beginReconnect => p.beginReconnect.1
  | .connected a => p.connected a
  | .connectFailed a e => p.connectFailed a e
  | .resume a => (p.resume a).1
  | .beginClose => p.beginClose
  | .endClose => p.endClose
  | .setMaxRunspaces n => (p.setMaxRunspaces n).1
  | .create commands => (p.create commands).1
  | .submit commands => (p.submit commands).1
  | .submitBatched chain => (p.submitBatched chain).1
  | .beginInvoke id => (p.beginInvoke id).1
  | .stop id => p.stopPipeline id
  | .dispose id => p.dispose id
  | .takeStream id k => (p.takeStream id k).1
  | .notice generation n => p.notice generation n
  | .lineStopped generation => p.lineStopped generation

/-- What some events make of a pool, one after another. -/
def run (p : Pool) (events : List Event) : Pool := events.foldl step p

end Pool

end Runspace
