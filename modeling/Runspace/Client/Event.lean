import Runspace.Client.Request

/-!
# Client events — a client as one machine

Every request, whatever happens at a session from outside, and every turn is an event. Any of them
may come at any time: the halves of the sessions and the calls may take their turns in any order and
as often as they like, one message or arrival at a time, and settling is but one such order.

What a half tells its pool belongs to the turn in which it is told. A half that finds the end of the
channel has told it before anything else happens, so the pool never waits for news that its
connection has already passed on.

* `Client.Event`, `Client.step`, `Client.run`.
-/

namespace Runspace

namespace Client

/-- What can happen to a client. -/
inductive Event where
  -- getting and giving up channels
  | plan (plan : Plan)
  | release (plan : Plan)
  | openPool (number : Nat)
  | reconnectPool (number : Nat)
  | closePool (number : Nat)
  | dropPool
  -- pipelines
  | setMaxRunspaces (n : Nat)
  | create (commands : List Command)
  | submit (commands : List Command)
  | submitBatched (chain : Chain)
  | beginInvoke (id : PipelineId)
  | invoke (number : Nat) (id : PipelineId)
  | await (number : Nat) (wait : Wait)
  | stop (id : PipelineId)
  | dispose (id : PipelineId)
  | dropPipeline (id : PipelineId)
  -- streams
  | take (id : PipelineId) (k : StreamKind)
  | tryReceive (id : PipelineId) (k : StreamKind)
  | receiveNext (number : Nat) (id : PipelineId) (k : StreamKind)
  | drain (number : Nat) (id : PipelineId) (k : StreamKind)
  | dropReader (id : PipelineId) (k : StreamKind)
  -- what happens at a session from outside
  | arriveAll (i : Nat) (arrivals : List Arrival)
  | sayAll (i : Nat) (messages : List (Target × Bytes))
  | conduct (i : Nat) (f : SinkConduct → SinkConduct)
  | deliveries
  -- one message of a writer, one arrival at a receiver, one call
  | write (i : Nat)
  | receive (i : Nat) (a : Arrival)
  | proceed (number : Nat)
  -- all that is due
  | turn (t : Turn)
  | dropUnheld
  | settle

/-- What an event makes of a client. -/
def step (c : Client) : Event → Client
  | .plan plan => { c with plan }
  | .release plan => (c.release plan).1
  | .openPool number => c.openPool number
  | .reconnectPool number => c.reconnectPool number
  | .closePool number => c.closePool number
  | .dropPool => c.dropPool
  | .setMaxRunspaces n => (c.setMaxRunspaces n).1
  | .create commands => (c.create commands).1
  | .submit commands => (c.submit commands).1
  | .submitBatched chain => (c.submitBatched chain).1
  | .beginInvoke id => (c.beginInvoke id).1
  | .invoke number id => c.invoke number id
  | .await number wait => c.await number wait
  | .stop id => c.stop id
  | .dispose id => c.dispose id
  | .dropPipeline id => c.dropPipeline id
  | .take id k => (c.take id k).1
  | .tryReceive id k => (c.tryReceive id k).1
  | .receiveNext number id k => c.receiveNext number id k
  | .drain number id k => c.drain number id k
  | .dropReader id k => c.dropReader id k
  | .arriveAll i arrivals => c.arriveAll i arrivals
  | .sayAll i messages => c.sayAll i messages
  | .conduct i f => c.conduct i f
  | .deliveries => c.deliveries.1
  | .write i => write i 1 c
  | .receive i a => receive i [a] c
  | .proceed number => c.proceedCall number
  | .turn t => c.giveTurn t
  | .dropUnheld => c.dropUnheld
  | .settle => c.settle

/-- What some events make of a client, one after another. -/
def run (c : Client) (events : List Event) : Client := events.foldl step c

end Client

end Runspace
