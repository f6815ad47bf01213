import Runspace.Channel.Receiver
import Runspace.Channel.Writer

/-!
# Connections — messages over one channel

A connection sends and receives messages over a sink and a source, and tells one handler of what
happens. Its two halves run on their own; both may find that the channel has ended, and the
handler is told of the first such finding only.

* `Connection.start`, `Connection.send`;
* `Connection.shutDown`: stops both halves once everything queued is sent, and tells nobody;
* `Connection.release`: stops the writer in the same way and leaves the receiver alone;
* `Connection.turn?`, `Connection.flush`, `Connection.arrive`: what the halves do;
* `Connection.Event`, `Connection.step`: all of this as steps of one machine.
-/

namespace Runspace

/-- A connection and what is known of its handler. -/
structure Connection where
  writer : Writer
  receiver : Receiver
  hasHandler : Bool := true
  /-- Whether the handler is told of no end any more. -/
  isEndSettled : Bool := false
  /-- Whether it has neither been shut down nor released. -/
  isHeld : Bool := true
  /-- Whether its receiver is to stop together with its writer. -/
  isShuttingDown : Bool := false

namespace Connection

/-! ## Calls -/

/-- A connection with the given sizes over a sink, if the fragment size may be chosen. -/
def start (maxFragmentSize maxMessageSize : Nat) (sink : Sink) : Except Fault Connection :=
  match Splitter.new? maxFragmentSize with
  | none => .error (.invalidArgument (.fragmentSize maxFragmentSize))
  | some splitter =>
    .ok {
      writer := { splitter, limit := maxMessageSize, sink }
      receiver := { reassembler := Reassembler.new maxMessageSize } }

/-- Whether messages may still be queued. While the sink is being shut down they may, although
none of them is sent. -/
def isAccepting (c : Connection) : Bool := c.writer.phase ≠ .stopped

/-- Queues a message. -/
def send (c : Connection) (m : Message) : Connection × Except Fault Unit :=
  if c.isAccepting then
    ({ c with writer := { c.writer with queue := c.writer.queue ++ [m] } }, .ok ())
  else (c, .error .channelClosed)

/-- Whether a shutdown was asked for and has come to its end. -/
def hasShutDown (c : Connection) : Bool := c.isShuttingDown && c.writer.phase = .stopped

/-- A connection whose receiver is given up if the shutdown has come to its end. -/
def endShutDown (c : Connection) : Connection :=
  if c.hasShutDown then { c with receiver := c.receiver.abandon } else c

/-- Asks for a shutdown, of whose end nothing is told; without effect on a connection that is not
held any more. -/
def shutDown (c : Connection) : Connection :=
  if c.isHeld then
    { c with
      isHeld := false
      isShuttingDown := true
      isEndSettled := true
      writer := { c.writer with isStopping := true } }.endShutDown
  else c

/-- Lets go of a connection: the writer stops once everything is sent, and the receiver goes on;
without effect on a connection that is not held any more. -/
def release (c : Connection) : Connection :=
  if c.isHeld then
    { c with isHeld := false, writer := { c.writer with isStopping := true } }
  else c

/-- Takes the handler away. -/
def dropHandler (c : Connection) : Connection := { c with hasHandler := false }

/-- Changes how the sink behaves. -/
def conduct (c : Connection) (conduct : SinkConduct) : Connection :=
  { c with writer := { c.writer with sink := { c.writer.sink with conduct } } }

/-! ## Work -/

/-- The notices that reach the handler: none without a handler, and of the ends only the first
while the end is not settled. -/
def tell (c : Connection) : List Notice → Connection × List Notice
  | [] => (c, [])
  | .closed fault :: rest =>
    if c.isEndSettled then c.tell rest
    else
      let (c', heard) := { c with isEndSettled := true }.tell rest
      (c', if c.hasHandler then .closed fault :: heard else heard)
  | notice :: rest =>
    let (c', heard) := c.tell rest
    (c', if c.hasHandler then notice :: heard else heard)

/-- One turn of the writer and what the handler is told, unless the writer has nothing to do. -/
def turn? (c : Connection) : Option (Connection × List Notice) :=
  match c.writer.turn? with
  | none => none
  | some (writer, notices) => some ({ c with writer }.endShutDown.tell notices)

/-- As many turns of the writer as there are, and all that the handler is told. -/
def flush (c : Connection) : Connection × List Notice :=
  let (writer, notices) := c.writer.flush
  { c with writer }.endShutDown.tell notices

/-- What the handler is told of an arrival at the source. -/
def arrive (c : Connection) (a : Arrival) : Connection × List Notice :=
  let (receiver, notices) := c.receiver.arrive c.hasHandler a
  { c with receiver }.tell notices

/-! ## Steps -/

/-- What can happen to a connection. -/
inductive Event where
  | send (m : Message)
  | shutDown
  | release
  | dropHandler
  | conduct (conduct : SinkConduct)
  | turn
  | arrive (a : Arrival)

/-- What an event does to a connection, and what the handler is told. -/
def step (c : Connection) : Event → Connection × List Notice
  | .send m => ((c.send m).1, [])
  | .shutDown => (c.shutDown, [])
  | .release => (c.release, [])
  | .dropHandler => (c.dropHandler, [])
  | .conduct conduct => (c.conduct conduct, [])
  | .turn => (c.turn?).getD (c, [])
  | .arrive a => c.arrive a

end Connection

end Runspace
