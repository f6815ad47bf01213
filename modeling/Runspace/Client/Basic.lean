import Runspace.Channel.Connection
import Runspace.Client.Peer
import Runspace.Pool.Event

/-!
# Clients — a pool at work

A client carries out what a pool wants done, and tells the pool what its channels say. It holds
the sessions, one for each channel that was opened, the calls that wait for something, and the
readers of streams. A plan says what becomes of an attempt to open a channel.

The halves of the sessions and the calls take turns: whatever has something to do comes due, once,
and all that is due takes its turn in the order in which it came due.

* `Session`, `Plan`: channels and how they come about;
* `Wait`, `Outcome`: what a call waits for, and how it ends;
* `Client.update`: carries out what the pool wants done, by which others may come due;
* `Client.writeAll`, `Client.receiveAll`: the turns of a session's two halves.
-/

namespace Runspace

/-! ## Sessions -/

/-- A channel that was opened. -/
structure Session where
  generation : Option Nat := none
  connection : Connection
  peer : Peer := {}
  arrivals : List Arrival := []

/-- What becomes of an attempt to open a channel. -/
inductive Plan where
  | hold
  | refuse (fault : Fault)
  | accept (conduct : SinkConduct) (greeting : List (Target × Bytes)) (arrivals : List Arrival)

/-! ## Calls -/

/-- What a call waits for. -/
inductive Wait where
  | attempt (a : Attempt)
  | cleanUp (generation : Nat) (fault : Fault)
  | close (generation : Nat)
  | ended (id : PipelineId)
  | admitted (id : PipelineId)
  | next (id : PipelineId) (k : StreamKind)
  | rest (id : PipelineId) (k : StreamKind)
deriving DecidableEq

/-- How a call ended. -/
inductive Outcome where
  | done (result : Except Fault Unit)
  | state (s : PipelineState)
  | record (v : Option Value)
  | records (vs : List Value)

/-- Whether a call only reads a stream, for which it does not need the pool. -/
def Wait.isReading : Wait → Bool
  | .next _ _ | .rest _ _ => true
  | _ => false

/-- Whether a call waits for the state of a pipeline. -/
def Wait.concerns (id : PipelineId) (w : Wait) : Bool := w = .ended id || w = .admitted id

/-- Whether a call waits for the shutdown of the channel of a generation. -/
def Wait.needsShutDown (generation : Nat) : Wait → Bool
  | .cleanUp n _ | .close n => n = generation
  | _ => false

/-- What takes turns. -/
inductive Turn where
  | write (i : Nat)
  | receive (i : Nat)
  | call (number : Nat)
deriving DecidableEq

/-- A reader of a stream. -/
structure Reader where
  id : PipelineId
  kind : StreamKind
  position : Nat := 0
  isAway : Bool := false

/-! ## Clients -/

/-- A pool with its channels, callers and readers. -/
structure Client where
  pool : Pool
  plan : Plan
  sessions : List Session := []
  /-- The attempts that are held, oldest first. -/
  held : List Attempt := []
  connects : Nat := 0
  calls : List (Nat × Wait) := []
  due : List Turn := []
  /-- The calls that ended since somebody looked. -/
  finished : List (Nat × Outcome) := []
  readers : List Reader := []
  holdsPool : Bool := true
  holdsPipelines : List PipelineId := []
  isDropped : Bool := false

namespace Client

/-- A client with a pool that has connected nothing. -/
def new (id : PoolId) (options : PoolOptions) (plan : Plan) : Client :=
  { pool := .new id options, plan }

/-! ## Sessions by index and by generation -/

/-- Changes the session with an index. -/
def modifySession (c : Client) (i : Nat) (f : Session → Session) : Client :=
  { c with sessions := c.sessions.modify i f }

/-- Changes the connection of a generation. -/
def modifyConnection (c : Client) (generation : Nat) (f : Connection → Connection) : Client :=
  { c with
    sessions := c.sessions.map fun s =>
      if s.generation = some generation then { s with connection := f s.connection } else s }

/-- Whether the connection of a generation has been shut down. -/
def hasShutDown (c : Client) (generation : Nat) : Bool :=
  c.sessions.any fun s => s.generation = some generation && s.connection.hasShutDown

/-! ## What is due -/

/-- Lets something come due, unless it is due already. -/
def schedule (c : Client) (t : Turn) : Client :=
  if t ∈ c.due then c else { c with due := c.due ++ [t] }

/-- Lets the writer of a generation come due. -/
def scheduleWriter (c : Client) (generation : Nat) : Client :=
  match c.sessions.findIdx? fun s => s.generation = some generation with
  | some i => c.schedule (.write i)
  | none => c

/-- Lets the calls come due that wait for something. -/
def scheduleCalls (c : Client) (f : Wait → Bool) : Client :=
  ((c.calls.filter fun call => f call.2).map fun call => Turn.call call.1).foldl schedule c

/-! ## What the pool wants done -/

/-- Carries out one thing that the pool wants done. The line with a new generation is the latest
session. -/
def perform (c : Client) : Effect → Client
  | .started generation =>
    let i := c.sessions.length - 1
    let c := c.modifySession i fun s => { s with generation := some generation }
    (c.schedule (.write i)).schedule (.receive i)
  | .queued generation m =>
    (c.modifyConnection generation fun k => (k.send m).1).scheduleWriter generation
  | .released generation =>
    (c.modifyConnection generation Connection.shutDown).scheduleWriter generation
  | .entered id => c.scheduleCalls (Wait.concerns id)
  | .resolved a => c.scheduleCalls fun w => w = .attempt a

/-- Sets the pool and carries out all that it wants done. -/
def update (c : Client) (pool : Pool) : Client :=
  pool.outbox.foldl perform { c with pool := { pool with outbox := [] } }

/-- Tells the pool what a channel says. -/
def hear (c : Client) (generation : Nat) (notices : List Notice) : Client :=
  c.update (notices.foldl (fun p n => p.notice generation n) c.pool)

/-! ## The halves of a session -/

/-- At most `n` steps of a session's writer, each with all that follows from it. -/
def write (i : Nat) : Nat → Client → Client
  | 0, c => c
  | n + 1, c =>
    match c.sessions[i]? with
    | none => c
    | some s =>
      match s.generation, s.connection.turn? with
      | some generation, some (connection, notices) =>
        let c := (c.modifySession i fun s => { s with connection }).hear generation notices
        write i n (if connection.isAccepting then c else c.update (c.pool.lineStopped generation))
      | _, _ => c

/-- As much as a session's writer can do: one message after another, among them those that the
pool queues meanwhile, and two steps of the shutdown. Calls that wait for its end come due. -/
def writeAll (c : Client) (i : Nat) : Client :=
  match c.sessions[i]? with
  | none => c
  | some s =>
    let c := write i (s.connection.writer.queue.length + c.pool.queue.length + 2) c
    match s.generation with
    | none => c
    | some generation =>
      if c.hasShutDown generation then c.scheduleCalls (Wait.needsShutDown generation) else c

/-- Takes some of what has arrived at a session's source, each with all that follows from it. -/
def receive (i : Nat) : List Arrival → Client → Client
  | [], c => c
  | a :: rest, c =>
    match c.sessions[i]? with
    | none => c
    | some s =>
      match s.generation with
      | none => c
      | some generation =>
        let (connection, notices) := s.connection.arrive a
        receive i rest ((c.modifySession i fun s => { s with connection }).hear generation notices)

/-- Takes all that has arrived at a session's source. -/
def receiveAll (c : Client) (i : Nat) : Client :=
  match c.sessions[i]? with
  | none => c
  | some s => receive i s.arrivals (c.modifySession i fun s => { s with arrivals := [] })

end Client

end Runspace
