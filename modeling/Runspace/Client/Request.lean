import Runspace.Client.Call

/-!
# Requests — what a client is asked for

A call that may wait carries a number, under which its outcome is found among the finished ones
once the client has settled. All other requests are answered at once.

* `Client.openPool`, `Client.reconnectPool`, `Client.closePool`, `Client.release`: getting and
  giving up channels;
* `Client.create`, `Client.submit`, `Client.invoke`, `Client.dispose` and others: pipelines;
* `Client.take`, `Client.tryReceive`, `Client.receiveNext`, `Client.drain`: reading streams;
* `Client.sayAll`, `Client.arriveAll`, `Client.conduct`: what happens at a session from outside.
-/

namespace Runspace

namespace Client

/-- A client with one more call that waits until it comes due. -/
def register (c : Client) (number : Nat) (wait : Wait) : Client :=
  { c with calls := c.calls ++ [(number, wait)] }

/-- A client with one more call that is due, since what it waits for may be there. -/
def await (c : Client) (number : Nat) (wait : Wait) : Client :=
  (c.register number wait).schedule (.call number)

/-- A client with one more call that has ended. -/
def finish (c : Client) (number : Nat) (outcome : Outcome) : Client :=
  { c with finished := c.finished ++ [(number, outcome)] }

/-! ## Channels -/

/-- Opens a session over a new channel for an attempt. -/
def openSession (c : Client) (a : Attempt) (conduct : SinkConduct)
    (greeting : List (Target × Bytes)) (arrivals : List Arrival) : Client :=
  match Connection.start c.pool.options.maxFragmentSize c.pool.options.maxMessageSize
      { conduct } with
  | .error e => c.update (c.pool.connectFailed a e)
  | .ok connection =>
    let (peer, bytes) := Peer.sayAll {} greeting
    let session : Session :=
      { connection, peer, arrivals := bytes.map Arrival.bytes ++ arrivals }
    { c with sessions := c.sessions ++ [session] }.update (c.pool.connected a)

/-- Does with an attempt what a plan says. -/
def follow (c : Client) (a : Attempt) : Plan → Client
  | .hold => { c with held := c.held ++ [a] }
  | .refuse e => c.update (c.pool.connectFailed a e)
  | .accept conduct greeting arrivals => c.openSession a conduct greeting arrivals

/-- Asks for a channel. -/
def dial (c : Client) (a : Attempt) : Client :=
  { c with connects := c.connects + 1 }.follow a c.plan

/-- Releases the attempt that has been held longest; says whether there was one. -/
def release (c : Client) (plan : Plan) : Client × Bool :=
  match c.held with
  | [] => (c, false)
  | a :: rest => ({ c with held := rest }.follow a plan, true)

/-- Opens the pool. -/
def openPool (c : Client) (number : Nat) : Client :=
  match c.pool.beginOpen with
  | (pool, .ok ()) => ((c.update pool).register number (.attempt .opening)).dial .opening
  | (pool, .error e) => (c.update pool).finish number (.done (.error e))

/-- Attaches to the pool again. -/
def reconnectPool (c : Client) (number : Nat) : Client :=
  match c.pool.beginReconnect with
  | (pool, .ok ()) =>
    ((c.update pool).register number (.attempt .reconnecting)).dial .reconnecting
  | (pool, .error e) => (c.update pool).finish number (.done (.error e))

/-- Closes the pool; the call waits for the shutdown of the line if there was one. -/
def closePool (c : Client) (number : Nat) : Client :=
  let c' := c.update c.pool.beginClose
  match c.pool.line with
  | some l => c'.await number (.close l.generation)
  | none => c'.finish number (.done (.ok ()))

/-- Changes the limit on the pipelines that run. -/
def setMaxRunspaces (c : Client) (n : Nat) : Client × Except Fault Unit :=
  let (pool, result) := c.pool.setMaxRunspaces n
  (c.update pool, result)

/-- Lets go of the pool itself. -/
def dropPool (c : Client) : Client := { c with holdsPool := false }

/-! ## Pipelines -/

/-- A client that holds a pipeline. -/
def hold (c : Client) (id : PipelineId) : Client :=
  { c with holdsPipelines := c.holdsPipelines ++ [id] }

/-- Lets go of a pipeline. -/
def dropPipeline (c : Client) (id : PipelineId) : Client :=
  { c with holdsPipelines := c.holdsPipelines.filter (· ≠ id) }

/-- Makes a pipeline and holds it. -/
def create (c : Client) (commands : List Command) : Client × Except Fault PipelineId :=
  match c.pool.create commands with
  | (pool, .ok id) => ((c.update pool).hold id, .ok id)
  | (pool, .error e) => (c.update pool, .error e)

/-- Makes a pipeline, invokes it and holds it. -/
def submit (c : Client) (commands : List Command) : Client × Except Fault PipelineId :=
  match c.pool.submit commands with
  | (pool, .ok id) => ((c.update pool).hold id, .ok id)
  | (pool, .error e) => (c.update pool, .error e)

/-- Submits a chain, and holds the pipeline if one was made of it. -/
def submitBatched (c : Client) (chain : Chain) : Client × Except Fault (Option PipelineId) :=
  match c.pool.submitBatched chain with
  | (pool, .ok (some id)) => ((c.update pool).hold id, .ok (some id))
  | (pool, result) => (c.update pool, result)

/-- Invokes a pipeline. -/
def beginInvoke (c : Client) (id : PipelineId) : Client × Except Fault Unit :=
  let (pool, result) := c.pool.beginInvoke id
  (c.update pool, result)

/-- Invokes a pipeline and waits for its end. -/
def invoke (c : Client) (number : Nat) (id : PipelineId) : Client :=
  match c.beginInvoke id with
  | (c, .ok ()) => c.await number (.ended id)
  | (c, .error e) => c.finish number (.done (.error e))

/-- Stops a pipeline that was invoked. -/
def stop (c : Client) (id : PipelineId) : Client := c.update (c.pool.stopPipeline id)

/-- Whether a call waits for a pipeline. -/
def isBusy (c : Client) (id : PipelineId) : Bool := c.calls.any fun call => call.2.concerns id

/-- Disposes of a pipeline and lets go of it. -/
def dispose (c : Client) (id : PipelineId) : Client :=
  (c.update (c.pool.dispose id)).dropPipeline id

/-! ## Streams -/

/-- Takes a stream of a pipeline to read it; says whether nobody took it before. -/
def take (c : Client) (id : PipelineId) (k : StreamKind) : Client × Bool :=
  let (pool, isFirst) := c.pool.takeStream id k
  let c := c.update pool
  (if isFirst then { c with readers := c.readers ++ [{ id, kind := k }] } else c, isFirst)

/-- Whether there is a reader of a stream that no call uses. -/
def canRead (c : Client) (id : PipelineId) (k : StreamKind) : Bool :=
  (c.reader? id k).any fun r => ! r.isAway

/-- Reads all records that are there. -/
def tryReceive (c : Client) (id : PipelineId) (k : StreamKind) : Client × List Value :=
  let all := c.streamOf id k
  (c.modifyReader id k fun r => { r with position := all.length }, all.drop (c.position id k))

/-- Waits for the next record. -/
def receiveNext (c : Client) (number : Nat) (id : PipelineId) (k : StreamKind) : Client :=
  (c.modifyReader id k fun r => { r with isAway := true }).register number (.next id k)

/-- Waits for all records that are left, and drops the reader. -/
def drain (c : Client) (number : Nat) (id : PipelineId) (k : StreamKind) : Client :=
  (c.modifyReader id k fun r => { r with isAway := true }).register number (.rest id k)

/-! ## Sessions -/

/-- Things arrive at the source of a session. -/
def arriveAll (c : Client) (i : Nat) (arrivals : List Arrival) : Client :=
  (c.modifySession i fun s => { s with arrivals := s.arrivals ++ arrivals }).schedule (.receive i)

/-- The far end of a session says some messages. -/
def sayAll (c : Client) (i : Nat) (messages : List (Target × Bytes)) : Client :=
  (c.modifySession i fun s =>
    let (peer, bytes) := s.peer.sayAll messages
    { s with peer, arrivals := s.arrivals ++ bytes.map Arrival.bytes }).schedule (.receive i)

/-- Changes how the sink of a session behaves. -/
def conduct (c : Client) (i : Nat) (f : SinkConduct → SinkConduct) : Client :=
  (c.modifySession i fun s =>
    { s with connection := s.connection.conduct (f s.connection.writer.sink.conduct) }).schedule
      (.write i)

/-- How often the shutdown of a sink has begun. -/
def closes (c : Client) : Nat := c.sessions.foldl (fun n s => n + s.connection.writer.sink.closes) 0

/-- What the far ends have received since they last looked, session by session. -/
def deliveries (c : Client) : Client × List (List Delivery) :=
  let read := c.sessions.map fun s =>
    let (peer, received) := s.peer.read s.connection.writer.sink
    ({ s with peer }, received)
  ({ c with sessions := read.map (·.1) }, read.map (·.2))

end Client

end Runspace
