import Runspace.Client.Basic

/-!
# Calls — how waiting ends

A call ends, or comes to wait for something else, once what it waits for is there. A pool that
nobody holds and no call needs is dropped at once: its channel is let go, and the streams of its
pipelines end.

* `Client.advance`: one call that may go on;
* `Client.settle`: lets everything happen that can, turn by turn.
-/

namespace Runspace

namespace Client

/-! ## Streams -/

/-- The records of a stream so far. -/
def streamOf (c : Client) (id : PipelineId) (k : StreamKind) : List Value :=
  ((c.pool.pipeline? id).map (·.stream k)).getD []

/-- Whether a pipeline's streams have ended. -/
def hasEnded (c : Client) (id : PipelineId) : Bool :=
  c.isDropped || (c.pool.pipeline? id).all Pipeline.hasEnded

/-- The reader of a stream. -/
def reader? (c : Client) (id : PipelineId) (k : StreamKind) : Option Reader :=
  c.readers.find? fun r => r.id = id && r.kind = k

/-- Changes the reader of a stream. -/
def modifyReader (c : Client) (id : PipelineId) (k : StreamKind) (f : Reader → Reader) : Client :=
  { c with readers := c.readers.map fun r => if r.id = id ∧ r.kind = k then f r else r }

/-- Removes the reader of a stream. -/
def dropReader (c : Client) (id : PipelineId) (k : StreamKind) : Client :=
  { c with readers := c.readers.filter fun r => r.id ≠ id || r.kind ≠ k }

/-! ## Calls -/

/-- How many records a reader has read. -/
def position (c : Client) (id : PipelineId) (k : StreamKind) : Nat :=
  ((c.reader? id k).map (·.position)).getD 0

/-- What becomes of a call: it waits, perhaps for something else than before, or it ends. -/
def advance (c : Client) : Wait → Client × (Wait ⊕ Outcome)
  | .attempt a =>
    let line := c.pool.line
    match c.pool.resume a with
    | (pool, some (.ok ())) => (c.update pool, .inr (.done (.ok ())))
    | (pool, some (.error e)) =>
      match line with
      | some l => (c.update pool, .inl (.cleanUp l.generation e))
      | none => (c.update pool, .inr (.done (.error e)))
    | (_, none) => (c, .inl (.attempt a))
  | .cleanUp generation e =>
    if c.hasShutDown generation then (c, .inr (.done (.error e)))
    else (c, .inl (.cleanUp generation e))
  | .close generation =>
    if c.hasShutDown generation then (c.update c.pool.endClose, .inr (.done (.ok ())))
    else (c, .inl (.close generation))
  | .ended id =>
    match c.pool.pipeline? id with
    | some p => if p.state.isTerminal then (c, .inr (.state p.state)) else (c, .inl (.ended id))
    | none => (c, .inl (.ended id))
  | .admitted id =>
    match c.pool.pipeline? id with
    | some p => if p.state ≠ .queued then (c, .inr (.state p.state)) else (c, .inl (.admitted id))
    | none => (c, .inl (.admitted id))
  | .next id k =>
    let n := c.position id k
    match (c.streamOf id k)[n]? with
    | some v =>
      (c.modifyReader id k fun r => { r with position := n + 1, isAway := false },
        .inr (.record (some v)))
    | none =>
      if c.hasEnded id then
        (c.modifyReader id k fun r => { r with isAway := false }, .inr (.record none))
      else (c, .inl (.next id k))
  | .rest id k =>
    if c.hasEnded id then
      (c.dropReader id k, .inr (.records ((c.streamOf id k).drop (c.position id k))))
    else (c, .inl (.rest id k))

/-- Lets a call go on. One that comes to wait for something else is due again, since that may be
there already. -/
def proceed (c : Client) (number : Nat) (wait : Wait) : Client :=
  match c.advance wait with
  | (c, .inl wait') =>
    let c := { c with calls := c.calls.map fun call =>
      if call.1 = number then (number, wait') else call }
    if wait' = wait then c else c.schedule (.call number)
  | (c, .inr outcome) =>
    { c with
      calls := c.calls.filter (·.1 ≠ number)
      finished := c.finished ++ [(number, outcome)] }

/-- Lets the call with a number go on, if it still waits. -/
def proceedCall (c : Client) (number : Nat) : Client :=
  match c.calls.find? (·.1 = number) with
  | some (_, wait) => c.proceed number wait
  | none => c

/-- Lets all calls go on that only read. -/
def proceedReaders (c : Client) : Client :=
  (c.calls.filter (·.2.isReading)).foldl (fun c call => c.proceed call.1 call.2) c

/-! ## Holding the pool -/

/-- Whether somebody holds the pool or any part of it. -/
def isHeld (c : Client) : Bool :=
  c.holdsPool || ! c.holdsPipelines.isEmpty || c.calls.any fun call => ! call.2.isReading

/-- Drops the pool if nobody holds any part of it. -/
def dropUnheld (c : Client) : Client :=
  if c.isHeld || c.isDropped then c
  else
    let c := { c with isDropped := true }
    match c.pool.line with
    | none => c
    | some l =>
      (c.modifyConnection l.generation fun k => k.dropHandler.release).scheduleWriter l.generation

/-! ## Settling -/

/-- Gives something its turn. -/
def giveTurn (c : Client) : Turn → Client
  | .write i => c.writeAll i
  | .receive i => c.receiveAll i
  | .call number => c.proceedCall number

/-- At most `n` turns. -/
def turns : Nat → Client → Client
  | 0, c => c
  | n + 1, c =>
    match c.due with
    | [] => c
    | t :: rest => turns n ({ c with due := rest }.giveTurn t).dropUnheld

/-- How many turns there can be: what is due, one for each message that the pool could still
queue, two for the shutdown of its channel, and five for each call, for which a pipeline changes
its state at most twice, an attempt is decided once, a channel is shut down once, and what it
waits for changes once. -/
def turnBound (c : Client) : Nat :=
  c.due.length + c.pool.queue.length + 2 + 5 * c.calls.length

/-- Lets everything happen that can. Calls that only read come last, since nothing depends on
them. -/
def settle (c : Client) : Client :=
  let c := c.dropUnheld
  (turns c.turnBound c).proceedReaders

end Client

end Runspace
