import Runspace.Options
import Runspace.Pool.Pipeline

/-!
# Pools — pipelines that share one channel

A pool keeps its pipelines, counts those that run, and lets the others wait in the order in which
they were invoked. It holds at most one channel at a time, its line. Channels are numbered by
generation, so that late news from a channel that was given up can be told apart.

A pool never waits. What it wants done, and what others may be waiting for, is left in its outbox
in order, and what happens outside is told to it.

* `Line`, `Attempt`, `Progress`: the channel, and the calls that try to get one;
* `Effect`: what the pool wants done, and what it makes known;
* `Pool`, `Pool.new`;
* `Pool.send?`: queues a message on the line;
* `Pool.detach`: gives the line up.
-/

namespace Runspace

/-! ## Channels -/

/-- A channel that a pool holds. -/
structure Line where
  generation : Nat
  /-- Whether the host has answered on it, so that the pool sends over it. -/
  isReady : Bool := false
  isAccepting : Bool := true
deriving DecidableEq

/-- A call that tries to get a channel. -/
inductive Attempt where
  | opening
  | reconnecting
deriving DecidableEq

/-- The name of an attempt in a fault. -/
def Attempt.operation : Attempt → String
  | .opening => "open"
  | .reconnecting => "reconnect"

/-- The state in which a pool can use the channel of an attempt. -/
def Attempt.expected : Attempt → PoolState
  | .opening => .opening
  | .reconnecting => .disconnected

/-- How far an attempt has come. -/
inductive Progress where
  | idle
  | connecting
  | waiting
  | answered (result : Except Fault Unit)

/-- What a pool wants done, and what it makes known. -/
inductive Effect where
  | started (generation : Nat)
  | queued (generation : Nat) (m : Message)
  | released (generation : Nat)
  | entered (id : PipelineId)
  | resolved (a : Attempt)

/-! ## Pools -/

/-- A pool. -/
structure Pool where
  id : PoolId
  options : PoolOptions
  state : PoolState := .beforeOpen
  /-- The generation whose news count. -/
  generation : Nat := 0
  line : Option Line := none
  /-- The attempt that the host must answer. -/
  handshake : Option Attempt := none
  opening : Progress := .idle
  reconnecting : Progress := .idle
  /-- Every pipeline made so far, in order. -/
  pipelines : List Pipeline := []
  /-- The pipelines that wait for a free runspace, oldest first. -/
  queue : List PipelineId := []
  running : Nat := 0
  limit : Nat
  nextId : Nat := 1
  /-- What it wants done and makes known, in order. -/
  outbox : List Effect := []

namespace Pool

/-- A pool that has connected nothing. -/
def new (id : PoolId) (options : PoolOptions) : Pool :=
  { id, options, limit := options.maxRunspaces }

/-- How many more pipelines could run at once. -/
def available (p : Pool) : Nat := if p.state = .opened then p.limit - p.running else 0

/-- The text of a pool for diagnosis. -/
def describe (p : Pool) : String :=
  "RunspacePool \x7b id: PoolId(" ++ p.id.text ++ "), state: " ++ p.state.text ++
    ", running: " ++ toString p.running ++ ", queued: " ++ toString p.queue.length ++
    ", max: " ++ toString p.limit ++ " \x7d"

/-! ## Pipelines -/

/-- The pipeline with a number, whether the pool still knows it or not. -/
def pipeline? (p : Pool) (id : PipelineId) : Option Pipeline := p.pipelines.find? (·.id = id)

/-- The pipeline with a number, if the pool still knows it. -/
def registered? (p : Pool) (id : PipelineId) : Option Pipeline :=
  p.pipelines.find? fun c => c.id = id && c.isRegistered

/-- Changes the pipeline with a number. -/
def modify (p : Pool) (id : PipelineId) (f : Pipeline → Pipeline) : Pool :=
  { p with pipelines := p.pipelines.map fun c => if c.id = id then f c else c }

/-- A pool with one more effect. -/
def emit (p : Pool) (e : Effect) : Pool := { p with outbox := p.outbox ++ [e] }

/-- Changes the state of the pipeline with a number, and makes that known. -/
def change (p : Pool) (id : PipelineId) (f : Pipeline → Pipeline) : Pool :=
  (p.modify id f).emit (.entered id)

/-! ## Channels -/

/-- The line, once the host has answered on it. -/
def readyLine? (p : Pool) : Option Line := p.line.filter (·.isReady)

/-- Queues a message on the line, if the host has answered on it and it accepts messages. -/
def send? (p : Pool) (m : Message) : Option Pool :=
  match p.readyLine? with
  | some l => if l.isAccepting then some (p.emit (.queued l.generation m)) else none
  | none => none

/-- Queues a message on the line if that is possible. -/
def trySend (p : Pool) (m : Message) : Pool := (p.send? m).getD p

/-- How far an attempt has come. -/
def progress (p : Pool) : Attempt → Progress
  | .opening => p.opening
  | .reconnecting => p.reconnecting

/-- Sets how far an attempt has come. -/
def setProgress (p : Pool) (a : Attempt) (s : Progress) : Pool :=
  match a with
  | .opening => { p with opening := s }
  | .reconnecting => { p with reconnecting := s }

/-- Decides an attempt, and makes that known. -/
def resolve (p : Pool) (a : Attempt) (result : Except Fault Unit) : Pool :=
  (p.setProgress a (.answered result)).emit (.resolved a)

/-- Decides the attempt that the host must answer. -/
def answer (p : Pool) (a : Attempt) (result : Except Fault Unit) : Pool :=
  { p.resolve a result with handshake := none }

/-- Gives up the attempt that the host must answer, if there is one. -/
def abandonHandshake (p : Pool) : Pool :=
  match p.handshake with
  | none => p
  | some a => p.answer a (.error (.connection "handshake abandoned"))

/-- Gives the line up: no channel before the next one counts any more, and the line that was held
is shut down. -/
def detach (p : Pool) : Pool :=
  let p' := { p with generation := p.generation + 1, line := none }.abandonHandshake
  match p.line with
  | none => p'
  | some l => p'.emit (.released l.generation)

end Pool

end Runspace
