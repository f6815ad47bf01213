import Runspace.Pool.Basic

/-!
# Admission — which pipelines run, and which wait

A pipeline runs once a runspace is free and nothing waits ahead of it. When one ends, its runspace
goes to the pipeline that has waited longest.

* `Pool.start`: asks the host to run a pipeline, which takes a runspace;
* `Pool.admitQueued`: starts pipelines from the head of the queue while runspaces are free;
* `Pool.finish`, `Pool.stop`, `Pool.failAll`: the final states;
* `Pool.create`, `Pool.beginInvoke`, `Pool.stopPipeline`, `Pool.dispose`, `Pool.takeStream`: what
  callers ask for.
-/

namespace Runspace

namespace Pool

/-! ## Starting -/

/-- Asks the host to run a pipeline. If that cannot even be queued, the pipeline has failed. -/
def start (p : Pool) (c : Pipeline) : Pool :=
  match p.send? (.toPipeline c.id (.createPipeline c.commands)) with
  | some p' => { p' with running := p.running + 1 }.change c.id (·.enter .running)
  | none =>
    { p with queue := p.queue.filter (· ≠ c.id) }.change c.id
      (·.finish .failed (some Fault.channelClosed.record))

/-- Whether the head of the queue may be started. -/
def mayAdmit (p : Pool) : Bool := p.state = .opened && p.running < p.limit

/-- Takes the head off the queue and starts it, if it still waits. -/
def admitHead (p : Pool) : Pool :=
  match p.queue with
  | [] => p
  | id :: rest =>
    let p := { p with queue := rest }
    match p.registered? id with
    | some c => if c.state = .queued then p.start c else p
    | none => p

/-- Starts at most `n` pipelines from the head of the queue while runspaces are free. -/
def admitUpTo : Nat → Pool → Pool
  | 0, p => p
  | n + 1, p => if p.mayAdmit then admitUpTo n p.admitHead else p

/-- Starts pipelines from the head of the queue while runspaces are free. -/
def admitQueued (p : Pool) : Pool := admitUpTo p.queue.length p

/-! ## Ending -/

/-- Moves a pipeline to a final state, after a last record if there is one, and releases what it
held. One that has ended stays as it is. -/
def finish (p : Pool) (id : PipelineId) (state : PipelineState) (last : Option Value) : Pool :=
  match p.pipeline? id with
  | none => p
  | some c =>
    if c.state.isTerminal then p
    else
      let p := p.change id (·.finish state last)
      match c.state with
      | .running => { p with running := p.running - 1 }.admitQueued
      | .queued => { p with queue := p.queue.filter (· ≠ id) }
      | _ => p

/-- Stops a pipeline; the host is told first if it runs. -/
def stop (p : Pool) (id : PipelineId) : Pool :=
  match p.pipeline? id with
  | some c =>
    let p := if c.state = .running then p.trySend (.toPipeline id .stopPipeline) else p
    p.finish id .stopped none
  | none => p

/-- Stops some pipelines in turn. -/
def stopAll (p : Pool) (ids : List PipelineId) : Pool := ids.foldl stop p

/-- Fails some pipelines in turn. -/
def failAll (p : Pool) (e : Fault) (ids : List PipelineId) : Pool :=
  ids.foldl (fun p id => p.finish id .failed (some e.record)) p

/-- The registered pipelines in states with a property, in the order in which they were made. -/
def idsWhere (p : Pool) (f : PipelineState → Bool) : List PipelineId :=
  (p.pipelines.filter fun c => c.isRegistered && f c.state).map (·.id)

/-! ## Calls -/

/-- Makes a pipeline that is not started. -/
def create (p : Pool) (commands : List Command) : Pool × Except Fault PipelineId :=
  if commands.isEmpty then (p, .error (.invalidArgument .noCommands))
  else if p.state ≠ .opened then (p, .error (.invalidState "create pipeline" p.state.text))
  else
    let next := p.nextId + 1
    match PipelineId.ofRaw? (UInt64.ofNat p.nextId) with
    | none => ({ p with nextId := next }, .error (.invalidArgument .noPipelineIds))
    | some id =>
      ({ p with nextId := next, pipelines := p.pipelines ++ [{ id, commands }] }, .ok id)

/-- Invokes a pipeline without waiting for it: it starts at once if a runspace is free and nothing
waits ahead of it. A second invocation is refused in any state, and so is one of a pipeline that
was never made. -/
def beginInvoke (p : Pool) (id : PipelineId) : Pool × Except Fault Unit :=
  match p.pipeline? id with
  | none => (p, .error (.invalidState "invoke pipeline" "unknown"))
  | some c =>
    if c.isInvoked then (p, .error (.alreadyInvoked id))
    else if p.state ≠ .opened then (p, .error (.invalidState "invoke pipeline" p.state.text))
    else if c.state ≠ .notStarted ∨ ¬ c.isRegistered then
      (p, .error (.invalidState "invoke pipeline" c.state.text))
    else
      let p := p.modify id fun c => { c with isInvoked := true }
      if p.running < p.limit ∧ p.queue = [] then (p.start c, .ok ())
      else ({ p.change id (·.enter .queued) with queue := p.queue ++ [id] }, .ok ())

/-- Makes a pipeline and invokes it. -/
def submit (p : Pool) (commands : List Command) : Pool × Except Fault PipelineId :=
  match p.create commands with
  | (p, .error e) => (p, .error e)
  | (p, .ok id) =>
    match p.beginInvoke id with
    | (p, .error e) => (p, .error e)
    | (p, .ok ()) => (p, .ok id)

/-- Stops a pipeline that was invoked and has not ended; others stay as they are. -/
def stopPipeline (p : Pool) (id : PipelineId) : Pool :=
  match p.pipeline? id with
  | some c => if c.state = .notStarted then p else p.stop id
  | none => p

/-- Stops a pipeline and forgets it. -/
def dispose (p : Pool) (id : PipelineId) : Pool :=
  (p.stop id).modify id fun c => { c with isRegistered := false }

/-- Takes a stream of a pipeline to read it; says whether nobody took it before. -/
def takeStream (p : Pool) (id : PipelineId) (k : StreamKind) : Pool × Bool :=
  match p.pipeline? id with
  | none => (p, false)
  | some c =>
    if k ∈ c.taken then (p, false)
    else (p.modify id fun c => { c with taken := k :: c.taken }, true)

end Pool

end Runspace
