import Runspace.Pool.Admission

/-!
# The life of a pool — opening, attaching again, closing

A call that gets a channel goes through four moments, between which anything may happen: it
begins; its channel is open, or could not be opened; it is decided, in most cases by the host; and
its caller resumes, which cleans up if it failed.

* `Pool.beginOpen`, `Pool.beginReconnect`, `Pool.connected`, `Pool.connectFailed`, `Pool.resume`;
* `Pool.beginClose`, `Pool.endClose`;
* `Pool.setMaxRunspaces`: the limit on the pipelines that run.
-/

namespace Runspace

namespace Pool

/-! ## Getting a channel -/

/-- Begins to open a pool; its caller must open a channel next. -/
def beginOpen (p : Pool) : Pool × Except Fault Unit :=
  match p.options.validate.bind fun () => p.options.wireBounds with
  | .error e => (p, .error e)
  | .ok _ =>
    if p.state ≠ .beforeOpen then (p, .error (.invalidState "open" p.state.text))
    else ({ p with state := .opening, opening := .connecting }, .ok ())

/-- Whether an attempt to attach again is under way. -/
def isReconnecting (p : Pool) : Bool :=
  match p.reconnecting with
  | .idle => false
  | _ => true

/-- Begins to attach to a pool again; its caller must open a channel next. -/
def beginReconnect (p : Pool) : Pool × Except Fault Unit :=
  if p.state ≠ .disconnected then (p, .error (.invalidState "reconnect" p.state.text))
  else if p.isReconnecting then (p, .error (.invalidState "reconnect" "reconnecting"))
  else ({ p with reconnecting := .connecting }, .ok ())

/-- How the host is greeted. -/
def hello (p : Pool) : Attempt → Payload
  | .opening =>
    .initPool p.id (UInt32.ofNat p.options.minRunspaces) (UInt32.ofNat p.options.maxRunspaces)
  | .reconnecting => .connectPool p.id

/-- The channel of an attempt is open: it becomes the line and the host is greeted, unless the
pool is in another state by now. -/
def connected (p : Pool) (a : Attempt) : Pool :=
  match p.progress a with
  | .connecting =>
    if p.state ≠ a.expected then
      p.resolve a (.error (.invalidState a.operation p.state.text))
    else
      let generation := p.generation + 1
      let p := { p.setProgress a .waiting with
        generation
        line := some { generation }
        handshake := some a }
      (p.emit (.started generation)).emit (.queued generation (.toPool (p.hello a)))
  | _ => p

/-- The channel of an attempt could not be opened. -/
def connectFailed (p : Pool) (a : Attempt) (e : Fault) : Pool :=
  match p.progress a with
  | .connecting => p.resolve a (.error e.asConnection)
  | _ => p

/-- Cleans up after an attempt that failed. -/
def giveUp (p : Pool) (a : Attempt) : Pool :=
  let p := p.setProgress a .idle
  match a with
  | .opening => (if p.state = .opening then { p with state := .broken } else p).detach
  | .reconnecting => p.detach

/-- The caller of an attempt resumes and learns how it was decided, if it was. -/
def resume (p : Pool) (a : Attempt) : Pool × Option (Except Fault Unit) :=
  match p.progress a with
  | .answered (.ok ()) => (p.setProgress a .idle, some (.ok ()))
  | .answered (.error e) => (p.giveUp a, some (.error e))
  | _ => (p, none)

/-! ## Closing -/

/-- Fails the attempt that the host must answer because the pool is being closed. -/
def refuseHandshake (p : Pool) : Pool :=
  match p.handshake with
  | none => p
  | some a => p.answer a (.error (.connection "pool closed during handshake"))

/-- Begins to close a pool: everything is stopped, the host is told, and the line is given up. An
opened pool is closed only when its line has been shut down. -/
def beginClose (p : Pool) : Pool :=
  match p.state with
  | .closing | .closed | .broken => p
  | .beforeOpen => { p with state := .closed }
  | .opening | .opened | .disconnected =>
    let next : PoolState := if p.state = .opened then .closing else .closed
    let p := { p with state := next }.refuseHandshake
    let p := p.stopAll (p.idsWhere fun s => ¬ s.isTerminal)
    (p.trySend (.toPool .closePool)).detach

/-- The line of a pool that is being closed has been shut down. -/
def endClose (p : Pool) : Pool := if p.state = .closing then { p with state := .closed } else p

/-! ## The limit -/

/-- Changes how many pipelines may run, and tells the host if there is one. -/
def setMaxRunspaces (p : Pool) (n : Nat) : Pool × Except Fault Unit :=
  match wireCount n with
  | .error e => (p, .error e)
  | .ok count =>
    if n < p.options.minRunspaces then
      (p, .error (.invalidArgument (.maxBelowMin n p.options.minRunspaces)))
    else
      match p.state with
      | .beforeOpen | .disconnected => ({ p with limit := n }.admitQueued, .ok ())
      | .opened =>
        if p.readyLine?.isNone then ({ p with limit := n }.admitQueued, .ok ())
        else
          match p.send? (.toPool (.setMaxRunspaces count)) with
          | some p => ({ p with limit := n }.admitQueued, .ok ())
          | none => (p, .error .channelClosed)
      | s => (p, .error (.invalidState "set max runspaces" s.text))

end Pool

end Runspace
