import Runspace.Channel.Notice
import Runspace.Channel.Sink
import Runspace.Wire.Split

/-!
# Writers — the sending half of a connection

A writer sends queued messages one after another, each as the records of its fragments. When it
is told to stop it first sends what is queued. A failed write ends it at once; in either case it
shuts its sink down, which may take its time:

    writing ── queue empty and told to stop, or a failed write ──> closing ──> stopped

* `Writer.turn?`: the next message, or the next step of the shutdown;
* `Writer.flush`: as many turns as there are.
-/

namespace Runspace

/-! ## Fragments -/

/-- Sends the records of some fragments in order, up to the first fault. -/
def Sink.sendFragments (s : Sink) : List Fragment → Sink × Option ChannelFault
  | [] => (s, none)
  | f :: fs =>
    match s.send f.record with
    | (s, none) => s.sendFragments fs
    | (s, some fault) => (s, some fault)

/-! ## Writers -/

/-- How far a writer has come. -/
inductive WriterPhase where
  | writing
  | closing
  | stopped
deriving DecidableEq

/-- How many phases lie ahead. -/
def WriterPhase.ahead : WriterPhase → Nat
  | .writing => 2
  | .closing => 1
  | .stopped => 0

/-- The sending half of a connection. -/
structure Writer where
  /-- The messages that wait, oldest first. -/
  queue : List Message := []
  splitter : Splitter
  limit : Nat
  sink : Sink := {}
  phase : WriterPhase := .writing
  isStopping : Bool := false

namespace Writer

/-- A writer whose shutdown of its sink has begun. -/
def close (w : Writer) : Writer := { w with sink := w.sink.beginShutDown, phase := .closing }

/-- Sends one message. One that is too large is dropped without taking a number; a failed write
ends the writer. -/
def write (w : Writer) (m : Message) : Writer × List Notice :=
  let body := m.encode
  if w.limit < body.length then
    (w, [.sendFailed m.target (.invalidArgument (.messageTooLarge body.length w.limit))])
  else
    let (fragments, splitter) := w.splitter.push m.target body
    match w.sink.sendFragments fragments with
    | (sink, none) => ({ w with splitter, sink }, [])
    | (sink, some fault) =>
      ({ w with splitter, sink }.close, [.closed (some (.transport fault))])

/-- One turn of a writer and what it reports, unless there is nothing to do. -/
def turn? (w : Writer) : Option (Writer × List Notice) :=
  match w.phase, w.queue with
  | .writing, m :: rest => some ({ w with queue := rest }.write m)
  | .writing, [] => if w.isStopping then some (w.close, []) else none
  | .closing, _ =>
    if w.sink.shutDownResult?.isSome then some ({ w with phase := .stopped }, []) else none
  | .stopped, _ => none

theorem decreases_of_turn? {w w' : Writer} {ns : List Notice} (h : w.turn? = some (w', ns)) :
    Prod.Lex (· < ·) (· < ·) (w'.phase.ahead, w'.queue.length) (w.phase.ahead, w.queue.length) := by
  unfold turn? at h
  split at h
  · next hp hq =>
    simp only [Option.some.injEq] at h
    unfold write at h
    dsimp only at h
    split at h
    · cases h
      rw [hp, hq]
      exact .right _ (by simp)
    · split at h
      · cases h
        rw [hp, hq]
        exact .right _ (by simp)
      · cases h
        rw [hp]
        exact .left _ _ (by simp [close, WriterPhase.ahead])
  · next hp _ =>
    split at h
    · cases h
      rw [hp]
      exact .left _ _ (by simp [close, WriterPhase.ahead])
    · cases h
  · next _ hp =>
    split at h
    · cases h
      rw [hp]
      exact .left _ _ (by simp [WriterPhase.ahead])
    · cases h
  · cases h

/-- As many turns as there are, and all that they report. -/
def flush (w : Writer) : Writer × List Notice :=
  match _h : w.turn? with
  | none => (w, [])
  | some (w', notices) =>
    let (w'', later) := flush w'
    (w'', notices ++ later)
termination_by (w.phase.ahead, w.queue.length)
decreasing_by exact decreases_of_turn? _h

end Writer

end Runspace
