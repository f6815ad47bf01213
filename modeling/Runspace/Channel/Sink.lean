import Runspace.Fault

/-!
# Sinks — where the bytes of a channel go

A sink takes bytes in one or more writes, of which any may fail, and is shut down once.

* `SinkConduct`: when a sink fails, at any write or flush, and how much it takes at once;
* `Sink.send`: all bytes in order, then a flush, or the first fault;
* `Sink.beginShutDown`, `Sink.shutDownResult?`: a shutdown that may take its time;
* `Outlet`: the sending end of a pipe over a sink, which shuts it down at most once.
-/

namespace Runspace

/-! ## Sinks -/

/-- How a sink behaves. -/
structure SinkConduct where
  /-- How many writes it still accepts, if it is going to fail. -/
  failAfter : Option Nat := none
  failure : String := "broken pipe"
  maxWrite : Option Nat := none
  flushFailure : Option String := none
  closeFailure : Option String := none
  holdsClose : Bool := false
  /-- How many bytes more than one it takes at most at each of its first writes. -/
  splits : List Nat := []
  /-- How many writes it has taken before it cannot flush. -/
  flushAfter : Nat := 0

/-- A sink with all that it has taken. -/
structure Sink where
  conduct : SinkConduct := {}
  /-- What each write brought, latest first. -/
  writes : List Bytes := []
  closes : Nat := 0

namespace Sink

/-- The bytes that a sink has taken, in order. -/
def written (s : Sink) : Bytes := s.writes.reverse.flatten

/-- The bytes that a sink has taken after its first `n` writes. -/
def writtenSince (s : Sink) (n : Nat) : Bytes :=
  (s.writes.take (s.writes.length - n)).reverse.flatten

/-- A sink after a write that was accepted. -/
def accept (s : Sink) (bs : Bytes) : Sink :=
  { s with
    conduct := { s.conduct with failAfter := s.conduct.failAfter.map (· - 1) }
    writes := bs :: s.writes }

@[simp] theorem written_accept (s : Sink) (bs : Bytes) :
    (s.accept bs).written = s.written ++ bs := by
  simp [written, accept]

/-- As much as a sink takes of some bytes at its next write. -/
def piece (s : Sink) (bs : Bytes) : Bytes :=
  let front := match s.conduct.splits[s.writes.length]? with
    | none => bs
    | some n => bs.take (n + 1)
  match s.conduct.maxWrite with
  | none => front
  | some n => front.take n

theorem piece_prefix (s : Sink) (bs : Bytes) : s.piece bs <+: bs := by
  unfold piece
  cases s.conduct.splits[s.writes.length]? <;> cases s.conduct.maxWrite
  · exact List.prefix_rfl
  · exact List.take_prefix _ _
  · exact List.take_prefix _ _
  · exact (List.take_prefix _ _).trans (List.take_prefix _ _)

theorem piece_append_drop (s : Sink) (bs : Bytes) :
    s.piece bs ++ bs.drop (s.piece bs).length = bs :=
  List.prefix_iff_eq_append.1 (s.piece_prefix bs)

/-- Writes until all bytes are taken; says why if a write fails. A write that takes no byte is
accepted, but nothing more can be written after it. -/
def writeAll (s : Sink) (bs : Bytes) : Sink × Option ChannelFault :=
  if bs = [] then (s, none)
  else if s.conduct.failAfter = some 0 then (s, some (.write s.conduct.failure))
  else if s.piece bs = [] then (s.accept [], some (.write "write zero"))
  else writeAll (s.accept (s.piece bs)) (bs.drop (s.piece bs).length)
termination_by bs.length
decreasing_by
  have hpos := List.length_pos_iff.2 ‹¬s.piece bs = []›
  have hlen := congrArg List.length (s.piece_append_drop bs)
  rw [List.length_append] at hlen
  omega

/-- Why a sink cannot flush, if it cannot. -/
def flushFault? (s : Sink) : Option ChannelFault :=
  if s.conduct.flushAfter ≤ s.writes.length then s.conduct.flushFailure.map .flush else none

/-- Writes all bytes and flushes; says why if either fails. -/
def send (s : Sink) (bs : Bytes) : Sink × Option ChannelFault :=
  match s.writeAll bs with
  | (s, some fault) => (s, some fault)
  | (s, none) => (s, s.flushFault?)

/-- Begins to shut a sink down. -/
def beginShutDown (s : Sink) : Sink := { s with closes := s.closes + 1 }

/-- How the shutdown of a sink ends, if it does. -/
def shutDownResult? (s : Sink) : Option (Except ChannelFault Unit) :=
  if s.conduct.holdsClose then none
  else
    match s.conduct.closeFailure with
    | none => some (.ok ())
    | some cause => some (.error (.shutDown cause))

end Sink

/-! ## Outlets -/

/-- The sending end of a pipe. -/
structure Outlet where
  sink : Sink := {}
  isOpen : Bool := true

/-- Sends bytes through an outlet. -/
def Outlet.send (o : Outlet) (bs : Bytes) : Outlet × Except Fault Unit :=
  if o.isOpen then
    match o.sink.send bs with
    | (sink, none) => ({ o with sink }, .ok ())
    | (sink, some fault) => ({ o with sink }, .error (.transport fault))
  else (o, .error .channelClosed)

/-- Closes an outlet and says how that ended, if it did; closing it again does nothing. -/
def Outlet.close (o : Outlet) : Outlet × Option (Except Fault Unit) :=
  if o.isOpen then
    ({ sink := o.sink.beginShutDown, isOpen := false },
      o.sink.shutDownResult?.map (·.mapError .transport))
  else (o, some (.ok ()))

end Runspace
