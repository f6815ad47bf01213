import Runspace.Fault
import Runspace.Wire.Bytes

/-!
# Sources — where the bytes of a channel come from

A source yields bytes in chunks of bounded size until it ends, fails or is lost, or until nobody
takes its chunks.

* `Arrival`: what happens at a source from outside;
* `Source.take`: the chunks of what has arrived, and the source after it;
* `ReadEnd`: how reading came to its end.
-/

namespace Runspace

/-- What arrives at a source. -/
inductive Arrival where
  | bytes (bs : Bytes)
  | ended
  | failed (cause : String)
  /-- The loss of the receiving end, without a word. -/
  | lost

/-- How reading came to its end. -/
inductive ReadEnd where
  | finished
  | failed (fault : ChannelFault)
  | lost

/-- The largest chunk that a source yields. -/
def readChunk : Nat := 32768

/-- The receiving end of a pipe. -/
structure Source where
  ended : Option ReadEnd := none
  hasTaker : Bool := true

/-- Takes what has arrived: the chunks that it yields, and the source after it. Nothing is taken
after the end, and without a taker the first chunk is the end. -/
def Source.take (s : Source) (a : Arrival) : List Bytes × Source :=
  if s.ended.isSome then ([], s)
  else
    match a with
    | .bytes bs =>
      if bs.isEmpty then ([], s)
      else if s.hasTaker then (chunks readChunk bs, s)
      else ([], { s with ended := some .finished })
    | .ended => ([], { s with ended := some .finished })
    | .failed cause => ([], { s with ended := some (.failed (.read cause)) })
    | .lost => ([], { s with ended := some .lost })

end Runspace
