import Runspace.Fault
import Runspace.Message
import Runspace.Pool.State

/-!
# Pipelines — one remote run and its streams

A pipeline holds the commands that the host is asked to run, and the records that it has produced
so far. Its streams end with its final state, and a failure leaves one last record on the error
stream.

* `Pipeline`, `Pipeline.stream`: the records of one stream;
* `Pipeline.finish`: the final state, with the record of a failure;
* `Fault.record`, `remoteFailure`: the records of local and of remote failures.
-/

namespace Runspace

/-! ## Records of failures -/

/-- A record of a failure. -/
def failureRecord (category message : String) : Value where
  json := .object [("category", .string category), ("message", .string message)]
  canonical := by
    simp only [Json.isCanonical, Json.membersCanonical, Json.precedes, Bool.and_true,
      Bool.true_and, decide_eq_true_eq]
    decide

/-- The record of a fault that ended a pipeline on this side. -/
def Fault.record (e : Fault) : Value := failureRecord e.category e.message

/-- The record of a failure that the host reported. -/
def remoteFailure (reason : Option String) : Value :=
  failureRecord "RemoteError" (reason.getD "Remote pipeline failed")

/-! ## Pipelines -/

/-- A pipeline of a pool. -/
structure Pipeline where
  id : PipelineId
  commands : List Command
  state : PipelineState := .notStarted
  isInvoked : Bool := false
  isRegistered : Bool := true
  /-- Every record so far, with the stream that it is on, in order. -/
  records : List (StreamKind × Value) := []
  /-- Whether its streams take records. -/
  isOpen : Bool := true
  taken : List StreamKind := []

namespace Pipeline

/-- The records of one stream, in order. -/
def stream (c : Pipeline) (k : StreamKind) : List Value :=
  (c.records.filter (·.1 = k)).map (·.2)

/-- Whether the streams of a pipeline have ended. -/
def hasEnded (c : Pipeline) : Bool := !c.isOpen

/-- A pipeline in another state. -/
def enter (c : Pipeline) (state : PipelineState) : Pipeline := { c with state }

/-- A pipeline with one more record, unless its streams have ended. -/
def push (c : Pipeline) (k : StreamKind) (v : Value) : Pipeline :=
  if c.isOpen then { c with records := c.records ++ [(k, v)] } else c

/-- A pipeline in its final state, after a last record on the error stream if there is one. Its
streams end first. -/
def finish (c : Pipeline) (state : PipelineState) (last : Option Value) : Pipeline :=
  let c := match last with
    | none => c
    | some v => c.push .error v
  { c with isOpen := false }.enter state

/-- The text of a pipeline for diagnosis. -/
def describe (c : Pipeline) : String :=
  "Pipeline \x7b id: PipelineId(" ++ c.id.text ++ "), state: " ++ c.state.text ++
    ", commands: " ++ toString c.commands.length ++ " \x7d"

end Pipeline

end Runspace
