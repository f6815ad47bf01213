import Runspace.Wire.Reassembly

/-!
# Faults — what can go wrong, and how it is told

* `Objection`: why an argument is refused;
* `ChannelFault`: what failed while bytes were sent or received;
* `Fault`, `Fault.message`, `Fault.category`: every error that a caller or a handler is told of;
* `Fault.asConnection`: the same news as a failed connection;
* `FramingFault.toFault`: the loss of one message as a fault.
-/

namespace Runspace

/-! ## Refused arguments -/

/-- Why an argument is refused. -/
inductive Objection where
  | runspaceBounds (lo hi : Nat)
  | maxRunspacesTooWide (hi : Nat)
  | fragmentSize (n : Nat)
  | noMessageSize
  | runspaceCount (n : Nat)
  | maxBelowMin (hi lo : Nat)
  | noCommands
  | noPipelineIds
  | messageTooLarge (length limit : Nat)
  | other (text : String)
deriving DecidableEq

/-- The text of an objection. -/
def Objection.message : Objection → String
  | .runspaceBounds lo hi =>
    s!"runspace bounds must satisfy 1 <= min <= max (min {lo}, max {hi})"
  | .maxRunspacesTooWide hi => s!"max runspaces {hi} does not fit the wire format"
  | .fragmentSize n => s!"fragment size {n} outside {minFragmentPayload}..={maxFragmentPayload}"
  | .noMessageSize => "max message size must be positive"
  | .runspaceCount n => s!"runspace count {n} is too large"
  | .maxBelowMin hi lo => s!"max runspaces {hi} is below min {lo}"
  | .noCommands => "a pipeline needs at least one command"
  | .noPipelineIds => "pipeline id space exhausted"
  | .messageTooLarge length limit =>
    s!"message of {length} bytes exceeds the {limit}-byte limit"
  | .other text => text

/-! ## Failing channels -/

/-- What failed while bytes were sent or received. -/
inductive ChannelFault where
  | write (cause : String)
  | flush (cause : String)
  | shutDown (cause : String)
  | read (cause : String)
  | corrupt (fault : WireFault)
  | truncated (pending : Nat)
  | other (text : String)
deriving DecidableEq

/-- The text of a channel's fault. -/
def ChannelFault.message : ChannelFault → String
  | .write cause => "Failed to write: " ++ cause
  | .flush cause => "Failed to flush: " ++ cause
  | .shutDown cause => "Failed to shut down writer: " ++ cause
  | .read cause => "Failed to read: " ++ cause
  | .corrupt fault => "Corrupt fragment stream: " ++ fault.message
  | .truncated pending => s!"Stream ended inside a fragment record ({pending} bytes pending)"
  | .other text => text

/-! ## Faults -/

/-- An error that a caller or a handler is told of. -/
inductive Fault where
  | connection (reason : String)
  | transport (cause : ChannelFault)
  | invalidState (operation state : String)
  | framing (objectId : Nat) (reason : String)
  | alreadyInvoked (pipeline : PipelineId)
  | invalidArgument (objection : Objection)
  | malformed (fault : WireFault)
  | channelClosed
  | io (cause : String)
  | json
deriving DecidableEq

namespace Fault

/-- The text of a fault; what is wrong with a JSON text is left open. -/
def message : Fault → String
  | .connection reason => "Connection failed: " ++ reason
  | .transport cause => "Transport error: " ++ cause.message
  | .invalidState operation state =>
    "Invalid state: cannot " ++ operation ++ " while " ++ state
  | .framing objectId reason => s!"Protocol framing error on object {objectId}: " ++ reason
  | .alreadyInvoked pipeline => "Pipeline " ++ pipeline.text ++ " has already been invoked"
  | .invalidArgument objection => "Invalid argument: " ++ objection.message
  | .malformed fault => "Malformed message: " ++ fault.message
  | .channelClosed => "Channel closed unexpectedly"
  | .io cause => "I/O error: " ++ cause
  | .json => "JSON error: <json>"

/-- Whether the channel itself failed. -/
def isConnection : Fault → Bool
  | .connection _ | .transport _ | .channelClosed | .io _ => true
  | _ => false

/-- Whether only a single message is affected. -/
def isFraming : Fault → Bool
  | .framing _ _ | .malformed _ => true
  | _ => false

/-- Whether the caller asked for something at the wrong time. -/
def isInvalidState : Fault → Bool
  | .invalidState _ _ | .alreadyInvoked _ => true
  | _ => false

/-- The category of a fault in an error record. -/
def category : Fault → String
  | .connection _ | .transport _ | .channelClosed | .io _ => "ConnectionError"
  | .framing _ _ | .malformed _ => "ProtocolFramingError"
  | .invalidState _ _ => "InvalidState"
  | .alreadyInvoked _ => "AlreadyInvoked"
  | .invalidArgument _ => "InvalidArgument"
  | .json => "SerializationError"

/-- A fault as the failure of a connection. -/
def asConnection : Fault → Fault
  | .connection reason => .connection reason
  | fault => .connection fault.message

end Fault

/-- The loss of one message as a fault. -/
def FramingFault.toFault (e : FramingFault) : Fault := .framing e.objectId e.reason.message

end Runspace
