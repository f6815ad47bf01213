import Runspace.Command
import Runspace.Wire.Fragment

/-!
# Messages — what pool and host tell each other

A message is a target and a payload. The target travels in the header of every fragment, the
payload as the JSON text of the message body.

* `StreamKind`: the seven streams of a pipeline;
* `Payload`, `Payload.toJson`, `Payload.ofJson?`: the nine payloads and their JSON form;
* `Message.encode`, `Message.decode`: message bodies as bytes.
-/

namespace Runspace

/-! ## Streams -/

/-- A stream of results or diagnostics that a pipeline produces. -/
inductive StreamKind where
  | output
  | error
  | warning
  | verbose
  | debug
  | information
  | progress
deriving DecidableEq

namespace StreamKind

/-- Every stream, in a fixed order. -/
def all : List StreamKind := [.output, .error, .warning, .verbose, .debug, .information, .progress]

/-- The place of a stream in `all`. -/
def index (k : StreamKind) : Nat := all.idxOf k

/-- Whether a stream holds neither results nor errors. -/
def isDiagnostic (k : StreamKind) : Bool := k ≠ .output && k ≠ .error

/-- The word for a stream. -/
def word : StreamKind → String
  | .output => "output"
  | .error => "error"
  | .warning => "warning"
  | .verbose => "verbose"
  | .debug => "debug"
  | .information => "information"
  | .progress => "progress"

/-- The stream that a word names. -/
def ofWord? (w : String) : Option StreamKind := all.find? (·.word = w)

@[simp] theorem ofWord?_word (k : StreamKind) : ofWord? k.word = some k := by cases k <;> decide

/-- The name of a stream in a diagnostic text. -/
def describe : StreamKind → String
  | .output => "Output"
  | .error => "Error"
  | .warning => "Warning"
  | .verbose => "Verbose"
  | .debug => "Debug"
  | .information => "Information"
  | .progress => "Progress"

/-- The stream that a text says. -/
def ofJson? (j : Json) : Option StreamKind := j.choice?.bind ofWord?

end StreamKind

/-! ## States that the host reports -/

/-- What the host reports about the pool. -/
inductive HostPoolState where
  | opened
  | broken
  | closed
deriving DecidableEq

/-- The word for a reported pool state. -/
def HostPoolState.word : HostPoolState → String
  | .opened => "opened"
  | .broken => "broken"
  | .closed => "closed"

/-- The reported pool state that a word names. -/
def HostPoolState.ofWord? (w : String) : Option HostPoolState :=
  [.opened, .broken, .closed].find? (·.word = w)

@[simp] theorem HostPoolState.ofWord?_word (s : HostPoolState) : ofWord? s.word = some s := by
  cases s <;> decide

/-- How the host reports that a pipeline ended. -/
inductive HostPipelineState where
  | completed
  | failed
  | stopped
deriving DecidableEq

/-- The word for a reported end. -/
def HostPipelineState.word : HostPipelineState → String
  | .completed => "completed"
  | .failed => "failed"
  | .stopped => "stopped"

/-- The reported end that a word names. -/
def HostPipelineState.ofWord? (w : String) : Option HostPipelineState :=
  [.completed, .failed, .stopped].find? (·.word = w)

@[simp] theorem HostPipelineState.ofWord?_word (s : HostPipelineState) :
    ofWord? s.word = some s := by
  cases s <;> decide

/-! ## Payloads -/

/-- What a message says. -/
inductive Payload where
  | initPool (pool : PoolId) (minRunspaces maxRunspaces : UInt32)
  | connectPool (pool : PoolId)
  | setMaxRunspaces (maxRunspaces : UInt32)
  | createPipeline (commands : List Command)
  | stopPipeline
  | closePool
  | poolState (state : HostPoolState) (reason : Option String)
  | record (stream : StreamKind) (data : Value)
  | pipelineState (state : HostPipelineState) (reason : Option String)

namespace Payload

/-- The JSON form of a count. -/
def countJson (n : UInt32) : Json := Json.ofNat n.toNat

/-- The count that a text says. -/
def count? (j : Json) : Option UInt32 := (j.natural? 4294967295).map UInt32.ofNat

/-- The pool id that a text says. -/
def poolId? (j : Json) : Option PoolId := j.string?.bind PoolId.read?

/-- The reason member of a report, if it gives one. -/
def reasonMember : Option String → List (String × Json)
  | none => []
  | some r => [("reason", .string r)]

/-- The JSON form of a payload: its kind first, then its fields. -/
def toJson : Payload → Json
  | .initPool pool minRunspaces maxRunspaces =>
    .object [("type", .string "init_pool"), ("poolId", .string pool.text),
      ("minRunspaces", countJson minRunspaces), ("maxRunspaces", countJson maxRunspaces)]
  | .connectPool pool =>
    .object [("type", .string "connect_pool"), ("poolId", .string pool.text)]
  | .setMaxRunspaces maxRunspaces =>
    .object [("type", .string "set_max_runspaces"), ("maxRunspaces", countJson maxRunspaces)]
  | .createPipeline commands =>
    .object [("type", .string "create_pipeline"), ("commands", Command.listToJson commands)]
  | .stopPipeline => .object [("type", .string "stop_pipeline")]
  | .closePool => .object [("type", .string "close_pool")]
  | .poolState state reason =>
    .object (("type", .string "pool_state") :: ("state", .string state.word) ::
      reasonMember reason)
  | .record stream data =>
    .object [("type", .string "record"), ("stream", .string stream.word), ("data", data.json)]
  | .pipelineState state reason =>
    .object (("type", .string "pipeline_state") :: ("state", .string state.word) ::
      reasonMember reason)

/-- The payload of a kind that carries no fields. An array must hold nothing but the kind. -/
def bare? (p : Payload) : Json → Option Payload
  | .object _ => some p
  | .array [] => some p
  | _ => none

/-- The payload of a given kind whose fields a text says. -/
def ofFields? (kind : String) (j : Json) : Option Payload :=
  if kind = "init_pool" then do
    match ← j.fields? ["poolId", "minRunspaces", "maxRunspaces"] with
    | [some pool, some lo, some hi] =>
      some (.initPool (← poolId? pool) (← count? lo) (← count? hi))
    | _ => none
  else if kind = "connect_pool" then do
    match ← j.fields? ["poolId"] with
    | [some pool] => some (.connectPool (← poolId? pool))
    | _ => none
  else if kind = "set_max_runspaces" then do
    match ← j.fields? ["maxRunspaces"] with
    | [some hi] => some (.setMaxRunspaces (← count? hi))
    | _ => none
  else if kind = "create_pipeline" then do
    match ← j.fields? ["commands"] with
    | [some commands] => some (.createPipeline (← Command.listOfJson? commands))
    | _ => none
  else if kind = "stop_pipeline" then bare? .stopPipeline j
  else if kind = "close_pool" then bare? .closePool j
  else if kind = "pool_state" then do
    match ← j.fields? ["state", "reason"] with
    | [some state, reason] =>
      let state ← state.bodyChoice?.bind HostPoolState.ofWord?
      some (.poolState state (← Json.optionalText? reason))
    | _ => none
  else if kind = "record" then do
    match ← j.fields? ["stream", "data"] with
    | [some stream, some data] =>
      let stream ← stream.bodyChoice?.bind StreamKind.ofWord?
      some (.record stream (← Value.ofJson? data))
    | _ => none
  else if kind = "pipeline_state" then do
    match ← j.fields? ["state", "reason"] with
    | [some state, reason] =>
      let state ← state.bodyChoice?.bind HostPipelineState.ofWord?
      some (.pipelineState state (← Json.optionalText? reason))
    | _ => none
  else none

/-- The payload that a text says. Its kind is the member `type` of an object, wherever it stands,
or the first element of an array; every part of the text must be readable. -/
def ofJson? (j : Json) : Option Payload :=
  if j.isReadable then
    match j with
    | .object ms => do
      let kind ← (← Json.member? "type" ms).string?
      ofFields? kind (.object (ms.filter (·.1 ≠ "type")))
    | .array (kind :: js) => do ofFields? (← kind.string?) (.array js)
    | _ => none
  else none

end Payload

/-! ## Messages -/

/-- A message between pool and host. -/
structure Message where
  target : Target
  payload : Payload

namespace Message

/-- A message to the pool as a whole. -/
def toPool (payload : Payload) : Message := ⟨.pool, payload⟩

/-- A message to one pipeline. -/
def toPipeline (id : PipelineId) (payload : Payload) : Message := ⟨.pipeline id, payload⟩

/-- The body of a message as text. -/
def bodyText (m : Message) : String := m.payload.toJson.toText

/-- The body of a message. -/
def encode (m : Message) : Bytes := m.bodyText.toUTF8.data.toList

/-- The message with a body, unless the body is no UTF-8 text of a payload. -/
def decode (target : Target) (body : Bytes) : Except WireFault Message :=
  match (String.fromUTF8? ⟨body.toArray⟩).bind (readText? Payload.ofJson?) with
  | some payload => .ok ⟨target, payload⟩
  | none => .error .body

end Message

end Runspace
