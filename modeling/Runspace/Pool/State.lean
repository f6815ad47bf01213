/-!
# States — the lives of pools and pipelines

    pool        BeforeOpen --> Opening --> Opened --> Closing --> Closed
                Opening --> Broken, Closed        Opened --> Broken, Disconnected
                Disconnected --> Opened, Closed   BeforeOpen --> Closed

    pipeline    NotStarted --> Queued --> Running --> Completed, Failed or Stopped
                NotStarted --> Running, Failed, Stopped
                Queued --> Failed, Stopped

* `PoolState`, `PipelineState`: the states, with `isTerminal` for the final ones.
-/

namespace Runspace

/-! ## Pools -/

/-- The state of a pool. -/
inductive PoolState where
  | beforeOpen
  | opening
  | opened
  | closing
  | closed
  | broken
  | disconnected
deriving DecidableEq

namespace PoolState

/-- Every state, in a fixed order. -/
def all : List PoolState :=
  [.beforeOpen, .opening, .opened, .closing, .closed, .broken, .disconnected]

/-- Whether a state is never left. -/
def isTerminal : PoolState → Bool
  | .closed | .broken => true
  | _ => false

/-- The name of a state. -/
def text : PoolState → String
  | .beforeOpen => "BeforeOpen"
  | .opening => "Opening"
  | .opened => "Opened"
  | .closing => "Closing"
  | .closed => "Closed"
  | .broken => "Broken"
  | .disconnected => "Disconnected"

end PoolState

/-! ## Pipelines -/

/-- The state of a pipeline. -/
inductive PipelineState where
  | notStarted
  | queued
  | running
  | completed
  | failed
  | stopped
deriving DecidableEq

namespace PipelineState

/-- Every state, in a fixed order. -/
def all : List PipelineState := [.notStarted, .queued, .running, .completed, .failed, .stopped]

/-- Whether a state is never left. -/
def isTerminal : PipelineState → Bool
  | .completed | .failed | .stopped => true
  | _ => false

/-- The name of a state. -/
def text : PipelineState → String
  | .notStarted => "NotStarted"
  | .queued => "Queued"
  | .running => "Running"
  | .completed => "Completed"
  | .failed => "Failed"
  | .stopped => "Stopped"

end PipelineState

end Runspace
