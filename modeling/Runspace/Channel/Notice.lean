import Runspace.Fault
import Runspace.Message

/-!
# Notices — what a channel tells its handler
-/

namespace Runspace

/-- What the handler of a channel is told. -/
inductive Notice where
  | message (m : Message)
  | framingError (target : Target) (fault : Fault)
  | sendFailed (target : Target) (fault : Fault)
  /-- The channel has ended; without a fault, the other side ended it in order. -/
  | closed (fault : Option Fault)

end Runspace
