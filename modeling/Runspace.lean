import Runspace.Hex
import Runspace.Ident
import Runspace.Wire.Bytes
import Runspace.Wire.Fragment
import Runspace.Wire.Decoder
import Runspace.Wire.Buffer
import Runspace.Wire.Split
import Runspace.Wire.Reassembly
import Runspace.Json.Basic
import Runspace.Json.Double
import Runspace.Json.Numeral
import Runspace.Json.Token
import Runspace.Json.Text
import Runspace.Json.Fields
import Runspace.Json.Encoded
import Runspace.Command
import Runspace.Message
import Runspace.Fault
import Runspace.Options
import Runspace.Chain
import Runspace.Channel.Notice
import Runspace.Channel.Sink
import Runspace.Channel.Source
import Runspace.Channel.Writer
import Runspace.Channel.Receiver
import Runspace.Channel.Connection
import Runspace.Pool.State
import Runspace.Pool.Pipeline
import Runspace.Pool.Basic
import Runspace.Pool.Admission
import Runspace.Pool.Batch
import Runspace.Pool.Lifecycle
import Runspace.Pool.Inbound
import Runspace.Pool.Event
import Runspace.Client.Peer
import Runspace.Client.Basic
import Runspace.Client.Call
import Runspace.Client.Request
import Runspace.Client.Event
import Runspace.Proofs.Wire.Chunking
import Runspace.Proofs.Wire.Calls
import Runspace.Proofs.Wire.Delivery
import Runspace.Proofs.Wire.Soundness
import Runspace.Proofs.Wire.Interleaving
import Runspace.Proofs.Wire.Retirement
import Runspace.Proofs.Wire.Isolation
import Runspace.Proofs.Wire.Bounds
import Runspace.Proofs.Wire.Pieces
import Runspace.Proofs.Json.Trees
import Runspace.Proofs.Json.Words
import Runspace.Proofs.Json.RoundTrip
import Runspace.Proofs.Json.Nesting
import Runspace.Proofs.Message.Payloads
import Runspace.Proofs.Message.Depth
import Runspace.Proofs.Message.Bodies
import Runspace.Proofs.Message.Sizes
import Runspace.Proofs.Chain.Fusion
import Runspace.Proofs.Chain.Naming
import Runspace.Proofs.Config.Loading
import Runspace.Proofs.Channel.Runs
import Runspace.Proofs.Channel.Sending
import Runspace.Proofs.Channel.Dispatch
import Runspace.Proofs.Channel.Closing
import Runspace.Proofs.Channel.Writing
import Runspace.Proofs.Pool.Moves
import Runspace.Proofs.Pool.Deeds
import Runspace.Proofs.Pool.Turns
import Runspace.Proofs.Pool.Steps
import Runspace.Proofs.Pool.Accounts
import Runspace.Proofs.Pool.Attached
import Runspace.Proofs.Pool.Lifecycle
import Runspace.Proofs.Pool.Ownership
import Runspace.Proofs.Pool.Inertness
import Runspace.Proofs.Pool.Capacity
import Runspace.Proofs.Pool.Channels
import Runspace.Proofs.Pool.Streams
import Runspace.Proofs.Pool.Requests
import Runspace.Proofs.Pool.Conformance
import Runspace.Proofs.Pool.Launches
import Runspace.Proofs.Pool.Load
import Runspace.Proofs.Pool.Stages
import Runspace.Proofs.Pool.Frames
import Runspace.Proofs.Pool.Attempts
import Runspace.Proofs.Pool.Endings
import Runspace.Proofs.Pool.Failures
import Runspace.Proofs.Pool.Order
import Runspace.Proofs.Pool.Refusals
import Runspace.Proofs.Pool.Limits
import Runspace.Proofs.Pool.Outbox
import Runspace.Proofs.Pool.Faults
import Runspace.Proofs.Pool.Stops
import Runspace.Proofs.Pool.Batches
import Runspace.Proofs.Pool.Fitting
import Runspace.Proofs.Client.Acts
import Runspace.Proofs.Client.Links
import Runspace.Proofs.Client.Composition
import Runspace.Proofs.Client.Faults
import Runspace.Proofs.Client.Stops
