import ActixSend.System
import ActixSend.Builder
import ActixSend.Lifetime
import ActixSend.Active
import ActixSend.Channel
import ActixSend.Holder
import ActixSend.Oneshot
import ActixSend.Orphan
import ActixSend.Delivery
import ActixSend.Winddown
import ActixSend.Transition.Registry
import ActixSend.Cancellation
import ActixSend.WebSocket.Codec
import ActixSend.WebSocket.Connection
import ActixSend.WebSocket.Streams
import ActixSend.WebSocket.Close
import ActixSend.WebSocket.Heartbeat
import ActixSend.ActiveWord
import ActixSend.WebSocket.Frames
import ActixSend.WebSocket.Wake
import ActixSend.Transition.Framing
import ActixSend.WebSocket.Chunks
import ActixSend.WebSocket.Chunking
import ActixSend.Calls
import ActixSend.CloseCount
import ActixSend.IntervalLock
import ActixSend.AsyncLock
import ActixSend.Interchange
import ActixSend.Broadcast
import ActixSend.Macros.Expand
import ActixSend.Macros.Eval
import ActixSend.Macros.Dispatch
import ActixSend.Macros.Agreement
import ActixSend.Finisher
import ActixSend.Delayed
import ActixSend.ActorStream
import ActixSend.ActorSkipStream
import ActixSend.Text
import ActixSend.WebSocket.Handshake
import ActixSend.Macros.Attribute
import ActixSend.WebSocket.Idle
import ActixSend.IntervalFutures
import ActixSend.SendSubscribe
import ActixSend.SendErrors
import ActixSend.Object
import ActixSend.RunFutures
import ActixSend.AtomicActive
import ActixSend.Serial
import ActixSend.Sequential
import ActixSend.Uncancelled
import ActixSend.Hooks
import ActixSend.Accounts
import ActixSend.Capacity
import ActixSend.Transition.Measure
import ActixSend.Standstill
import ActixSend.Ticks
import ActixSend.Reclaim
import ActixSend.RealTime
import ActixSend.ActiveLeak
import ActixSend.Arbiters
import ActixSend.WebSocket.RoundTrip
import ActixSend.Macros.Generated
import ActixSend.NetworkRuns
import ActixSend.WebSocket.Asleep
