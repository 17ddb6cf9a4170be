import SoupEngine.Lib.SerialNumber
import SoupEngine.Lib.BoundedMemory
import SoupEngine.Lib.TransitionSystem
import SoupEngine.Lib.BitMask
import SoupEngine.Lib.Release
import SoupEngine.Protocol.Types
import SoupEngine.Protocol.Datagram
import SoupEngine.Reliable.Retransmit
import SoupEngine.Reliable.Rtt
import SoupEngine.Reliable.Fragment
import SoupEngine.Session.Ch2
import SoupEngine.Session.Inbound
import SoupEngine.Session.Outbound
import SoupEngine.Session.Table
import SoupEngine.Session.Window
import SoupEngine.Session.Packet
import SoupEngine.Session.Ch2Receiver
import SoupEngine.Reliable.Assembly
import SoupEngine.Session.Packing
import SoupEngine.Session.Fragments
import SoupEngine.Session.RoundTrip
import SoupEngine.Link.System
import SoupEngine.Link.Frames
import SoupEngine.Link.Sender
import SoupEngine.Link.Reception
import SoupEngine.Link.Quiet
import SoupEngine.Link.Assembled
import SoupEngine.Link.Receiver
import SoupEngine.Link.Orderly
import SoupEngine.Link.AckSoundness
import SoupEngine.Link.Windowed
import SoupEngine.Link.SlidingWindow
import SoupEngine.Lib.Sparse
import SoupEngine.Link.Groups
import SoupEngine.Link.Kept
import SoupEngine.Link.Channels
import SoupEngine.Link.AckCompleteness
import SoupEngine.Link.Settled
import SoupEngine.Link.Replay
import SoupEngine.Lib.InsertionSort
import SoupEngine.Sdk.Jitter
import SoupEngine.Sdk.Room
import SoupEngine.Sdk.Order
import SoupEngine.Sdk.Drain
import SoupEngine.Sdk.Lost
import SoupEngine.Protocol.Frame
import SoupEngine.Sdk.Frame
import SoupEngine.Sdk.ReadPool
import SoupEngine.Sdk.Repeat
import SoupEngine.Sdk.Ownership
import SoupEngine.Sdk.Lending
import SoupEngine.Session.Aggregate
import SoupEngine.Link.Ch3Memory
import SoupEngine.Lib.StreamDecoder
import SoupEngine.Sdk.ReadLoop
import SoupEngine.Session.MessageSize
import SoupEngine.Engine.Uplink
import SoupEngine.Engine.Stream
import SoupEngine.Session.Events
import SoupEngine.Engine.LogicLink
import SoupEngine.Engine.OpensFirst
import SoupEngine.Engine.ReadLoop
import SoupEngine.Protocol.Codec
import SoupEngine.Session.Slots
import SoupEngine.Session.Grammar
import SoupEngine.Session.Handshake
import SoupEngine.Session.Grace
import SoupEngine.Session.Isolation
import SoupEngine.Engine.PushOrder
import SoupEngine.Sdk.Registry
import SoupEngine.Sdk.Change
import SoupEngine.Sdk.Stays
import SoupEngine.Sdk.Ghosts
import SoupEngine.Lib.Seat
import SoupEngine.Sdk.Bindings
import SoupEngine.Session.Atomic
import SoupEngine.Session.ConnIds
import SoupEngine.Engine.Transports
import SoupEngine.Sdk.Baselines
import SoupEngine.Sdk.SnapshotRate
import SoupEngine.Protocol.FrameBody
import SoupEngine.Sdk.Ending
import SoupEngine.Engine.Upstream
import SoupEngine.Engine.Downstream
import SoupEngine.Sdk.Fidelity
import SoupEngine.Session.Authentication
import SoupEngine.Lib.Checked
import SoupEngine.Session.Overflow
import SoupEngine.Session.Panics
import SoupEngine.Link.Truncation
import SoupEngine.Sdk.CatchUp
import SoupEngine.Session.Amplification
import SoupEngine.Lib.RateWindow
import SoupEngine.Session.Budget
import SoupEngine.Engine.Refusal
import SoupEngine.Session.Trailer
import SoupEngine.Engine.Peers
import SoupEngine.Lib.Staging
import SoupEngine.Sdk.Outbox
import SoupEngine.Engine.Instruction
import SoupEngine.Reliable.QueueRuns
import SoupEngine.BufferPool
import SoupEngine.Session.Latency
import SoupEngine.Session.Recorder
import SoupEngine.Session.Consumption
import SoupEngine.Reliable.Reassembly
import SoupEngine.Lib.BoundedSort
import SoupEngine.Sdk.Sorted
import SoupEngine.Sdk.Overflow
import SoupEngine.Lib.Cycle
import SoupEngine.Sdk.Settlement
import SoupEngine.Engine.Notice
import SoupEngine.Engine.Reconnect
import SoupEngine.Engine.Arrival
import SoupEngine.Engine.Emission
import SoupEngine.Lib.Fifo
import SoupEngine.Lib.Sharded
import SoupEngine.Lib.Simulation
import SoupEngine.Link.Flow
import SoupEngine.Session.Sharding
import SoupEngine.Session.Silence
import SoupEngine.Engine.Telling
import SoupEngine.Lib.Custody
import SoupEngine.Sdk.SendPool
import SoupEngine.Engine.Downlink
import SoupEngine.Lib.Weyl
import SoupEngine.Sdk.DetRand
import SoupEngine.Sdk.Limits
import SoupEngine.Sdk.Pacing
import SoupEngine.Lib.Records
import SoupEngine.Link.Unreliable
import SoupEngine.Sdk.Headers
import SoupEngine.Session.Holdings
