import SoupEngine.Session.Ch2
import SoupEngine.Stats

/-!
# Inbound packets

What a session does with a parsed datagram: follow the address, resume from the grace period,
process the acknowledgement, dispatch the frames by channel and answer reliable frames with a pure
ACK.
-/

namespace SoupEngine

open BoundedMemory

/-- How many Ch3 numbers are remembered. -/
def CH3_SEEN_CAP : ℕ := 256

/-- A session with what handling a packet has produced so far. -/
structure Rx where
  session : Session
  stats : Stats
  events : List SessionEvent
  sent : List (Bytes × SocketAddr)
  needAck : Bool

namespace Session

/-- Acknowledgement processing: both queues drop what is confirmed, the round-trip sample of the
later queue wins, and a skipped front is resent. -/
def processAck (s : Session) (header : DatagramHeader) (now : Instant) : Session :=
  { s with
    retrans := fun qi => ((s.retrans qi).onAck header.ack header.ackBits now).1
    rtt :=
      match ((s.retrans 1).onAck header.ack header.ackBits now).2.rttSample.or
        ((s.retrans 0).onAck header.ack header.ackBits now).2.rttSample with
      | some ms => s.rtt.update ms
      | none => s.rtt }

/-- The datagrams that acknowledgement processing resends. -/
def fastRetransmits (s : Session) (header : DatagramHeader) (now : Instant) : List Bytes :=
  ((s.retrans 0).onAck header.ack header.ackBits now).2.fastRetransmit ++
    ((s.retrans 1).onAck header.ack header.ackBits now).2.fastRetransmit

/-- How many entries acknowledgement processing confirms. -/
def ackedCount (s : Session) (header : DatagramHeader) (now : Instant) : ℕ :=
  ((s.retrans 0).onAck header.ack header.ackBits now).2.acked.length +
    ((s.retrans 1).onAck header.ack header.ackBits now).2.acked.length

end Session

/-- A Data event for a frame as it stands. -/
def frameEvent (s : Session) (f : FrameRef) : SessionEvent := .Data s.sessId f.ch f.msgId f.body

/-- The dispatch of one frame by channel. -/
def dispatchFrame (header : DatagramHeader) (now : Instant) (rx : Rx) (f : FrameRef) : Rx :=
  if f.ch = CH_UNRELIABLE_UNORDERED then
    { rx with events := rx.events ++ [frameEvent rx.session f] }
  else if f.ch = CH_UNRELIABLE_SEQUENCED then
    if rx.session.ch1Last.all (seqNewer header.seq) then
      { rx with
        session := { rx.session with ch1Last := some header.seq }
        events := rx.events ++ [frameEvent rx.session f] }
    else rx
  else if f.ch = CH_RELIABLE_ORDERED then
    { rx with
      session := (handleCh2 rx.session header f now rx.events).1
      events := (handleCh2 rx.session header f now rx.events).2
      needAck := true }
  else if f.ch = CH_RELIABLE_UNORDERED then
    if header.seq ∈ rx.session.ch3Seen then
      { rx with needAck := true }
    else
      { rx with
        session :=
          { rx.session with ch3Seen := remember CH3_SEEN_CAP rx.session.ch3Seen header.seq }
        events := rx.events ++ [frameEvent rx.session f]
        needAck := true }
  else
    { rx with stats := rx.stats.incrPktBad }

/-- One round of the frame loop: record the number, count the bytes, dispatch. -/
def handleFrame (header : DatagramHeader) (now : Instant) (rx : Rx) (f : FrameRef) : Rx :=
  let window := recordSeq rx.session.recvSeq rx.session.recvBits header.seq
  dispatchFrame header now
    { rx with
      session := { rx.session with recvSeq := window.1, recvBits := window.2 }
      stats := { rx.stats with
        pktBytesIn := rx.stats.pktBytesIn + BitVec.ofNat 64 f.body.length } } f

/-- The pure ACK that answers reliable frames. -/
def pureAck (s : Session) : DatagramHeader where
  version := VERSION
  flags := FLAG_PURE_ACK
  connId := s.connId
  seq := s.sendSeq
  ack := s.computeAck.1
  ackBits := s.computeAck.2

/-- Step 1, acknowledgement processing. -/
def startRx (s : Session) (stats : Stats) (peer : SocketAddr) (header : DatagramHeader)
    (now : Instant) : Rx where
  session := s.processAck header now
  stats := { stats with
    acksSeen := stats.acksSeen + BitVec.ofNat 64 (s.ackedCount header now)
    retransmits := stats.retransmits + BitVec.ofNat 64 (s.fastRetransmits header now).length }
  events := []
  sent := (s.fastRetransmits header now).map fun bytes => (bytes, peer)
  needAck := false

/-- Step 3, the pure ACK for reliable frames. -/
def answerAck (peer : SocketAddr) (rx : Rx) : Rx :=
  if rx.needAck then
    match encode (pureAck rx.session) [] [] with
    | (out, .ok _) => { rx with sent := rx.sent ++ [(out, peer)] }
    | (_, .error _) => rx
  else rx

/-- The packet of an active session, the address already followed. -/
def handleActive (s : Session) (stats : Stats) (peer : SocketAddr) (header : DatagramHeader)
    (frames : List FrameRef) (now : Instant) : Rx :=
  answerAck peer
    (frames.foldl (handleFrame header now) (startRx { s with lastRx := now } stats peer header now))

/-- `handle_session_packet` on the session found under the connection id. `now` is the time of
receipt, `clock` the reading of `Instant::now()` behind `since.elapsed()`. -/
def handlePacket (s : Session) (stats : Stats) (peer : SocketAddr) (header : DatagramHeader)
    (frames : List FrameRef) (now clock : Instant) : Rx :=
  -- NAT rebinding: follow the address
  let stats := if s.peer ≠ peer then { stats with natRebind := stats.natRebind + 1 } else stats
  let s := { s with peer }
  match s.state with
  | .Grace since =>
    let gapMs : U32 := BitVec.ofNat 32 (min ((clock - since) / 1000000) 0xFFFFFFFF)
    { session := { s with state := .Active, lastRx := now }
      stats
      events := [.Resume s.sessId gapMs]
      sent := []
      needAck := false }
  | .Active => handleActive s stats peer header frames now

end SoupEngine
