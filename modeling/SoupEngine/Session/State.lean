import SoupEngine.Protocol.Datagram
import SoupEngine.Reliable.Rtt
import SoupEngine.Reliable.Retransmit
import SoupEngine.Reliable.Fragment

/-!
# Sessions

The record of one session and the two functions that summarise what it has received: `recordSeq`
maintains the window of the newest numbers, `computeAck` builds the acknowledgement it reports.
-/

namespace SoupEngine

/-- Length of the truncated HMAC at the end of a datagram. -/
def HMAC_LEN : ℕ := 4

structure SessionTableConfig where
  shards : ℕ
  handshakeTimeout : Duration
  idleGrace : Duration
  reconnectGrace : Duration
  enableHmac : Bool
  dynamicTimeouts : Bool
  timeoutMin : Duration
  timeoutMax : Duration
  reconnectMin : Duration
  reconnectMax : Duration

/-- `SessionTableConfig::default()`. -/
def SessionTableConfig.default : SessionTableConfig where
  shards := DEFAULT_SESSION_SHARDS
  handshakeTimeout := HANDSHAKE_TIMEOUT
  idleGrace := IDLE_GRACE
  reconnectGrace := RECONNECT_GRACE
  enableHmac := true
  dynamicTimeouts := true
  timeoutMin := TIMEOUT_MIN
  timeoutMax := TIMEOUT_MAX
  reconnectMin := RECONNECT_MIN
  reconnectMax := RECONNECT_MAX

inductive SessionState
  | Active
  | Grace (since : Instant)
  deriving DecidableEq

structure Session where
  connId : U32
  sessId : U64
  peer : SocketAddr
  secret : U64
  token : Bytes
  sendSeq : U16
  lastRx : Instant
  state : SessionState
  budgetKbps : Option U16
  established : Instant
  recvSeq : U16
  recvBits : U32
  ch1Last : Option U16
  /-- The Ch3 numbers seen last, at most 256. -/
  ch3Seen : List U16
  /-- The retransmit queues of Ch2 and Ch3. -/
  retrans : Fin 2 → RetransmitQueue
  rtt : RttEstimator
  assembler : FragmentAssembler
  /-- The Ch2 messages waiting for delivery, by number. -/
  reorder : Map U16 (U16 × Bytes)
  ch2Next : Option U16
  deliveredMax : U16
  /-- The Ch2 numbers delivered last, at most 512. -/
  deliveredSeqs : List U16
  fragGroupId : U16
  bytesWindow : List (Instant × U64)

/-- What the session table reports to the engine. -/
inductive SessionEvent
  | Open (sessId : U64) (peer : SocketAddr) (token : Bytes)
  | Close (sessId : U64) (reason : U8)
  | Resume (sessId : U64) (gapMs : U32)
  | Data (sessId : U64) (ch : U8) (msgId : U16) (payload : Bytes)
  deriving DecidableEq

def CLOSE_GRACE_TIMEOUT : U8 := 1
namespace Session

/-- The session that a completed handshake creates. -/
def create (connId : U32) (sessId : U64) (peer : SocketAddr) (secret : U64) (token : Bytes)
    (now : Instant) : Session where
  connId := connId
  sessId := sessId
  peer := peer
  secret := secret
  token := token
  sendSeq := 0
  lastRx := now
  state := .Active
  budgetKbps := none
  established := now
  recvSeq := 0
  recvBits := 0
  ch1Last := none
  ch3Seen := []
  retrans := fun _ => RetransmitQueue.new
  rtt := RttEstimator.new
  assembler := FragmentAssembler.new
  reorder := ∅
  ch2Next := some 0
  deliveredMax := 0
  deliveredSeqs := []
  fragGroupId := 0
  bytesWindow := []

def isActive (s : Session) : Bool := decide (s.state = .Active)

/-- Whether a number counts as received in the bitmap of an acknowledgement. -/
def ackSees (s : Session) (seq : U16) : Bool :=
  s.reorder.contains seq || decide (seq ∈ s.deliveredSeqs) || decide (seq ∈ s.ch3Seen)

/-- The acknowledgement of the session: the last number delivered in order on Ch2, and the bitmap of
the 32 numbers after it. -/
def computeAck (s : Session) : U16 × U32 :=
  let ack := s.ch2Next.getD 0 - 1
  (ack, BitMask.setWhere 32 32 fun k => s.ackSees (ack + BitVec.ofNat 16 (k + 1)))

end Session

/-- Record the arrival of `seq` in the window `(recv_seq, recv_bits)`, with the wrapping negation of
a build without overflow checks. -/
def recordSeq (recvSeq : U16) (recvBits : U32) (seq : U16) : U16 × U32 :=
  let diff := seq - recvSeq
  if diff.toInt ≤ 0 then
    let back : U32 := (-diff).signExtend 32
    if 1 ≤ back ∧ back ≤ 32 then
      (recvSeq, recvBits ||| (1#32 <<< (back - 1).toNat))
    else
      (recvSeq, recvBits)
  else
    let shift := min diff.toInt.toNat 32
    (seq, if shift = 32 then 1 else (recvBits <<< shift) ||| 1)

end SoupEngine
