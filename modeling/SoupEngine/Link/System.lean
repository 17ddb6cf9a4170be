import SoupEngine.Lib.TransitionSystem
import SoupEngine.Session.Packing
import SoupEngine.Session.Fragments
import SoupEngine.Session.Table

/-!
# Two sessions over a network

Session `a` sends messages to session `b`. The state of the two sessions is kept together with a
ghost history: what every number was given out for (`log`), which numbers have been received, and
which acknowledgements `b` has computed. The network is an arbitrary choice of actions: it loses,
duplicates, delays and reorders what was sent. The theorems about the link differ in which actions
they allow.
-/

namespace SoupEngine

open BoundedMemory

/-- One call of `pack_outbound`, whose numbers start at `first`. -/
structure Call where
  first : ℕ
  ch : U8
  msgId : U16
  payload : Bytes
  groupId : U16
  deriving DecidableEq

namespace Call

def Fragmented (c : Call) : Prop := fragments c.ch c.payload

instance (c : Call) : Decidable c.Fragmented := by unfold Fragmented; infer_instance

/-- The total that the fragments of the call carry. -/
def total (c : Call) : ℕ := fragmentCount c.payload % 256

/-- The frame body of number `i` of the call. -/
def body (c : Call) (i : ℕ) : Bytes :=
  if c.Fragmented then fragmentBody c.groupId c.first c.payload (i - c.first) else c.payload

def frame (c : Call) (i : ℕ) : FrameRef := ⟨c.ch, c.msgId, c.body i⟩

/-- The fragment that number `i` carries. -/
def fragment (c : Call) (i : ℕ) : Fragment :=
  fragmentOf c.groupId c.first c.payload (i - c.first)

/-- Number `i` carries a fragment that a receiver takes. -/
def Decodes (c : Call) (i : ℕ) : Prop := c.Fragmented ∧ c.total ≤ 64 ∧ i - c.first < c.total

instance (c : Call) (i : ℕ) : Decidable (c.Decodes i) := by unfold Decodes; infer_instance

/-- The payload that a receiver puts together. -/
def reassembled (c : Call) : Bytes :=
  if c.Fragmented then c.payload.take (c.total * FRAGMENT_THRESHOLD) else c.payload

/-- The entry of number `i` in the reorder buffer of a receiver. -/
def slot (c : Call) (i : ℕ) : U16 × Bytes :=
  if i = c.first then (c.msgId, c.reassembled) else placeholder

end Call

/-- What a number was given out for, with its datagram unless that could not be encoded or
enqueued. -/
structure Sent where
  call : Call
  datagram : Option Bytes

/-- An acknowledgement that `b` computed when it had delivered the numbers before `pos`, received
those of `received` and remembered those of `seen` on Ch3. -/
structure AckRecord where
  pos : ℕ
  received : Finset ℕ
  seen : List ℕ
  ackPair : U16 × U32
  deriving DecidableEq

/-- What a handshake gives a session. -/
structure Opening where
  connId : U32
  sessId : U64
  peer : SocketAddr
  secret : U64
  token : Bytes
  now : Instant

/-- The session as the handshake leaves it. -/
def Opening.session (o : Opening) : Session :=
  Session.create o.connId o.sessId o.peer o.secret o.token o.now

structure Link where
  a : Session
  b : Session
  log : List Sent
  received : Finset ℕ
  /-- How many numbers `b` has delivered in order on Ch2: `ch2_next` without its wraparound. -/
  pos : ℕ
  /-- The numbers that `b` remembers on Ch3: `ch3_seen` without its wraparound. -/
  seen : List ℕ
  /-- The numbers of the entries of the retransmit queues of `a`. -/
  queued : Fin 2 → List ℕ
  acks : List AckRecord
  /-- The first number of the group whose fragment opened what the assembler of `b` holds under a
  group id. -/
  owner : U16 → ℕ
  /-- The events of `b`. -/
  events : List SessionEvent
  /-- A call of `pack_outbound` has failed on an active session. -/
  failed : Bool

inductive Action
  /-- The server sends a message through `a`. -/
  | sendA (ch : U8) (msgId : U16) (payload : Bytes) (now : Instant)
  /-- Any packet reaches `a`. -/
  | recvA (peer : SocketAddr) (header : DatagramHeader) (frames : List FrameRef)
      (now clock : Instant)
  /-- `maintain_reliable` and `maintain` run for `a`. -/
  | resendA (now : Instant)
  | idleA (now : Instant)
  /-- A copy of the datagram of number `i` reaches `b`. -/
  | arrive (i : ℕ) (peer : SocketAddr) (now clock : Instant)
  /-- A packet without frames reaches `b`. -/
  | ackB (peer : SocketAddr) (header : DatagramHeader) (now clock : Instant)
  | sendB (ch : U8) (msgId : U16) (payload : Bytes) (now : Instant)
  | resendB (now : Instant)
  | idleB (now : Instant)

namespace Link

def start (a b : Opening) : Link :=
  ⟨a.session, b.session, [], ∅, 0, [], fun _ => [], [⟨0, ∅, [], b.session.computeAck⟩], fun _ => 0,
    [], false⟩

/-- The datagram of a number. -/
def wire (l : Link) (i : ℕ) : Bytes := ((l.log[i]?).bind Sent.datagram).getD []

section Step

variable (hmac4 : Hmac) (cfg : SessionTableConfig)

/-- The message is packed; the numbers used up are logged. -/
def send (l : Link) (ch : U8) (msgId : U16) (payload : Bytes) (now : Instant) : Link :=
  let (a, out, r) := l.a.pack hmac4 cfg ch msgId payload now
  let call : Call := ⟨l.log.length, ch, msgId, payload, l.a.fragGroupId⟩
  { l with
    a
    log := l.log ++ (List.range (a.sendSeq - l.a.sendSeq).toNat).map fun j => ⟨call, out[j]?⟩
    queued := fun qi => l.queued qi ++
      List.range' l.log.length ((a.retrans qi).len - (l.a.retrans qi).len)
    failed := l.failed || (l.a.isActive && !r.toBool) }

/-- A packet reaches `a`; what is popped from its queues leaves `queued`. -/
def receiveA (l : Link) (peer : SocketAddr) (header : DatagramHeader) (frames : List FrameRef)
    (now clock : Instant) : Link :=
  let a := (handlePacket l.a Stats.new peer header frames now clock).session
  { l with
    a
    queued := fun qi => (l.queued qi).drop ((l.a.retrans qi).len - (a.retrans qi).len) }

/-- What is pending under the group id of number `i` is its own group as far as `b` can tell. -/
def Joins (l : Link) (i : ℕ) (c : Call) : Prop :=
  l.b.assembler.Matches c.groupId (c.fragment i).firstSeq (c.fragment i).total

/-- `b` takes the fragment of number `i` into its assembler. -/
def Accepts (l : Link) (i : ℕ) (c : Call) : Prop :=
  l.b.isActive ∧ c.Decodes i ∧ ¬ l.b.Remembers (seqNum i) c.groupId

instance (l : Link) (i : ℕ) (c : Call) : Decidable (l.Joins i c) := by
  unfold Joins; infer_instance

instance (l : Link) (i : ℕ) (c : Call) : Decidable (l.Accepts i c) := by
  unfold Accepts; infer_instance

/-- A datagram reaches `b`. -/
def receiveB (l : Link) (i : ℕ) (c : Call) (bytes : Bytes) (peer : SocketAddr)
    (now clock : Instant) : Link :=
  let rx := l.b.receive cfg Stats.new peer bytes now clock
  let pos := l.pos + (rx.session.ch2Next.getD 0 - l.b.ch2Next.getD 0).toNat
  let received := if l.b.isActive then insert i l.received else l.received
  let seen :=
    if l.b.isActive ∧ c.ch = CH_RELIABLE_UNORDERED ∧ seqNum i ∉ l.b.ch3Seen then
      remember CH3_SEEN_CAP l.seen i
    else l.seen
  { l with
    b := rx.session
    received
    pos
    seen
    acks := l.acks ++ [⟨pos, received, seen, rx.session.computeAck⟩]
    owner := if l.Accepts i c ∧ ¬ l.Joins i c then Function.update l.owner c.groupId c.first
      else l.owner
    events := l.events ++ rx.events }

def step (l : Link) : Action → Link
  | .sendA ch msgId payload now => l.send hmac4 cfg ch msgId payload now
  | .recvA peer header frames now clock => l.receiveA peer header frames now clock
  | .resendA now => { l with a := l.a.maintainReliable now }
  | .idleA now => { l with a := l.a.maintain cfg now }
  | .arrive i peer now clock =>
    match l.log[i]? with
    | some ⟨call, some bytes⟩ => l.receiveB cfg i call bytes peer now clock
    | _ => l
  | .ackB peer header now clock =>
    { l with b := (handlePacket l.b Stats.new peer header [] now clock).session }
  | .sendB ch msgId payload now => { l with b := (l.b.pack hmac4 cfg ch msgId payload now).1 }
  | .resendB now => { l with b := l.b.maintainReliable now }
  | .idleB now => { l with b := l.b.maintain cfg now }

end Step

/-! ## What an action may do -/

/-- A fragment of a message that `b` has delivered is taken in again. -/
def Stale (l : Link) (i : ℕ) (c : Call) : Prop := l.Accepts i c ∧ c.first < l.pos

/-- A fragment is put together with those of another message. -/
def Mixes (l : Link) (i : ℕ) (c : Call) : Prop :=
  l.Accepts i c ∧ l.Joins i c ∧ l.owner c.groupId ≠ c.first

instance (l : Link) (i : ℕ) (c : Call) : Decidable (l.Stale i c) := by
  unfold Stale; infer_instance

instance (l : Link) (i : ℕ) (c : Call) : Decidable (l.Mixes i c) := by
  unfold Mixes; infer_instance

/-- The packet carries an acknowledgement of `b` that is at most 32767 numbers behind `a`, computed
when `b` remembered no Ch3 number from a turn of the number space earlier. -/
def FreshAck (l : Link) (header : DatagramHeader) : Prop :=
  ∃ r ∈ l.acks, (header.ack, header.ackBits) = r.ackPair ∧ l.log.length ≤ r.pos + 32767 ∧
    ∀ i ∈ r.seen, r.pos < i + 65505

/-- Number `i` is less than half of the number space away from the next number of `b`. -/
def Near (l : Link) (i : ℕ) : Prop := l.pos ≤ i + 32768 ∧ i ≤ l.pos + 32766

end Link

end SoupEngine
