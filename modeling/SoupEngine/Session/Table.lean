import SoupEngine.Session.Inbound
import SoupEngine.Session.Outbound

/-!
# The session table

Sessions are addressed by connection id and spread over shards. `handleDatagram` is the way in for
every datagram, `packOutbound` the way out; `maintain` and `maintainReliable` run periodically.
-/

namespace SoupEngine

structure PendingHandshake where
  challenge : Vector U8 8
  created : Instant

/-- The table under a configuration. Shard locks make every operation atomic. -/
structure SessionTable (cfg : SessionTableConfig) where
  shards : Fin (max cfg.shards 1) → Map U32 Session
  pending : Map SocketAddr PendingHandshake
  nextConnId : U64
  nextSessId : U64
  stats : Stats

/-- What handling a datagram returns: the table, the events and the datagrams sent back. -/
structure Handled (cfg : SessionTableConfig) where
  table : SessionTable cfg
  events : List SessionEvent
  sent : List (Bytes × SocketAddr)

inductive HmacResult
  | Ok (data : Bytes)
  | NoHmac
  | Bad
  deriving DecidableEq

/-- `buf_len_hint`. -/
def bufLenHint (frames : List FrameRef) : ℕ :=
  HEADER_LEN + (frames.map fun f => f.body.length + 4).sum

namespace Session

variable (cfg : SessionTableConfig)

/-- `idle_grace_for`. -/
def idleGraceFor (s : Session) : Duration :=
  if !cfg.dynamicTimeouts then cfg.idleGrace
  else if s.rtt.srttMillis = 0 then cfg.timeoutMax
  else min (max (Duration.fromMillis s.rtt.srttMillis.toNat * 30) cfg.timeoutMin) cfg.timeoutMax

/-- `reconnect_grace_for`. -/
def reconnectGraceFor (s : Session) : Duration :=
  if !cfg.dynamicTimeouts then cfg.reconnectGrace
  else if s.rtt.srttMillis = 0 then cfg.reconnectMax
  else min (max (Duration.fromMillis s.rtt.srttMillis.toNat * 120) cfg.reconnectMin)
    cfg.reconnectMax

/-- `maintain` finds an active session idle for too long. -/
def idles (now : Instant) (s : Session) : Bool :=
  s.isActive && decide (s.idleGraceFor cfg ≤ now - s.lastRx)

/-- `maintain` finds a session past its grace period. -/
def expires (now : Instant) (s : Session) : Bool :=
  match s.state with
  | .Active => false
  | .Grace since => decide (s.reconnectGraceFor cfg ≤ now - since)

/-- An idle session enters the grace period. -/
def maintain (now : Instant) (s : Session) : Session :=
  if s.idles cfg now then { s with state := .Grace now } else s

/-- `maintain_reliable` on one session: overdue datagrams are sent again, stale fragment groups
dropped. -/
def maintainReliable (now : Instant) (s : Session) : Session :=
  { s with
    retrans := fun qi => ((s.retrans qi).retransmitDue now s.rtt.rto).1
    assembler := s.assembler.cleanup now }

/-- The datagrams that `maintain_reliable` sends again. -/
def overdue (now : Instant) (s : Session) : List Bytes :=
  ((s.retrans 0).retransmitDue now s.rtt.rto).2.map Prod.snd ++
    ((s.retrans 1).retransmitDue now s.rtt.rto).2.map Prod.snd

/-- What is waiting in a queue is sent again when its time has come. -/
theorem overdue_of_contents {s : Session} {qi : Fin 2} {x : U16 × Bytes}
    (h : x ∈ (s.retrans qi).contents) :
    ∃ now, x.2 ∈ s.overdue now := by
  obtain ⟨p, hp, rfl⟩ := List.mem_map.1 h
  have hdue : (p.seq,
      p.datagram) ∈ ((s.retrans qi).retransmitDue (p.sentAt + s.rtt.rto) s.rtt.rto).2 :=
    List.mem_map.2 ⟨p,
      List.mem_filter.2 ⟨hp, decide_eq_true (Nat.add_sub_cancel_left p.sentAt s.rtt.rto).ge⟩, rfl⟩
  refine ⟨p.sentAt + s.rtt.rto, ?_⟩
  unfold overdue
  fin_cases qi
  · exact List.mem_append_left _ (List.mem_map.2 ⟨_, hdue, rfl⟩)
  · exact List.mem_append_right _ (List.mem_map.2 ⟨_, hdue, rfl⟩)

end Session

namespace SessionTable

variable {cfg : SessionTableConfig}

def new : SessionTable cfg := ⟨fun _ => ∅, ∅, 1, 1, Stats.new⟩

/-- The shard of a connection id. -/
def shard (connId : U32) : Fin (max cfg.shards 1) :=
  ⟨connId.toNat % max cfg.shards 1, Nat.mod_lt _ (lt_of_lt_of_le Nat.one_pos (le_max_right _ _))⟩

def get (t : SessionTable cfg) (connId : U32) : Option Session := (t.shards (shard connId))[connId]?

/-- Store a session under its connection id. -/
def set (t : SessionTable cfg) (connId : U32) (s : Session) : SessionTable cfg :=
  { t with
    shards :=
      Function.update t.shards (shard connId) ((t.shards (shard connId)).insert connId s) }

/-- `stats.pkt_bad.incr()`. -/
def bad (t : SessionTable cfg) : SessionTable cfg := { t with stats := t.stats.incrPktBad }

/-! ## Inbound -/

section Inbound

variable (hmac4 : Hmac)

/-- `verify_hmac`. A datagram without `FLAG_HMAC` is taken as plaintext. -/
def verifyHmac (t : SessionTable cfg) (buf : Bytes) : HmacResult :=
  if ¬ cfg.enableHmac ∨ buf.length < HEADER_LEN then
    .NoHmac
  else if fromLe 8 (slice buf 3 4) &&& (FLAG_HANDSHAKE ||| FLAG_HMAC) ≠ FLAG_HMAC then
    .NoHmac
  else if buf.length < HEADER_LEN + HMAC_LEN then
    .Bad
  else
    match t.get (fromLe 32 (slice buf 4 8)) with
    | none => .Bad
    | some session =>
      let data := buf.take (buf.length - HMAC_LEN)
      let mac := buf.drop (buf.length - HMAC_LEN)
      if mac = (hmac4 (leBytes session.secret) data).toList then .Ok data else .Bad

/-- The answer to a handshake packet. -/
def handshakeReply (connId : U32) (body : Bytes) : Bytes × Except Error ℕ :=
  encode { version := VERSION, flags := FLAG_HANDSHAKE, connId, seq := 0, ack := 0, ackBits := 0 }
    [⟨0, 0, body⟩] []

/-- The third step of the handshake: a right answer to the challenge opens a session. -/
def openSession (t : SessionTable cfg) (peer : SocketAddr) (token : Bytes) (random : Vector U8 8)
    (now : Instant) : Handled cfg :=
  let connId : U32 := t.nextConnId.setWidth 32
  let session := Session.create connId t.nextSessId peer (fromLe 64 random.toList) token now
  { table :=
      { t.set connId session with
        pending := t.pending.erase peer
        nextConnId := t.nextConnId + 1
        nextSessId := t.nextSessId + 1
        stats := { t.stats with sessionsActive := t.stats.sessionsActive + 1 } }
    events := [.Open t.nextSessId peer token]
    sent :=
      match handshakeReply connId random.toList with
      | (out, .ok _) => [(out, peer)]
      | (_, .error _) => [] }

/-- `handle_handshake`; `random` are the eight bytes drawn for a challenge or a secret. -/
def handleHandshake (t : SessionTable cfg) (peer : SocketAddr) (frames : List FrameRef)
    (random : Vector U8 8) (now : Instant) : Handled cfg :=
  match frames.head? with
  | none => ⟨t.bad, [], []⟩
  | some f =>
    let t :=
      { t with
        pending := t.pending.filter fun _ p => decide (now - p.created < cfg.handshakeTimeout) }
    match t.pending[peer]? with
    | some rec =>
      if f.body.length < 8 then ⟨t.bad, [], []⟩
      else if f.body.take 8 ≠ rec.challenge.toList then ⟨t.bad, [], []⟩
      else t.openSession peer (f.body.drop 8) random now
    | none =>
      { table :=
          { t with
            pending := t.pending.insert peer ⟨random, now⟩
            stats := { t.stats with sessionsHandshaking := t.stats.sessionsHandshaking + 1 } }
        events := []
        sent :=
          match handshakeReply 0 random.toList with
          -- no amplification: the answer is not longer than the request
          | (out, .ok _) => if out.length ≤ bufLenHint frames then [(out, peer)] else []
          | (_, .error _) => [] }

/-- `handle_session_packet`. -/
def handleSessionPacket (t : SessionTable cfg) (peer : SocketAddr) (header : DatagramHeader)
    (frames : List FrameRef) (now clock : Instant) : Handled cfg :=
  match t.get header.connId with
  | none => ⟨t.bad, [], []⟩
  | some s =>
    let rx := handlePacket s t.stats peer header frames now clock
    ⟨{ t.set header.connId rx.session with stats := rx.stats }, rx.events, rx.sent⟩

/-- A datagram whose HMAC has been dealt with. -/
def handlePlain (t : SessionTable cfg) (peer : SocketAddr) (buf : Bytes) (random : Vector U8 8)
    (now clock : Instant) : Handled cfg :=
  match decode buf with
  | .error _ => ⟨t.bad, [], []⟩
  | .ok (header, frames) =>
    let t := { t with stats := { t.stats with pktIn := t.stats.pktIn + 1 } }
    if header.flags &&& FLAG_HANDSHAKE ≠ 0 then t.handleHandshake peer frames random now
    else if header.connId = 0 then ⟨t.bad, [], []⟩
    else t.handleSessionPacket peer header frames now clock

/-- `handle_datagram`. `random` and `clock` are what the random number generator and
`Instant::now()` give if they are asked. -/
def handleDatagram (t : SessionTable cfg) (peer : SocketAddr) (buf : Bytes) (random : Vector U8 8)
    (now clock : Instant) : Handled cfg :=
  match t.verifyHmac hmac4 buf with
  | .Bad => ⟨t.bad, [], []⟩
  | .NoHmac => t.handlePlain peer buf random now clock
  | .Ok data => t.handlePlain peer data random now clock

end Inbound

/-! ## Maintenance -/

/-- `maintain`: idle sessions enter the grace period, sessions past it are closed. -/
def maintain (t : SessionTable cfg) (now : Instant) : SessionTable cfg × List SessionEvent :=
  let all := (List.finRange (max cfg.shards 1)).flatMap fun i => (t.shards i).values
  let closing := all.filter (Session.expires cfg now)
  ({ t with
      shards := fun i => ((t.shards i).filter fun _ s => !s.expires cfg now).map fun _ s =>
        s.maintain cfg now
      stats := { t.stats with
        sessionsGrace :=
          t.stats.sessionsGrace + BitVec.ofNat 64 (all.countP (Session.idles cfg now))
        sessionsActive := t.stats.sessionsActive - BitVec.ofNat 64 closing.length } },
    closing.map fun s => .Close s.sessId CLOSE_GRACE_TIMEOUT)

/-- `maintain_reliable`, with the datagrams it sends. -/
def maintainReliable (t : SessionTable cfg) (now : Instant) :
    SessionTable cfg × List (Bytes × SocketAddr) :=
  let sent := (List.finRange (max cfg.shards 1)).flatMap fun i =>
      (t.shards i).values.flatMap fun s =>
    (s.overdue now).map fun bytes => (bytes, s.peer)
  ({ t with
      shards := fun i => (t.shards i).map fun _ s => s.maintainReliable now
      stats := { t.stats with retransmits := t.stats.retransmits + BitVec.ofNat 64 sent.length } },
    sent)

/-! ## Outbound -/

/-- The connection id of the first session with a session id. -/
def findSession (t : SessionTable cfg) (sessId : U64) :
    Option (Fin (max cfg.shards 1) × U32 × Session) :=
  (List.finRange (max cfg.shards 1)).findSome? fun i =>
    ((t.shards i).toList.find? fun e => e.2.sessId = sessId).map fun e => (i, e.1, e.2)

/-- `pack_outbound`; `now` is the reading of `Instant::now()`. -/
def packOutbound (hmac4 : Hmac) (t : SessionTable cfg) (sessId : U64) (ch : U8) (msgId : U16)
    (payload : Bytes) (now : Instant) :
    SessionTable cfg × Except Error (List (Bytes × SocketAddr)) :=
  if 3 < ch then
    (t, .error (.Protocol s!"非法通道 ch={ch.toNat}"))
  else
    match t.findSession sessId with
    | none => (t, .error (.SessionNotFound sessId))
    | some (i, connId, s) =>
      let (s', r) := s.packOutbound hmac4 cfg ch msgId payload now
      let t := { t with shards := Function.update t.shards i ((t.shards i).insert connId s') }
      match r with
      | .error e => (t, .error e)
      | .ok out =>
        ({ t with stats := { t.stats with
            pktOut := t.stats.pktOut + BitVec.ofNat 64 out.length
            pktBytesOut := t.stats.pktBytesOut +
              BitVec.ofNat 64 (out.map fun d => d.1.length).sum } }, .ok out)

end SessionTable

end SoupEngine
