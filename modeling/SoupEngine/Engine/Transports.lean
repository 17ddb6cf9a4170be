import SoupEngine.Session.Population

/-!
# Which transport a datagram leaves by

A TCP or WS connection is known to the session table by a virtual address, everything else is a UDP
address. The three receivers answer by the transport they belong to, `send_outbound` asks the
address, and the maintenance loop sends everything by UDP. `transports_iff`: so the datagrams of a
run leave by the transports of their addresses exactly if the maintenance loop never has anything to
send to a virtual address, and no answer goes to a virtual address that a UDP datagram claims to
come from.
-/

namespace SoupEngine

def HEARTBEAT_INTERVAL : Duration := Duration.fromSecs 1

inductive Transport
  | udp
  | tcp
  | ws
  deriving DecidableEq

/-- `Ipv4Addr::octets`. -/
def octets (ip : U32) : Bytes := (leBytes ip).reverse

namespace Transport

/-- `VIRTUAL_IP` of TCP. -/
def tcpIp : U32 := 0x7F000002

/-- `VIRTUAL_IP` of WS. -/
def wsIp : U32 := 0x7F000003

/-- `tcp::is_virtual_peer`. -/
def isTcpPeer (peer : SocketAddr) : Bool :=
  match peer with
  | .V4 ip _ => decide (octets ip = [127, 0, 0, 2])
  | .V6 .. => false

/-- `ws::is_virtual_peer`. -/
def isWsPeer (peer : SocketAddr) : Bool :=
  match peer with
  | .V4 ip _ => decide (octets ip = [127, 0, 0, 3])
  | .V6 .. => false

/-- The transport that an address belongs to. -/
def owner (peer : SocketAddr) : Transport :=
  if isTcpPeer peer = true then .tcp else if isWsPeer peer = true then .ws else .udp

end Transport

open Transport

/-- A datagram that has been handed to a transport. -/
structure Handed where
  via : Transport
  bytes : Bytes
  peer : SocketAddr

/-- What of the shared state of the engine the senders use. -/
structure Outlets (cfg : SessionTableConfig) where
  sessions : SessionTable cfg
  /-- `tcp_receiver` and `ws_receiver` are there. -/
  tcp : Bool
  ws : Bool
  lastHeartbeat : Instant

inductive OutletAction
  /-- A datagram comes in by UDP, or on the TCP or WS connection with this port. -/
  | recvUdp (peer : SocketAddr) (buf : Bytes) (random : Vector U8 8) (now clock : Instant)
  | recvTcp (port : U16) (buf : Bytes) (random : Vector U8 8) (now clock : Instant)
  | recvWs (port : U16) (buf : Bytes) (random : Vector U8 8) (now clock : Instant)
  /-- `send_outbound`, for a `Send` or one target of a `Multicast`. -/
  | send (sessId : U64) (ch : U8) (msgId : U16) (payload : Bytes) (now clock : Instant)
  | maintain (now : Instant)
  | maintainReliable (now : Instant)
  | heartbeat (now : Instant)
  | kick (sessId : U64)
  | setBudget (sessId : U64) (kbps : U16)
  | shutdown

namespace Session

/-- The heartbeat loop finds an active session that has been silent. -/
def quiet (now : Instant) (s : Session) : Bool :=
  s.isActive && decide (HEARTBEAT_INTERVAL ≤ now - s.lastRx)

/-- The empty datagram of the heartbeat loop. -/
def heartbeat (s : Session) : Bytes × Except Error ℕ :=
  encode ⟨VERSION, 0, s.connId, s.sendSeq, s.computeAck.1, s.computeAck.2⟩ [] []

end Session

namespace Outlets

variable {cfg : SessionTableConfig} (hmac4 : Hmac)

def start (tcp ws : Bool) (now : Instant) : Outlets cfg := ⟨.new, tcp, ws, now⟩

/-- A receive handler: answers leave by the transport of the receiver. -/
def recv (e : Outlets cfg) (via : Transport) (peer : SocketAddr) (buf : Bytes)
    (random : Vector U8 8) (now clock : Instant) : Outlets cfg × List Handed :=
  let r := e.sessions.handleDatagram hmac4 peer buf random now clock
  ({ e with sessions := r.table }, r.sent.map fun d => ⟨via, d.1, d.2⟩)

/-- `send_outbound` on one datagram; without its transport it is dropped. -/
def route (e : Outlets cfg) (d : Bytes × SocketAddr) : Option Handed :=
  if isTcpPeer d.2 = true then
    if e.tcp = true then some ⟨.tcp, d.1, d.2⟩ else none
  else if isWsPeer d.2 = true then
    if e.ws = true then some ⟨.ws, d.1, d.2⟩ else none
  else some ⟨.udp, d.1, d.2⟩

/-- `send_outbound`, without its counters. -/
def sendOutbound (e : Outlets cfg) (sessId : U64) (ch : U8) (msgId : U16) (payload : Bytes)
    (now clock : Instant) : Outlets cfg × List Handed :=
  match e.sessions.packOutbound hmac4 sessId ch msgId payload now with
  | (t, .error _) => ({ e with sessions := t }, [])
  | (t, .ok packets) =>
    let totalBytes : U64 := BitVec.ofNat 64 (packets.map fun d => d.1.length).sum
    let checked := t.checkBudget sessId totalBytes clock
    ({ e with sessions := checked.1 }, if checked.2 = true then packets.filterMap e.route else [])

/-- The second step of the maintenance loop. -/
def maintainReliable (e : Outlets cfg) (now : Instant) : Outlets cfg × List Handed :=
  let r := e.sessions.maintainReliable now
  ({ e with sessions := r.1 }, r.2.map fun d => ⟨.udp, d.1, d.2⟩)

/-- The third step of the maintenance loop. -/
def heartbeat (e : Outlets cfg) (now : Instant) : Outlets cfg × List Handed :=
  if HEARTBEAT_INTERVAL ≤ now - e.lastHeartbeat then
    ({ e with lastHeartbeat := now },
      (e.sessions.sessions.filter (Session.quiet now)).filterMap fun s =>
        match s.heartbeat with
        | (out, .ok _) => some ⟨.udp, out, s.peer⟩
        | (_, .error _) => none)
  else (e, [])

/-- One step, with the datagrams that are handed to a transport. -/
def act (e : Outlets cfg) : OutletAction → Outlets cfg × List Handed
  | .recvUdp peer buf random now clock => e.recv hmac4 .udp peer buf random now clock
  | .recvTcp port buf random now clock =>
    if e.tcp = true then e.recv hmac4 .tcp (.V4 tcpIp port) buf random now clock else (e, [])
  | .recvWs port buf random now clock =>
    if e.ws = true then e.recv hmac4 .ws (.V4 wsIp port) buf random now clock else (e, [])
  | .send sessId ch msgId payload now clock =>
    e.sendOutbound hmac4 sessId ch msgId payload now clock
  | .maintain now => ({ e with sessions := (e.sessions.maintain now).1 }, [])
  | .maintainReliable now => e.maintainReliable now
  | .heartbeat now => e.heartbeat now
  | .kick sessId => ({ e with sessions := (e.sessions.kick sessId).1 }, [])
  | .setBudget sessId kbps => ({ e with sessions := e.sessions.setBudget sessId kbps }, [])
  | .shutdown => ({ e with sessions := e.sessions.shutdownAll.1 }, [])

def run (e : Outlets cfg) (xs : List OutletAction) : Outlets cfg :=
  xs.foldl (fun e x => (e.act hmac4 x).1) e

/-! ## One step -/

/-- A session has this address. -/
def Hosts (e : Outlets cfg) (peer : SocketAddr) : Prop := ∃ s ∈ e.sessions.sessions, s.peer = peer

/-- Every datagram of the step to the address of a session is handed to the transport of the
address. -/
def Routed (e : Outlets cfg) (x : OutletAction) : Prop :=
  ∀ d ∈ (e.act hmac4 x).2, (e.act hmac4 x).1.Hosts d.peer → d.via = owner d.peer

/-- The step sends nothing to a session with a virtual address by UDP: a UDP datagram does not come
from a virtual address, or is not answered, or no session has that address; the sessions with an
overdue datagram, or due for a heartbeat, have UDP addresses. -/
def Proper (e : Outlets cfg) : OutletAction → Prop
  | .recvUdp peer buf random now clock =>
    owner peer = .udp ∨ (e.sessions.handleDatagram hmac4 peer buf random now clock).sent = [] ∨
      ∀ s ∈ (e.sessions.handleDatagram hmac4 peer buf random now clock).table.sessions,
      s.peer ≠ peer
  | .maintainReliable now => ∀ s ∈ e.sessions.sessions, s.overdue now ≠ [] → owner s.peer = .udp
  | .heartbeat now =>
    HEARTBEAT_INTERVAL ≤ now - e.lastHeartbeat →
      ∀ s ∈ e.sessions.sessions, s.quiet now = true → owner s.peer = .udp
  | _ => True

end Outlets

/-! ## Who gets the answers -/

section Sent

variable {header : DatagramHeader} {now : Instant} {peer : SocketAddr}

theorem sent_dispatchFrame (rx : Rx) (f : FrameRef) :
    (dispatchFrame header now rx f).sent = rx.sent := by
  unfold dispatchFrame
  split_ifs <;> rfl

theorem sent_foldl (frames : List FrameRef) (rx : Rx) :
    (frames.foldl (handleFrame header now) rx).sent = rx.sent := by
  induction frames generalizing rx with
  | nil => rfl
  | cons f fs ih =>
    rw [List.foldl_cons, ih]
    unfold handleFrame
    dsimp only
    rw [sent_dispatchFrame]

theorem mem_answerAck {rx : Rx} {d : Bytes × SocketAddr} (hd : d ∈ (answerAck peer rx).sent) :
    d ∈ rx.sent ∨ d.2 = peer := by
  unfold answerAck at hd
  split_ifs at hd
  · split at hd
    · rcases List.mem_append.1 hd with hd | hd
      · exact Or.inl hd
      · exact Or.inr (congrArg Prod.snd (List.mem_singleton.1 hd))
    · exact Or.inl hd
  · exact Or.inl hd

/-- A session answers the address that the packet came from, which it has followed. -/
theorem sent_handlePacket (s : Session) (stats : Stats) (frames : List FrameRef) (clock : Instant) :
    (∀ d ∈ (handlePacket s stats peer header frames now clock).sent, d.2 = peer) := by
  have hfast : ∀ d ∈ ((({ s with peer, lastRx := now } : Session).fastRetransmits header now).map
      fun bytes => (bytes, peer)), d.2 = peer := by
    intro d hd
    obtain ⟨bytes, -, rfl⟩ := List.mem_map.1 hd
    rfl
  intro d hd
  cases hst : s.state with
  | Grace since =>
    unfold handlePacket at hd
    rw [hst] at hd
    exact absurd hd List.not_mem_nil
  | Active =>
    rw [handlePacket_active stats peer header now clock hst] at hd
    unfold handleActive at hd
    rcases mem_answerAck hd with hd | hd
    · rw [sent_foldl] at hd
      exact hfast d hd
    · exact hd

/-- A handshake is answered with at most one reply. -/
theorem sent_handleHandshake {cfg : SessionTableConfig} (t : SessionTable cfg)
    (frames : List FrameRef) (random : Vector U8 8) {d : Bytes × SocketAddr}
    (hd : d ∈ (t.handleHandshake peer frames random now).sent) :
    d.2 = peer ∧ ∃ connId n, SessionTable.handshakeReply connId random.toList = (d.1, .ok n) := by
  unfold SessionTable.handleHandshake at hd
  cases hhead : frames.head? with
  | none =>
    rw [hhead] at hd
    exact absurd hd List.not_mem_nil
  | some f =>
    rw [hhead] at hd
    dsimp only at hd
    split at hd
    · split_ifs at hd
      · exact absurd hd List.not_mem_nil
      · exact absurd hd List.not_mem_nil
      · unfold SessionTable.openSession at hd
        dsimp only at hd
        split at hd
        · rename_i out n hreply
          rw [List.mem_singleton.1 hd]
          exact ⟨rfl, _, n, hreply⟩
        · exact absurd hd List.not_mem_nil
    · dsimp only at hd
      split at hd
      · rename_i out n hreply
        split_ifs at hd
        · rw [List.mem_singleton.1 hd]
          exact ⟨rfl, _, n, hreply⟩
        · exact absurd hd List.not_mem_nil
      · exact absurd hd List.not_mem_nil

/-- All answers to a datagram go back to where it came from. -/
theorem sent_handleDatagram {cfg : SessionTableConfig} (hmac4 : Hmac) (t : SessionTable cfg)
    (buf : Bytes) (random : Vector U8 8) (clock : Instant) {d : Bytes × SocketAddr}
    (hd : d ∈ (t.handleDatagram hmac4 peer buf random now clock).sent) : d.2 = peer := by
  rcases t.handleDatagram_cases hmac4 peer buf random now clock with
    hbad | ⟨data, header, frames, hdec, -, heq⟩
  · rw [hbad] at hd
    exact absurd hd List.not_mem_nil
  rw [heq] at hd
  unfold SessionTable.handlePlain at hd
  rw [hdec] at hd
  dsimp only at hd
  split_ifs at hd with hflag hconn
  · exact (sent_handleHandshake _ frames random hd).1
  · exact absurd hd List.not_mem_nil
  · unfold SessionTable.handleSessionPacket at hd
    split at hd
    · exact absurd hd List.not_mem_nil
    · exact sent_handlePacket _ _ frames clock d hd

end Sent

namespace Outlets

variable {cfg : SessionTableConfig} {hmac4 : Hmac} {e : Outlets cfg}

theorem owner_tcp (port : U16) : owner (.V4 tcpIp port) = .tcp := rfl

theorem owner_ws (port : U16) : owner (.V4 wsIp port) = .ws := rfl

theorem mem_recv {via : Transport} {peer : SocketAddr} {buf : Bytes} {random : Vector U8 8}
    {now clock : Instant} {d : Handed} (hd : d ∈ (e.recv hmac4 via peer buf random now clock).2) :
    d.via = via ∧ d.peer = peer := by
  obtain ⟨d', hd', rfl⟩ := List.mem_map.1 hd
  exact ⟨rfl, sent_handleDatagram hmac4 e.sessions buf random clock hd'⟩

theorem mem_sendOutbound {sessId : U64} {ch : U8} {msgId : U16} {payload : Bytes}
    {now clock : Instant} {d : Handed}
    (hd : d ∈ (e.sendOutbound hmac4 sessId ch msgId payload now clock).2) :
    ∃ packets bytes, (e.sessions.packOutbound hmac4 sessId ch msgId payload now).2 = .ok packets ∧
      (bytes, d.peer) ∈ packets ∧ e.route (bytes, d.peer) = some d := by
  unfold sendOutbound at hd
  rcases hpack : e.sessions.packOutbound hmac4 sessId ch msgId payload now with ⟨t, err | packets⟩
  · rw [hpack] at hd
    exact absurd hd List.not_mem_nil
  · rw [hpack] at hd
    dsimp only at hd
    split_ifs at hd
    · obtain ⟨⟨bytes, peer⟩, hmem, hroute⟩ := List.mem_filterMap.1 hd
      have hpeer : d.peer = peer := by
        unfold route at hroute
        dsimp only at hroute
        split_ifs at hroute
        · rw [← Option.some.inj hroute]
        · rw [← Option.some.inj hroute]
        · rw [← Option.some.inj hroute]
      subst hpeer
      exact ⟨packets, bytes, rfl, hmem, hroute⟩
    · exact absurd hd List.not_mem_nil

/-- `send_outbound` asks the address. -/
theorem via_of_route {d : Bytes × SocketAddr} {h : Handed} (hroute : e.route d = some h) :
    h.via = owner h.peer := by
  unfold route at hroute
  unfold owner
  split_ifs at hroute with h1 h2 h3 h4
  · rw [← Option.some.inj hroute, if_pos h1]
  · rw [← Option.some.inj hroute, if_neg h1, if_pos h3]
  · rw [← Option.some.inj hroute, if_neg h1, if_neg h3]

theorem mem_maintainReliable {now : Instant} {d : Handed} :
    d ∈ (e.maintainReliable now).2 ↔
      ∃ s ∈ e.sessions.sessions, ∃ bytes ∈ s.overdue now, d = ⟨.udp, bytes, s.peer⟩ := by
  unfold maintainReliable SessionTable.maintainReliable SessionTable.sessions
  simp only [List.mem_map, List.mem_flatMap]
  constructor
  · rintro ⟨-, ⟨i, hi, s, hs, bytes, hbytes, rfl⟩, rfl⟩
    exact ⟨s, ⟨i, hi, hs⟩, bytes, hbytes, rfl⟩
  · rintro ⟨s, ⟨i, hi, hs⟩, bytes, hbytes, rfl⟩
    exact ⟨(bytes, s.peer), ⟨i, hi, s, hs, bytes, hbytes, rfl⟩, rfl⟩

theorem mem_heartbeat {now : Instant} {d : Handed} :
    d ∈ (e.heartbeat now).2 ↔ HEARTBEAT_INTERVAL ≤ now - e.lastHeartbeat ∧
      ∃ s ∈ e.sessions.sessions, s.quiet now = true ∧ d = ⟨.udp, s.heartbeat.1, s.peer⟩ := by
  unfold heartbeat
  split_ifs with hdue
  · simp only [hdue, true_and, List.mem_filterMap, List.mem_filter]
    refine exists_congr fun s => ?_
    obtain ⟨n, hn⟩ := encode_no_frames
      (h := ⟨VERSION, 0, s.connId, s.sendSeq, s.computeAck.1, s.computeAck.2⟩) rfl
    have hok : s.heartbeat = (s.heartbeat.1, .ok n) := Prod.ext rfl (congrArg Prod.snd hn)
    rw [hok]
    constructor
    · rintro ⟨⟨hs, hquiet⟩, hd⟩
      exact ⟨hs, hquiet, (Option.some.inj hd).symm⟩
    · rintro ⟨hs, hquiet, rfl⟩
      exact ⟨⟨hs, hquiet⟩, rfl⟩
  · simp only [hdue, false_and, iff_false]
    exact List.not_mem_nil

theorem hosts_maintainReliable {now : Instant} {s : Session} (hs : s ∈ e.sessions.sessions) :
    (e.maintainReliable now).1.Hosts s.peer := by
  refine ⟨s.maintainReliable now, ?_, rfl⟩
  show s.maintainReliable now ∈ (e.sessions.maintainReliable now).1.sessions
  rw [SessionTable.sessions_maintainReliable]
  exact List.mem_map.2 ⟨s, hs, rfl⟩

theorem hosts_heartbeat {now : Instant} {s : Session} (hs : s ∈ e.sessions.sessions) :
    (e.heartbeat now).1.Hosts s.peer := by
  unfold heartbeat
  split_ifs
  · exact ⟨s, hs, rfl⟩
  · exact ⟨s, hs, rfl⟩

/-- **One step.** -/
theorem routed_iff (x : OutletAction) : e.Routed hmac4 x ↔ e.Proper hmac4 x := by
  have hnone {x : OutletAction} (h : (e.act hmac4 x).2 = []) : e.Routed hmac4 x := by
    intro d hd
    rw [h] at hd
    exact absurd hd List.not_mem_nil
  cases x with
  | recvUdp peer buf random now clock =>
    constructor
    · intro h
      rcases hsent : (e.sessions.handleDatagram hmac4 peer buf random now clock).sent with
        _ | ⟨d, ds⟩
      · exact Or.inr (Or.inl hsent)
      by_cases hhosts : (e.act hmac4 (.recvUdp peer buf random now clock)).1.Hosts peer
      · left
        have hd : d ∈ (e.sessions.handleDatagram hmac4 peer buf random now clock).sent := by
          rw [hsent]
          exact List.mem_cons_self
        have hvia := h ⟨.udp, d.1, d.2⟩ (List.mem_map.2 ⟨d, hd, rfl⟩)
        rw [sent_handleDatagram hmac4 e.sessions buf random clock hd] at hvia
        exact (hvia hhosts).symm
      · exact Or.inr (Or.inr fun s hs hpeer => hhosts ⟨s, hs, hpeer⟩)
    · intro h d hd hhosts
      obtain ⟨hvia, hpeer⟩ := mem_recv hd
      rw [hpeer] at hhosts ⊢
      rw [hvia]
      rcases h with h | h | h
      · exact h.symm
      · obtain ⟨d', hd', -⟩ := List.mem_map.1 hd
        rw [h] at hd'
        exact absurd hd' List.not_mem_nil
      · obtain ⟨s, hs, hs'⟩ := hhosts
        exact absurd hs' (h s hs)
  | recvTcp port buf random now clock =>
    refine iff_of_true (fun d hd _ => ?_) trivial
    unfold act at hd
    dsimp only at hd
    split_ifs at hd
    · obtain ⟨hvia, hpeer⟩ := mem_recv hd
      rw [hvia, hpeer, owner_tcp]
    · exact absurd hd List.not_mem_nil
  | recvWs port buf random now clock =>
    refine iff_of_true (fun d hd _ => ?_) trivial
    unfold act at hd
    dsimp only at hd
    split_ifs at hd
    · obtain ⟨hvia, hpeer⟩ := mem_recv hd
      rw [hvia, hpeer, owner_ws]
    · exact absurd hd List.not_mem_nil
  | send sessId ch msgId payload now clock =>
    refine iff_of_true (fun d hd _ => ?_) trivial
    obtain ⟨packets, bytes, -, -, hroute⟩ := mem_sendOutbound hd
    exact via_of_route hroute
  | maintain now => exact iff_of_true (hnone rfl) trivial
  | maintainReliable now =>
    constructor
    · intro h s hs hdue
      obtain ⟨bytes, hbytes⟩ := List.exists_mem_of_ne_nil _ hdue
      exact (h ⟨.udp, bytes, s.peer⟩ (mem_maintainReliable.2 ⟨s, hs, bytes, hbytes, rfl⟩)
        (hosts_maintainReliable hs)).symm
    · intro h d hd _
      obtain ⟨s, hs, bytes, hbytes, rfl⟩ := mem_maintainReliable.1 hd
      exact (h s hs (List.ne_nil_of_mem hbytes)).symm
  | heartbeat now =>
    constructor
    · intro h hdue s hs hquiet
      exact (h ⟨.udp, s.heartbeat.1, s.peer⟩ (mem_heartbeat.2 ⟨hdue, s, hs, hquiet, rfl⟩)
        (hosts_heartbeat hs)).symm
    · intro h d hd _
      obtain ⟨hdue, s, hs, hquiet, rfl⟩ := mem_heartbeat.1 hd
      exact (h hdue s hs hquiet).symm
  | kick sessId => exact iff_of_true (hnone rfl) trivial
  | setBudget sessId kbps => exact iff_of_true (hnone rfl) trivial
  | shutdown => exact iff_of_true (hnone rfl) trivial

/-- **One transport for an address.** In every run, every datagram to the address of a session is
handed to the transport of the address if and only if every step is proper. -/
theorem transports_iff (start : Outlets cfg) (xs : List OutletAction) :
    (∀ before x rest, xs = before ++ x :: rest → (start.run hmac4 before).Routed hmac4 x) ↔
      ∀ before x rest, xs = before ++ x :: rest → (start.run hmac4 before).Proper hmac4 x := by
  constructor
  · intro h before x rest hxs
    exact (routed_iff x).1 (h before x rest hxs)
  · intro h before x rest hxs
    exact (routed_iff x).2 (h before x rest hxs)

/-- A client comes by TCP and is sent a reliable message, which it does not acknowledge. -/
def tcpClient : List OutletAction :=
  ([[], List.replicate 8 0].map fun body =>
    OutletAction.recvTcp 1
      (SoupEngine.encode ⟨VERSION, FLAG_HANDSHAKE, 0, 0, 0, 0⟩ [⟨0, 0, body⟩] []).1
      (Vector.replicate 8 0) 0 0) ++
  [.send 1 CH_RELIABLE_UNORDERED 0 [1] 0 0]

def tcpServed : Outlets plainConfig := (start true false 0).run noHmac tcpClient

/-- The maintenance loop, two seconds later. -/
def tcpMaintained : Outlets plainConfig × List Handed :=
  tcpServed.act noHmac (.maintainReliable (Duration.fromSecs 2))

/-- The retransmit for the TCP session is handed to UDP. -/
theorem tcp_retransmit_by_udp :
    ¬ ∀ before x rest, tcpClient ++ [.maintainReliable (Duration.fromSecs 2)] =
      before ++ x :: rest →
      ((start true false 0 : Outlets plainConfig).run noHmac before).Routed noHmac x := by
  have hsent : tcpMaintained.2.map (fun d => (d.via, d.peer)) = [(.udp, .V4 tcpIp 1)] := by
    decide +kernel
  have hpeers : tcpMaintained.1.sessions.sessions.map Session.peer = [.V4 tcpIp 1] := by
    decide +kernel
  intro h
  have hrouted := h tcpClient _ [] rfl
  obtain ⟨d, hd, heq⟩ : ∃ d ∈ tcpMaintained.2, (d.via, d.peer) = (.udp, .V4 tcpIp 1) := by
    rw [← List.mem_map, hsent]
    exact List.mem_singleton.2 rfl
  obtain ⟨hvia, hpeer⟩ := Prod.mk.inj heq
  have hhosts : tcpMaintained.1.Hosts d.peer := by
    rw [hpeer]
    refine List.mem_map.1 ?_
    rw [hpeers]
    exact List.mem_singleton.2 rfl
  have howner := hrouted d hd hhosts
  rw [hvia, hpeer] at howner
  cases howner

end Outlets

end SoupEngine
