import SoupEngine.Engine.Streams
import SoupEngine.Engine.Transports
import SoupEngine.Session.Completion
import SoupEngine.Session.Readable

/-!
# Everything that is sent

Whatever the engine hands to a transport, in whatever run, is an answer of the handshake, or can be
read by the client of a session with the address it goes to: the connection id is that of the
session, and the HMAC, if there is one, is right (`emission_readable`). It is never longer than the
MTU and an HMAC, and never empty.
-/

namespace SoupEngine

open SessionTable TcpStream

/-- A challenge or a confirmation. -/
def IsAnswer (bytes : Bytes) : Prop :=
  ∃ connId body, body.length = 8 ∧
    decode bytes = .ok (⟨VERSION, FLAG_HANDSHAKE, connId, 0, 0, 0⟩, [⟨0, 0, body⟩])

theorem isAnswer_reply {connId : U32} {random : Vector U8 8} {out : Bytes} {n : ℕ}
    (h : handshakeReply connId random.toList = (out, .ok n)) : IsAnswer out :=
  ⟨connId, random.toList, Vector.length_toList, decode_encode h⟩

section Packet

variable {header : DatagramHeader} {now : Instant} {peer : SocketAddr}

theorem peer_dispatchFrame (rx : Rx) (f : FrameRef) :
    (dispatchFrame header now rx f).session.peer = rx.session.peer := by
  unfold dispatchFrame
  split_ifs
  · rfl
  · rfl
  · rfl
  · show (handleCh2 rx.session header f now rx.events).1.peer = _
    rw [handleCh2_same rx.session header f now rx.events]
  · rfl
  · rfl
  · rfl

theorem peer_foldl (frames : List FrameRef) (rx : Rx) :
    (frames.foldl (handleFrame header now) rx).session.peer = rx.session.peer := by
  induction frames generalizing rx with
  | nil => rfl
  | cons f fs ih =>
    rw [List.foldl_cons, ih]
    exact peer_dispatchFrame _ f

/-- The pure ACK can be read. -/
theorem readable_answerAck {hmac4 : Hmac} {cfg : SessionTableConfig} {connId : U32} {secret : U64}
    {rx : Rx} (h : ∀ d ∈ rx.sent, Readable hmac4 cfg connId secret d.1)
    (hconn : rx.session.connId = connId) :
    ∀ d ∈ (answerAck peer rx).sent, Readable hmac4 cfg connId secret d.1 := by
  intro d hd
  unfold answerAck at hd
  split_ifs at hd
  · obtain ⟨n, hn⟩ := encode_no_frames (h := pureAck rx.session) rfl
    rw [hn] at hd
    dsimp only at hd
    rcases List.mem_append.1 hd with hd | hd
    · exact h d hd
    · rw [List.mem_singleton.1 hd, ← hconn]
      exact readable_empty hmac4 cfg hn
        (show FLAG_PURE_ACK &&& (FLAG_HANDSHAKE ||| FLAG_HMAC) = 0 by decide)
  · exact h d hd

/-- What a packet is answered with can be read. -/
theorem readable_handlePacket {hmac4 : Hmac} {cfg : SessionTableConfig} {s : Session}
    (h : s.Clean hmac4 cfg) (stats : Stats) (frames : List FrameRef) (clock : Instant)
    {d : Bytes × SocketAddr} (hd : d ∈ (handlePacket s stats peer header frames now clock).sent) :
    (handlePacket s stats peer header frames now clock).session.connId = s.connId ∧
      (handlePacket s stats peer header frames now clock).session.secret = s.secret ∧
      (handlePacket s stats peer header frames now clock).session.peer = peer ∧
      Readable hmac4 cfg s.connId s.secret d.1 := by
  cases hst : s.state with
  | Grace since =>
    unfold handlePacket at hd
    rw [hst] at hd
    exact absurd hd List.not_mem_nil
  | Active =>
    have hview := handlePacket_sender stats peer header frames now clock hst
    refine ⟨congrArg SenderView.connId hview, congrArg SenderView.secret hview, ?_, ?_⟩
    · rw [handlePacket_active stats peer header now clock hst]
      unfold handleActive
      rw [(answerAck_fields peer _).1, peer_foldl]
      rfl
    · rw [handlePacket_active stats peer header now clock hst] at hd
      unfold handleActive at hd
      refine readable_answerAck ?_ ?_ d hd
      · -- the fast retransmits come from the queues
        intro d' hd'
        rw [sent_foldl] at hd'
        obtain ⟨bytes, hbytes, rfl⟩ := List.mem_map.1 hd'
        rcases List.mem_append.1 hbytes with hb | hb
        · obtain ⟨seq, hmem⟩ := RetransmitQueue.mem_fastRetransmit hb
          exact h 0 _ hmem
        · obtain ⟨seq, hmem⟩ := RetransmitQueue.mem_fastRetransmit hb
          exact h 1 _ hmem
      · exact congrArg SenderView.connId (foldl_handleFrame_sender header now frames _)

end Packet

/-- The datagram goes to a session of the table, whose client can read it. -/
def Served {cfg : SessionTableConfig} (hmac4 : Hmac) (t : SessionTable cfg) (bytes : Bytes)
    (peer : SocketAddr) :
    Prop :=
  ∃ s ∈ t.sessions, s.peer = peer ∧ Readable hmac4 cfg s.connId s.secret bytes

section Table

variable {cfg : SessionTableConfig} {hmac4 : Hmac} {t : SessionTable cfg}

/-- What a datagram is answered with. -/
theorem served_handleDatagram (h : t.All (Session.Clean hmac4 cfg)) (peer : SocketAddr)
    (buf : Bytes) (random : Vector U8 8) (now clock : Instant) {d : Bytes × SocketAddr}
    (hd : d ∈ (t.handleDatagram hmac4 peer buf random now clock).sent) :
    IsAnswer d.1 ∨
    Served hmac4 (t.handleDatagram hmac4 peer buf random now clock).table d.1 peer := by
  rcases t.handleDatagram_cases hmac4 peer buf random now clock with
    hbad | ⟨data, header, frames, hdec, -, heq⟩
  · rw [hbad] at hd
    exact absurd hd List.not_mem_nil
  rw [heq] at hd ⊢
  unfold SessionTable.handlePlain at hd ⊢
  rw [hdec] at hd ⊢
  dsimp only at hd ⊢
  split_ifs at hd ⊢ with hflag hconn
  · obtain ⟨-, connId, n, hreply⟩ := sent_handleHandshake _ frames random hd
    exact Or.inl (isAnswer_reply hreply)
  · exact absurd hd List.not_mem_nil
  · right
    unfold SessionTable.handleSessionPacket at hd ⊢
    cases hget : SessionTable.get _ header.connId with
    | none =>
      rw [hget] at hd
      exact absurd hd List.not_mem_nil
    | some s =>
      rw [hget] at hd
      dsimp only at hd ⊢
      have hclean : s.Clean hmac4 cfg := h.get (show t.get header.connId = some s from hget)
      obtain ⟨hconn', hsecret, hpeer, hread⟩ := readable_handlePacket hclean _ frames clock hd
      refine ⟨_, mem_sessions.2 ⟨shard header.connId, header.connId, ?_⟩, hpeer, ?_⟩
      · exact get_set _ _ _
      · rw [hconn', hsecret]
        exact hread

/-- Asking the budget leaves the sessions where they are. -/
theorem Served.checkBudget {bytes : Bytes} {peer : SocketAddr} (h : Served hmac4 t bytes peer)
    (sessId : U64) (total : U64) (clock : Instant) :
    Served hmac4 (t.checkBudget sessId total clock).1 bytes peer := by
  obtain ⟨s, hs, hpeer, hread⟩ := h
  obtain ⟨i, c, hget⟩ := mem_sessions.1 hs
  have hslot := act_slot hmac4 t (.checkBudget sessId total clock) i c
  rw [hget] at hslot
  have hkeep {s' : Session}
      (hget' : ((t.act hmac4 (.checkBudget sessId total clock)).1.shards i)[c]? = some s')
      (hconn : s'.connId = s.connId) (hsecret : s'.secret = s.secret) (hpeer' : s'.peer = s.peer) :
      Served hmac4 (t.checkBudget sessId total clock).1 bytes peer := by
    refine ⟨s', mem_sessions.2 ⟨i, c, hget'⟩, hpeer'.trans hpeer, ?_⟩
    rw [hconn, hsecret]
    exact hread
  generalize ho : ((t.act hmac4 (.checkBudget sessId total clock)).1.shards i)[c]? =
    o at hslot hkeep
  cases hslot with
  | same => exact hkeep rfl rfl rfl rfl
  | checkBudget =>
    refine hkeep rfl ?_ ?_ ?_
    all_goals
      unfold Session.checkBudget
      split
      · rfl
      · dsimp only
        split_ifs <;> rfl

/-- What is packed goes to the session that it is for, also after the budget has been asked. -/
theorem served_packOutbound (h : t.All (Session.Clean hmac4 cfg)) (sessId : U64) (ch : U8)
    (msgId : U16) (payload : Bytes) (now clock : Instant) (total : U64)
    {packets : List (Bytes × SocketAddr)}
    (hpack : (t.packOutbound hmac4 sessId ch msgId payload now).2 = .ok packets)
    {d : Bytes × SocketAddr} (hd : d ∈ packets) :
    Served hmac4
      ((t.packOutbound hmac4 sessId ch msgId payload now).1.checkBudget sessId total clock).1 d.1
      d.2 := by
  unfold SessionTable.packOutbound at hpack ⊢
  split_ifs at hpack ⊢ with hch
  cases hfind : t.findSession sessId with
  | none =>
    rw [hfind] at hpack
    cases hpack
  | some e =>
    obtain ⟨i, c, s⟩ := e
    rw [hfind] at hpack
    dsimp only at hpack ⊢
    obtain ⟨hget, -⟩ := mem_of_findSession hfind
    obtain ⟨-, hconn, hsecret, hpeer, hread⟩ := (h i c s hget).pack ch msgId payload now
    have hfst : (s.packOutbound hmac4 cfg ch msgId payload now).1 =
      (s.pack hmac4 cfg ch msgId payload now).1 := rfl
    cases hr : (s.packOutbound hmac4 cfg ch msgId payload now).2 with
    | error e =>
      rw [hr] at hpack
      cases hpack
    | ok out =>
      rw [hr] at hpack
      dsimp only at hpack ⊢
      cases hpack
      apply Served.checkBudget
      have hout : packets = (s.pack hmac4 cfg ch msgId payload now).2.1.map fun bytes =>
          (bytes, s.peer) := by
        unfold Session.packOutbound at hr
        dsimp only at hr
        cases hres : (s.pack hmac4 cfg ch msgId payload now).2.2 with
        | error e =>
          rw [hres] at hr
          cases hr
        | ok u =>
          rw [hres] at hr
          exact (Except.ok.inj hr).symm
      rw [hout] at hd
      obtain ⟨bytes, hbytes, rfl⟩ := List.mem_map.1 hd
      refine ⟨(s.pack hmac4 cfg ch msgId payload now).1, mem_sessions.2 ⟨i, c, ?_⟩, hpeer, ?_⟩
      · show (Function.update t.shards i ((t.shards i).insert c _) i)[c]? = _
        rw [get_insert, if_pos ⟨rfl, rfl⟩]
        rfl
      · rw [hconn, hsecret]
        exact hread bytes hbytes

end Table

namespace Outlets

variable {cfg : SessionTableConfig} {hmac4 : Hmac} {e : Outlets cfg}

/-- What waits in the retransmit queues can be read. -/
def Clean (hmac4 : Hmac) (e : Outlets cfg) : Prop := e.sessions.All (Session.Clean hmac4 cfg)

theorem Clean.act (h : e.Clean hmac4) (x : OutletAction) : (e.act hmac4 x).1.Clean hmac4 := by
  have hrecv (via : Transport) (peer : SocketAddr) (buf : Bytes) (random : Vector U8 8)
      (now clock : Instant) :
      (e.recv hmac4 via peer buf random now clock).1.Clean hmac4 :=
    clean_act h (.datagram peer buf random now clock)
  cases x with
  | recvUdp peer buf random now clock => exact hrecv .udp peer buf random now clock
  | recvTcp port buf random now clock =>
    unfold Outlets.act
    dsimp only
    split_ifs
    · exact hrecv .tcp _ buf random now clock
    · exact h
  | recvWs port buf random now clock =>
    unfold Outlets.act
    dsimp only
    split_ifs
    · exact hrecv .ws _ buf random now clock
    · exact h
  | send sessId ch msgId payload now clock =>
    have hpacked : (e.sessions.packOutbound hmac4 sessId ch msgId payload now).1.All
        (Session.Clean hmac4 cfg) :=
      clean_act h (.packOutbound sessId ch msgId payload now)
    show (e.sendOutbound hmac4 sessId ch msgId payload now clock).1.Clean hmac4
    unfold sendOutbound
    rcases heq : e.sessions.packOutbound hmac4 sessId ch msgId payload now with ⟨t, err | packets⟩
    · rw [heq] at hpacked
      exact hpacked
    · rw [heq] at hpacked
      exact clean_act hpacked (.checkBudget sessId _ clock)
  | maintain now => exact clean_act h (.maintain now)
  | maintainReliable now => exact clean_act h (.maintainReliable now)
  | heartbeat now =>
    show (e.heartbeat now).1.Clean hmac4
    unfold heartbeat
    split_ifs
    · exact h
    · exact h
  | kick sessId => exact clean_act h (.kick sessId)
  | setBudget sessId kbps => exact clean_act h (.setBudget sessId kbps)
  | shutdown => exact clean_act h .shutdownAll

theorem clean_run (h : e.Clean hmac4) (xs : List OutletAction) : (e.run hmac4 xs).Clean hmac4 := by
  unfold run
  induction xs generalizing e with
  | nil => exact h
  | cons x xs ih => exact ih (h.act x)

/-- **One step.** -/
theorem Clean.served (h : e.Clean hmac4) {x : OutletAction} {d : Handed}
    (hd : d ∈ (e.act hmac4 x).2) :
    IsAnswer d.bytes ∨ Served hmac4 (e.act hmac4 x).1.sessions d.bytes d.peer := by
  have hrecv {via : Transport} {peer : SocketAddr} {buf : Bytes} {random : Vector U8 8}
      {now clock : Instant} (hd : d ∈ (e.recv hmac4 via peer buf random now clock).2) :
      IsAnswer d.bytes ∨
      Served hmac4 (e.recv hmac4 via peer buf random now clock).1.sessions d.bytes d.peer := by
    obtain ⟨-, hpeer⟩ := mem_recv hd
    obtain ⟨d', hd', rfl⟩ := List.mem_map.1 hd
    dsimp only at hpeer ⊢
    rw [hpeer]
    exact served_handleDatagram h peer buf random now clock hd'
  cases x with
  | recvUdp peer buf random now clock => exact hrecv hd
  | recvTcp port buf random now clock =>
    unfold Outlets.act at hd ⊢
    dsimp only at hd ⊢
    split_ifs at hd ⊢
    · exact hrecv hd
    · exact absurd hd List.not_mem_nil
  | recvWs port buf random now clock =>
    unfold Outlets.act at hd ⊢
    dsimp only at hd ⊢
    split_ifs at hd ⊢
    · exact hrecv hd
    · exact absurd hd List.not_mem_nil
  | send sessId ch msgId payload now clock =>
    right
    obtain ⟨packets, bytes, hpack, hmem, hroute⟩ := mem_sendOutbound hd
    have hserved := served_packOutbound h sessId ch msgId payload now clock
      (BitVec.ofNat 64 (packets.map fun d => d.1.length).sum) hpack hmem
    have hbytes : d.bytes = bytes := by
      unfold route at hroute
      split_ifs at hroute
      · rw [← Option.some.inj hroute]
      · rw [← Option.some.inj hroute]
      · rw [← Option.some.inj hroute]
    show Served hmac4 (e.sendOutbound hmac4 sessId ch msgId payload now clock).1.sessions
      d.bytes d.peer
    unfold sendOutbound
    rcases heq : e.sessions.packOutbound hmac4 sessId ch msgId payload now with ⟨t, r⟩
    rw [heq] at hpack hserved
    dsimp only at hpack
    rw [hpack, hbytes]
    exact hserved
  | maintainReliable now =>
    right
    obtain ⟨s, hs, bytes, hbytes, rfl⟩ := mem_maintainReliable.1 hd
    refine ⟨s.maintainReliable now, ?_, rfl, ?_⟩
    · show s.maintainReliable now ∈ (e.sessions.maintainReliable now).1.sessions
      rw [sessions_maintainReliable]
      exact List.mem_map.2 ⟨s, hs, rfl⟩
    · have hclean : s.Clean hmac4 cfg := SessionTable.All.sessions h hs
      rcases List.mem_append.1 hbytes with hb | hb
      · obtain ⟨y, hy, rfl⟩ := List.mem_map.1 hb
        exact hclean 0 y (RetransmitQueue.mem_retransmitDue hy)
      · obtain ⟨y, hy, rfl⟩ := List.mem_map.1 hb
        exact hclean 1 y (RetransmitQueue.mem_retransmitDue hy)
  | heartbeat now =>
    right
    obtain ⟨hdue, s, hs, -, rfl⟩ := mem_heartbeat.1 hd
    have hsame : (e.act hmac4 (.heartbeat now)).1.sessions = e.sessions := by
      show (e.heartbeat now).1.sessions = _
      unfold heartbeat
      rw [if_pos hdue]
    rw [hsame]
    refine ⟨s, hs, rfl, ?_⟩
    obtain ⟨n, hn⟩ :=
      encode_no_frames (h := ⟨VERSION, 0, s.connId, s.sendSeq, s.computeAck.1, s.computeAck.2⟩) rfl
    unfold Session.heartbeat
    rw [hn]
    exact readable_empty hmac4 cfg hn
      (show (0 : U8) &&& (FLAG_HANDSHAKE ||| FLAG_HMAC) = 0 by decide)
  | maintain now => exact absurd hd List.not_mem_nil
  | kick sessId => exact absurd hd List.not_mem_nil
  | setBudget sessId kbps => exact absurd hd List.not_mem_nil
  | shutdown => exact absurd hd List.not_mem_nil

/-- **Everything that is sent.** In every run, what is handed to a transport is an answer of the
handshake, or goes to the address of a session and is read by every table that holds a session with
its connection id and its secret. It has a length that the read loop of a stream takes, and is not
longer than the MTU and an HMAC. -/
theorem emission_readable (hmac4 : Hmac) (tcp ws : Bool) (now : Instant) (xs : List OutletAction)
    (x : OutletAction) :
    ∀ d ∈ (((start tcp ws now : Outlets cfg).run hmac4 xs).act hmac4 x).2,
      (IsAnswer d.bytes ∨
        ∃ s ∈ (((start tcp ws now : Outlets cfg).run hmac4 xs).act hmac4 x).1.sessions.sessions,
          s.peer = d.peer ∧
          ∀ (t : SessionTable cfg) (c : Session), t.get s.connId = some c → c.secret = s.secret →
            ∃ header frames, t.reads hmac4 d.bytes = some (header, frames) ∧
              header.connId = s.connId ∧
              header.flags &&& FLAG_HANDSHAKE = 0) ∧
        Legal d.bytes.length ∧ d.bytes.length ≤ MTU + HMAC_LEN := by
  intro d hd
  have hstart : (start tcp ws now : Outlets cfg).Clean hmac4 := all_new
  have hclean := clean_run hstart xs
  have hM : MTU = 1200 := rfl
  have hH : HEADER_LEN = 16 := rfl
  have hL : HMAC_LEN = 4 := rfl
  have hlegal {n : ℕ} (hlo : HEADER_LEN ≤ n) (hhi : n ≤ MTU + HMAC_LEN) : Legal n := by
    unfold Legal
    omega
  rcases hclean.served hd with hanswer | ⟨s, hs, hpeer, hread⟩
  · have hanswer' := hanswer
    obtain ⟨connId, body, -, hdec⟩ := hanswer'
    have hlen := length_of_decode hdec
    exact ⟨Or.inl hanswer, hlegal hlen.1 (by omega), by omega⟩
  · have hlen := hread.length
    exact ⟨Or.inr ⟨s, hs, hpeer, fun t c hget hc => hread.reads hget hc⟩,
      hlegal hlen.1 hlen.2, hlen.2⟩

/-- A message to a client that has come by TCP. -/
theorem emission_readable_tcp : ∃ d : Handed, d.via = .tcp ∧ Legal d.bytes.length ∧
    (IsAnswer d.bytes ∨
    ∃ s : Session, s.peer = d.peer ∧ ∀ (t : SessionTable plainConfig) (c : Session),
      t.get s.connId = some c →
      c.secret = s.secret → ∃ header frames, t.reads noHmac d.bytes = some (header, frames) ∧
        header.connId = s.connId ∧ header.flags &&& FLAG_HANDSHAKE = 0) := by
  have hvias :
      (((start true false 0 : Outlets plainConfig).run noHmac (tcpClient.take 2)).act noHmac
      (.send 1 CH_RELIABLE_UNORDERED 0 [1] 0 0)).2.map Handed.via = [.tcp] := by
    decide +kernel
  obtain ⟨d, hd, hvia⟩ := List.mem_map.1 (hvias ▸ List.mem_singleton_self Transport.tcp)
  obtain ⟨hall, hlegal, -⟩ := emission_readable noHmac true false 0 (tcpClient.take 2)
    (.send 1 CH_RELIABLE_UNORDERED 0 [1] 0 0) d hd
  refine ⟨d, hvia, hlegal, hall.imp_right ?_⟩
  rintro ⟨s, -, hs⟩
  exact ⟨s, hs⟩

end Outlets

end SoupEngine
