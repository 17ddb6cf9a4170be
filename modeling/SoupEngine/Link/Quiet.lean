import SoupEngine.Link.Reception

/-!
# Actions that bring nothing to the receiver

Most actions leave what `b` has received as it is: those of `a`, what `b` sends and how it is
maintained, and a datagram that reaches `b` in the grace period (`quiet_step`, `quiet_arrive`). They
may only drop pending fragment groups and extend the log.
-/

namespace SoupEngine

open BoundedMemory

attribute [local irreducible] remember

namespace Link

/-- Nothing has been received on the way from `l` to `l'`. -/
structure Quiet (l l' : Link) : Prop where
  log : ∀ (i : ℕ) (e : Sent), l.log[i]? = some e → l'.log[i]? = some e
  ch2 : l'.b.ch2View = l.b.ch2View
  ch3Seen : l'.b.ch3Seen = l.b.ch3Seen
  completed : l'.b.assembler.completed = l.b.assembler.completed
  pending : ∀ (g : U16) (st : FragState), l'.b.assembler.pending[g]? = some st →
    l.b.assembler.pending[g]? = some st
  received : l'.received = l.received
  pos : l'.pos = l.pos
  seen : l'.seen = l.seen
  owner : l'.owner = l.owner
  events : ch2Data l'.events = ch2Data l.events

theorem Quiet.refl (l : Link) : Quiet l l :=
  ⟨fun _ _ h => h, rfl, rfl, rfl, fun _ _ h => h, rfl, rfl, rfl, rfl, rfl⟩

/-- An action on `b` that only drops pending groups. -/
theorem quiet_b {l : Link} {b : Session} (h2 : b.ch2View = l.b.ch2View)
    (h3 : b.ch3Seen = l.b.ch3Seen) (hc : b.assembler.completed = l.b.assembler.completed)
    (hp : ∀ (g : U16) (st : FragState), b.assembler.pending[g]? = some st →
      l.b.assembler.pending[g]? = some st) :
    Quiet l { l with b } :=
  ⟨fun _ _ h => h, h2, h3, hc, hp, rfl, rfl, rfl, rfl, rfl⟩

theorem quiet_view {l : Link} {b : Session}
    (h : { b.receiverView with state := l.b.state } = l.b.receiverView) : Quiet l { l with b } :=
  have ha : b.assembler = l.b.assembler := congrArg ReceiverView.assembler h
  quiet_b (congrArg ReceiverView.ch2 h) (congrArg ReceiverView.ch3Seen h) (by rw [ha])
    fun g st hg => by rw [← ha]; exact hg

/-- Packing a message does not touch the receiving side. -/
theorem receiverView_pack (hmac4 : Hmac) (cfg : SessionTableConfig) (s : Session) (ch : U8)
    (msgId : U16) (payload : Bytes) (now : Instant) :
    (s.pack hmac4 cfg ch msgId payload now).1.receiverView = s.receiverView := by
  by_cases ha : s.state = .Active
  · have hs : s.sendSeq = seqNum s.sendSeq.toNat := (SerialNumber.num_toNat s.sendSeq).symm
    obtain ⟨m, taken, s', out, r, hpack, hspec, -⟩ :=
      Session.pack_spec ch msgId payload hmac4 cfg now ha hs
    rw [hpack]
    show s'.receiverView = _
    rw [hspec.frame]
    rfl
  · rw [Session.pack_inactive _ _ _ _ _ _ ha]

/-- A packet without frames at most wakes the session. -/
theorem receiverView_no_frames (s : Session) (stats : Stats) (peer : SocketAddr)
    (header : DatagramHeader) (now clock : Instant) :
    { (handlePacket s stats peer header [] now clock).session.receiverView with state := s.state } =
      s.receiverView := by
  cases hst : s.state with
  | Active =>
    rw [handlePacket_no_frames stats peer header now clock hst]
    unfold Session.receiverView
    rw [hst]
    rfl
  | Grace since =>
    rw [(handlePacket_grace stats peer header [] now clock hst).1]
    unfold Session.receiverView
    rw [hst]
    rfl

theorem receiverView_maintain (cfg : SessionTableConfig) (s : Session) (now : Instant) :
    { (s.maintain cfg now).receiverView with state := s.state } = s.receiverView := by
  unfold Session.maintain
  split_ifs <;> rfl

section

variable {hmac4 : Hmac} {cfg : SessionTableConfig} {l : Link}

theorem quiet_send (hmac4 : Hmac) (h : Wired cfg l) (ch : U8) (msgId : U16) (payload : Bytes)
    (now : Instant) :
    Quiet l (l.send hmac4 cfg ch msgId payload now) := by
  by_cases ha : l.a.state = .Active
  · obtain ⟨m, taken, datagram, hs⟩ := send_spec hmac4 cfg h.sendSeq ch msgId payload now ha
    exact ⟨fun i e he => by rw [hs.log_old (List.getElem?_eq_some_iff.1 he).1, he], rfl, rfl, rfl,
      fun _ _ h => h, rfl, rfl, rfl, rfl, rfl⟩
  · rw [send_inactive ch msgId payload now ha]
    exact Quiet.refl l

/-- **Quiet actions.** Only an arrival brings something to `b`. -/
theorem quiet_step (hmac4 : Hmac) (h : Wired cfg l) {x : Action}
    (hx : ∀ i peer now clock, x ≠ .arrive i peer now clock) : Quiet l (l.step hmac4 cfg x) := by
  cases x with
  | sendA ch msgId payload now => exact quiet_send hmac4 h ch msgId payload now
  | recvA peer header frames now clock =>
    exact ⟨fun _ _ h => h, rfl, rfl, rfl, fun _ _ h => h, rfl, rfl, rfl, rfl, rfl⟩
  | resendA now => exact ⟨fun _ _ h => h, rfl, rfl, rfl, fun _ _ h => h, rfl, rfl, rfl, rfl, rfl⟩
  | idleA now => exact ⟨fun _ _ h => h, rfl, rfl, rfl, fun _ _ h => h, rfl, rfl, rfl, rfl, rfl⟩
  | arrive i peer now clock => exact absurd rfl (hx i peer now clock)
  | ackB peer header now clock =>
    exact quiet_view (receiverView_no_frames l.b _ peer header now clock)
  | sendB ch msgId payload now =>
    have hv := receiverView_pack hmac4 cfg l.b ch msgId payload now
    exact quiet_view (by rw [hv]; rfl)
  | resendB now => exact quiet_b rfl rfl rfl fun g st hg => FragmentAssembler.getElem?_cleanup hg
  | idleB now => exact quiet_view (receiverView_maintain cfg l.b now)

/-- A datagram that reaches `b` in the grace period only wakes it. -/
theorem receiverView_receive_inactive (cfg : SessionTableConfig) {s : Session} (stats : Stats)
    (peer : SocketAddr) (bytes : Bytes) (now clock : Instant) (ha : s.state ≠ .Active) :
    { (s.receive cfg stats peer bytes now clock).session.receiverView with state := s.state } =
        s.receiverView ∧
      ch2Data (s.receive cfg stats peer bytes now clock).events = [] := by
  unfold Session.receive
  cases decode (stripHmac cfg bytes) with
  | error e => exact ⟨rfl, rfl⟩
  | ok d =>
    cases hst : s.state with
    | Active => exact absurd hst ha
    | Grace since =>
      obtain ⟨hs, gap, he⟩ :=
        handlePacket_grace { stats with pktIn := stats.pktIn + 1 } peer d.1 d.2
        now clock hst
      dsimp only
      rw [hs, he]
      refine ⟨?_, rfl⟩
      unfold Session.receiverView
      rw [hst]
      rfl

theorem quiet_receiveB_inactive (ha : l.b.state ≠ .Active) (i : ℕ) (c : Call) (bytes : Bytes)
    (peer : SocketAddr) (now clock : Instant) :
    Quiet l (l.receiveB cfg i c bytes peer now clock) := by
  obtain ⟨hv, he⟩ := receiverView_receive_inactive cfg Stats.new peer bytes now clock ha
  have hact : ¬ l.b.isActive = true := fun h => ha (isActive_iff.1 h)
  have hq := quiet_view hv
  refine ⟨fun _ _ h => h, hq.ch2, hq.ch3Seen, hq.completed, hq.pending, if_neg hact, ?_,
    if_neg fun h => hact h.1, if_neg fun h => hact h.1.1, ?_⟩
  · have hnext := congrArg Ch2View.next hq.ch2
    have hnext' : (l.b.receive cfg Stats.new peer bytes now clock).session.ch2Next = l.b.ch2Next :=
      hnext
    show l.pos + (((l.b.receive cfg Stats.new peer bytes now clock).session.ch2Next.getD 0) -
      l.b.ch2Next.getD 0).toNat = l.pos
    rw [hnext', BitVec.sub_self]
    rfl
  · show ch2Data (l.events ++ _) = _
    rw [ch2Data_append, he, List.append_nil]

end

end Link

end SoupEngine
