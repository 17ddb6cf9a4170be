import SoupEngine.Link.Windowed

/-!
# The Ch2 sliding window

Two active sessions, of which one sends short Ch2 messages. `sliding_window`: whatever the network
does within its bounds, every message that has not been received is still in the retransmit queue.
-/

namespace SoupEngine

open TransitionSystem Release

namespace Link

/-- What is sent are short Ch2 messages, the sessions stay active, a datagram arrives before more
than 2¹⁴ newer numbers are given out, and an acknowledgement before more than 2¹⁴ newer numbers are
delivered. -/
def Bounded (cfg : SessionTableConfig) (l : Link) : Action → Prop
  | .sendA ch _ payload _ => ch = CH_RELIABLE_ORDERED ∧ payload.length ≤ FRAGMENT_THRESHOLD
  | .recvA _ header _ _ _ =>
    ∃ r ∈ l.acks, (header.ack, header.ackBits) = r.ackPair ∧ l.pos ≤ r.pos + 2 ^ 14
  | .arrive i _ _ _ => l.log.length ≤ i + 1 + 2 ^ 14
  | .idleA now => (l.a.maintain cfg now).state = .Active
  | .idleB now => (l.b.maintain cfg now).state = .Active
  | _ => True

/-- What holds while no call has failed. -/
structure InWindow (cfg : SessionTableConfig) (l : Link) (D : Finset ℕ) : Prop where
  sound : Sound cfg l D
  truthful : l.Truthful D
  windowed : l.Windowed
  plain : ∀ (i : ℕ) (e : Sent), l.log[i]? = some e → ¬ e.call.Fragmented
  active : l.a.state = .Active ∧ l.b.state = .Active

variable {hmac4 : Hmac} {cfg : SessionTableConfig} {l : Link} {D : Finset ℕ}

theorem inWindow_start (a b : Opening) : InWindow cfg (start a b) ∅ where
  sound := sound_start a b
  truthful := truthful_start a b
  windowed := windowed_start a b
  plain i e he := by cases he
  active := ⟨rfl, rfl⟩

/-- An active session that handles a packet stays active. -/
theorem active_handlePacket {s : Session} (stats : Stats) (peer : SocketAddr)
    (header : DatagramHeader) (frames : List FrameRef) (now clock : Instant)
    (ha : s.state = .Active) :
    (handlePacket s stats peer header frames now clock).session.state = .Active :=
  (congrArg SenderView.state (handlePacket_sender stats peer header frames now clock ha)).trans ha

theorem active_receive {s : Session} (stats : Stats) (peer : SocketAddr) (bytes : Bytes)
    (now clock : Instant) (ha : s.state = .Active) :
    (s.receive cfg stats peer bytes now clock).session.state = .Active := by
  unfold Session.receive
  cases decode (stripHmac cfg bytes) with
  | error e => exact ha
  | ok d => exact active_handlePacket _ peer d.1 d.2 now clock ha

theorem inStep_of_bounded (h : InWindow cfg l D) {x : Action} (hx : Bounded cfg l x) :
    l.InStep x := by
  have hlag := h.windowed.lag
  have hpos := h.sound.receiving.pos_le
  cases x with
  | sendA ch msgId payload now => exact hx.1
  | recvA peer header frames now clock =>
    obtain ⟨r, hr, hpair, hfar⟩ := hx
    exact ⟨r, hr, hpair, by omega⟩
  | arrive i peer now clock =>
    intro c bytes he
    have hc : ¬ c.Fragmented := h.plain i _ he
    have hi : i < l.log.length := (List.getElem?_eq_some_iff.1 he).1
    have hbound : l.log.length ≤ i + 1 + 2 ^ 14 := hx
    have hnear : l.Near i := ⟨by omega, by omega⟩
    exact ⟨fun _ _ => hnear, fun hs => hc hs.1.2.1.1, fun hm => hc hm.1.2.1.1⟩
  | _ => exact True.intro

theorem active_step (h : InWindow cfg l D) {x : Action} (hx : Bounded cfg l x) :
    (l.step hmac4 cfg x).a.state = .Active ∧ (l.step hmac4 cfg x).b.state = .Active := by
  obtain ⟨ha, hb⟩ := h.active
  cases x with
  | sendA ch msgId payload now =>
    obtain ⟨m, taken, datagram, hs⟩ :=
      send_spec hmac4 cfg h.sound.wired.sendSeq ch msgId payload now ha
    refine ⟨hs.active, ?_⟩
    show (l.send hmac4 cfg ch msgId payload now).b.state = .Active
    rw [hs.same]
    exact hb
  | recvA peer header frames now clock =>
    exact ⟨active_handlePacket _ peer header frames now clock ha, hb⟩
  | resendA now => exact ⟨ha, hb⟩
  | idleA now => exact ⟨hx, hb⟩
  | arrive i peer now clock =>
    rcases arrive_cases hmac4 cfg l i peer now clock with heq | ⟨call, bytes, -, heq⟩
    · rw [heq]
      exact ⟨ha, hb⟩
    · rw [heq]
      exact ⟨ha, active_receive _ peer bytes now clock hb⟩
  | ackB peer header now clock => exact ⟨ha, active_handlePacket _ peer header [] now clock hb⟩
  | sendB ch msgId payload now =>
    have hv := congrArg ReceiverView.state (receiverView_pack hmac4 cfg l.b ch msgId payload now)
    exact ⟨ha, hv.trans hb⟩
  | resendB now => exact ⟨ha, hb⟩
  | idleB now => exact ⟨ha, hx⟩

theorem inWindow_step (h : InWindow cfg l D) {x : Action} (hx : Bounded cfg l x)
    (hfail : (l.step hmac4 cfg x).failed = false) :
    InWindow cfg (l.step hmac4 cfg x) (l.bufferedAfter D x) where
  sound := sound_step hmac4 h.sound (orderly_of_inStep (inStep_of_bounded h hx))
  truthful := truthful_step h.sound h.truthful (orderly_of_inStep (inStep_of_bounded h hx))
  windowed := windowed_step h.sound h.truthful h.windowed (inStep_of_bounded h hx) hfail
  plain := by
    intro i e he
    by_cases hsend : ∀ ch msgId payload now, x ≠ .sendA ch msgId payload now
    · rw [(log_step_of_not_send hmac4 cfg l hsend).1] at he
      exact h.plain i e he
    · push Not at hsend
      obtain ⟨ch, msgId, payload, now, rfl⟩ := hsend
      obtain ⟨m, taken, datagram, hs⟩ :=
        send_spec hmac4 cfg h.sound.wired.sendSeq ch msgId payload now h.active.1
      rcases hs.log_cases he with ⟨-, he⟩ | ⟨j, -, -, rfl⟩
      · exact h.plain i e he
      · exact fun hf => not_lt.2 hx.2 hf.2
  active := active_step h hx

end Link

open Link

/-- **The sliding window.** While no call has failed, every message that `b` has not received is in
the retransmit queue with the bytes it was sent with, the queue holds the newest numbers without a
gap, and `b` waits for a number at most 64 before the next one of `a`. -/
theorem sliding_window (hmac4 : Hmac) (cfg : SessionTableConfig) (a b : Opening) {l : Link}
    (h : Reach (step hmac4 cfg) (Bounded cfg) (start a b) l) (hok : l.failed = false) :
    (∀ (i : ℕ) (e : Sent), l.log[i]? = some e → i ∉ l.received →
        ∃ d, e.datagram = some d ∧ (seqNum i, d) ∈ (l.a.retrans 0).contents) ∧
      (∃ k, k ≤ l.log.length ∧
        (l.a.retrans 0).contents = (List.range' k (l.log.length - k)).map l.tagged) ∧
      l.a.sendSeq = seqNum l.log.length ∧ l.b.ch2Next = some (seqNum l.pos) ∧
      l.pos ≤ l.log.length ∧ l.log.length ≤ l.pos + RETRANSMIT_QUEUE_CAP := by
  have hinv : l.failed = false → ∃ D, InWindow cfg l D := by
    refine h.invariant (I := fun l => l.failed = false → ∃ D, InWindow cfg l D) ?_ ?_
    · exact fun _ => ⟨∅, inWindow_start a b⟩
    · intro l x ih hx hfail
      obtain ⟨D, hD⟩ := ih (failed_of_step hfail)
      exact ⟨_, inWindow_step hD hx hfail⟩
  obtain ⟨D, hD⟩ := hinv hok
  have hw := hD.sound.wired
  have hr := hD.sound.receiving
  obtain ⟨k, hk, hlen, hq⟩ := hD.windowed.queue
  refine ⟨fun i e he hn => ?_, ⟨k, hk.trans hr.pos_le, ?_⟩, hw.sendSeq, hr.window.next, hr.pos_le,
    hD.windowed.lag⟩
  · have hi : i < l.log.length := (List.getElem?_eq_some_iff.1 he).1
    have hlo : l.pos ≤ i := by
      by_contra hlt
      have hm : i ∈ D := mem_of_lt_front (by rw [← hr.front]; omega)
      exact hn (hr.buffered i hm).1
    have hmem : i ∈ l.queued 0 := by
      rw [hq, List.mem_range'_1]
      omega
    obtain ⟨e', he', hsome, -⟩ := hw.queued 0 i hmem
    rw [he] at he'
    cases he'
    obtain ⟨d, hd⟩ := Option.isSome_iff_exists.1 hsome
    refine ⟨d, hd, ?_⟩
    have htag : l.tagged i = (seqNum i, d) := by
      unfold tagged wire
      rw [he]
      show (seqNum i, e.datagram.getD []) = _
      rw [hd]
      rfl
    rw [hw.contents, ← htag]
    exact List.mem_map_of_mem hmem
  · rw [hw.contents, hq]

/-- Of two messages the second arrives; both stay queued, since the first is not confirmed. -/
theorem sliding_window_gap :
    ∃ l, Reach (step (fun _ _ => Vector.replicate 4 0) .default) (Bounded .default)
        (start ⟨1, 1, .V4 0 0, 0, [], 0⟩ ⟨1, 1, .V4 1 0, 0, [], 0⟩) l ∧ l.failed = false ∧
      l.received = {1} ∧ l.queued 0 = [0, 1] ∧ l.log.length ≤ l.pos + RETRANSMIT_QUEUE_CAP := by
  have h0 : Reach (step (fun _ _ => Vector.replicate 4 0) .default) (Bounded .default)
    (start ⟨1, 1, .V4 0 0, 0, [], 0⟩ ⟨1, 1, .V4 1 0, 0, [], 0⟩) _ := .start
  have h1 := h0.next (.sendA 2 7 [1] 0) ⟨rfl, by decide⟩
  have h2 := h1.next (.sendA 2 7 [2] 0) ⟨rfl, by decide⟩
  have h3 := h2.next (.arrive 1 (.V4 0 0) 0 0) (by
    show _ ≤ 1 + 1 + 2 ^ 14
    decide +kernel)
  have h4 := h3.next (.recvA (.V4 1 0) ⟨VERSION, FLAG_PURE_ACK, 1, 0, 0xFFFF, 2⟩ [] 0 0)
    ⟨⟨0, {1}, [], 0xFFFF, 2⟩, by decide +kernel, by decide +kernel, by decide +kernel⟩
  exact ⟨_, h4, by decide +kernel, by decide +kernel, by decide +kernel,
    (sliding_window _ _ _ _ h4 (by decide +kernel)).2.2.2.2.2⟩

end SoupEngine
