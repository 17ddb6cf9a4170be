import SoupEngine.Lib.Fifo
import SoupEngine.Lib.Simulation
import SoupEngine.Link.SlidingWindow

/-!
# The Ch2 link as a channel

As long as no call fails, the link of two active sessions, of which one sends short Ch2 messages, is
a channel for 64 messages that keeps the order, whatever the network does within the bounds of the
sliding window (`link_refines_channel`). It never gets stuck: the datagrams that are still missing,
in any order and however often, deliver everything that has been sent, and then one acknowledgement
empties the retransmit queue (`link_flushes`).
-/

namespace SoupEngine

open TransitionSystem Release Relation

namespace Link

/-- A step within the bounds, in which no call fails. -/
def Flowing (hmac4 : Hmac) (cfg : SessionTableConfig) (l : Link) (x : Action) : Prop :=
  Bounded cfg l x ∧ (l.step hmac4 cfg x).failed = false

/-- The messages that `a` has taken. -/
def messages (l : Link) : List (U16 × Bytes) := l.log.map fun e => (e.call.msgId, e.call.payload)

/-- The link as a channel. -/
structure Carries (cfg : SessionTableConfig) (l : Link)
    (c : Fifo.Channel RETRANSMIT_QUEUE_CAP (U16 × Bytes)) : Prop where
  within : ∃ D, InWindow cfg l D
  sound : l.failed = false
  sent : c.sent = l.messages
  count : c.count = l.pos

variable {hmac4 : Hmac} {cfg : SessionTableConfig} {l : Link} {D : Finset ℕ}
  {c : Fifo.Channel RETRANSMIT_QUEUE_CAP (U16 × Bytes)}

theorem length_messages (l : Link) : l.messages.length = l.log.length := List.length_map _

/-- A number stands for its message. -/
theorem InWindow.slot_eq (h : InWindow cfg l D) {i : ℕ} (hi : i < l.pos) :
    l.messages[i]? = some (l.slot i) ∧ l.slot i ≠ placeholder := by
  have hw := h.sound.wired
  have hR := h.sound.receiving
  have hD : i ∈ D := mem_of_lt_front (by rw [← hR.front]; exact hi)
  obtain ⟨e, he, hsome⟩ := hR.logged i (hR.buffered i hD).1
  have hplain := h.plain i e he
  have hfirst : i = e.call.first := by
    obtain ⟨hle, hlt, -⟩ := hw.number i e he
    have hone : e.call.count = 1 := if_neg hplain
    omega
  have hslot : l.slot i = (e.call.msgId, e.call.payload) := by
    rw [slot_of_log he]
    unfold Call.slot Call.reassembled
    rw [if_pos hfirst, if_neg hplain]
  obtain ⟨bytes, hb⟩ := Option.isSome_iff_exists.1 hsome
  obtain ⟨header, hcar⟩ := hw.carried i e bytes he hb
  refine ⟨?_, fun hp => ?_⟩
  · unfold messages
    rw [List.getElem?_map, he, Option.map_some, hslot]
  · -- no message has the id of a placeholder
    have hid : e.call.msgId ≤ 0x0FFF := hcar.valid.2
    rw [hslot] at hp
    rw [show e.call.msgId = 0xFFFF from congrArg Prod.fst hp] at hid
    exact absurd hid (by decide)

/-- What `b` has delivered are the first messages. -/
theorem InWindow.events_eq (h : InWindow cfg l D) : ch2Data l.events = l.messages.take l.pos := by
  have hR := h.sound.receiving
  rw [hR.events]
  unfold delivered
  rw [Nat.sub_zero, ← List.range_eq_range', List.filter_eq_self.2]
  · refine List.ext_getElem? fun i => ?_
    rw [List.getElem?_map]
    by_cases hi : i < l.pos
    · rw [List.getElem?_range hi, Option.map_some, List.getElem?_take_of_lt hi, (h.slot_eq hi).1]
    · rw [List.getElem?_eq_none (by rw [List.length_range]; omega), Option.map_none,
        List.getElem?_eq_none (by rw [List.length_take]; omega)]
  · intro e he
    obtain ⟨i, hi, rfl⟩ := List.mem_map.1 he
    exact decide_eq_true (h.slot_eq (List.mem_range.1 hi)).2

theorem Carries.delivered (h : Carries cfg l c) : Fifo.delivered c = ch2Data l.events := by
  obtain ⟨D, hD⟩ := h.within
  unfold Fifo.delivered
  rw [h.sent, h.count, hD.events_eq]

/-- `b` takes nothing back. -/
theorem pos_le_step (hmac4 : Hmac) (cfg : SessionTableConfig) (l : Link) (x : Action) :
    l.pos ≤ (l.step hmac4 cfg x).pos := by
  cases x with
  | arrive i peer now clock =>
    rcases arrive_cases hmac4 cfg l i peer now clock with heq | ⟨call, bytes, -, heq⟩
    · rw [heq]
    · rw [heq]
      exact Nat.le_add_right _ _
  | _ => exact le_rfl

/-- A state that the invariant allows is that of a channel. -/
theorem InWindow.carries (h : InWindow cfg l D) (hok : l.failed = false) : ∃ c, Carries cfg l c :=
  ⟨⟨l.messages, l.pos, h.sound.receiving.pos_le.trans (length_messages l).ge,
    (length_messages l).le.trans h.windowed.lag⟩, ⟨D, h⟩, hok, rfl, rfl⟩

/-- **The simulation.** -/
theorem channel_simulation (hmac4 : Hmac) (cfg : SessionTableConfig) (a b : Opening) :
    Simulation (step hmac4 cfg) (Flowing hmac4 cfg) (start a b) Fifo.Step Fifo.empty
      (Carries cfg) where
  start := ⟨⟨∅, inWindow_start a b⟩, rfl, rfl, rfl⟩
  step l x c h hx := by
    obtain ⟨D, hD⟩ := h.within
    have hD' : InWindow cfg (l.step hmac4 cfg x) (l.bufferedAfter D x) := inWindow_step hD hx.1 hx.2
    obtain ⟨c', hc'⟩ := hD'.carries hx.2
    refine ⟨c', ?_, hc'⟩
    have hcount : c.count ≤ c'.count := by
      rw [h.count, hc'.count]
      exact pos_le_step hmac4 cfg l x
    by_cases hsend : ∀ ch msgId payload now, x ≠ .sendA ch msgId payload now
    · refine .single (.deliver c c' ?_ hcount)
      rw [h.sent, hc'.sent]
      unfold messages
      rw [(log_step_of_not_send hmac4 cfg l hsend).1]
    · push Not at hsend
      obtain ⟨ch, msgId, payload, now, rfl⟩ := hsend
      obtain ⟨m, taken, datagram, hs⟩ :=
        send_spec hmac4 cfg hD.sound.wired.sendSeq ch msgId payload now hD.active.1
      -- the call has not failed, so that it has used one number
      have hone : taken = 1 := by
        rcases hs.outcome with ⟨hm, rfl, -⟩ | ⟨-, -, hbad, -⟩
        · rw [hm]
          exact if_neg fun hf => not_lt.2 hx.1.2 hf.2
        · rw [show (l.send hmac4 cfg ch msgId payload now).failed = false from hx.2] at hbad
          cases hbad
      refine .single (.send c c' (msgId, payload) ?_ ?_)
      · rw [h.sent, hc'.sent]
        show (l.send hmac4 cfg ch msgId payload now).messages = _
        unfold messages
        rw [hs.log, List.map_append, hone]
        rfl
      · rw [h.count, hc'.count]
        show (l.send hmac4 cfg ch msgId payload now).pos = l.pos
        rw [hs.same]

end Link

open Link

/-- **The link refines a channel.** In every run within the bounds the link stands for a state of a
channel for 64 messages that keeps the order: what it has been sent are the messages that `a` has
taken, and what it has delivered is what `b` has reported; every further step is one of the
channel. -/
theorem link_refines_channel (hmac4 : Hmac) (cfg : SessionTableConfig) (a b : Opening) {l : Link}
    (h : Reach (step hmac4 cfg) (Flowing hmac4 cfg) (start a b) l) :
    ∃ c : Fifo.Channel RETRANSMIT_QUEUE_CAP (U16 × Bytes), ReflTransGen Fifo.Step Fifo.empty c ∧
      c.sent = l.messages ∧ Fifo.delivered c = ch2Data l.events ∧
      ∀ x, Flowing hmac4 cfg l x → ∃ c', ReflTransGen Fifo.Step c c' ∧
        c'.sent = (l.step hmac4 cfg x).messages ∧
        Fifo.delivered c' = ch2Data (l.step hmac4 cfg x).events := by
  obtain ⟨c, hrun, hc⟩ := (channel_simulation hmac4 cfg a b).run h
  refine ⟨c, hrun, hc.sent, hc.delivered, fun x hx => ?_⟩
  obtain ⟨c', hstep, hc'⟩ := (channel_simulation hmac4 cfg a b).step l x c hc hx
  exact ⟨c', hstep, hc'.sent, hc'.delivered⟩

/-- Of two messages the second arrives: the channel holds both and has delivered none. -/
theorem link_refines_channel_gap :
    ∃ c : Fifo.Channel RETRANSMIT_QUEUE_CAP (U16 × Bytes), ReflTransGen Fifo.Step Fifo.empty c ∧
      c.sent = [(7, [1]), (7, [2])] ∧ Fifo.delivered c = [] := by
  have h0 : Reach (step (fun _ _ => Vector.replicate 4 0) .default)
    (Flowing (fun _ _ => Vector.replicate 4 0) .default)
    (start ⟨1, 1, .V4 0 0, 0, [], 0⟩ ⟨1, 1, .V4 1 0, 0, [], 0⟩) _ := .start
  have h1 := h0.next (.sendA 2 7 [1] 0) ⟨⟨rfl, by decide⟩, by decide +kernel⟩
  have h2 := h1.next (.sendA 2 7 [2] 0) ⟨⟨rfl, by decide⟩, by decide +kernel⟩
  have h3 := h2.next (.arrive 1 (.V4 0 0) 0 0) ⟨by
    show _ ≤ 1 + 1 + 2 ^ 14
    decide +kernel, by decide +kernel⟩
  obtain ⟨c, hrun, hsent, hdelivered, -⟩ := link_refines_channel _ _ _ _ h3
  refine ⟨c, hrun, hsent.trans ?_, hdelivered.trans ?_⟩
  · decide +kernel
  · decide +kernel

/-! ## Nothing gets stuck -/

namespace Link

variable {hmac4 : Hmac} {cfg : SessionTableConfig} {l : Link} {D : Finset ℕ}

/-- Every number has a datagram. -/
theorem InWindow.datagram (h : InWindow cfg l D) {i : ℕ} (hi : i < l.log.length) :
    ∃ e bytes, l.log[i]? = some ⟨e, some bytes⟩ := by
  obtain ⟨e, he, hsome⟩ : ∃ e : Sent, l.log[i]? = some e ∧ e.datagram.isSome := by
    by_cases hpos : i < l.pos
    · have hD : i ∈ D := mem_of_lt_front (by rw [← h.sound.receiving.front]; exact hpos)
      exact h.sound.receiving.logged i (h.sound.receiving.buffered i hD).1
    · obtain ⟨k, hk, -, hq⟩ := h.windowed.queue
      have hmem : i ∈ l.queued 0 := by
        rw [hq, List.mem_range'_1]
        omega
      obtain ⟨e, he, hsome, -⟩ := h.sound.wired.queued 0 i hmem
      exact ⟨e, he, hsome⟩
  obtain ⟨bytes, hb⟩ := Option.isSome_iff_exists.1 hsome
  refine ⟨e.call, bytes, ?_⟩
  rw [he, ← hb]

/-- A number and the datagram's way: from where and when it arrives. -/
abbrev Arrival := ℕ × SocketAddr × Instant × Instant

def arrival (j : Arrival) : Action := .arrive j.1 j.2.1 j.2.2.1 j.2.2.2

/-- Number `i` may arrive. -/
def Timely (l : Link) (i : ℕ) : Prop := i < l.log.length ∧ l.log.length ≤ i + 1 + 2 ^ 14

/-- An arrival buffers its number and changes nothing on the other side. -/
theorem InWindow.arrive (h : InWindow cfg l D) (hok : l.failed = false) {j : Arrival}
    (hj : l.Timely j.1) :
    InWindow cfg (l.step hmac4 cfg (arrival j)) (insert j.1 D) ∧
      (l.step hmac4 cfg (arrival j)).failed = false ∧
      (l.step hmac4 cfg (arrival j)).log = l.log := by
  obtain ⟨c, bytes, he⟩ := h.datagram hj.1
  have hstep : l.step hmac4 cfg (arrival j) = l.receiveB cfg j.1 c bytes j.2.1 j.2.2.1 j.2.2.2 := by
    unfold arrival step
    dsimp only
    rw [he]
  have hfail : (l.step hmac4 cfg (arrival j)).failed = false := by
    rw [hstep]
    exact hok
  have hgrown : l.bufferedAfter D (arrival j) = insert j.1 D := by
    have hactive : l.b.isActive = true := isActive_iff.2 h.active.2
    have hch : c.ch = CH_RELIABLE_ORDERED := h.windowed.ordered _ _ he
    unfold arrival
    rw [bufferedAfter_of_log he]
    unfold grown
    rw [if_neg, if_pos (h.plain _ _ he)]
    rintro (hdead | hother)
    · rw [hactive] at hdead
      cases hdead
    · exact hother hch
  have hnext : InWindow cfg (l.step hmac4 cfg (arrival j)) (l.bufferedAfter D (arrival j)) :=
    inWindow_step h hj.2 hfail
  rw [hgrown] at hnext
  refine ⟨hnext, hfail, ?_⟩
  rw [hstep]
  rfl

theorem InWindow.arrivals (h : InWindow cfg l D) (hok : l.failed = false) {js : List Arrival}
    (hjs : ∀ j ∈ js, l.Timely j.1) :
    InWindow cfg ((js.map arrival).foldl (step hmac4 cfg) l) (D ∪ (js.map Prod.fst).toFinset) ∧
      ((js.map arrival).foldl (step hmac4 cfg) l).failed = false ∧
      ((js.map arrival).foldl (step hmac4 cfg) l).log = l.log := by
  induction js generalizing l D with
  | nil =>
    rw [List.map_nil, List.map_nil, List.toFinset_nil, Finset.union_empty]
    exact ⟨h, hok, rfl⟩
  | cons j js ih =>
    rw [List.forall_mem_cons] at hjs
    obtain ⟨hnext, hok', hlog⟩ := @InWindow.arrive hmac4 _ _ _ h hok _ hjs.1
    obtain ⟨hend, hokend, hlogend⟩ := ih hnext hok' fun j' hj' => by
      unfold Timely
      rw [hlog]
      exact hjs.2 j' hj'
    refine ⟨?_, hokend, hlogend.trans hlog⟩
    rw [List.map_cons, List.map_cons, List.toFinset_cons, Finset.union_insert,
      ← Finset.insert_union]
    exact hend

/-- When every number has arrived everything has been delivered. -/
theorem InWindow.pos_eq (h : InWindow cfg l D) (hall : ∀ i < l.log.length, i ∈ D) :
    l.pos = l.log.length := by
  refine le_antisymm h.sound.receiving.pos_le ?_
  rw [h.sound.receiving.front]
  exact le_front hall

/-- Then the acknowledgement of `b` covers all that is in the retransmit queue. -/
theorem InWindow.acked (h : InWindow cfg l D) (hpos : l.pos = l.log.length) (peer : SocketAddr)
    {header : DatagramHeader} (frames : List FrameRef) (now clock : Instant)
    (hack : (header.ack, header.ackBits) = l.b.computeAck) :
    ((l.step hmac4 cfg (.recvA peer header frames now clock)).a.retrans 0).contents = [] := by
  have hw := h.sound.wired
  have hnum : header.ack + 1 = seqNum l.pos := by
    have hnext : l.b.ch2Next = some (seqNum l.pos) := h.sound.receiving.window.next
    rw [show header.ack = l.b.computeAck.1 from congrArg Prod.fst hack]
    unfold Session.computeAck
    dsimp only
    rw [hnext]
    exact BitVec.sub_add_cancel _ _
  obtain ⟨k, hk, hlen, hq⟩ := h.windowed.queue
  have hnil : (l.receiveA peer header frames now clock).queued 0 = [] := by
    rw [queued_receiveA peer header frames now clock hw, if_pos h.active.1,
      List.dropWhile_eq_nil_iff]
    intro i hi
    rw [hq, List.mem_range'_1] at hi
    exact (isAcked_num hnum (by omega) (by omega)).2 (.inl (by omega))
  have hcontents := (@wired_step hmac4 _ _ hw (.recvA peer header frames now clock)).contents 0
  rw [hcontents]
  show ((l.receiveA peer header frames now clock).queued 0).map _ = []
  rw [hnil, List.map_nil]

end Link

open Link

/-- **Nothing gets stuck.** From every state of a run within the bounds: once the datagrams that
have not been delivered arrive, in any order, any number of times and among others, all messages
that `a` has taken have been delivered; and then any packet with the acknowledgement of `b` empties
the retransmit queue of `a`. -/
theorem link_flushes (hmac4 : Hmac) (cfg : SessionTableConfig) (a b : Opening) {l : Link}
    (h : Reach (step hmac4 cfg) (Flowing hmac4 cfg) (start a b) l) (js : List Arrival)
    (hjs : ∀ j ∈ js, l.Timely j.1)
    (hall : ∀ i, l.pos ≤ i → i < l.log.length → i ∈ js.map Prod.fst) :
    let l' := (js.map arrival).foldl (step hmac4 cfg) l
    ch2Data l'.events = l.messages ∧
      ∀ peer header frames now clock, (header.ack, header.ackBits) = l'.b.computeAck →
        ((l'.step hmac4 cfg (.recvA peer header frames now clock)).a.retrans 0).contents = [] := by
  obtain ⟨c, -, hc⟩ := (channel_simulation hmac4 cfg a b).run h
  obtain ⟨D, hD⟩ := hc.within
  obtain ⟨hend, -, hlog⟩ := @InWindow.arrivals hmac4 _ _ _ hD hc.sound _ hjs
  have hpos := hend.pos_eq fun i hi => by
    rw [hlog] at hi
    by_cases hlo : i < l.pos
    · exact Finset.mem_union_left _
        (mem_of_lt_front (by rw [← hD.sound.receiving.front]; exact hlo))
    · exact Finset.mem_union_right _ (List.mem_toFinset.2 (hall i (not_lt.1 hlo) hi))
  refine ⟨?_, fun peer header frames now clock hack => hend.acked hpos peer frames now clock hack⟩
  rw [hend.events_eq, hpos, ← length_messages, List.take_length]
  unfold messages
  rw [hlog]

/-- Two messages arrive in the wrong order, the first of them twice. -/
theorem link_flushes_swapped :
    ∃ l : Link, ch2Data l.events = [(7, [1]), (7, [2])] ∧ ∃ peer header frames now clock,
      ((l.step (fun _ _ => Vector.replicate 4 0) .default
        (.recvA peer header frames now clock)).a.retrans
        0).contents = [] := by
  have h0 : Reach (step (fun _ _ => Vector.replicate 4 0) .default)
    (Flowing (fun _ _ => Vector.replicate 4 0) .default)
    (start ⟨1, 1, .V4 0 0, 0, [], 0⟩ ⟨1, 1, .V4 1 0, 0, [], 0⟩) _ := .start
  have h1 := h0.next (.sendA 2 7 [1] 0) ⟨⟨rfl, by decide⟩, by decide +kernel⟩
  have h2 := h1.next (.sendA 2 7 [2] 0) ⟨⟨rfl, by decide⟩, by decide +kernel⟩
  have hend := link_flushes _ _ _ _ h2 [(1, .V4 0 0, 0, 0), (0, .V4 0 0, 0, 0), (0, .V4 0 0, 0, 0)]
    (fun j hj => by
      unfold Timely
      revert hj j
      decide +kernel)
    (fun i _ hi => by
      have hlen : i < 2 := hi
      interval_cases i
      · decide
      · decide)
  refine ⟨_, hend.1.trans ?_, .V4 1 0, ⟨VERSION, FLAG_PURE_ACK, 1, 0, 1, 0⟩, [], 0, 0,
    hend.2 _ _ _ _ _ ?_⟩
  · decide +kernel
  · decide +kernel

end SoupEngine
