import SoupEngine.Link.Channels

/-!
# Acknowledgement completeness

The acknowledgement of `b` covers what Ch2 has delivered and the 32 numbers after it, and Ch2 never
gets past a number of another channel. So when `b` has received every reliable datagram, it empties
the retransmit queues of `a` exactly if what is queued from the first such number on is within the
32 numbers after it, or looks older than it in the number space (`ack_empties_iff`).
-/

namespace SoupEngine

open TransitionSystem Release BoundedMemory

attribute [local irreducible] remember

namespace Link

/-- The first number that was not given to a Ch2 message. -/
def firstOther (l : Link) : ℕ := l.log.findIdx fun e => decide (e.call.ch ≠ CH_RELIABLE_ORDERED)

/-- `b` has received every reliable datagram. -/
def ReceivedReliable (l : Link) : Prop :=
  ∀ (i : ℕ) (e : Sent), l.log[i]? = some e → (queueOf e.call.ch).isSome → i ∈ l.received

/-- How far number `i` is from the first one that was not given to Ch2, in the number space. -/
def lead (l : Link) (i : ℕ) : ℕ := (i - l.firstOther) % 65536

/-- A number that waits is before the first one that was not given to Ch2, within the 32 numbers
after it, or half of the number space ahead of it. One of the 32 that is a turn of the number space
later has to count as received. -/
def QueuedNear (l : Link) : Prop :=
  ∀ qi, ∀ i ∈ l.queued qi, l.firstOther ≤ i →
    32767 ≤ l.lead i ∨ l.lead i < 32 ∧ (i < l.firstOther + 32 ∨ l.b.ackSees (seqNum i))

/-- A number that was given to a Ch2 or Ch3 message is before the first one that was not given to
Ch2, within the 32 numbers after it, or half of the number space ahead of it. -/
def SentNear (l : Link) : Prop :=
  ∀ (i : ℕ) (e : Sent), l.log[i]? = some e → (queueOf e.call.ch).isSome → l.firstOther ≤ i →
    32767 ≤ l.lead i ∨ l.lead i < 32

/-- Arrivals are orderly, `b` does not give up a group, and the acknowledgements that reach `a` are
those of `b`, and at most 32767 numbers behind. -/
def Confirming (l : Link) : Action → Prop
  | .recvA _ header _ _ _ =>
    ∃ r ∈ l.acks, (header.ack, header.ackBits) = r.ackPair ∧ l.log.length ≤ r.pos + 32767
  | x => l.Undisturbed x

instance (l : Link) : (x : Action) → Decidable (l.Confirming x)
  | .recvA .. => inferInstanceAs (Decidable (∃ r ∈ l.acks, _))
  | .sendA .. | .arrive .. | .resendA _ | .idleA _ | .ackB .. | .sendB .. | .resendB _ | .idleB _ =>
    by unfold Confirming; infer_instance

/-- The numbers of the Ch3 messages. -/
def ch3Numbers (l : Link) : Finset ℕ :=
  {i ∈ Finset.range l.log.length |
    (l.log[i]?).any fun e => decide (e.call.ch = CH_RELIABLE_UNORDERED)}

/-- The queues of `a` and the memory of `b`, whatever is acknowledged. -/
structure Confirmed (l : Link) : Prop where
  cap : ∀ qi, (l.queued qi).length ≤ 64
  /-- What is queued is followed by everything newer of its channel. -/
  fifo : ∀ qi, ∀ i ∈ l.queued qi, ∀ (j : ℕ) (e : Sent), i ≤ j → l.log[j]? = some e →
    queueOf e.call.ch = some qi → j ∈ l.queued qi
  nodup : l.seen.Nodup
  /-- As long as there are few Ch3 messages none is forgotten. -/
  remembered : l.ch3Numbers.card ≤ 256 → ∀ i ∈ l.received, ∀ e : Sent, l.log[i]? = some e →
    e.call.ch = CH_RELIABLE_UNORDERED → seqNum i ∈ l.b.ch3Seen

/-- Nothing that is 32 numbers or more after a number of another channel than Ch2 is ever
confirmed. -/
def Beyond (l : Link) : Prop :=
  ∀ (q : ℕ) (e : Sent), l.log[q]? = some e → e.call.ch ≠ CH_RELIABLE_ORDERED →
    ∀ (i : ℕ) (e' : Sent) qi, q + 32 ≤ i → l.log[i]? = some e' → queueOf e'.call.ch = some qi →
      i ∈ l.queued qi

variable {hmac4 : Hmac} {cfg : SessionTableConfig} {l l' : Link} {D : Finset ℕ} {c : Call} {i : ℕ}
  {bytes : Bytes}

/-! ## The first number of another channel -/

theorem ch2_of_lt_firstOther {e : Sent} (hi : i < l.firstOther) (he : l.log[i]? = some e) :
    e.call.ch = CH_RELIABLE_ORDERED := by
  obtain ⟨hlt, rfl⟩ := List.getElem?_eq_some_iff.1 he
  have hnot := List.not_of_lt_findIdx hi
  exact not_not.1 fun hne => absurd (decide_eq_true hne) (by simpa using hnot)

theorem ne_at_firstOther {e : Sent} (he : l.log[l.firstOther]? = some e) :
    e.call.ch ≠ CH_RELIABLE_ORDERED := by
  obtain ⟨hlt, rfl⟩ := List.getElem?_eq_some_iff.1 he
  exact of_decide_eq_true (List.findIdx_getElem (w := hlt))

theorem queueOf_ch2 {ch : U8} (h : ch = CH_RELIABLE_ORDERED) : queueOf ch = some 0 := by
  rw [h]
  rfl

theorem queueOf_cases {ch : U8} {qi : Fin 2} (h : queueOf ch = some qi) :
    qi = 0 ∧ ch = CH_RELIABLE_ORDERED ∨ qi = 1 ∧ ch = CH_RELIABLE_UNORDERED := by
  unfold queueOf at h
  split_ifs at h with h2 h3
  · exact Or.inl ⟨(Option.some.inj h).symm, h2⟩
  · exact Or.inr ⟨(Option.some.inj h).symm, h3⟩

/-- A Ch2 number has been buffered when every reliable datagram has been received. -/
theorem Complete.mem_of_all (hc : Complete cfg l D) (hall : l.ReceivedReliable) {e : Sent}
    (he : l.log[i]? = some e) (h2 : e.call.ch = CH_RELIABLE_ORDERED) : i ∈ D := by
  refine hc.mem_of_received ⟨e, he, rfl⟩ h2 fun k hk => ?_
  obtain ⟨e', he', hcall⟩ := hc.whole.numbers i e he k hk
  exact hall _ e' he' (by rw [hcall, queueOf_ch2 h2]; rfl)

/-- Then `b` waits for the first number of another channel. -/
theorem Complete.pos_eq (hc : Complete cfg l D) (hall : l.ReceivedReliable) :
    l.pos = l.firstOther := by
  have hR := hc.sound.receiving
  apply le_antisymm
  · by_contra hlt
    obtain ⟨e, he, h2⟩ := hR.ordered l.firstOther (not_le.1 hlt)
    exact ne_at_firstOther he h2
  · by_contra hlt
    have hlt := not_le.1 hlt
    have hle : l.firstOther ≤ l.log.length := List.findIdx_le_length
    have hp : l.log[l.pos]? = some l.log[l.pos] := List.getElem?_eq_getElem (by omega)
    have hm := hc.mem_of_all hall hp (ch2_of_lt_firstOther hlt hp)
    rw [hR.front] at hm
    exact front_not_mem D hm

/-! ## The Ch3 messages -/

theorem mem_ch3Numbers : i ∈ l.ch3Numbers ↔
    ∃ e : Sent, l.log[i]? = some e ∧ e.call.ch = CH_RELIABLE_UNORDERED := by
  unfold ch3Numbers
  rw [Finset.mem_filter, Finset.mem_range, Option.any_eq_true]
  constructor
  · rintro ⟨-, e, he, h3⟩
    exact ⟨e, he, of_decide_eq_true h3⟩
  · rintro ⟨e, he, h3⟩
    exact ⟨(List.getElem?_eq_some_iff.1 he).1, e, he, decide_eq_true h3⟩

/-- From the first number of another channel on there are 32 numbers in reach; the Ch3 messages
beyond them are in the queue. -/
theorem card_ch3Numbers_le (hcap : ∀ qi, (l.queued qi).length ≤ 64) {k : ℕ}
    (hk : k ≤ l.firstOther + 32) (hqueue : ∀ (i : ℕ) (e : Sent), k ≤ i → l.log[i]? = some e →
      e.call.ch = CH_RELIABLE_UNORDERED →
      i ∈ l.queued 1) : l.ch3Numbers.card ≤ 256 := by
  have hsub : l.ch3Numbers ⊆ Finset.Ico l.firstOther (l.firstOther + 32) ∪
      (l.queued 1).toFinset := by
    intro i hi
    obtain ⟨e, he, h3⟩ := mem_ch3Numbers.1 hi
    rw [Finset.mem_union, Finset.mem_Ico, List.mem_toFinset]
    by_cases hik : i < k
    · have hge : l.firstOther ≤ i := by
        by_contra hlt
        exact absurd (h3.symm.trans (ch2_of_lt_firstOther (not_le.1 hlt) he)) (by decide)
      exact Or.inl ⟨hge, by omega⟩
    · exact Or.inr (hqueue i e (not_lt.1 hik) he h3)
  calc l.ch3Numbers.card ≤ (Finset.Ico l.firstOther (l.firstOther + 32) ∪
        (l.queued 1).toFinset).card := Finset.card_le_card hsub
    _ ≤ (Finset.Ico l.firstOther (l.firstOther + 32)).card + (l.queued 1).toFinset.card :=
        Finset.card_union_le _ _
    _ ≤ 32 + 64 := by
        rw [Nat.card_Ico, Nat.add_sub_cancel_left]
        exact Nat.add_le_add_left ((l.queued 1).toFinset_card_le.trans (hcap 1)) 32
    _ ≤ 256 := by decide

/-! ## Steps -/

theorem confirmed_start (a b : Opening) : Confirmed (start a b) where
  cap _ := Nat.zero_le _
  fifo _ _ hi := absurd hi List.not_mem_nil
  nodup := List.nodup_nil
  remembered _ i hi := absurd hi (Finset.notMem_empty i)

theorem beyond_start (a b : Opening) : Beyond (start a b) := by
  intro q e he
  cases he

section Send

variable {m taken : ℕ} {datagram : ℕ → Bytes}

theorem SendSpec.eq_taken (hs : SendSpec hmac4 cfg l l' c m taken datagram)
    (hfail : l'.failed = false) :
    m = taken := by
  rcases hs.outcome with ⟨-, htaken, -⟩ | ⟨-, -, hbad, -⟩
  · exact htaken.symm
  · exact absurd (hfail.symm.trans hbad) Bool.false_ne_true

/-- A call that has not failed queues all its numbers. -/
theorem SendSpec.mem_queued (hs : SendSpec hmac4 cfg l l' c m taken datagram) (hm : m = taken)
    {qi : Fin 2} {j : ℕ} (hj : j < taken) (hq : queueOf c.ch = some qi) :
    l.log.length + j ∈ l'.queued qi := by
  rw [hs.queued, if_pos hq, List.mem_append, List.mem_range'_1]
  right
  omega

theorem SendSpec.queued_old (hs : SendSpec hmac4 cfg l l' c m taken datagram) {qi : Fin 2}
    (hi : i ∈ l.queued qi) : i ∈ l'.queued qi := by
  rw [hs.queued]
  exact List.mem_append_left _ hi

theorem confirmed_send (h : Confirmed l) (hR : Receiving l D) (hw : Wired cfg l)
    (hs : SendSpec hmac4 cfg l l' c m taken datagram) (hm : m = taken) : Confirmed l' := by
  have hold : ∀ (i : ℕ) (e : Sent), l.log[i]? = some e → l'.log[i]? = some e := by
    intro i e he
    rw [hs.log_old (List.getElem?_eq_some_iff.1 he).1, he]
  have hsame : l'.received = l.received ∧ l'.seen = l.seen ∧ l'.b = l.b := by
    rw [hs.same]
    exact ⟨rfl, rfl, rfl⟩
  refine ⟨fun qi => ?_, fun qi i hi j e hij he hq => ?_, ?_, fun hfew i hi e he h3 => ?_⟩
  · rw [hs.queued, List.length_append]
    have hcap := h.cap qi
    by_cases hq : queueOf c.ch = some qi
    · rw [if_pos hq, List.length_range']
      rcases Nat.eq_zero_or_pos m with rfl | hpos
      · exact hcap
      · have hroom := hs.room qi hq hpos
        rw [← length_queued hw qi] at hroom
        exact hroom
    · rw [if_neg hq]
      exact hcap
  · rcases hs.log_cases he with ⟨hj, he⟩ | ⟨k, hk, rfl, rfl⟩
    · rw [hs.queued, List.mem_append] at hi
      rcases hi with hi | hi
      · exact hs.queued_old (h.fifo qi i hi j e hij he hq)
      · split_ifs at hi with hqc
        · have := (List.mem_range'_1.1 hi).1
          omega
        · cases hi
    · exact hs.mem_queued hm hk hq
  · rw [hsame.2.1]
    exact h.nodup
  · rw [hsame.1] at hi
    rw [hsame.2.2]
    obtain ⟨e', he', -⟩ := hR.logged i hi
    cases he.symm.trans (hold i e' he')
    refine h.remembered ((Finset.card_le_card fun j hj => ?_).trans hfew) i hi e he' h3
    obtain ⟨d, hd, hd3⟩ := mem_ch3Numbers.1 hj
    exact mem_ch3Numbers.2 ⟨d, hold j d hd, hd3⟩

theorem beyond_send (h : Beyond l) (hs : SendSpec hmac4 cfg l l' c m taken datagram)
    (hm : m = taken) :
    Beyond l' := by
  intro q e he hne i e' qi hqi he' hq
  rcases hs.log_cases he' with ⟨hi, he'⟩ | ⟨k, hk, rfl, rfl⟩
  · rcases hs.log_cases he with ⟨-, he⟩ | ⟨j, -, rfl, -⟩
    · exact hs.queued_old (h q e he hne i e' qi hqi he' hq)
    · omega
  · exact hs.mem_queued hm hk hq

end Send

section Acked

variable (peer : SocketAddr) {header : DatagramHeader} (frames : List FrameRef)
  (now clock : Instant)

/-- Whatever is acknowledged, the queues are left from the front. -/
theorem confirmed_receiveA (h : Confirmed l) (hw : Wired cfg l) :
    Confirmed (l.receiveA peer header frames now clock) := by
  have hqueue := fun qi => queued_receiveA peer header frames now clock hw qi
  refine ⟨fun qi => ?_, fun qi i hi j e hij he hq => ?_, h.nodup, h.remembered⟩
  · rw [hqueue]
    split_ifs
    · exact (List.length_dropWhile_le _ _).trans (h.cap qi)
    · exact h.cap qi
  · rw [hqueue] at hi ⊢
    split_ifs at hi ⊢
    · -- the entries dropped are older than those that stay
      have hj := h.fifo qi i ((List.dropWhile_sublist _).subset hi) j e hij he hq
      have hsplit := List.takeWhile_append_dropWhile (l := l.queued qi)
        (p := fun i => isAcked (seqNum i) header.ack header.ackBits)
      rw [← hsplit, List.mem_append] at hj
      rcases hj with hj | hj
      · have hsorted := hw.sorted qi
        rw [← hsplit, List.pairwise_append] at hsorted
        have := hsorted.2.2 j hj i hi
        omega
      · exact hj
    · exact h.fifo qi i hi j e hij he hq

theorem beyond_receiveA (h : Beyond l) (hs : Sound cfg l D) (ht : l.Truthful D) {r : AckRecord}
    (hr : r ∈ l.acks) (hpair : (header.ack, header.ackBits) = r.ackPair)
    (hfar : l.log.length ≤ r.pos + 32767) : Beyond (l.receiveA peer header frames now clock) := by
  intro q e he hne i e' qi hqi he' hq
  have hok := ht r hr
  have hmem := h q e he hne i e' qi hqi he' hq
  rw [queued_receiveA peer header frames now clock hs.wired qi]
  split_ifs
  · have hpos : r.pos ≤ q := hok.pos_le.trans (hs.receiving.pos_le_of_ne he hne)
    have hlt : i < l.log.length := (List.getElem?_eq_some_iff.1 he').1
    have hnot : ¬ isAcked (seqNum i) header.ack header.ackBits = true := by
      rw [show header.ack = r.ackPair.1 from congrArg Prod.fst hpair,
        show header.ackBits = r.ackPair.2 from congrArg Prod.snd hpair,
        isAcked_num hok.ack (by omega) (by omega)]
      omega
    exact RetransmitQueue.mem_dropWhile_of_not hmem hnot
  · exact hmem

end Acked

/-- Few Ch3 messages are all remembered. -/
theorem Confirmed.length_seen_lt (h : Confirmed l) (hR : Receiving l D)
    (hfew : l.ch3Numbers.card ≤ 256) (hi : i ∈ l.ch3Numbers) (hnew : i ∉ l.seen) :
    l.seen.length < CH3_SEEN_CAP := by
  have hsub : insert i l.seen.toFinset ⊆ l.ch3Numbers := by
    intro j hj
    rcases Finset.mem_insert.1 hj with rfl | hj
    · exact hi
    · exact mem_ch3Numbers.2 (hR.seen j (List.mem_toFinset.1 hj)).2
  have hcard := (Finset.card_le_card hsub).trans hfew
  rw [Finset.card_insert_of_notMem (fun hm => hnew (List.mem_toFinset.1 hm)),
    List.toFinset_card_of_nodup h.nodup] at hcard
  exact hcard

theorem confirmed_receiveB (h : Confirmed l) (hR : Receiving l D) {D' : Finset ℕ}
    {peer : SocketAddr} {now clock : Instant}
    (hR' : Receiving (l.receiveB cfg i c bytes peer now clock) D')
    (he : l.log[i]? = some ⟨c, some bytes⟩) :
    Confirmed (l.receiveB cfg i c bytes peer now clock) := by
  set l' := l.receiveB cfg i c bytes peer now clock with hl'
  have hseen : l'.seen = if l.b.isActive ∧ c.ch = CH_RELIABLE_UNORDERED ∧
    seqNum i ∉ l.b.ch3Seen then
      remember CH3_SEEN_CAP l.seen i else l.seen := rfl
  have hreceived : l'.received = if l.b.isActive then insert i l.received else l.received := rfl
  have hnew : seqNum i ∉ l.b.ch3Seen → i ∉ l.seen := by
    rw [hR.ch3Seen]
    exact fun hn hi => hn (List.mem_map_of_mem hi)
  refine ⟨h.cap, h.fifo, ?_, fun hfew j hj e hje h3 => ?_⟩
  · rw [hseen]
    split_ifs with hcond
    · exact nodup_remember h.nodup (hnew hcond.2.2)
    · exact h.nodup
  -- what `b` remembers stays remembered
  have hkeep : seqNum j ∈ l.b.ch3Seen → seqNum j ∈ l'.b.ch3Seen := by
    rw [hR.ch3Seen, hR'.ch3Seen]
    intro hm
    obtain ⟨k, hk, hkj⟩ := List.mem_map.1 hm
    refine List.mem_map.2 ⟨k, ?_, hkj⟩
    rw [hseen]
    split_ifs with hcond
    · exact mem_remember_of_lt
        (h.length_seen_lt hR hfew (mem_ch3Numbers.2 ⟨_, he, hcond.2.1⟩) (hnew hcond.2.2)) hk
    · exact hk
  rw [hreceived] at hj
  split_ifs at hj with hact
  · rcases Finset.mem_insert.1 hj with rfl | hj
    · have hch : c.ch = CH_RELIABLE_UNORDERED := by
        cases he.symm.trans hje
        exact h3
      by_cases hm : seqNum j ∈ l.b.ch3Seen
      · exact hkeep hm
      · rw [hR'.ch3Seen, hseen, if_pos ⟨hact, hch, hm⟩]
        exact List.mem_map_of_mem (mem_remember_self (by decide) _ _)
    · exact hkeep (h.remembered hfew j hj e hje h3)
  · exact hkeep (h.remembered hfew j hj e hje h3)

/-- A step of a run in which no call fails. -/
theorem confirmed_step (h : Confirmed l) (hc : Complete cfg l D) {x : Action} (hx : l.Orderly x)
    (hfail : (l.step hmac4 cfg x).failed = false) : Confirmed (l.step hmac4 cfg x) := by
  have hR := hc.sound.receiving
  have hR' := (sound_step hmac4 hc.sound hx).receiving
  have hother (hb : (l.step hmac4 cfg x).b.ch3Seen = l.b.ch3Seen)
      (hlog : (l.step hmac4 cfg x).log = l.log) (hqueued : (l.step hmac4 cfg x).queued = l.queued)
      (hreceived : (l.step hmac4 cfg x).received = l.received)
      (hseen : (l.step hmac4 cfg x).seen = l.seen) :
      Confirmed (l.step hmac4 cfg x) := by
    refine ⟨?_, ?_, ?_, ?_⟩
    · rw [hqueued]
      exact h.cap
    · rw [hqueued, hlog]
      exact h.fifo
    · rw [hseen]
      exact h.nodup
    · unfold ch3Numbers
      rw [hlog, hreceived, hb]
      exact h.remembered
  cases x with
  | sendA ch msgId payload now =>
    show Confirmed (l.send hmac4 cfg ch msgId payload now)
    by_cases ha : l.a.state = .Active
    · obtain ⟨m, taken, datagram, hs⟩ :=
        send_spec hmac4 cfg hc.sound.wired.sendSeq ch msgId payload now ha
      exact confirmed_send h hR hc.sound.wired hs (hs.eq_taken hfail)
    · rw [send_inactive ch msgId payload now ha]
      exact h
  | recvA peer header frames now clock =>
    exact confirmed_receiveA peer frames now clock h hc.sound.wired
  | arrive i peer now clock =>
    rcases arrive_cases hmac4 cfg l i peer now clock with heq | ⟨call, bytes, he, heq⟩
    · rw [heq]
      exact h
    · rw [heq] at hR' ⊢
      exact confirmed_receiveB h hR hR' he
  | resendA now => exact hother rfl rfl rfl rfl rfl
  | idleA now => exact hother rfl rfl rfl rfl rfl
  | ackB peer header now clock =>
    exact hother (quiet_step hmac4 hc.sound.wired fun _ _ _ _ => Action.noConfusion).ch3Seen rfl
      rfl rfl rfl
  | sendB ch msgId payload now =>
    exact hother (quiet_step hmac4 hc.sound.wired fun _ _ _ _ => Action.noConfusion).ch3Seen rfl
      rfl rfl rfl
  | resendB now =>
    exact hother (quiet_step hmac4 hc.sound.wired fun _ _ _ _ => Action.noConfusion).ch3Seen rfl
      rfl rfl rfl
  | idleB now =>
    exact hother (quiet_step hmac4 hc.sound.wired fun _ _ _ _ => Action.noConfusion).ch3Seen rfl
      rfl rfl rfl

theorem beyond_step (h : Beyond l) (hc : Complete cfg l D) (ht : l.Truthful D) {x : Action}
    (hx : l.Confirming x) (hfail : (l.step hmac4 cfg x).failed = false) :
    Beyond (l.step hmac4 cfg x) := by
  cases x with
  | sendA ch msgId payload now =>
    show Beyond (l.send hmac4 cfg ch msgId payload now)
    by_cases ha : l.a.state = .Active
    · obtain ⟨m, taken, datagram, hs⟩ :=
        send_spec hmac4 cfg hc.sound.wired.sendSeq ch msgId payload now ha
      exact beyond_send h hs (hs.eq_taken hfail)
    · rw [send_inactive ch msgId payload now ha]
      exact h
  | recvA peer header frames now clock =>
    obtain ⟨r, hr, hpair, hfar⟩ := hx
    exact beyond_receiveA peer frames now clock h hc.sound ht hr hpair hfar
  | arrive i peer now clock =>
    rcases arrive_cases hmac4 cfg l i peer now clock with heq | ⟨call, bytes, he, heq⟩
    · rw [heq]
      exact h
    · rw [heq]
      exact h
  | _ => exact h

theorem undisturbed_of_confirming {x : Action} (hx : l.Confirming x) : l.Undisturbed x := by
  cases x with
  | recvA peer header frames now clock => exact ⟨True.intro, True.intro⟩
  | _ => exact hx

/-! ## When every reliable datagram has been received -/

/-- What waits on Ch2 before the first number of another channel is not old. -/
theorem Confirmed.young (h : Confirmed l) (hw : Wired cfg l) {qi : Fin 2} (hi : i ∈ l.queued qi)
    (hlt : i < l.firstOther) : l.firstOther ≤ i + 64 := by
  have hle : l.firstOther ≤ l.log.length := List.findIdx_le_length
  have hqi : qi = 0 := by
    obtain ⟨e, he, -, hq⟩ := hw.queued qi i hi
    rw [queueOf_ch2 (ch2_of_lt_firstOther hlt he)] at hq
    exact (Option.some.inj hq).symm
  subst hqi
  have hsub : Finset.Ico i l.firstOther ⊆ (l.queued 0).toFinset := by
    intro j hj
    rw [Finset.mem_Ico] at hj
    rw [List.mem_toFinset]
    have he : l.log[j]? = some l.log[j] := List.getElem?_eq_getElem (by omega)
    exact h.fifo 0 i hi j _ hj.1 he (queueOf_ch2 (ch2_of_lt_firstOther hj.2 he))
  have hcard : l.firstOther - i ≤ 64 :=
    calc l.firstOther - i = (Finset.Ico i l.firstOther).card := (Nat.card_Ico _ _).symm
      _ ≤ (l.queued 0).toFinset.card := Finset.card_le_card hsub
      _ ≤ (l.queued 0).length := (l.queued 0).toFinset_card_le
      _ ≤ 64 := h.cap 0
  omega

/-- What waits is confirmed according to where it is. -/
theorem Confirmed.acked_iff (h : Confirmed l) (hc : Complete cfg l D) (hall : l.ReceivedReliable)
    {qi : Fin 2} (hi : i ∈ l.queued qi) :
      isAcked (seqNum i) l.b.computeAck.1 l.b.computeAck.2 = true ↔
      i < l.firstOther ∨ 32767 ≤ l.lead i ∨
        l.lead i < 32 ∧ l.b.ackSees (seqNum i) = true := by
  have hR := hc.sound.receiving
  have hack := (computeAck_window hR.window).1
  rw [hc.pos_eq hall] at hack
  by_cases hlt : i < l.firstOther
  · have hyoung := h.young hc.sound.wired hi hlt
    rw [isAcked_num hack (by omega) (by omega)]
    exact iff_of_true (Or.inl hlt) (Or.inl hlt)
  · rw [isAcked_ahead hack (not_lt.1 hlt), or_iff_right hlt]
    refine or_congr_right (and_congr_right fun h32 => ?_)
    rw [getLsbD_computeAck hack h32, ← seqNum_ahead (not_lt.1 hlt)]

/-- A Ch3 number that has been received counts as received, if there are few. -/
theorem Confirmed.ackSees_ch3 (h : Confirmed l) (hall : l.ReceivedReliable)
    (hfew : l.ch3Numbers.card ≤ 256) {e : Sent} (he : l.log[i]? = some e)
    (h3 : e.call.ch = CH_RELIABLE_UNORDERED) : l.b.ackSees (seqNum i) = true := by
  have hr := hall i e he (by rw [h3]; rfl)
  have hm := h.remembered hfew i hr e he h3
  unfold Session.ackSees
  rw [decide_eq_true hm, Bool.or_true]

/-- A Ch2 number that is buffered counts as received. -/
theorem Complete.ackSees_ch2 (hc : Complete cfg l D) (hall : l.ReceivedReliable) {e : Sent}
    (he : l.log[i]? = some e) (h2 : e.call.ch = CH_RELIABLE_ORDERED) (hge : l.firstOther ≤ i) :
    l.b.ackSees (seqNum i) = true := by
  have hR := hc.sound.receiving
  have hD := hc.mem_of_all hall he h2
  have hnear := hR.near i (hR.buffered i hD).1 e he h2
  have hpos := hc.pos_eq hall
  have hbuf : l.b.reorder.contains (seqNum i) = decide (i ∈ D) :=
    hR.window.contains (by omega) (by omega)
  unfold Session.ackSees
  rw [hbuf, decide_eq_true hD, Bool.true_or, Bool.true_or]

/-- Applied to the acknowledgement of `b`, `on_ack` empties both queues of `a`. -/
def AckEmpties (l : Link) : Prop :=
  ∀ qi now, ((l.a.retrans qi).onAck l.b.computeAck.1 l.b.computeAck.2 now).1.entries = []

theorem ackEmpties_iff_forall (hw : Wired cfg l) : l.AckEmpties ↔
    ∀ qi, ∀ i ∈ l.queued qi, isAcked (seqNum i) l.b.computeAck.1 l.b.computeAck.2 = true := by
  have key : ∀ qi now,
      ((l.a.retrans qi).onAck l.b.computeAck.1 l.b.computeAck.2 now).1.entries = [] ↔
      ∀ i ∈ l.queued qi, isAcked (seqNum i) l.b.computeAck.1 l.b.computeAck.2 = true := by
    intro qi now
    have hmap : ∀ q : RetransmitQueue, q.entries = [] ↔ q.contents = [] := by
      intro q
      unfold RetransmitQueue.contents
      rw [List.map_eq_nil_iff]
    rw [hmap, RetransmitQueue.contents_onAck, hw.contents, List.dropWhile_map, List.map_eq_nil_iff,
      List.dropWhile_eq_nil_iff]
    rfl
  constructor
  · exact fun h qi => (key qi 0).1 (h qi 0)
  · exact fun h qi now => (key qi now).2 (h qi)

/-- **By what waits.** -/
theorem Confirmed.empties_iff_queued (h : Confirmed l) (hc : Complete cfg l D)
    (hall : l.ReceivedReliable) :
    l.AckEmpties ↔ l.QueuedNear := by
  have hw := hc.sound.wired
  rw [ackEmpties_iff_forall hw]
  refine forall_congr' fun qi => forall_congr' fun i => forall_congr' fun hi => ?_
  rw [h.acked_iff hc hall hi]
  constructor
  · rintro (hlt | hfar | ⟨h32, hsees⟩) hge
    · exact absurd hlt (not_lt.2 hge)
    · exact Or.inl hfar
    · exact Or.inr ⟨h32, Or.inr hsees⟩
  · intro hnear
    by_cases hlt : i < l.firstOther
    · exact Or.inl hlt
    have hge := not_lt.1 hlt
    rcases hnear hge with hfar | ⟨h32, hin | hsees⟩
    · exact Or.inr (Or.inl hfar)
    · refine Or.inr (Or.inr ⟨h32, ?_⟩)
      obtain ⟨e, he, -, hq⟩ := hw.queued qi i hi
      rcases queueOf_cases hq with ⟨-, h2⟩ | ⟨rfl, h3⟩
      · exact hc.ackSees_ch2 hall he h2 hge
      · refine h.ackSees_ch3 hall (card_ch3Numbers_le h.cap hin.le fun j e' hij he' h3' => ?_) he h3
        exact h.fifo 1 i hi j e' hij he' (by rw [h3']; rfl)
    · exact Or.inr (Or.inr ⟨h32, hsees⟩)

/-- **By what was sent**, if nothing beyond the bitmap has been confirmed. -/
theorem Confirmed.empties_iff_sent (h : Confirmed l) (hbeyond : Beyond l) (hc : Complete cfg l D)
    (hall : l.ReceivedReliable) : l.AckEmpties ↔ l.SentNear := by
  have hw := hc.sound.wired
  rw [ackEmpties_iff_forall hw]
  constructor
  · intro hacked i e he hsome hge
    obtain ⟨qi, hq⟩ := Option.isSome_iff_exists.1 hsome
    by_cases hin : i < l.firstOther + 32
    · right
      unfold lead
      omega
    · -- the number is still queued
      have hlt := (List.getElem?_eq_some_iff.1 he).1
      have hp : l.log[l.firstOther]? = some l.log[l.firstOther] :=
        List.getElem?_eq_getElem (by omega)
      have hi := hbeyond _ _ hp (ne_at_firstOther hp) i e qi (not_lt.1 hin) he hq
      rcases (h.acked_iff hc hall hi).1 (hacked qi i hi) with hlt | hfar | ⟨h32, -⟩
      · exact absurd hlt (not_lt.2 hge)
      · exact Or.inl hfar
      · exact Or.inr h32
  · intro hnear qi i hi
    rw [h.acked_iff hc hall hi]
    by_cases hlt : i < l.firstOther
    · exact Or.inl hlt
    have hge := not_lt.1 hlt
    obtain ⟨e, he, -, hq⟩ := hw.queued qi i hi
    refine Or.inr ((hnear i e he (by rw [hq]; rfl) hge).imp_right fun h32 => ⟨h32, ?_⟩)
    rcases queueOf_cases hq with ⟨-, h2⟩ | ⟨rfl, h3⟩
    · exact hc.ackSees_ch2 hall he h2 hge
    · have hilt := (List.getElem?_eq_some_iff.1 he).1
      have hp : l.log[l.firstOther]? = some l.log[l.firstOther] :=
        List.getElem?_eq_getElem (by omega)
      refine h.ackSees_ch3 hall (card_ch3Numbers_le h.cap le_rfl fun j e' hij he' h3' => ?_) he h3
      exact hbeyond _ _ hp (ne_at_firstOther hp) j e' 1 hij he' (by rw [h3']; rfl)

end Link

open Link

namespace Link

/-- Messages are sent on Ch2, Ch0, Ch3 and Ch2. The one on Ch0 is lost, the first and the third are
confirmed; then a Ch3 message is sent, and what has not arrived yet arrives. -/
def secondLost : List Action :=
  [.sendA CH_RELIABLE_ORDERED 7 [1] 0, .sendA CH_UNRELIABLE_UNORDERED 7 [2] 0,
    .sendA CH_RELIABLE_UNORDERED 7 [3] 0,
    .sendA CH_RELIABLE_ORDERED 7 [4] 0, .arrive 0 (.V4 0 0) 0 0, .arrive 2 (.V4 0 0) 0 0,
    .recvA (.V4 1 0) ⟨VERSION, FLAG_PURE_ACK, 1, 0, 0, 2⟩ [] 0 0,
    .sendA CH_RELIABLE_UNORDERED 7 [5] 0, .arrive 3 (.V4 0 0) 0 0, .arrive 4 (.V4 0 0) 0 0]

def lacking : Link :=
  secondLost.foldl (step (fun _ _ => Vector.replicate 4 0) .default)
    (start ⟨1, 1, .V4 0 0, 0, [], 0⟩ ⟨1, 1, .V4 1 0, 0, [], 0⟩)

instance (l : Link) : Decidable l.ReceivedReliable :=
  decidable_of_iff (∀ i < l.log.length, ∀ e ∈ l.log[i]?, (queueOf e.call.ch).isSome →
    i ∈ l.received)
    ⟨fun h i e he hs => h i (List.getElem?_eq_some_iff.1 he).1 e he hs,
      fun h i _ e he hs => h i e he hs⟩

end Link

/-- Only Ch3 messages are sent, the newest datagram arrives, or the current acknowledgement of `b`
returns. -/
def Link.Ch3Only (l : Link) : Action → Prop
  | .sendA ch _ _ _ => ch = CH_RELIABLE_UNORDERED
  | .arrive i _ _ _ => i = l.log.length - 1
  | .recvA _ header frames _ _ =>
    (header.ack, header.ackBits) = l.b.computeAck ∧ header.flags = FLAG_PURE_ACK ∧ frames = []
  | _ => False

/-- A Ch3 message is sent, its datagram arrives, and the acknowledgement of `b` returns. -/
def Link.ch3Round (l : Link) : Link :=
  let sent := l.step (fun _ _ => Vector.replicate 4 0) .default (.sendA 3 7 [1] 0)
  let arrived := sent.step (fun _ _ => Vector.replicate 4 0) .default
    (.arrive (sent.log.length - 1) (.V4 0 0) 0 0)
  arrived.step (fun _ _ => Vector.replicate 4 0) .default (.recvA (.V4 1 0)
    ⟨VERSION, FLAG_PURE_ACK, 1, 0, arrived.b.computeAck.1, arrived.b.computeAck.2⟩ [] 0 0)

end SoupEngine
