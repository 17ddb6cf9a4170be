import SoupEngine.Link.Orderly

/-!
# The window of a sender that uses Ch2 only

As long as no call has failed, the retransmit queue of such a sender holds the newest numbers
without a gap, at most 64 of them, and it has dropped nothing that the receiver still waits for
(`Windowed`). Hence the receiver is at most 64 numbers behind.
-/

namespace SoupEngine

open TransitionSystem Release

/-- Dropping from a run of consecutive numbers leaves a run up to the same end. -/
theorem dropWhile_range' (p : ℕ → Bool) (m n : ℕ) :
    ∃ k, m ≤ k ∧ (List.range' m (n - m)).dropWhile p = List.range' k (n - k) ∧
      ∀ i, m ≤ i → i < k → i < n ∧ p i = true := by
  induction h : n - m generalizing m with
  | zero =>
    refine ⟨m, le_rfl, by rw [h]; rfl, fun i h1 h2 => absurd h2 (by omega)⟩
  | succ d ih =>
    rw [List.range'_succ, List.dropWhile_cons]
    by_cases hp : p m = true
    · obtain ⟨k, hk, heq, hall⟩ := ih (m + 1) (by omega)
      refine ⟨k, by omega, by rw [if_pos hp, heq], fun i h1 h2 => ?_⟩
      rcases Nat.eq_or_lt_of_le h1 with rfl | h1
      · exact ⟨by omega, hp⟩
      · exact hall i h1 h2
    · refine ⟨m, le_rfl, ?_, fun i h1 h2 => absurd h2 (by omega)⟩
      rw [if_neg hp, ← List.range'_succ, h]

namespace Link

/-- Only Ch2 is used, arrivals are orderly, and an acknowledgement is at most 32767 numbers
behind. -/
def InStep (l : Link) : Action → Prop
  | .sendA ch _ _ _ => ch = CH_RELIABLE_ORDERED
  | .recvA _ header _ _ _ =>
    ∃ r ∈ l.acks, (header.ack, header.ackBits) = r.ackPair ∧ l.log.length ≤ r.pos + 32767
  | x => l.Orderly x

structure Windowed (l : Link) : Prop where
  ordered : ∀ (i : ℕ) (e : Sent), l.log[i]? = some e → e.call.ch = CH_RELIABLE_ORDERED
  queue : ∃ k, k ≤ l.pos ∧ l.log.length ≤ k + 64 ∧
    l.queued 0 = List.range' k (l.log.length - k)

theorem windowed_start (a b : Opening) : Windowed (start a b) where
  ordered i e he := by cases he
  queue := ⟨0, le_rfl, Nat.zero_le _, rfl⟩

variable {hmac4 : Hmac} {cfg : SessionTableConfig} {l : Link} {D : Finset ℕ}

theorem orderly_of_inStep {x : Action} (hx : l.InStep x) : l.Orderly x := by
  cases x with
  | sendA ch msgId payload now => exact True.intro
  | recvA peer header frames now clock => exact True.intro
  | _ => exact hx

/-- A fresh acknowledgement does not confirm the number that `b` waits for. -/
theorem not_acked_pos (h : Sound cfg l D) (ht : l.Truthful D) (hw : l.Windowed)
    (hpos : l.pos < l.log.length) {r : AckRecord} (hr : r ∈ l.acks)
    (hfar : l.log.length ≤ r.pos + 32767) :
    ¬ isAcked (seqNum l.pos) r.ackPair.1 r.ackPair.2 = true := by
  intro hack
  have hok := ht r hr
  have hnone : ∀ i, i ∉ r.seen := by
    intro i hi
    obtain ⟨-, e, he, hch⟩ := hok.seen i hi
    rw [hw.ordered i e he] at hch
    exact absurd hch (by decide)
  rcases (hok.sound hfar (fun i hi => absurd hi (hnone i)) hpos hack).2 with hm | hm
  · rw [h.receiving.front] at hm
    exact front_not_mem D hm
  · exact hnone _ hm

/-- **The window of the sender.** -/
theorem windowed_step (h : Sound cfg l D) (ht : l.Truthful D) (hw : l.Windowed) {x : Action}
    (hx : l.InStep x) (hfail : (l.step hmac4 cfg x).failed = false) :
    (l.step hmac4 cfg x).Windowed := by
  obtain ⟨k, hk, hlen, hq⟩ := hw.queue
  cases x with
  | sendA ch msgId payload now =>
    have hch : ch = CH_RELIABLE_ORDERED := hx
    subst hch
    show (l.send hmac4 cfg CH_RELIABLE_ORDERED msgId payload now).Windowed
    by_cases ha : l.a.state = .Active
    swap
    · rw [send_inactive _ msgId payload now ha]
      exact hw
    obtain ⟨m, taken, datagram, hs⟩ :=
      send_spec hmac4 cfg h.wired.sendSeq CH_RELIABLE_ORDERED msgId payload now ha
    rcases hs.outcome with ⟨hm, rfl, -⟩ | ⟨-, -, hbad, -⟩
    swap
    · rw [show (l.send hmac4 cfg CH_RELIABLE_ORDERED msgId payload now).failed = false from hfail]
        at hbad
      cases hbad
    have hqueue : queueOf (l.callOf CH_RELIABLE_ORDERED msgId payload).ch = some 0 := rfl
    have hpos : (l.send hmac4 cfg CH_RELIABLE_ORDERED msgId payload now).pos = l.pos := by
      rw [hs.same]
    refine ⟨fun i e he => ?_, ⟨k, by rw [hpos]; exact hk, ?_, ?_⟩⟩
    · rcases hs.log_cases he with ⟨-, he⟩ | ⟨j, -, -, rfl⟩
      · exact hw.ordered i e he
      · rfl
    · rw [hs.length_log]
      rcases Nat.eq_zero_or_pos taken with rfl | hmpos
      · omega
      · have hroom := hs.room 0 hqueue hmpos
        have hlen0 := length_queued h.wired 0
        rw [hq, List.length_range'] at hlen0
        have hcap : RETRANSMIT_QUEUE_CAP = 64 := rfl
        omega
    · have hk' : k ≤ l.log.length := hk.trans h.receiving.pos_le
      rw [hs.queued, if_pos hqueue, hq, hs.length_log,
        show l.log.length + taken - k = (l.log.length - k) + taken by omega, ← List.range'_append]
      congr 2
      omega
  | recvA peer header frames now clock =>
    obtain ⟨r, hr, hpair, hfar⟩ := hx
    refine ⟨hw.ordered, ?_⟩
    show ∃ k, k ≤ l.pos ∧ l.log.length ≤ k + 64 ∧
      (l.receiveA peer header frames now clock).queued 0 = List.range' k (l.log.length - k)
    rw [queued_receiveA peer header frames now clock h.wired]
    split_ifs with hact
    · rw [hq]
      obtain ⟨k', hkk', heq, hall⟩ :=
        dropWhile_range' (fun i => isAcked (seqNum i) header.ack header.ackBits) k l.log.length
      refine ⟨k', ?_, by omega, heq⟩
      -- the queue is not cut beyond the number that is waited for
      by_contra hlt
      obtain ⟨hn, hack⟩ := hall l.pos hk (not_le.1 hlt)
      refine not_acked_pos h ht hw hn hr hfar ?_
      rw [← show header.ack = r.ackPair.1 from congrArg Prod.fst hpair,
        ← show header.ackBits = r.ackPair.2 from congrArg Prod.snd hpair]
      exact hack
    · exact ⟨k, hk, hlen, hq⟩
  | arrive i peer now clock =>
    rcases arrive_cases hmac4 cfg l i peer now clock with heq | ⟨call, bytes, -, heq⟩
    · rw [heq]
      exact hw
    · rw [heq]
      exact ⟨hw.ordered, k, hk.trans (Nat.le_add_right _ _), hlen, hq⟩
  | resendA now => exact ⟨hw.ordered, hw.queue⟩
  | idleA now => exact ⟨hw.ordered, hw.queue⟩
  | ackB peer header now clock => exact ⟨hw.ordered, hw.queue⟩
  | sendB ch msgId payload now => exact ⟨hw.ordered, hw.queue⟩
  | resendB now => exact ⟨hw.ordered, hw.queue⟩
  | idleB now => exact ⟨hw.ordered, hw.queue⟩

/-- The receiver is at most 64 numbers behind. -/
theorem Windowed.lag (hw : l.Windowed) : l.log.length ≤ l.pos + 64 := by
  obtain ⟨k, hk, hlen, -⟩ := hw.queue
  omega

end Link

end SoupEngine
