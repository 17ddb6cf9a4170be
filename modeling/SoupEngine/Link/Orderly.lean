import SoupEngine.Link.Receiver

/-!
# Orderly arrivals

An arrival is orderly when it is near the position of the receiver and neither takes in a delivered
group again nor mixes two groups. Then the sending side, the assembler and the receiving side keep
their invariants together (`orderly_step`), and every acknowledgement that the receiver has computed
tells the truth (`RecordOk`).
-/

namespace SoupEngine

open BoundedMemory Release

attribute [local irreducible] remember

namespace Link

/-- The arrival of number `i`, given out for the call. -/
structure OrderlyArrival (l : Link) (i : ℕ) (c : Call) : Prop where
  near : l.b.state = .Active → c.ch = CH_RELIABLE_ORDERED → l.Near i
  fresh : ¬ l.Stale i c
  own : ¬ l.Mixes i c

def Orderly (l : Link) : Action → Prop
  | .arrive i _ _ _ => ∀ (c : Call) bytes, l.log[i]? = some ⟨c, some bytes⟩ → l.OrderlyArrival i c
  | _ => True

/-- A number of the log that is no fragment and near the position arrives orderly. -/
theorem orderly_plain {l : Link} {i : ℕ} (peer : SocketAddr) (now clock : Instant)
    (hf : ∀ e ∈ l.log[i]?, ¬ e.call.Fragmented) (hn : l.pos ≤ i + 32768 ∧ i ≤ l.pos + 32766) :
    l.Orderly (.arrive i peer now clock) := by
  intro c bytes he
  have hc : ¬ c.Fragmented := hf _ he
  exact ⟨fun _ _ => hn, fun h => hc h.1.2.1.1, fun h => hc h.1.2.1.1⟩

instance (l : Link) (i : ℕ) : Decidable (l.Near i) := inferInstanceAs (Decidable (_ ∧ _))

theorem orderly_arrive_iff {l : Link} {i : ℕ} {peer : SocketAddr} {now clock : Instant} :
    l.Orderly (.arrive i peer now clock) ↔ ∀ e ∈ l.log[i]?, e.datagram.isSome →
      (l.b.isActive → e.call.ch = CH_RELIABLE_ORDERED → l.Near i) ∧ ¬ l.Stale i e.call ∧
      ¬ l.Mixes i e.call := by
  constructor
  · rintro h ⟨c, o⟩ he hsome
    obtain ⟨bytes, rfl⟩ := Option.isSome_iff_exists.1 hsome
    have hord := h c bytes he
    exact ⟨fun ha => hord.near (isActive_iff.1 ha), hord.fresh, hord.own⟩
  · intro h c bytes he
    obtain ⟨hnear, hfresh, hown⟩ := h _ he rfl
    exact ⟨fun ha => hnear (isActive_iff.2 ha), hfresh, hown⟩

instance (l : Link) : (x : Action) → Decidable (l.Orderly x)
  | .arrive .. => decidable_of_iff' _ orderly_arrive_iff
  | .sendA .. | .recvA .. | .resendA _ | .idleA _ | .ackB .. | .sendB .. | .resendB _ | .idleB _ =>
    instDecidableTrue

/-- What is buffered after an action. -/
def bufferedAfter (l : Link) (D : Finset ℕ) : Action → Finset ℕ
  | .arrive i _ _ _ =>
    match l.log[i]? with
    | some ⟨c, some _⟩ => l.grown i c D
    | _ => D
  | _ => D

/-- The invariants of both sides. -/
structure Sound (cfg : SessionTableConfig) (l : Link) (D : Finset ℕ) : Prop where
  wired : Wired cfg l
  assembled : l.Assembled
  receiving : Receiving l D

variable {hmac4 : Hmac} {cfg : SessionTableConfig} {l : Link} {D : Finset ℕ}

theorem sound_start (a b : Opening) : Sound cfg (start a b) ∅ :=
  ⟨wired_start a b, assembled_start a b, receiving_start a b⟩

theorem bufferedAfter_of_quiet {x : Action}
    (hx : ∀ i peer now clock, x ≠ .arrive i peer now clock) :
    l.bufferedAfter D x = D := by
  cases x with
  | arrive i peer now clock => exact absurd rfl (hx i peer now clock)
  | _ => rfl

theorem bufferedAfter_of_log {i : ℕ} {c : Call} {bytes : Bytes}
    (he : l.log[i]? = some ⟨c, some bytes⟩) (peer : SocketAddr) (now clock : Instant) :
    l.bufferedAfter D (.arrive i peer now clock) = l.grown i c D := by
  unfold bufferedAfter
  dsimp only
  rw [he]

/-- An action is quiet, or brings a datagram of the log. -/
theorem step_cases (hmac4 : Hmac) (cfg : SessionTableConfig) (l : Link) (D : Finset ℕ)
    (x : Action) :
    (∀ i peer now clock, x ≠ .arrive i peer now clock) ∨
      (l.step hmac4 cfg x = l ∧ l.bufferedAfter D x = D) ∨
      ∃ i c bytes peer now clock, x = .arrive i peer now clock ∧
        l.log[i]? = some ⟨c, some bytes⟩ ∧
        l.step hmac4 cfg x = l.receiveB cfg i c bytes peer now clock ∧
        l.bufferedAfter D x = l.grown i c D := by
  cases x with
  | arrive i peer now clock =>
    right
    unfold step bufferedAfter
    dsimp only
    rcases he : l.log[i]? with _ | ⟨c, _ | bytes⟩
    · exact Or.inl ⟨rfl, rfl⟩
    · exact Or.inl ⟨rfl, rfl⟩
    · exact Or.inr ⟨i, c, bytes, peer, now, clock, rfl, he, rfl, rfl⟩
  | _ =>
    left
    intro i peer now clock h
    cases h

/-- **An orderly step.** -/
theorem sound_step (hmac4 : Hmac) (h : Sound cfg l D) {x : Action} (hx : l.Orderly x) :
    Sound cfg (l.step hmac4 cfg x) (l.bufferedAfter D x) := by
  refine ⟨wired_step h.wired x, ?_, ?_⟩
  · rcases step_cases hmac4 cfg l D x with
      hq | ⟨heq, -⟩ | ⟨i, c, bytes, peer, now, clock, rfl, he, heq, -⟩
    · exact h.assembled.quiet (quiet_step hmac4 h.wired hq)
    · rw [heq]
      exact h.assembled
    · rw [heq]
      exact assembled_receiveB h.wired h.assembled he (hx c bytes he).own peer now clock
  · rcases step_cases hmac4 cfg l D x with
      hq | ⟨heq, hD⟩ | ⟨i, c, bytes, peer, now, clock, rfl, he, heq, hD⟩
    · rw [bufferedAfter_of_quiet hq]
      exact h.receiving.quiet (quiet_step hmac4 h.wired hq)
    · rw [heq, hD]
      exact h.receiving
    · have hok := hx c bytes he
      rw [heq, hD]
      exact receiving_receiveB h.wired h.assembled h.receiving he hok.own hok.fresh hok.near
        peer now clock

/-! ## Acknowledgements -/

/-- An acknowledgement that tells the truth. -/
structure RecordOk (l : Link) (D : Finset ℕ) (r : AckRecord) : Prop where
  pos_le : r.pos ≤ l.pos
  received : r.received ⊆ l.received
  ack : r.ackPair.1 + 1 = seqNum r.pos
  below : ∀ i < r.pos, i ∈ r.received ∧ i ∈ D
  bit : ∀ j < 32, r.ackPair.2.getLsbD j = true →
    (r.pos + j ∈ r.received ∧ r.pos + j ∈ D) ∨ ∃ i ∈ r.seen, seqNum i = seqNum (r.pos + j)
  seen : ∀ i ∈ r.seen, i ∈ r.received ∧
    ∃ e : Sent, l.log[i]? = some e ∧ e.call.ch = CH_RELIABLE_UNORDERED

def Truthful (l : Link) (D : Finset ℕ) : Prop := ∀ r ∈ l.acks, l.RecordOk D r

theorem recordOk_now (h : Receiving l D) :
    l.RecordOk D ⟨l.pos, l.received, l.seen, l.b.computeAck⟩ := by
  obtain ⟨hack, hbits⟩ := computeAck_window h.window
  refine ⟨le_rfl, Finset.Subset.refl _, hack, fun i hi => ?_, fun j hj hb => ?_, h.seen⟩
  · have hi' : i < front D := by rw [← h.front]; exact hi
    have hm := mem_of_lt_front hi'
    exact ⟨(h.buffered i hm).1, hm⟩
  · rcases (hbits j hj).1 hb with hm | hm
    · exact Or.inl ⟨(h.buffered _ hm).1, hm⟩
    · rw [h.ch3Seen] at hm
      exact Or.inr (List.mem_map.1 hm)

theorem RecordOk.mono {l' : Link} {D' : Finset ℕ} {r : AckRecord} (h : l.RecordOk D r)
    (hlog : ∀ (i : ℕ) (e : Sent), l.log[i]? = some e → l'.log[i]? = some e) (hp : l.pos ≤ l'.pos)
    (hr : l.received ⊆ l'.received) (hD : D ⊆ D') : l'.RecordOk D' r where
  pos_le := h.pos_le.trans hp
  received := h.received.trans hr
  ack := h.ack
  below := by
    intro i hi
    exact ⟨(h.below i hi).1, hD (h.below i hi).2⟩
  bit := by
    intro j hj hb
    exact (h.bit j hj hb).imp_left fun hm => ⟨hm.1, hD hm.2⟩
  seen := by
    intro i hi
    obtain ⟨hm, e, he, hch⟩ := h.seen i hi
    exact ⟨hm, e, hlog i e he, hch⟩

theorem truthful_start (a b : Opening) : (start a b).Truthful ∅ := by
  intro r hr
  rw [List.mem_singleton.1 hr]
  exact recordOk_now (receiving_start a b)

/-- Nothing but an arrival makes `b` compute an acknowledgement that it has not computed before. -/
theorem acks_step_of_quiet {x : Action} (hx : ∀ i peer now clock, x ≠ .arrive i peer now clock) :
    (l.step hmac4 cfg x).acks = l.acks := by
  cases x with
  | arrive i peer now clock => exact absurd rfl (hx i peer now clock)
  | _ => rfl

theorem truthful_step (h : Sound cfg l D) (ht : l.Truthful D) {x : Action} (hx : l.Orderly x) :
    (l.step hmac4 cfg x).Truthful (l.bufferedAfter D x) := by
  rcases step_cases hmac4 cfg l D x with
    hq | ⟨heq, hD⟩ | ⟨i, c, bytes, peer, now, clock, rfl, he, heq, hD⟩
  · have hquiet := quiet_step hmac4 h.wired hq
    rw [bufferedAfter_of_quiet hq]
    intro r hr
    rw [acks_step_of_quiet hq] at hr
    exact (ht r hr).mono hquiet.log hquiet.pos.ge hquiet.received.ge (Finset.Subset.refl D)
  · rw [heq, hD]
    exact ht
  · have hnow := recordOk_now (sound_step hmac4 h hx).receiving
    have hpos : l.pos ≤ (l.receiveB cfg i c bytes peer now clock).pos := Nat.le_add_right _ _
    rw [heq, hD] at hnow ⊢
    intro r hr
    rcases List.mem_append.1 (show r ∈ l.acks ++ [_] from hr) with hr | hr
    · exact (ht r hr).mono (fun _ _ h => h) hpos (received_subset l i c bytes peer now clock)
        (subset_grown l i c D)
    · rw [List.mem_singleton.1 hr]
      exact hnow

/-- A number that a fresh acknowledgement confirms has been received, on Ch2 into the buffer. -/
theorem RecordOk.sound {r : AckRecord} (h : l.RecordOk D r) (hfar : l.log.length ≤ r.pos + 32767)
    (hseen : ∀ i ∈ r.seen, r.pos < i + 65505) {i : ℕ} (hi : i < l.log.length)
    (hack : isAcked (seqNum i) r.ackPair.1 r.ackPair.2 = true) :
    i ∈ r.received ∧ (i ∈ D ∨ i ∈ r.seen) := by
  by_cases hlt : i < r.pos
  · exact ⟨(h.below i hlt).1, Or.inl (h.below i hlt).2⟩
  · rcases (isAcked_num h.ack (by omega) (by omega)).1 hack with hlt' | ⟨-, h32, hbit⟩
    · exact absurd hlt' hlt
    · rcases h.bit (i - r.pos) (by omega) hbit with hr | ⟨j, hj, hseq⟩
      · rw [show r.pos + (i - r.pos) = i by omega] at hr
        exact ⟨hr.1, Or.inl hr.2⟩
      · rw [show r.pos + (i - r.pos) = i by omega] at hseq
        obtain ⟨hjr, e, he, -⟩ := h.seen j hj
        have h1 := hseen j hj
        have h2 := (List.getElem?_eq_some_iff.1 he).1
        have hji : j = i := (seqNum_inj (by omega) (by omega)).1 hseq
        rw [← hji]
        exact ⟨hjr, Or.inr hj⟩

theorem computeAck_congr {s t : Session} (h2 : s.ch2View = t.ch2View) (h3 : s.ch3Seen = t.ch3Seen) :
    s.computeAck = t.computeAck := by
  have hn : s.ch2Next = t.ch2Next := congrArg Ch2View.next h2
  have hr : s.reorder = t.reorder := congrArg Ch2View.reorder h2
  have hd : s.deliveredSeqs = t.deliveredSeqs := congrArg Ch2View.seqs h2
  unfold Session.computeAck Session.ackSees
  rw [hn, hr, hd, h3]

/-- The acknowledgement that `b` would send now is recorded. -/
def Recorded (l : Link) : Prop :=
  (⟨l.pos, l.received, l.seen, l.b.computeAck⟩ : AckRecord) ∈ l.acks

theorem recorded_start (a b : Opening) : (start a b).Recorded := List.mem_singleton.2 rfl

theorem recorded_step (h : Wired cfg l) (hr : l.Recorded) (x : Action) :
    (l.step hmac4 cfg x).Recorded := by
  rcases step_cases hmac4 cfg l ∅ x with
    hq | ⟨heq, -⟩ | ⟨i, c, bytes, peer, now, clock, rfl, -, heq, -⟩
  · have hquiet := quiet_step hmac4 h hq
    unfold Recorded
    rw [hquiet.pos, hquiet.received, hquiet.seen, computeAck_congr hquiet.ch2 hquiet.ch3Seen,
      acks_step_of_quiet hq]
    exact hr
  · rw [heq]
    exact hr
  · rw [heq]
    exact List.mem_append_right _ (List.mem_singleton.2 rfl)

end Link

end SoupEngine
