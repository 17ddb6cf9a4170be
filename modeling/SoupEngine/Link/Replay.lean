import SoupEngine.Link.Channels
import SoupEngine.Link.Settled
import SoupEngine.Link.SlidingWindow

/-!
# Late copies of fragments

A sender that uses Ch2 only, over a network that delays by less than half of the number space. As
long as no fragment of a delivered message is taken in again, every message is delivered at most
once and in its place, and the reorder buffer holds nothing that has been delivered
(`delivered_once`). The receiver remembers the last 512 numbers and the last 128 groups; a copy that
is later than both is taken in (`delivered_again`).
-/

namespace SoupEngine

open TransitionSystem Release BoundedMemory

attribute [local irreducible] remember

namespace Link

/-- Only Ch2 is used, and datagrams and acknowledgements are less than half of the number space
late. -/
def Delayed (l : Link) : Action → Prop
  | .sendA ch _ _ _ => ch = CH_RELIABLE_ORDERED
  | .recvA _ header _ _ _ =>
    ∃ r ∈ l.acks, (header.ack, header.ackBits) = r.ackPair ∧ l.log.length ≤ r.pos + 32767
  | .arrive i _ _ _ => l.log.length ≤ i + 32768
  | _ => True

/-- The arriving number is not taken in again after its message was delivered; once a call has
failed, it is also near the position and not mixed with another message. -/
def NotRetaken (l : Link) : Action → Prop
  | .arrive i _ _ _ => ∀ (c : Call) bytes, l.log[i]? = some ⟨c, some bytes⟩ →
    ¬ l.Stale i c ∧ (l.failed = true → i ≤ l.pos + 32766 ∧ ¬ l.Mixes i c)
  | _ => True

/-- What holds while nothing is taken in again. -/
structure Once (cfg : SessionTableConfig) (l : Link) (D : Finset ℕ) : Prop where
  sound : Sound cfg l D
  truthful : l.Truthful D
  timely : l.failed = false → l.Windowed ∧ Whole l ∧ Settled l D

variable {hmac4 : Hmac} {cfg : SessionTableConfig} {l : Link} {D : Finset ℕ} {c : Call} {i : ℕ}
  {bytes : Bytes}

theorem once_start (a b : Opening) : Once cfg (start a b) ∅ where
  sound := sound_start a b
  truthful := truthful_start a b
  timely _ := ⟨windowed_start a b, whole_start a b, settled_start a b⟩

/-- An arrival that is allowed is orderly. -/
theorem orderly_of_notRetaken (h : Once cfg l D) {peer : SocketAddr} {now clock : Instant}
    (hx : l.Delayed (.arrive i peer now clock)) (hn : l.NotRetaken (.arrive i peer now clock))
    (he : l.log[i]? = some ⟨c, some bytes⟩) : l.OrderlyArrival i c := by
  obtain ⟨hfresh, hfailed⟩ := hn c bytes he
  have hdelay : l.log.length ≤ i + 32768 := hx
  have hpos := h.sound.receiving.pos_le
  have hlt : i < l.log.length := (List.getElem?_eq_some_iff.1 he).1
  by_cases hok : l.failed = false
  · obtain ⟨hwin, -, hset⟩ := h.timely hok
    have hlag := hwin.lag
    exact ⟨fun _ _ => ⟨by omega, by omega⟩, hfresh, hset.not_mixes h.sound hlag ⟨_, he, rfl⟩ hfresh⟩
  · obtain ⟨hnear, hmix⟩ := hfailed (Bool.eq_true_of_not_eq_false hok)
    exact ⟨fun _ _ => ⟨by omega, hnear⟩, hfresh, hmix⟩

theorem inStep_of_delayed (h : Once cfg l D) {x : Action} (hx : l.Delayed x) (hn : l.NotRetaken x) :
    l.InStep x := by
  cases x with
  | sendA ch msgId payload now => exact hx
  | recvA peer header frames now clock => exact hx
  | arrive i peer now clock => exact fun c bytes he => orderly_of_notRetaken h hx hn he
  | _ => exact True.intro

theorem once_step (hmac4 : Hmac) (h : Once cfg l D) {x : Action} (hx : l.Delayed x)
    (hn : l.NotRetaken x) :
    Once cfg (l.step hmac4 cfg x) (l.bufferedAfter D x) := by
  have hin := inStep_of_delayed h hx hn
  have hord := orderly_of_inStep hin
  refine ⟨sound_step hmac4 h.sound hord, truthful_step h.sound h.truthful hord, fun hfail => ?_⟩
  obtain ⟨hwin, hwh, hset⟩ := h.timely (failed_of_step hfail)
  refine ⟨windowed_step h.sound h.truthful hwin hin hfail, whole_step h.sound.wired hwh hfail, ?_⟩
  rcases step_cases hmac4 cfg l D x with
    hq | ⟨heq, hD⟩ | ⟨i, c, bytes, peer, now, clock, rfl, he, heq, hD⟩
  · rw [bufferedAfter_of_quiet hq]
    exact hset.quiet h.sound.receiving (quiet_step hmac4 h.sound.wired hq)
  · rw [heq, hD]
    exact hset
  · rw [heq, hD]
    by_cases ha : l.b.state = .Active
    · exact settled_arrival h.sound hset hwin.lag ha he (hn c bytes he).1 peer now clock
    · have hgrown : l.grown i c D = D :=
        if_pos (Or.inl (Bool.eq_false_iff.2 fun h => ha (isActive_iff.1 h)))
      rw [hgrown]
      exact hset.quiet h.sound.receiving (quiet_receiveB_inactive ha i c bytes peer now clock)

/-- The buffer holds the entries of numbers that have not been delivered. -/
theorem Receiving.reorder_of_some (hR : Receiving l D) {s : U16} {v : U16 × Bytes}
    (hv : l.b.reorder[s]? = some v) :
    ∃ i, l.pos ≤ i ∧ i < l.log.length ∧ seqNum i = s ∧ v = l.slot i := by
  -- the number within one turn of the position that has this label
  have hs := s.isLt
  obtain ⟨i, hlo, hhi, hi⟩ : ∃ i, l.pos ≤ i ∧ i < l.pos + 65536 ∧ i % 65536 = s.toNat := by
    by_cases hle : l.pos % 65536 ≤ s.toNat
    · exact ⟨l.pos - l.pos % 65536 + s.toNat, by omega, by omega, by omega⟩
    · exact ⟨l.pos - l.pos % 65536 + 65536 + s.toNat, by omega, by omega, by omega⟩
  have hseq : seqNum i = s := BitVec.eq_of_toNat_eq (by rw [toNat_seqNum]; exact hi)
  have hr : l.b.reorder[seqNum i]? = if i ∈ D then some (l.slot i) else none :=
    hR.window.reorder i hlo hhi
  rw [hseq, hv] at hr
  split_ifs at hr with hD
  · obtain ⟨-, e, he, -⟩ := hR.buffered i hD
    exact ⟨i, hlo, (List.getElem?_eq_some_iff.1 he).1, hseq, Option.some.inj hr⟩

/-- A copy of a fragment of a delivered message changes nothing and delivers nothing. -/
theorem Once.late_copy (h : Once cfg l D) {peer : SocketAddr} {now clock : Instant}
    (hx : l.Delayed (.arrive i peer now clock)) (hn : l.NotRetaken (.arrive i peer now clock))
    (he : l.log[i]? = some ⟨c, some bytes⟩) (hf : c.Fragmented) (hlate : c.first < l.pos) :
    { (l.b.receive cfg Stats.new peer bytes now clock).session.receiverView with
        state := l.b.state } = l.b.receiverView ∧
      ch2Data (l.b.receive cfg Stats.new peer bytes now clock).events = [] := by
  by_cases ha : l.b.state = .Active
  swap
  · exact receiverView_receive_inactive cfg Stats.new peer bytes now clock ha
  have hord := orderly_of_notRetaken h hx hn he
  have hacc : ¬ l.Accepts i c := fun hacc => hord.fresh ⟨hacc, hlate⟩
  rcases fragment_cases h.sound.wired h.sound.assembled ha he hf.1 hf hord.own peer now clock with
    ⟨-, hview, hev⟩ | ⟨hacc', -⟩ | ⟨hacc', -⟩
  · rw [hview, hev]
    exact ⟨rfl, rfl⟩
  · exact absurd hacc' hacc
  · exact absurd hacc' hacc

end Link

open Link

/-- **A delivered group.** In every run in which no fragment of a delivered message is taken in
again, the messages delivered are those of the numbers below the position, each once and in order,
the reorder buffer holds only what has not been delivered, and a further copy of a delivered
fragment changes nothing. -/
theorem delivered_once (hmac4 : Hmac) (cfg : SessionTableConfig) (a b : Opening) {l : Link}
    (h : Reach (step hmac4 cfg) (fun l x => l.Delayed x ∧ l.NotRetaken x) (start a b) l) :
    ch2Data l.events = delivered l.slot 0 l.pos ∧
      (l.failed = false → ch2Data l.events = (List.range l.pos).filterMap l.ch2Message) ∧
      (∀ s v, l.b.reorder[s]? = some v →
        ∃ i, l.pos ≤ i ∧ i < l.log.length ∧ seqNum i = s ∧ v = l.slot i) ∧
      ∀ i c bytes peer now clock, l.log[i]? = some ⟨c, some bytes⟩ → c.Fragmented →
        c.first < l.pos →
        l.Delayed (.arrive i peer now clock) → l.NotRetaken (.arrive i peer now clock) →
        { (l.b.receive cfg Stats.new peer bytes now clock).session.receiverView with
            state := l.b.state } = l.b.receiverView ∧
          ch2Data (l.b.receive cfg Stats.new peer bytes now clock).events = [] := by
  have hinv : ∃ D, Once cfg l D := by
    refine h.invariant (I := fun l => ∃ D, Once cfg l D) ⟨∅, once_start a b⟩ ?_
    rintro l x ⟨D, hD⟩ ⟨hx, hn⟩
    exact ⟨_, once_step hmac4 hD hx hn⟩
  obtain ⟨D, hD⟩ := hinv
  have hR := hD.sound.receiving
  refine ⟨hR.events, fun hok => ?_, fun s v hv => hR.reorder_of_some hv,
    fun i c bytes peer now clock he hf hlate hx hn => hD.late_copy hx hn he hf hlate⟩
  rw [hR.events]
  exact delivered_eq_messages (hD.timely hok).2.1 hD.sound.wired hR.ordered

namespace Link

instance (l : Link) : (x : Action) → Decidable (l.Delayed x)
  | .sendA ch _ _ _ => instDecidableEqBitVec ch CH_RELIABLE_ORDERED
  | .recvA .. => List.decidableBEx _ _
  | .arrive .. => Nat.decLe _ _
  | .resendA _ | .idleA _ | .ackB .. | .sendB .. | .resendB _ | .idleB _ => instDecidableTrue

theorem notRetaken_arrive_iff {l : Link} {i : ℕ} {peer : SocketAddr} {now clock : Instant} :
    l.NotRetaken (.arrive i peer now clock) ↔ ∀ e ∈ l.log[i]?, e.datagram.isSome →
      ¬ l.Stale i e.call ∧ (l.failed = true → i ≤ l.pos + 32766 ∧ ¬ l.Mixes i e.call) := by
  constructor
  · rintro h ⟨c, o⟩ he hsome
    obtain ⟨bytes, rfl⟩ := Option.isSome_iff_exists.1 hsome
    exact h c bytes he
  · exact fun h c bytes he => h _ he rfl

instance (l : Link) : (x : Action) → Decidable (l.NotRetaken x)
  | .arrive .. => decidable_of_iff' _ notRetaken_arrive_iff
  | .sendA .. | .recvA .. | .resendA _ | .idleA _ | .ackB .. | .sendB .. | .resendB _ | .idleB _ =>
    instDecidableTrue

/-- A payload of two fragments. -/
def twoFragments : Bytes := List.replicate 1101 0

/-- A message of two fragments arrives in the wrong order and is delivered; then copies of both
fragments come. -/
def copiedFragments : List Action :=
  [.sendA CH_RELIABLE_ORDERED 7 twoFragments 0, .arrive 1 (.V4 0 0) 0 0, .arrive 0 (.V4 0 0) 0 0,
    .arrive 0 (.V4 0 0) 0 0, .arrive 1 (.V4 0 0) 0 0]

def beforeCopies : Link := start ⟨1, 1, .V4 0 0, 0, [], 0⟩ ⟨1, 1, .V4 1 0, 0, [], 0⟩

def afterCopies : Link :=
  copiedFragments.foldl (step (fun _ _ => Vector.replicate 4 0) .default) beforeCopies

/-- The message is delivered once, and a further copy changes nothing. -/
theorem delivered_once_copied :
    Reach (step (fun _ _ => Vector.replicate 4 0) .default)
        (fun l x => l.Delayed x ∧ l.NotRetaken x) beforeCopies
        afterCopies ∧
      afterCopies.received = {0, 1} ∧ ch2Data afterCopies.events = [(7, twoFragments)] ∧
      ch2Data afterCopies.events = delivered afterCopies.slot 0 afterCopies.pos ∧
      ∃ c bytes, afterCopies.log[1]? = some ⟨c, some bytes⟩ ∧
        { (afterCopies.b.receive .default Stats.new (.V4 0 0) bytes 0 0).session.receiverView with
            state := afterCopies.b.state } = afterCopies.b.receiverView ∧
          ch2Data (afterCopies.b.receive .default Stats.new (.V4 0 0) bytes 0 0).events = [] := by
  have hrun : Allowed (step (fun _ _ => Vector.replicate 4 0) .default)
        (fun l x => l.Delayed x ∧ l.NotRetaken x) beforeCopies copiedFragments ∧
      afterCopies.received = {0, 1} ∧ ch2Data afterCopies.events = [(7, twoFragments)] ∧
      afterCopies.Delayed (.arrive 1 (.V4 0 0) 0 0) ∧
      afterCopies.NotRetaken (.arrive 1 (.V4 0 0) 0 0) ∧
      ∃ e ∈ afterCopies.log[1]?, e.datagram.isSome ∧ e.call.Fragmented ∧
      e.call.first < afterCopies.pos := by
    decide +kernel
  obtain ⟨hallowed, hreceived, hevents, hdelayed, hkept, ⟨c, o⟩, he, hsome, hf, hlate⟩ := hrun
  obtain ⟨bytes, rfl⟩ := Option.isSome_iff_exists.1 hsome
  have hreach : Reach (step (fun _ _ => Vector.replicate 4 0) .default)
      (fun l x => l.Delayed x ∧ l.NotRetaken x) beforeCopies afterCopies := Reach.foldl hallowed
  have hlog : afterCopies.log[1]? = some ⟨c, some bytes⟩ := Option.mem_def.1 he
  obtain ⟨hdelivered, -, -, hcopy⟩ := delivered_once _ _ _ _ hreach
  refine ⟨hreach, hreceived, hevents, hdelivered, c, bytes, hlog, ?_⟩
  exact hcopy 1 c bytes (.V4 0 0) 0 0 hlog hf hlate hdelayed hkept

end Link

/-! ## What an arriving fragment does to the memory of completed groups -/

namespace Link

theorem step_arrive (hmac4 : Hmac) (cfg : SessionTableConfig) {l : Link} {i : ℕ} {c : Call}
    {bytes : Bytes} (he : l.log[i]? = some ⟨c, some bytes⟩) (peer : SocketAddr)
    (now clock : Instant) :
    l.step hmac4 cfg (.arrive i peer now clock) = l.receiveB cfg i c bytes peer now clock := by
  unfold step
  dsimp only
  rw [he]

section Fragment

variable {cfg : SessionTableConfig} {l : Link} {D : Finset ℕ} {c : Call} {i : ℕ} {bytes : Bytes}
  (hC : Complete cfg l D) (ha : l.b.state = .Active) (he : l.log[i]? = some ⟨c, some bytes⟩)
  (hf : c.Fragmented) (hok : l.OrderlyArrival i c) (peer : SocketAddr) (now clock : Instant)

include ha hf in
theorem grown_fragment (D : Finset ℕ) : l.grown i c D =
    if l.Accepts i c ∧ l.b.Completes (c.fragment i) then D ∪ groupNums c.first c.total else D := by
  unfold grown
  rw [if_neg (by rw [isActive_iff.2 ha]; exact fun h => h.elim Bool.noConfusion fun h => h hf.1),
    if_neg (not_not.2 hf)]

include hC ha he hf hok in
/-- A fragment completes nothing while another one is missing. -/
theorem completed_of_missing {j : ℕ} (hj : j < c.total) (hji : j ≠ i - c.first)
    (hmiss : c.first + j ∉ l.received) :
    (l.receiveB cfg i c bytes peer now clock).b.assembler.completed = l.b.assembler.completed ∧
      l.grown i c D = D := by
  rw [grown_fragment ha hf]
  rcases fragment_cases hC.sound.wired hC.sound.assembled ha he hf.1 hf hok.own peer now clock with
    ⟨hacc, hview, -⟩ | ⟨-, hnc, st, -, -, -, hview, -⟩ | ⟨-, -, hall, -⟩
  · exact ⟨congrArg (fun v => v.assembler.completed) hview, if_neg fun h => hacc h.1⟩
  · exact ⟨congrArg (fun v => v.assembler.completed) hview, if_neg fun h => hnc h.2⟩
  · rcases hall j hj with h | h
    · exact absurd h hji
    · exact absurd h.1 hmiss

include hC ha he hf hok in
/-- The last fragment that is missing completes its group. -/
theorem completed_of_last (hi : i ∉ D)
    (hall : ∀ j < c.count, c.first + j ∈ (l.receiveB cfg i c bytes peer now clock).received) :
    (l.receiveB cfg i c bytes peer now clock).b.assembler.completed =
        remember COMPLETED_CAP l.b.assembler.completed c.groupId ∧
      l.grown i c D = D ∪ groupNums c.first c.total := by
  have hkept := kept_arrival hC.sound hC.grouped hC.whole hC.kept ha he hok peer now clock
  have hC' : Complete cfg (l.receiveB cfg i c bytes peer now clock) (l.grown i c D) :=
    ⟨⟨hC.sound.wired.congr rfl (fun _ => rfl) rfl rfl,
      assembled_receiveB hC.sound.wired hC.sound.assembled he hok.own peer now clock,
      receiving_receiveB hC.sound.wired hC.sound.assembled hC.sound.receiving he hok.own hok.fresh
        hok.near peer now clock⟩, hC.grouped.congr rfl rfl, hC.whole.congr rfl, hkept⟩
  have hmem := hC'.mem_of_received ⟨_, he, rfl⟩ hf.1 hall
  rw [grown_fragment ha hf] at hmem ⊢
  split_ifs at hmem with hcomp
  swap
  · exact absurd hmem hi
  rw [if_pos hcomp]
  rcases fragment_cases hC.sound.wired hC.sound.assembled ha he hf.1 hf hok.own peer now clock with
    ⟨hacc, -⟩ | ⟨-, hnc, -⟩ | ⟨-, -, -, s, hview, -, hs, -⟩
  · exact absurd hcomp.1 hacc
  · exact absurd hcomp.2 hnc
  · refine ⟨?_, rfl⟩
    show (l.b.receive cfg Stats.new peer bytes now clock).session.assembler.completed = _
    rw [hs, (deliverCh2InOrder_same s []).2]
    exact congrArg (fun v => v.assembler.completed) hview

end Fragment

/-! ## A copy later than the memories -/

theorem count_two (first : ℕ) (msgId groupId : U16) :
    (⟨first, CH_RELIABLE_ORDERED, msgId, twoFragments, groupId⟩ : Call).Fragmented ∧
      (⟨first, CH_RELIABLE_ORDERED, msgId, twoFragments, groupId⟩ : Call).count = 2 ∧
      (⟨first, CH_RELIABLE_ORDERED, msgId, twoFragments, groupId⟩ : Call).total = 2 := by
  have hlen : twoFragments.length = 1101 := List.length_replicate
  have hf : fragments CH_RELIABLE_ORDERED twoFragments :=
    ⟨rfl, by rw [hlen]; decide⟩
  have hcount : fragmentCount twoFragments = 2 := by
    unfold fragmentCount divCeil
    rw [hlen]
    rfl
  refine ⟨hf, ?_, ?_⟩
  · exact (if_pos hf).trans hcount
  · show fragmentCount twoFragments % 256 = 2
    rw [hcount]

/-- The call of message `k` in a run of messages of two fragments. -/
def twoCall (k : ℕ) : Call := ⟨2 * k, CH_RELIABLE_ORDERED, 7, twoFragments, seqNum k⟩

/-- `n` messages of two fragments have been sent, delivered in order and acknowledged. -/
structure Rounds (hmac4 : Hmac) (a b : Opening) (n : ℕ) (l : Link) (D : Finset ℕ) : Prop where
  reach : Reach (step hmac4 .default) Delayed (start a b) l
  complete : Complete .default l D
  once : Once .default l D
  recorded : l.Recorded
  active : l.a.state = .Active ∧ l.b.state = .Active
  ok : l.failed = false
  length : l.log.length = 2 * n
  all : ∀ i < 2 * n, i ∈ D
  queue : l.queued 0 = []
  groupId : l.a.fragGroupId = seqNum n
  completed : l.b.assembler.completed = ((List.range n).map seqNum).rtake COMPLETED_CAP
  sent : ∀ k < n, ∀ j < 2, ∃ bytes, l.log[2 * k + j]? = some ⟨twoCall k, some bytes⟩

theorem rounds_zero (hmac4 : Hmac) (a b : Opening) : Rounds hmac4 a b 0 (start a b) ∅ where
  reach := .start
  complete := complete_start a b
  once := once_start a b
  recorded := recorded_start a b
  active := ⟨rfl, rfl⟩
  ok := rfl
  length := rfl
  all i hi := absurd hi (Nat.not_lt_zero i)
  queue := rfl
  groupId := rfl
  completed := rfl
  sent k hk := absurd hk (Nat.not_lt_zero k)

theorem Rounds.pos_eq {hmac4 : Hmac} {a b : Opening} {n : ℕ} {l : Link} {D : Finset ℕ}
    (h : Rounds hmac4 a b n l D) : l.pos = 2 * n := by
  have hR := h.complete.sound.receiving
  have hle := hR.pos_le
  rw [h.length] at hle
  refine le_antisymm hle ?_
  rw [hR.front]
  exact le_front h.all

/-- A copy of a number keeps the invariants while no call has failed. -/
theorem Once.arrive (hmac4 : Hmac) {l : Link} {D : Finset ℕ} {i : ℕ} {c : Call} {bytes : Bytes}
    (hO : Once .default l D) (hC : Complete .default l D) (hok : l.failed = false)
    (he : l.log[i]? = some ⟨c, some bytes⟩) (hnear : l.log.length ≤ i + 32768)
    (hfirst : l.pos ≤ c.first) (peer : SocketAddr) (now clock : Instant) :
    Once .default (l.receiveB .default i c bytes peer now clock) (l.grown i c D) ∧
      Complete .default (l.receiveB .default i c bytes peer now clock) (l.grown i c D) ∧
      l.OrderlyArrival i c := by
  have hx : l.Delayed (.arrive i peer now clock) := hnear
  have hn : l.NotRetaken (.arrive i peer now clock) := by
    intro c' bytes' he'
    rw [he] at he'
    cases he'
    refine ⟨fun hst => absurd hst.2 (not_lt.2 hfirst), fun hf => ?_⟩
    rw [hok] at hf
    cases hf
  have hbuf : l.bufferedAfter D (.arrive i peer now clock) = l.grown i c D := by
    unfold bufferedAfter
    dsimp only
    rw [he]
  have hO' := once_step hmac4 hO hx hn
  have hC' := complete_step hmac4 hC (orderly_of_inStep (inStep_of_delayed hO hx hn))
    (x := .arrive i peer now clock) True.intro (by rw [step_arrive _ _ he]; exact hok)
  rw [step_arrive _ _ he, hbuf] at hO' hC'
  exact ⟨hO', hC', orderly_of_notRetaken hO hx hn he⟩

theorem two_twoCall (n : ℕ) :
    (twoCall n).Fragmented ∧ (twoCall n).count = 2 ∧ (twoCall n).total = 2 :=
  count_two (2 * n) 7 (seqNum n)

/-- Message `n` has been sent, and the first `m` of its two fragments have arrived, not both. -/
structure Underway (hmac4 : Hmac) (a b : Opening) (n m : ℕ) (l : Link) (D : Finset ℕ) : Prop where
  reach : Reach (step hmac4 .default) Delayed (start a b) l
  complete : Complete .default l D
  once : Once .default l D
  recorded : l.Recorded
  active : l.a.state = .Active ∧ l.b.state = .Active
  ok : l.failed = false
  length : l.log.length = 2 * n + 2
  all : ∀ i < 2 * n, i ∈ D
  pos : l.pos = 2 * n
  here : ∀ j < m, 2 * n + j ∈ l.received
  missing : ∀ j, m ≤ j → 2 * n + j ∉ l.received
  queue : l.queued 0 = List.range' (2 * n) 2
  groupId : l.a.fragGroupId = seqNum (n + 1)
  completed : l.b.assembler.completed = ((List.range n).map seqNum).rtake COMPLETED_CAP
  sent : ∀ k < n + 1, ∀ j < 2, ∃ bytes, l.log[2 * k + j]? = some ⟨twoCall k, some bytes⟩

/-- One more message is sent. -/
theorem Rounds.send {hmac4 : Hmac} {a b : Opening} {n : ℕ} {l : Link} {D : Finset ℕ}
    (h : Rounds hmac4 a b n l D) :
    Underway hmac4 a b n 0
      (l.step hmac4 .default (.sendA CH_RELIABLE_ORDERED 7 twoFragments 0)) D := by
  obtain ⟨ha, hb⟩ := h.active
  have hw := h.complete.sound.wired
  have hcall : l.callOf CH_RELIABLE_ORDERED 7 twoFragments = twoCall n := by
    unfold callOf twoCall
    rw [h.length, h.groupId]
  obtain ⟨hf, hcount, -⟩ := two_twoCall n
  have hroom : ∀ qi, queueOf CH_RELIABLE_ORDERED = some qi →
      (l.a.retrans qi).len + (twoCall n).count ≤ RETRANSMIT_QUEUE_CAP := by
    intro qi hq
    obtain rfl : (0 : Fin 2) = qi := Option.some.inj hq
    have hlen := length_queued hw 0
    rw [h.queue] at hlen
    rw [← hlen, hcount]
    decide
  obtain ⟨datagram, hs, hfail⟩ := send_fits hmac4 .default hw.sendSeq CH_RELIABLE_ORDERED 7
    twoFragments 0 ha (by decide) (by decide) (fun hn => absurd hf hn) (by rw [hcall]; exact hroom)
  rw [hcall, hcount] at hs
  set l' := l.step hmac4 .default (.sendA CH_RELIABLE_ORDERED 7 twoFragments 0) with hl'
  change SendSpec hmac4 .default l l' (twoCall n) 2 2 datagram at hs
  have hok : l'.failed = false := hfail.trans h.ok
  have hsame : l'.pos = l.pos ∧ l'.received = l.received ∧ l'.b = l.b := by
    rw [hs.same]
    exact ⟨rfl, rfl, rfl⟩
  refine ⟨h.reach.next _ rfl,
    complete_step hmac4 h.complete (x := .sendA CH_RELIABLE_ORDERED 7 twoFragments 0) True.intro
      True.intro hok,
    once_step hmac4 h.once (x := .sendA CH_RELIABLE_ORDERED 7 twoFragments 0) rfl True.intro,
    recorded_step hw h.recorded _, ⟨hs.active, hsame.2.2 ▸ hb⟩, hok, ?_, h.all,
    hsame.1.trans h.pos_eq, fun j hj => absurd hj (Nat.not_lt_zero j), fun j _ hm => ?_, ?_, ?_, ?_,
    fun k hk j hj => ?_⟩
  · rw [hs.length_log, h.length]
  · rw [hsame.2.1] at hm
    have hlt := lt_of_received h.complete.sound.receiving hm
    rw [h.length] at hlt
    omega
  · rw [hs.queued, h.queue, h.length, if_pos (show queueOf (twoCall n).ch = some 0 from rfl)]
    rfl
  · rw [hs.groupId, if_pos hf, h.groupId, seqNum_succ]
  · rw [hsame.2.2, h.completed]
  · rcases Nat.lt_succ_iff_lt_or_eq.1 hk with hk | rfl
    · obtain ⟨bytes, hbytes⟩ := h.sent k hk j hj
      exact ⟨bytes, by rw [hs.log_old (by rw [h.length]; omega)]; exact hbytes⟩
    · have hnew := hs.log_new hj
      rw [h.length, if_pos hj] at hnew
      exact ⟨_, hnew⟩

/-- Its first fragment arrives. -/
theorem Underway.first {hmac4 : Hmac} {a b : Opening} {n : ℕ} {l : Link} {D : Finset ℕ}
    (h : Underway hmac4 a b n 0 l D) :
    Underway hmac4 a b n 1 (l.step hmac4 .default (.arrive (2 * n + 0) (.V4 0 0) 0 0)) D := by
  obtain ⟨ha, hb⟩ := h.active
  have hlen := h.length
  have hpos := h.pos
  obtain ⟨hf, -, htotal⟩ := two_twoCall n
  obtain ⟨bytes, he⟩ := h.sent n (Nat.lt_succ_self n) 0 (by omega)
  obtain ⟨hO, hC, hord⟩ :=
    h.once.arrive hmac4 h.complete h.ok he (by omega) (by rw [hpos]; exact le_rfl)
    (.V4 0 0) 0 0
  obtain ⟨hcomp, hD⟩ := completed_of_missing h.complete hb he hf hord (.V4 0 0) 0 0 (j := 1)
    (by rw [htotal]; omega) (by show 1 ≠ 2 * n + 0 - 2 * n; omega) (h.missing 1 (by omega))
  rw [hD] at hO hC
  have hreach := h.reach.next (.arrive (2 * n + 0) (.V4 0 0) 0 0) (by show l.log.length ≤ _; omega)
  have hrec := @recorded_step hmac4 _ _ h.complete.sound.wired h.recorded
    (.arrive (2 * n + 0) (.V4 0 0) 0 0)
  rw [step_arrive _ _ he] at hreach hrec ⊢
  set l' := l.receiveB .default (2 * n + 0) (twoCall n) bytes (.V4 0 0) 0 0 with hl'
  have hrcv : l'.received = insert (2 * n + 0) l.received := if_pos (isActive_iff.2 hb)
  refine ⟨hreach, hC, hO, hrec, ⟨ha, active_receive _ _ _ _ _ hb⟩, h.ok, h.length, h.all, ?_,
    fun j hj => ?_, fun j hj hm => ?_, h.queue, h.groupId, hcomp.trans h.completed, h.sent⟩
  · rw [hC.sound.receiving.front, ← h.complete.sound.receiving.front, hpos]
  · rw [hrcv, Finset.mem_insert]
    omega
  · rw [hrcv, Finset.mem_insert] at hm
    rcases hm with hm | hm
    · omega
    · exact h.missing j (by omega) hm

/-- Its second fragment arrives, and then the acknowledgement returns. -/
theorem Underway.last {hmac4 : Hmac} {a b : Opening} {n : ℕ} {l : Link} {D : Finset ℕ}
    (h : Underway hmac4 a b n 1 l D) : ∃ l' D', Rounds hmac4 a b (n + 1) l' D' := by
  obtain ⟨ha, hb⟩ := h.active
  have hlen := h.length
  have hpos := h.pos
  obtain ⟨hf, hcount, htotal⟩ := two_twoCall n
  obtain ⟨bytes, he⟩ := h.sent n (Nat.lt_succ_self n) 1 (by omega)
  obtain ⟨hO, hC, hord⟩ :=
    h.once.arrive hmac4 h.complete h.ok he (by omega) (by rw [hpos]; exact le_rfl)
    (.V4 0 0) 0 0
  have hi : 2 * n + 1 ∉ D := fun hm =>
    h.missing 1 le_rfl (h.complete.sound.receiving.buffered _ hm).1
  obtain ⟨hcomp, hD⟩ := completed_of_last h.complete hb he hf hord (.V4 0 0) 0 0 hi (by
    intro j hj
    rw [hcount] at hj
    show 2 * n + j ∈ if l.b.isActive then insert (2 * n + 1) l.received else l.received
    rw [if_pos (isActive_iff.2 hb), Finset.mem_insert]
    rcases (by omega : j = 0 ∨ j = 1) with rfl | rfl
    · exact Or.inr (h.here 0 (by omega))
    · exact Or.inl rfl)
  rw [hD] at hO hC
  have hreach := h.reach.next (.arrive (2 * n + 1) (.V4 0 0) 0 0) (by show l.log.length ≤ _; omega)
  have hrec := @recorded_step hmac4 _ _ h.complete.sound.wired h.recorded
    (.arrive (2 * n + 1) (.V4 0 0) 0 0)
  rw [step_arrive _ _ he] at hreach hrec
  set l₁ := l.receiveB .default (2 * n + 1) (twoCall n) bytes (.V4 0 0) 0 0 with hl₁
  have hall : ∀ i < 2 * (n + 1), i ∈ D ∪ groupNums (twoCall n).first (twoCall n).total := by
    intro i hi
    rw [Finset.mem_union, mem_groupNums, htotal]
    by_cases hlt : i < 2 * n
    · exact Or.inl (h.all i hlt)
    · exact Or.inr (by show 2 * n ≤ i ∧ i < 2 * n + 2; omega)
  have hpos₁ : 2 * (n + 1) ≤ l₁.pos := by
    rw [hC.sound.receiving.front]
    exact le_front hall
  have hlen₁ : l₁.log.length = 2 * n + 2 := hlen
  -- the acknowledgement
  set x : Action := .recvA (.V4 1 0)
    ⟨VERSION, FLAG_PURE_ACK, 1, 0, l₁.b.computeAck.1, l₁.b.computeAck.2⟩ [] 0 0 with hx
  have hxd : l₁.Delayed x := ⟨_, hrec, rfl, by rw [hlen₁]; show _ ≤ l₁.pos + 32767; omega⟩
  have hO₂ := once_step hmac4 hO hxd True.intro
  have hC₂ := complete_step hmac4 hC (x := x) True.intro True.intro h.ok
  refine ⟨_, _, ⟨hreach.next x hxd, hC₂, hO₂, recorded_step hC.sound.wired hrec x,
    ⟨active_handlePacket _ _ _ _ _ _ ha, active_receive _ _ _ _ _ hb⟩, h.ok, ?_, hall, ?_, ?_,
      ?_, ?_⟩⟩
  · show l₁.log.length = _
    rw [hlen₁, Nat.mul_succ]
  · show (l₁.receiveA _ _ _ _ _).queued 0 = []
    rw [queued_receiveA _ _ _ _ _ hC.sound.wired, if_pos (show l₁.a.state = .Active from ha),
      List.dropWhile_eq_nil_iff]
    intro i hi
    have hq : l₁.queued 0 = List.range' (2 * n) 2 := h.queue
    rw [hq, List.mem_range'_1] at hi
    obtain ⟨hack, -⟩ := computeAck_window hC.sound.receiving.window
    have hle := hC.sound.receiving.pos_le
    rw [hlen₁] at hle
    exact (isAcked_num hack (by omega) (by omega)).2 (Or.inl (by omega))
  · rw [(log_step_of_not_send hmac4 .default l₁ (by
      intro ch msgId payload now hne
      rw [hx] at hne
      cases hne)).2]
    exact h.groupId
  · show l₁.b.assembler.completed = _
    rw [hcomp, h.completed]
    exact remember_rtake_range _ _
  · exact h.sent

/-- **A round.** One more message is sent, its fragments arrive in order, and the acknowledgement
returns. -/
theorem Rounds.next {hmac4 : Hmac} {a b : Opening} {n : ℕ} {l : Link} {D : Finset ℕ}
    (h : Rounds hmac4 a b n l D) : ∃ l' D', Rounds hmac4 a b (n + 1) l' D' :=
  h.send.first.last

theorem exists_rounds (hmac4 : Hmac) (a b : Opening) (n : ℕ) : ∃ l D, Rounds hmac4 a b n l D := by
  induction n with
  | zero => exact ⟨_, _, rounds_zero hmac4 a b⟩
  | succ n ih =>
    obtain ⟨l, D, h⟩ := ih
    exact h.next

section Late

variable {hmac4 : Hmac} {a b : Opening} {n : ℕ} {l : Link} {D : Finset ℕ}

/-- After 257 rounds neither memory knows the first message. -/
theorem Rounds.not_remembers (h : Rounds hmac4 a b 257 l D) {j : ℕ} (hj : j < 2) :
    ¬ l.b.Remembers (seqNum j) (twoCall 0).groupId := by
  rintro (hm | hm)
  · have hpos := h.pos_eq
    have := (h.complete.sound.receiving.window.mem_seqs (i := j) (by omega) (by omega)).1 hm
    omega
  · rw [h.completed, mem_rtake_map_range] at hm
    obtain ⟨i, hi, hcap, hseq⟩ := hm
    have hC : COMPLETED_CAP = 128 := rfl
    have := (seqNum_inj (i := i) (j := 0) (by omega) (by omega)).1 hseq
    omega

/-- After a round nothing is pending. -/
theorem Rounds.pending_none (h : Rounds hmac4 a b n l D) (g : U16) :
    l.b.assembler.pending[g]? = none := by
  cases hst : l.b.assembler.pending[g]? with
  | none => rfl
  | some st =>
    obtain ⟨c, hc⟩ := h.complete.sound.assembled g st hst
    have hlt := lt_of_numbered hc.numbered
    have hmem := h.all c.first (by rw [← h.length]; exact hlt)
    exact absurd (hc.owner ▸ hmem) ((h.once.timely h.ok).2.2.unfinished g st hst)

theorem Rounds.reorder_none (h : Rounds hmac4 a b n l D) (s : U16) : l.b.reorder[s]? = none := by
  cases hv : l.b.reorder[s]? with
  | none => rfl
  | some v =>
    obtain ⟨i, hlo, hhi, -⟩ := h.complete.sound.receiving.reorder_of_some hv
    rw [h.pos_eq, ← h.length] at hlo
    omega

theorem Rounds.accepts (h : Rounds hmac4 a b 257 l D) {j : ℕ} (hj : j < 2) :
    l.Accepts j (twoCall 0) := by
  obtain ⟨hf, -, htotal⟩ := two_twoCall 0
  refine ⟨isActive_iff.2 h.active.2, ⟨hf, by omega, ?_⟩, h.not_remembers hj⟩
  rw [htotal]
  show j - 0 < 2
  omega

theorem Rounds.not_joins (h : Rounds hmac4 a b n l D) (j : ℕ) (c : Call) : ¬ l.Joins j c := by
  rintro ⟨st, hst, -⟩
  rw [h.pending_none] at hst
  cases hst

/-- A late copy of the first fragment is kept: its group is pending again. -/
theorem Rounds.kept_copy (h : Rounds hmac4 a b 257 l D) {bytes : Bytes}
    (he : l.log[0]? = some ⟨twoCall 0, some bytes⟩) :
    ∃ st : FragState, st.total.toNat = (twoCall 0).total ∧ st.firstSeq = seqNum (twoCall 0).first ∧
      (∀ j, st.part j = l.b.heldWith ((twoCall 0).fragment 0) j) ∧
      (l.receiveB .default 0 (twoCall 0) bytes (.V4 0 0) 0 0).b.receiverView =
        { l.b.receiverView with assembler :=
          ⟨l.b.assembler.pending.insert (twoCall 0).groupId st, l.b.assembler.completed⟩ } := by
  obtain ⟨hf, -, htotal⟩ := two_twoCall 0
  have hmix : ¬ l.Mixes 0 (twoCall 0) := fun hm => h.not_joins 0 _ hm.2.1
  rcases fragment_cases h.complete.sound.wired h.complete.sound.assembled h.active.2 he hf.1 hf hmix
      (.V4 0 0) 0 0 with ⟨hn, -⟩ | ⟨-, -, st, hst, hfs, hparts, hview, -⟩ | ⟨-, hcomp, -⟩
  · exact absurd (h.accepts (by omega)) hn
  · exact ⟨st, hst, hfs, hparts, hview⟩
  · have h1 := hcomp 1 (by rw [Call.total_fragment, htotal]; omega)
    unfold Session.heldWith FragmentAssembler.withChunk FragmentAssembler.collected at h1
    rw [h.pending_none] at h1
    cases h1

/-- With the first fragment pending the second one completes the group. -/
theorem completes_second {l l₁ : Link} {st : FragState} (hst : st.total.toNat = (twoCall 0).total)
    (hfs : st.firstSeq = seqNum (twoCall 0).first)
    (hparts : ∀ j, st.part j = l.b.heldWith ((twoCall 0).fragment 0) j)
    (hpend : l₁.b.assembler.pending[(twoCall 0).groupId]? = some st) :
    l₁.b.Completes ((twoCall 0).fragment 1) := by
  intro j hj
  rw [Call.total_fragment, (two_twoCall 0).2.2] at hj
  have hno : ((twoCall 0).fragment 1).fragNo.toNat = 1 := rfl
  unfold Session.heldWith FragmentAssembler.withChunk
  rw [hno]
  split_ifs with h1
  · rfl
  · obtain rfl : j = 0 := by omega
    unfold FragmentAssembler.collected
    rw [show ((twoCall 0).fragment 1).groupId = (twoCall 0).groupId from rfl, hpend]
    dsimp only
    rw [if_pos ⟨BitVec.eq_of_toNat_eq (by rw [hst, Call.total_fragment]), hfs⟩, hparts]
    unfold Session.heldWith FragmentAssembler.withChunk
    rw [if_pos (by rfl)]
    rfl

/-- A group put into the empty reorder buffer behind the position stays there. -/
theorem Rounds.stays_buffered (h : Rounds hmac4 a b 257 l D) {s : Session}
    (hnext : s.ch2Next = l.b.ch2Next) {e : U16 × Bytes}
    (hreorder : s.reorder = insertGroup l.b.reorder (seqNum 0) ((twoCall 0).fragment 1).total e) :
    (deliverCh2InOrder s []).1.reorder[seqNum 0]? = some e := by
  have htotal := (two_twoCall 0).2.2
  have hnext' : s.ch2Next = some (seqNum 514) :=
    calc s.ch2Next = l.b.ch2Next := hnext
      _ = some (seqNum l.pos) := h.complete.sound.receiving.window.next
      _ = some (seqNum 514) := by rw [h.pos_eq]
  have hstay : (deliverCh2InOrder s []).1 = s := by
    unfold deliverCh2InOrder
    rw [hnext']
    dsimp only
    cases s.reorder.size with
    | zero => rfl
    | succ k =>
      unfold deliverLoop
      have hnone : s.reorder[seqNum 514]? = none := by
        rw [hreorder, getElem?_insertGroup (g := 0) (j := 514) (by omega) (by omega),
          if_neg (by omega), if_neg (by rw [Call.total_fragment, htotal]; omega), h.reorder_none]
      rw [hnone]
  rw [hstay, hreorder, getElem?_insertGroup (g := 0) (j := 0) (by omega) (by omega), if_pos rfl]

/-- **Late copies.** After 257 rounds copies of the two fragments of the first message put it back
into the reorder buffer. -/
theorem Rounds.retaken (h : Rounds hmac4 a b 257 l D) :
    ((l.step hmac4 .default (.arrive 0 (.V4 0 0) 0 0)).step hmac4 .default
      (.arrive 1 (.V4 0 0) 0 0)).b.reorder[seqNum 0]? = some (7, twoFragments) := by
  have hw := h.complete.sound.wired
  have hb := h.active.2
  obtain ⟨hf, -, htotal⟩ := two_twoCall 0
  obtain ⟨bytes₀, he₀⟩ := h.sent 0 (by omega) 0 (by omega)
  obtain ⟨bytes₁, he₁⟩ := h.sent 0 (by omega) 1 (by omega)
  change l.log[0]? = _ at he₀
  change l.log[1]? = _ at he₁
  -- the first copy is kept
  obtain ⟨st, hst, hfs, hparts, hview₁⟩ := h.kept_copy he₀
  have hmix : ¬ l.Mixes 0 (twoCall 0) := fun hm => h.not_joins 0 _ hm.2.1
  have hA₁ := assembled_receiveB hw h.complete.sound.assembled he₀ hmix (.V4 0 0) 0 0
  rw [step_arrive _ _ he₀]
  set l₁ := l.receiveB .default 0 (twoCall 0) bytes₀ (.V4 0 0) 0 0 with hl₁
  have hw₁ : Wired .default l₁ := hw.congr rfl (fun _ => rfl) rfl rfl
  have hb₁ : l₁.b.state = .Active := active_receive _ _ _ _ _ hb
  have hasm₁ : l₁.b.assembler =
      ⟨l.b.assembler.pending.insert (twoCall 0).groupId st, l.b.assembler.completed⟩ :=
    congrArg ReceiverView.assembler hview₁
  have hpend₁ : l₁.b.assembler.pending[(twoCall 0).groupId]? = some st := by
    rw [hasm₁]
    show (l.b.assembler.pending.insert (twoCall 0).groupId st)[(twoCall 0).groupId]? = _
    rw [Map.getElem?_insert, if_pos rfl]
  have hch2₁ : l₁.b.ch2View = l.b.ch2View := congrArg ReceiverView.ch2 hview₁
  have hrem₁ : ¬ l₁.b.Remembers (seqNum 1) (twoCall 0).groupId := by
    have hs : l₁.b.deliveredSeqs = l.b.deliveredSeqs := congrArg Ch2View.seqs hch2₁
    unfold Session.Remembers
    rw [hs, hasm₁]
    exact h.not_remembers (by omega)
  have hmix₁ : ¬ l₁.Mixes 1 (twoCall 0) := by
    rintro ⟨-, -, hne⟩
    refine hne ?_
    show (if l.Accepts 0 (twoCall 0) ∧ ¬ l.Joins 0 (twoCall 0) then
      Function.update l.owner (twoCall 0).groupId (twoCall 0).first else l.owner) _ = _
    rw [if_pos ⟨h.accepts (by omega), h.not_joins 0 _⟩, Function.update_self]
  -- the second one completes the group
  have he₁' : l₁.log[1]? = some ⟨twoCall 0, some bytes₁⟩ := he₁
  rw [step_arrive _ _ he₁']
  rcases fragment_cases hw₁ hA₁ hb₁ he₁' hf.1 hf hmix₁ (.V4 0 0) 0 0 with
    ⟨hn, -⟩ | ⟨-, hnc, -⟩ | ⟨-, -, -, s, hs, -, hses, -⟩
  · refine absurd ⟨isActive_iff.2 hb₁, ⟨hf, by omega, ?_⟩, hrem₁⟩ hn
    rw [htotal]
    show 1 - 0 < 2
    omega
  · exact absurd (completes_second hst hfs hparts hpend₁) hnc
  · have hnext : s.ch2Next = l.b.ch2Next :=
      calc s.ch2Next = l₁.b.ch2Next := congrArg (fun v => v.ch2.next) hs
        _ = l.b.ch2Next := congrArg Ch2View.next hch2₁
    have hreorder : s.reorder = insertGroup l.b.reorder (seqNum 0) ((twoCall 0).fragment 1).total
        (7, (twoCall 0).reassembled) := by
      have h1 : s.reorder = insertGroup l₁.b.reorder (seqNum 0) ((twoCall 0).fragment 1).total
          (7, (twoCall 0).reassembled) := congrArg (fun v => v.ch2.reorder) hs
      rw [h1, show l₁.b.reorder = l.b.reorder from congrArg Ch2View.reorder hch2₁]
    show (l₁.b.receive .default Stats.new (.V4 0 0) bytes₁ 0 0).session.reorder[seqNum 0]? = _
    rw [hses, h.stays_buffered hnext hreorder,
      (h.once.timely h.ok).2.1.reassembled_eq hw ⟨_, he₀, rfl⟩]
    rfl

end Late

end Link

open Link

/-- 257 messages of two fragments have been delivered in order, and the reorder buffer is empty.
Then copies of the two fragments of the first one arrive, 514 numbers late, and the message is
buffered again. -/
theorem delivered_again :
    ∃ l, Reach (step (fun _ _ => Vector.replicate 4 0) .default) Delayed
        (start ⟨1, 1, .V4 0 0, 0, [], 0⟩ ⟨1, 1, .V4 1 0, 0, [], 0⟩) l ∧
      l.log.length = 514 ∧ ch2Data l.events = (List.range 514).filterMap l.ch2Message ∧
      (∀ s : U16, l.b.reorder[s]? = none) ∧ l.ch2Message 0 = some (7, twoFragments) ∧
      l.Delayed (.arrive 0 (.V4 0 0) 0 0) ∧ l.Delayed (.arrive 1 (.V4 0 0) 0 0) ∧
      ((l.step (fun _ _ => Vector.replicate 4 0) .default (.arrive 0 (.V4 0 0) 0 0)).step
        (fun _ _ => Vector.replicate 4 0) .default
          (.arrive 1 (.V4 0 0) 0 0)).b.reorder[(0 : U16)]? =
          some (7, twoFragments) := by
  obtain ⟨l, D, h⟩ := exists_rounds (fun _ _ => Vector.replicate 4 0)
    ⟨1, 1, .V4 0 0, 0, [], 0⟩ ⟨1, 1, .V4 1 0, 0, [], 0⟩ 257
  have hR := h.complete.sound.receiving
  have hlen : l.log.length = 514 := h.length
  refine ⟨l, h.reach, hlen, ?_, h.reorder_none, ?_, ?_, ?_, h.retaken⟩
  · rw [hR.events, delivered_eq_messages (h.once.timely h.ok).2.1 h.complete.sound.wired hR.ordered,
      h.pos_eq]
  · obtain ⟨bytes, he⟩ := h.sent 0 (by omega) 0 (by omega)
    change l.log[0]? = _ at he
    unfold ch2Message
    rw [he]
    exact if_pos ⟨rfl, rfl⟩
  · show l.log.length ≤ 0 + 32768
    omega
  · show l.log.length ≤ 1 + 32768
    omega

end SoupEngine
