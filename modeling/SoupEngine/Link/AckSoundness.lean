import SoupEngine.Link.Orderly

/-!
# Acknowledgement soundness

`ack_soundness`: while arrivals are orderly and the acknowledgements that reach `a` are fresh, what
leaves a retransmit queue has been received. Without the bound on the age of an acknowledgement this
fails (`ack_soundness_stuck`): the acknowledged number moves with Ch2 only, while every datagram of
every channel takes a number.
-/

namespace SoupEngine

open TransitionSystem

namespace Link

/-- Arrivals are orderly, and what reaches `a` carries a fresh acknowledgement. -/
def FreshlyAcked (l : Link) : Action → Prop
  | .recvA _ header _ _ _ => l.FreshAck header
  | x => l.Orderly x

/-- Every reliable datagram that `b` has not received is in the retransmit queue of its channel. -/
def Retained (l : Link) : Prop :=
  ∀ (i : ℕ) (e : Sent) qi, l.log[i]? = some e → e.datagram.isSome → queueOf e.call.ch = some qi →
    i ∉ l.received → i ∈ l.queued qi

variable {hmac4 : Hmac} {cfg : SessionTableConfig} {l : Link}

/-- What `a` drops on a fresh acknowledgement has been received when it was computed. -/
theorem received_of_dropped {D : Finset ℕ} (h : Sound cfg l D) (ht : l.Truthful D)
    (peer : SocketAddr) {header : DatagramHeader} (frames : List FrameRef) (now clock : Instant)
    (hf : l.FreshAck header) :
    ∃ r ∈ l.acks, (header.ack, header.ackBits) = r.ackPair ∧ ∀ qi, ∀ i ∈ l.queued qi,
      i ∉ (l.receiveA peer header frames now clock).queued qi → i ∈ r.received := by
  obtain ⟨r, hr, hpair, hfar, hseen⟩ := hf
  have hok := ht r hr
  refine ⟨r, hr, hpair, fun qi i hi hdrop => ?_⟩
  rw [queued_receiveA peer header frames now clock h.wired] at hdrop
  split_ifs at hdrop with hact
  · have hacked : isAcked (seqNum i) header.ack header.ackBits = true := by
      by_contra hno
      exact hdrop (RetransmitQueue.mem_dropWhile_of_not hi hno)
    rw [show header.ack = r.ackPair.1 from congrArg Prod.fst hpair,
      show header.ackBits = r.ackPair.2 from congrArg Prod.snd hpair] at hacked
    exact (hok.sound hfar hseen (h.wired.lt_of_queued hi) hacked).1
  · exact absurd hi hdrop

theorem retained_step {D : Finset ℕ} (h : Sound cfg l D) (ht : l.Truthful D) (hr : l.Retained)
    {x : Action} (hx : l.FreshlyAcked x) : (l.step hmac4 cfg x).Retained := by
  cases x with
  | sendA ch msgId payload now =>
    by_cases ha : l.a.state = .Active
    · obtain ⟨m, taken, datagram, hs⟩ := send_spec hmac4 cfg h.wired.sendSeq ch msgId payload now ha
      intro i e qi he hd hq hn
      show i ∈ (l.send hmac4 cfg ch msgId payload now).queued qi
      rw [hs.queued]
      rcases hs.log_cases he with ⟨-, he⟩ | ⟨j, hj, rfl, rfl⟩
      · refine List.mem_append_left _ (hr i e qi he hd hq ?_)
        rw [← (quiet_send hmac4 h.wired ch msgId payload now).received]
        exact hn
      · refine List.mem_append_right _ ?_
        have hd' : (if j < m then some (datagram j) else none).isSome := hd
        have hjm : j < m := by
          by_contra hge
          rw [if_neg hge] at hd'
          cases hd'
        rw [if_pos hq, List.mem_range'_1]
        omega
    · show (l.send hmac4 cfg ch msgId payload now).Retained
      rw [send_inactive ch msgId payload now ha]
      exact hr
  | recvA peer header frames now clock =>
    obtain ⟨r, hrec, -, hdrop⟩ := received_of_dropped h ht peer frames now clock hx
    intro i e qi he hd hq hn
    by_contra hno
    exact hn ((ht r hrec).received (hdrop qi i (hr i e qi he hd hq hn) hno))
  | arrive i peer now clock =>
    rcases arrive_cases hmac4 cfg l i peer now clock with heq | ⟨call, bytes, -, heq⟩
    · rw [heq]
      exact hr
    · rw [heq]
      intro j e qi he hd hq hn
      exact hr j e qi he hd hq fun hj => hn (received_subset l i call bytes peer now clock hj)
  | resendA now => exact hr
  | idleA now => exact hr
  | ackB peer header now clock => exact hr
  | sendB ch msgId payload now => exact hr
  | resendB now => exact hr
  | idleB now => exact hr

theorem orderly_of_freshlyAcked {x : Action} (hx : l.FreshlyAcked x) : l.Orderly x := by
  cases x with
  | recvA peer header frames now clock => exact True.intro
  | _ => exact hx

end Link

open Link

/-- **Acknowledgement soundness.** In every run with orderly arrivals and fresh acknowledgements a
reliable datagram stays in its retransmit queue until it has been received, and what an
acknowledgement removes had been received when the acknowledgement was computed. -/
theorem ack_soundness (hmac4 : Hmac) (cfg : SessionTableConfig) (a b : Opening) {l : Link}
    (h : Reach (step hmac4 cfg) FreshlyAcked (start a b) l) :
    (∀ qi, (l.a.retrans qi).contents = (l.queued qi).map l.tagged) ∧ l.Recorded ∧ l.Retained ∧
      ∀ peer header frames now clock, l.FreshAck header →
        ∃ r ∈ l.acks, (header.ack, header.ackBits) = r.ackPair ∧ ∀ qi, ∀ i ∈ l.queued qi,
          i ∉ (l.receiveA peer header frames now clock).queued qi → i ∈ r.received := by
  have hinv : ∃ D, Sound cfg l D ∧ l.Truthful D ∧ l.Recorded ∧ l.Retained := by
    refine h.invariant
      (I := fun l => ∃ D, Sound cfg l D ∧ l.Truthful D ∧ l.Recorded ∧ l.Retained) ?_ ?_
    · refine ⟨∅, sound_start a b, truthful_start a b, recorded_start a b, fun i e qi he => ?_⟩
      cases he
    · rintro l x ⟨D, hs, ht, hrec, hr⟩ hx
      have hord := orderly_of_freshlyAcked hx
      exact ⟨_, sound_step hmac4 hs hord, truthful_step hs ht hord, recorded_step hs.wired hrec x,
        retained_step hs ht hr hx⟩
  obtain ⟨D, hs, ht, hrec, hr⟩ := hinv
  exact ⟨hs.wired.contents, hrec, hr, fun peer header frames now clock hf =>
    received_of_dropped hs ht peer frames now clock hf⟩

instance (l : Link) (header : DatagramHeader) : Decidable (l.FreshAck header) :=
  inferInstanceAs (Decidable (∃ r ∈ l.acks, _))

instance (l : Link) : (x : Action) → Decidable (l.FreshlyAcked x)
  | .recvA _ header _ _ _ => inferInstanceAs (Decidable (l.FreshAck header))
  | .sendA .. | .arrive .. | .resendA _ | .idleA _ | .ackB .. | .sendB .. | .resendB _ | .idleB _ =>
    by unfold FreshlyAcked; infer_instance

/-- Four messages are sent on Ch2, Ch3, Ch2 and Ch0. The second arrives and is acknowledged by the
bitmap, then the first and the last; the third is lost. -/
def thirdLost : List Action :=
  [.sendA CH_RELIABLE_ORDERED 7 [1] 0, .sendA CH_RELIABLE_UNORDERED 7 [2] 0,
    .sendA CH_RELIABLE_ORDERED 7 [3] 0,
    .sendA CH_UNRELIABLE_UNORDERED 7 [4] 0, .arrive 1 (.V4 0 0) 0 0,
    .recvA (.V4 1 0) ⟨VERSION, FLAG_PURE_ACK, 1, 0, 0xFFFF, 2⟩ [] 0 0, .arrive 0 (.V4 0 0) 0 0,
    .arrive 3 (.V4 0 0) 0 0]

def beforeLoss : Link := start ⟨1, 1, .V4 0 0, 0, [], 0⟩ ⟨1, 1, .V4 1 0, 0, [], 0⟩

/-- The link after the first steps of that run. -/
def losing (n : ℕ) : Link :=
  (thirdLost.take n).foldl (step (fun _ _ => Vector.replicate 4 0) .default) beforeLoss

/-- An acknowledgement of the first message removes it, and the lost one stays. -/
theorem ack_soundness_thirdLost :
    let after := (losing 8).receiveA (.V4 1 0) ⟨VERSION, FLAG_PURE_ACK, 1, 0, 0, 1⟩ [] 0 0
    (losing 5).queued 1 = [1] ∧ (losing 6).queued 1 = [] ∧ (losing 8).queued 0 = [0, 2] ∧
      after.queued 0 = [2] ∧ (losing 8).received = {0, 1, 3} ∧ (losing 8).Retained ∧
      ∃ r ∈ (losing 8).acks, (0, 1) = r.ackPair ∧ ∀ qi, ∀ i ∈ (losing 8).queued qi,
        i ∉ after.queued qi → i ∈ r.received := by
  have hrun : Allowed (step (fun _ _ => Vector.replicate 4 0) .default) FreshlyAcked beforeLoss
      thirdLost ∧
      (losing 8).FreshAck ⟨VERSION, FLAG_PURE_ACK, 1, 0, 0, 1⟩ ∧
      (losing 5).queued 1 = [1] ∧ (losing 6).queued 1 = [] ∧ (losing 8).queued 0 = [0, 2] ∧
      ((losing 8).receiveA (.V4 1 0) ⟨VERSION, FLAG_PURE_ACK, 1, 0, 0, 1⟩ [] 0 0).queued 0 = [2] ∧
      (losing 8).received = {0, 1, 3} := by
    decide +kernel
  obtain ⟨hallowed, hfresh, hfive, hsix, height, hafter, hreceived⟩ := hrun
  have hreach :
      Reach (step (fun _ _ => Vector.replicate 4 0) .default) FreshlyAcked beforeLoss (losing 8) :=
    Reach.foldl hallowed
  obtain ⟨-, -, hretained, hsound⟩ := ack_soundness _ _ _ _ hreach
  exact ⟨hfive, hsix, height, hafter, hreceived, hretained, hsound (.V4 1 0) _ [] 0 0 hfresh⟩

/-! ## A stuck acknowledgement -/

/-- After 32768 messages on Ch0 a Ch2 message is sent. `b` has received nothing, and its current
acknowledgement removes the message from the retransmit queue. -/
theorem ack_soundness_stuck :
    ∃ l, Reach (step (fun _ _ => Vector.replicate 4 0) .default)
        (fun _ x => ∃ ch msgId payload now, x = .sendA ch msgId payload now)
        (start ⟨1, 1, .V4 0 0, 0, [], 0⟩ ⟨1, 1, .V4 1 0, 0, [], 0⟩) l ∧
      l.received = ∅ ∧ (l.a.retrans 0).contents.map Prod.fst = [0x8000] ∧
      ∀ peer now, ((l.receiveA peer ⟨VERSION, FLAG_PURE_ACK, 1, 0, l.b.computeAck.1,
        l.b.computeAck.2⟩ [] now now).a.retrans 0).contents = [] := by
  have hstart : Wired .default (start ⟨1, 1, .V4 0 0, 0, [], 0⟩ ⟨1, 1, .V4 1 0, 0, [], 0⟩) :=
    wired_start _ _
  obtain ⟨l, hl, hw, ha, hlen, hq, hsame₀⟩ :=
    exists_numbers (fun _ _ => Vector.replicate 4 0) hstart rfl 32768
  have hn : l.log.length = 32768 := hlen
  have hb : l.b = Opening.session ⟨1, 1, .V4 1 0, 0, [], 0⟩ := congrArg Link.b hsame₀
  have hr : l.received = ∅ := congrArg Link.received hsame₀
  have hempty : (l.a.retrans 0).len = 0 := by
    have := congrArg List.length (hw.contents 0)
    rw [hq, RetransmitQueue.length_contents] at this
    exact this
  obtain ⟨datagram, hs, -⟩ := send_single (fun _ _ => Vector.replicate 4 0) .default hw.sendSeq
    2 7 [1] 0 ha (by decide) (by decide) (by decide)
    (fun qi hqi => by
      obtain rfl : (0 : Fin 2) = qi := Option.some.inj hqi
      rw [hempty]
      decide)
  have hw' : Wired .default
      (l.step (fun _ _ => Vector.replicate 4 0) .default (.sendA 2 7 [1] 0)) :=
    wired_step hw _
  have hl' := hl.next (.sendA 2 7 [1] 0) ⟨2, 7, [1], 0, rfl⟩
  set l' := l.step (fun _ _ => Vector.replicate 4 0) .default (.sendA 2 7 [1] 0) with hdef
  have hsame : l' = _ := hs.same
  have hq' : l'.queued 0 = [32768] := by
    have hqi := hs.queued 0
    rw [hq, hn] at hqi
    exact hqi
  refine ⟨l', hl', ?_, ?_, fun peer now => ?_⟩
  · rw [hsame]
    exact hr
  · rw [hw'.contents, hq']
    rfl
  · have hack : l'.b.computeAck = (0xFFFF, 0) := by
      rw [hsame, hb]
      decide +kernel
    have hact : l'.a.state = .Active := hs.active
    rw [contents_receiveA peer _ [] now now hw', hack, hq', if_pos hact]
    have hacked : isAcked (seqNum 32768) 0xFFFF 0 = true := by decide
    dsimp only
    rw [List.dropWhile_cons, if_pos hacked]
    rfl

end SoupEngine
