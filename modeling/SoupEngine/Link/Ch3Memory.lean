import SoupEngine.Link.Quiet

/-!
# Exactly once on Ch3

`b` filters Ch3 by 16-bit numbers: it drops a datagram whose number is that of one of the last
`CH3_SEEN_CAP` that it has taken in. Beside the link stands the history of the Ch3 datagrams in the
order in which they have first arrived. As long as every first copy is taken in and no other one is,
the memory is the end of this history; so both go on exactly as long as no first copy carries a
number that the end of the history has, and every other copy does (`ch3_exactly_once`).
-/

namespace SoupEngine

open BoundedMemory TransitionSystem

attribute [local irreducible] remember

/-- A link, and the numbers of the Ch3 datagrams that have reached the active `b`, in the order of
their first arrivals. -/
structure Ch3Link where
  link : Link
  firsts : List ℕ

namespace Link

/-- Number `i` was given to a Ch3 datagram. -/
def isCh3 (l : Link) (i : ℕ) : Bool :=
  (l.log[i]?).any fun e => e.datagram.isSome && decide (e.call.ch = CH_RELIABLE_UNORDERED)

theorem isCh3_of_log {l : Link} {i : ℕ} {c : Call} {bytes : Bytes}
    (he : l.log[i]? = some ⟨c, some bytes⟩) :
    l.isCh3 i = true ↔ c.ch = CH_RELIABLE_UNORDERED := by
  unfold isCh3
  rw [he]
  simp

end Link

namespace Ch3Link

def start (a b : Opening) : Ch3Link := ⟨.start a b, []⟩

/-- The Ch3 datagrams that have first arrived after an action. -/
def firstsAfter (l : Ch3Link) : Action → List ℕ
  | .arrive i _ _ _ =>
    if l.link.b.isActive ∧ l.link.isCh3 i ∧ i ∉ l.link.received then l.firsts ++ [i] else l.firsts
  | _ => l.firsts

def step (hmac4 : Hmac) (cfg : SessionTableConfig) (l : Ch3Link) (x : Action) : Ch3Link :=
  ⟨l.link.step hmac4 cfg x, l.firstsAfter x⟩

/-- Of the last `CH3_SEEN_CAP` Ch3 datagrams that have first arrived one carries the 16-bit number
of `i`. -/
def Recent (l : Ch3Link) (i : ℕ) : Prop := ∃ j ∈ l.firsts.rtake CH3_SEEN_CAP, seqNum j = seqNum i

instance (l : Ch3Link) (i : ℕ) : Decidable (l.Recent i) := inferInstanceAs (Decidable (∃ j ∈ _, _))

/-- The first copy of a Ch3 datagram gives its event, and every other copy gives none. -/
def Exactly (hmac4 : Hmac) (cfg : SessionTableConfig) (l : Ch3Link) : Action → Prop
  | .arrive i peer now clock => ∀ c bytes, l.link.log[i]? = some ⟨c, some bytes⟩ →
      c.ch = CH_RELIABLE_UNORDERED → l.link.b.isActive →
        (l.link.step hmac4 cfg (.arrive i peer now clock)).events =
          l.link.events ++ if i ∈ l.link.received then []
            else [.Data l.link.b.sessId c.ch c.msgId c.payload]
  | _ => True

/-- A Ch3 datagram that arrives for the first time carries none of the recent numbers, and one that
has arrived before carries one of them. -/
def Clear (l : Ch3Link) : Action → Prop
  | .arrive i _ _ _ => l.link.b.isActive → l.link.isCh3 i → (i ∈ l.link.received ↔ l.Recent i)
  | _ => True

/-- The memory of `b` is the end of the history. -/
structure Remembers (cfg : SessionTableConfig) (l : Ch3Link) : Prop where
  wired : Link.Wired cfg l.link
  ch3Seen : l.link.b.ch3Seen = (l.firsts.rtake CH3_SEEN_CAP).map seqNum

end Ch3Link

section

variable {hmac4 : Hmac} {cfg : SessionTableConfig} {l : Ch3Link} {i : ℕ} {c : Call} {bytes : Bytes}

/-! ## Arrivals -/

namespace Link

section Arrival

variable (stats : Stats) {s : Session} {header : DatagramHeader} (peer : SocketAddr)
  (now clock : Instant)

/-- Off Ch3 the memory stays as it is. -/
theorem ch3Seen_receive (ha : s.state = .Active) (h : Carried cfg i c bytes header)
    (h3 : c.ch ≠ CH_RELIABLE_UNORDERED) :
    (s.receive cfg stats peer bytes now clock).session.ch3Seen = s.ch3Seen := by
  by_cases h2 : c.ch = CH_RELIABLE_ORDERED
  · rw [(receive_ch2 stats peer now clock ha h h2).1]
    have hsame : _ = _ := handleCh2_same (s.prepared peer header now) header (c.frame i) now []
    have hseen := congrArg Session.ch3Seen hsame
    exact hseen
  · exact congrArg ReceiverView.ch3Seen (receive_unreliable stats peer now clock ha h h2 h3).1

/-- A Ch3 datagram is delivered unless its number is remembered. -/
theorem events_receive_ch3 (ha : s.state = .Active) (h : Carried cfg i c bytes header)
    (h3 : c.ch = CH_RELIABLE_UNORDERED) :
    (s.receive cfg stats peer bytes now clock).events =
      if seqNum i ∈ s.ch3Seen then [] else [.Data s.sessId c.ch c.msgId c.payload] := by
  obtain ⟨rx, hs, he, -, h2⟩ := receive_single stats peer now clock ha h
  have hseen : rx.session.ch3Seen = s.ch3Seen := by rw [hs]; rfl
  have hid : rx.session.sessId = s.sessId := by rw [hs]; rfl
  have hch : (c.frame i).ch = CH_RELIABLE_UNORDERED := h3
  have hplain : ¬ c.Fragmented := fun hf => absurd (hf.1.symm.trans h3) (by decide)
  have hbody : c.body i = c.payload := if_neg hplain
  rw [h2]
  unfold dispatchFrame
  rw [hch, if_neg (by decide), if_neg (by decide), if_neg (by decide), if_pos rfl, h.seq, hseen]
  split_ifs with hm
  · exact he
  · show rx.events ++ [.Data rx.session.sessId c.ch c.msgId (c.body i)] = _
    rw [he, hid, hbody]
    rfl

end Arrival

end Link

open Link

namespace Ch3Link

theorem remembers_start (a b : Opening) : (start a b).Remembers cfg where
  wired := wired_start a b
  ch3Seen := by
    show [] = (([] : List ℕ).rtake CH3_SEEN_CAP).map seqNum
    rw [List.rtake_nil]
    rfl

theorem Remembers.mem_iff (h : l.Remembers cfg) : seqNum i ∈ l.link.b.ch3Seen ↔ l.Recent i := by
  rw [h.ch3Seen, List.mem_map]
  rfl

/-- **One arrival.** The event is given if the number is not among the recent ones. -/
theorem Remembers.events_arrive (h : l.Remembers cfg) (he : l.link.log[i]? = some ⟨c, some bytes⟩)
    (h3 : c.ch = CH_RELIABLE_UNORDERED) (ha : l.link.b.isActive) (peer : SocketAddr)
    (now clock : Instant) :
    (l.link.step hmac4 cfg (.arrive i peer now clock)).events =
      l.link.events ++ if l.Recent i then []
        else [.Data l.link.b.sessId c.ch c.msgId c.payload] := by
  obtain ⟨header, hcar⟩ := h.wired.carried i _ bytes he rfl
  have hevents := events_receive_ch3 Stats.new peer now clock (isActive_iff.1 ha) hcar h3
  simp only [h.mem_iff] at hevents
  rw [← hevents]
  unfold Link.step
  dsimp only
  rw [he]
  rfl

/-- The first copy and every other copy are treated as they should be exactly if the arrival is
clear. -/
theorem Remembers.exactly_iff (h : l.Remembers cfg) (x : Action) : l.Exactly hmac4 cfg x ↔
    l.Clear x := by
  cases x with
  | arrive i peer now clock =>
    constructor
    · intro hexactly ha h3
      -- the log says what the number was given out for
      obtain ⟨⟨c, o⟩, he, hp⟩ := (Option.any_eq_true _ _).1 h3
      obtain ⟨hsome, hch⟩ := Bool.and_eq_true_iff.1 hp
      obtain ⟨bytes, rfl⟩ := Option.isSome_iff_exists.1 hsome
      have hch : c.ch = CH_RELIABLE_UNORDERED := of_decide_eq_true hch
      have hevents := hexactly c bytes he hch ha
      rw [h.events_arrive he hch ha peer now clock] at hevents
      have hsame := List.append_cancel_left hevents
      by_cases hr : i ∈ l.link.received <;> by_cases hrecent : l.Recent i
      · exact iff_of_true hr hrecent
      · rw [if_pos hr, if_neg hrecent] at hsame
        cases hsame
      · rw [if_neg hr, if_pos hrecent] at hsame
        cases hsame
      · exact iff_of_false hr hrecent
    · intro hclear c bytes he hch ha
      have hiff := hclear ha ((isCh3_of_log he).2 hch)
      rw [h.events_arrive he hch ha peer now clock]
      simp only [hiff]
  | _ => exact Iff.rfl

/-- What an arrival adds to the memory. -/
theorem Remembers.ch3Seen_arrive (h : l.Remembers cfg) (i : ℕ) (peer : SocketAddr)
    (now clock : Instant) :
    (l.link.step hmac4 cfg (.arrive i peer now clock)).b.ch3Seen =
      if l.link.b.isActive ∧ l.link.isCh3 i ∧ ¬ l.Recent i then
        remember CH3_SEEN_CAP l.link.b.ch3Seen (seqNum i)
      else l.link.b.ch3Seen := by
  rcases he : l.link.log[i]? with _ | ⟨c, _ | bytes⟩
  · have hnone : ¬ l.link.isCh3 i := by unfold isCh3; rw [he]; exact Bool.false_ne_true
    rw [if_neg fun hc => hnone hc.2.1]
    unfold Link.step
    dsimp only
    rw [he]
  · have hnone : ¬ l.link.isCh3 i := by unfold isCh3; rw [he]; exact Bool.false_ne_true
    rw [if_neg fun hc => hnone hc.2.1]
    unfold Link.step
    dsimp only
    rw [he]
  have hstep : (l.link.step hmac4 cfg (.arrive i peer now clock)).b =
      (l.link.b.receive cfg Stats.new peer bytes now clock).session := by
    unfold Link.step
    dsimp only
    rw [he]
    rfl
  rw [hstep]
  by_cases ha : l.link.b.state = .Active
  swap
  · rw [if_neg fun hc => ha (isActive_iff.1 hc.1)]
    exact (quiet_receiveB_inactive ha i c bytes peer now clock).ch3Seen
  obtain ⟨header, hcar⟩ := h.wired.carried i _ bytes he rfl
  by_cases h3 : c.ch = CH_RELIABLE_UNORDERED
  · have hview := congrArg ReceiverView.ch3Seen (receive_ch3 Stats.new peer now clock ha hcar h3).1
    have hcond : (l.link.b.isActive ∧ l.link.isCh3 i ∧ ¬ l.Recent i) ↔
        ¬ seqNum i ∈ l.link.b.ch3Seen := by
      rw [h.mem_iff, and_iff_right (isActive_iff.2 ha), and_iff_right ((isCh3_of_log he).2 h3)]
    by_cases hseen : seqNum i ∈ l.link.b.ch3Seen
    · rw [if_neg fun hc => hcond.1 hc hseen]
      exact hview.trans (if_pos hseen)
    · rw [if_pos (hcond.2 hseen)]
      exact hview.trans (if_neg hseen)
  · rw [if_neg fun hc => h3 ((isCh3_of_log he).1 hc.2.1)]
    exact ch3Seen_receive _ peer now clock ha hcar h3

theorem Remembers.step (h : l.Remembers cfg) {x : Action} (hx : l.Clear x) :
    (l.step hmac4 cfg x).Remembers cfg := by
  refine ⟨wired_step h.wired x, ?_⟩
  have hquiet (harrive : ∀ i peer now clock, x ≠ .arrive i peer now clock)
      (hfirsts : l.firstsAfter x = l.firsts) :
      (l.link.step hmac4 cfg x).b.ch3Seen = ((l.firstsAfter x).rtake CH3_SEEN_CAP).map seqNum := by
    rw [hfirsts, (quiet_step hmac4 h.wired harrive).ch3Seen]
    exact h.ch3Seen
  cases x with
  | arrive i peer now clock =>
    have hclear : l.link.b.isActive → l.link.isCh3 i → (i ∈ l.link.received ↔ l.Recent i) := hx
    have hcond : (l.link.b.isActive ∧ l.link.isCh3 i ∧ i ∉ l.link.received) ↔
        l.link.b.isActive ∧ l.link.isCh3 i ∧ ¬ l.Recent i :=
      and_congr_right fun ha => and_congr_right fun h3 => not_congr (hclear ha h3)
    show (l.link.step hmac4 cfg (.arrive i peer now clock)).b.ch3Seen =
      ((if l.link.b.isActive ∧ l.link.isCh3 i ∧ i ∉ l.link.received then l.firsts ++ [i]
        else l.firsts).rtake CH3_SEEN_CAP).map seqNum
    rw [h.ch3Seen_arrive, h.ch3Seen]
    simp only [hcond]
    split_ifs
    · rw [remember_map, remember_rtake]
    · rfl
  | _ => exact hquiet nofun rfl

end Ch3Link

end

/-- **Exactly once on Ch3.** In a run every first copy of a Ch3 datagram that reaches the active `b`
gives its event and no other copy gives one, if and only if no first copy carries the 16-bit number
of one of the last `CH3_SEEN_CAP` Ch3 datagrams that have first arrived, and every other copy
carries one of these. -/
theorem ch3_exactly_once (hmac4 : Hmac) (cfg : SessionTableConfig) (a b : Opening)
    (xs : List Action) :
    Allowed (Ch3Link.step hmac4 cfg) (Ch3Link.Exactly hmac4 cfg) (.start a b) xs ↔
      Allowed (Ch3Link.step hmac4 cfg) Ch3Link.Clear (.start a b) xs :=
  (allowed_congr (I := Ch3Link.Remembers cfg) (fun _ _ hs hx => hs.step hx)
    (fun _ x hs => (hs.exactly_iff x).symm) (Ch3Link.remembers_start a b)).symm

/-! ## A number that comes back -/

open Link

/-- A Ch3 message is sent and arrives. -/
@[irreducible] def ch3Once : Link :=
  [.sendA 3 7 [1] 0, .arrive 0 (.V4 0 0) 0 0].foldl
    (step (fun _ _ => Vector.replicate 4 0) .default)
    (start ⟨1, 1, .V4 0 0, 0, [], 0⟩ ⟨1, 1, .V4 1 0, 0, [], 0⟩)

theorem reach_ch3Once : Reach (step (fun _ _ => Vector.replicate 4 0) .default) (fun _ _ => True)
    (start ⟨1, 1, .V4 0 0, 0, [], 0⟩ ⟨1, 1, .V4 1 0, 0, [], 0⟩) ch3Once := by
  unfold ch3Once
  exact Reach.foldl ⟨trivial, trivial, trivial⟩

theorem wired_ch3Once : Wired .default ch3Once := by
  unfold ch3Once
  rw [List.foldl_cons, List.foldl_cons, List.foldl_nil]
  exact wired_step (wired_step (wired_start _ _) _) _

/-- A Ch3 message arrives, 65535 numbers are used up on Ch0, and the next Ch3 message carries the
number of the first: `b` drops its first copy. -/
theorem ch3_loses_first_copy :
    ∃ l, Reach (step (fun _ _ => Vector.replicate 4 0) .default) (fun _ _ => True)
        (start ⟨1, 1, .V4 0 0, 0, [], 0⟩ ⟨1, 1, .V4 1 0, 0, [], 0⟩) l ∧
      l.b.state = .Active ∧ 65536 ∉ l.received ∧
      ∃ c bytes, l.log[65536]? = some ⟨c, some bytes⟩ ∧ c.ch = CH_RELIABLE_UNORDERED ∧
        ∀ peer now clock, (l.step (fun _ _ => Vector.replicate 4 0) .default
          (.arrive 65536 peer now clock)).events = l.events := by
  obtain ⟨l, hl, hw, ha, hlen, hq, hsame⟩ := exists_numbers (fun _ _ => Vector.replicate 4 0)
    wired_ch3Once (by decide +kernel) 65535
  have hn : l.log.length = 65536 := by
    rw [hlen, show ch3Once.log.length = 1 by decide +kernel]
  have hroom : (l.a.retrans 1).len < RETRANSMIT_QUEUE_CAP := by
    rw [← length_queued hw, hq]
    decide +kernel
  obtain ⟨datagram, hs, -⟩ := send_single (fun _ _ => Vector.replicate 4 0) .default hw.sendSeq
    3 8 [2] 0 ha (by decide) (by decide) (by decide) (fun qi hqi => by
      obtain rfl : (1 : Fin 2) = qi := Option.some.inj hqi
      exact hroom)
  have hl' := (reach_ch3Once.trans (hl.mono fun _ _ _ => trivial)).next (.sendA 3 8 [2] 0) trivial
  have hw' : Wired .default
      (l.step (fun _ _ => Vector.replicate 4 0) .default (.sendA 3 8 [2] 0)) :=
    wired_step hw _
  set l' := l.step (fun _ _ => Vector.replicate 4 0) .default (.sendA 3 8 [2] 0) with hdef
  have hsame' : l' = _ := hs.same
  have hb : l'.b = ch3Once.b := by
    have hold := congrArg Link.b hsame
    rw [hsame']
    exact hold
  have hr : l'.received = ch3Once.received := by
    have hold := congrArg Link.received hsame
    rw [hsame']
    exact hold
  have hbact : l'.b.state = .Active := by
    rw [hb]
    decide +kernel
  have he : l'.log[65536]? = some ⟨l.callOf 3 8 [2], some (datagram 0)⟩ := by
    have hnew := hs.log_new (j := 0) Nat.one_pos
    rw [hn] at hnew
    exact hnew
  obtain ⟨header, hcar⟩ := hw'.carried 65536 _ _ he rfl
  refine ⟨l', hl', hbact, ?_, _, _, he, rfl, fun peer now clock => ?_⟩
  · rw [hr, show ch3Once.received = {0} by decide +kernel]
    decide
  · have hev : (l'.b.receive .default Stats.new peer (datagram 0) now clock).events = _ :=
      events_receive_ch3 Stats.new peer now clock hbact hcar rfl
    have hseen : seqNum 65536 ∈ l'.b.ch3Seen := by
      rw [hb, show ch3Once.b.ch3Seen = [0] by decide +kernel]
      exact List.mem_singleton.2 rfl
    rw [if_pos hseen] at hev
    unfold step
    dsimp only
    rw [he]
    dsimp only
    show l'.events ++ (l'.b.receive .default Stats.new peer (datagram 0) now clock).events =
      l'.events
    rw [hev, List.append_nil]

end SoupEngine
