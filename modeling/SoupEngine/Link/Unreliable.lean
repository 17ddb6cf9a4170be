import SoupEngine.Lib.Records
import SoupEngine.Link.Quiet
import SoupEngine.Session.Delivery
import SoupEngine.Session.Operations

/-!
# The unreliable channels

`b` reports every datagram of Ch0 that reaches it, copies too, and of Ch1 only what is newer than
all that has reached it before. So its events on Ch1 are messages of `a` in the order in which they
were sent, each at most once, whatever is lost, doubled or late (`unreliable_channels`), as long as
no Ch1 datagram is half of the number space away from the newest one.
-/

namespace SoupEngine

open BoundedMemory TransitionSystem Records

attribute [local irreducible] remember

/-- The messages of a channel among a list of events. -/
def dataOn (ch : U8) (events : List SessionEvent) : List (U16 × Bytes) :=
  events.filterMap fun
    | .Data _ ch' msgId payload => if ch' = ch then some (msgId, payload) else none
    | _ => none

namespace Link

/-- The number was given to a datagram of the channel. -/
def IsOn (l : Link) (ch : U8) (i : ℕ) : Prop :=
  ∃ e ∈ l.log[i]?, e.datagram.isSome = true ∧ e.call.ch = ch

instance (l : Link) (ch : U8) (i : ℕ) : Decidable (l.IsOn ch i) := by unfold IsOn; infer_instance

/-- The message that the number was given out for. -/
def message (l : Link) (i : ℕ) : U16 × Bytes :=
  ((l.log[i]?).map fun e => (e.call.msgId, e.call.payload)).getD (0, [])

/-- The datagram that an action brings to `b` while it is active. -/
def landed (l : Link) : Action → List ℕ
  | .arrive i _ _ _ =>
    if l.b.isActive = true ∧ (∃ e ∈ l.log[i]?, e.datagram.isSome = true) then [i] else []
  | _ => []

end Link

/-- A link with the numbers of the datagrams that have reached `b`, in the order of their
arrival. -/
structure Arrivals where
  link : Link
  arrived : List ℕ

namespace Arrivals

def step (hmac4 : Hmac) (cfg : SessionTableConfig) (v : Arrivals) (x : Action) : Arrivals :=
  ⟨v.link.step hmac4 cfg x, v.arrived ++ v.link.landed x⟩

/-- What has arrived on a channel. -/
def on (v : Arrivals) (ch : U8) : List ℕ := v.arrived.filter fun i => v.link.IsOn ch i

/-- What arrives on Ch1 is less than half of the number space away from the newest that has. -/
def Ch1Near (v : Arrivals) : Action → Prop
  | .arrive i _ _ _ => v.link.IsOn CH_UNRELIABLE_SEQUENCED i →
      ∀ j ∈ (records (v.on CH_UNRELIABLE_SEQUENCED)).getLast?, j ≤ i + 32768 ∧ i < j + 32768
  | _ => True

instance (v : Arrivals) (x : Action) : Decidable (v.Ch1Near x) :=
  match x with
  | .arrive i _ _ _ => inferInstanceAs (Decidable (v.link.IsOn CH_UNRELIABLE_SEQUENCED i →
      ∀ j ∈ (records (v.on CH_UNRELIABLE_SEQUENCED)).getLast?, j ≤ i + 32768 ∧ i < j + 32768))
  | .sendA .. | .recvA .. | .resendA .. | .idleA .. | .ackB .. | .sendB .. | .resendB
    .. | .idleB .. =>
    inferInstanceAs (Decidable True)

/-- What `b` has reported, and what it remembers of Ch1. -/
structure Filtered (v : Arrivals) : Prop where
  arrived : ∀ i ∈ v.arrived, i < v.link.log.length
  ch1Last : v.link.b.ch1Last = (records (v.on CH_UNRELIABLE_SEQUENCED)).getLast?.map seqNum
  ch0 : dataOn CH_UNRELIABLE_UNORDERED v.link.events =
    (v.on CH_UNRELIABLE_UNORDERED).map v.link.message
  ch1 : dataOn CH_UNRELIABLE_SEQUENCED v.link.events =
    (records (v.on CH_UNRELIABLE_SEQUENCED)).map v.link.message

end Arrivals

theorem dataOn_append (ch : U8) (xs ys : List SessionEvent) :
    dataOn ch (xs ++ ys) = dataOn ch xs ++ dataOn ch ys := List.filterMap_append

/-! ## One arrival -/

section Receive

variable {cfg : SessionTableConfig} {s : Session} (stats : Stats) (peer : SocketAddr) {i : ℕ}
  {c : Call} {bytes : Bytes} (now clock : Instant) {header : DatagramHeader}
  {events : List SessionEvent} {ch : U8}

/-- Delivery on Ch2 reports on Ch2. -/
theorem dataOn_deliverCh2InOrder (hch : ch ≠ CH_RELIABLE_ORDERED)
    (h : ∀ e ∈ events, dataOn ch [e] = []) :
    ∀ e ∈ (deliverCh2InOrder s events).2, dataOn ch [e] = [] := by
  have hwait : Buffers (fun _ => True) s.reorder := fun _ _ _ => trivial
  refine (hwait.deliverCh2InOrder (fun e _ x hx => ?_) h).2
  unfold deliveryEvents at hx
  split_ifs at hx
  · rw [List.mem_singleton.1 hx]
    show (if CH_RELIABLE_ORDERED = ch then some _ else none).toList = []
    rw [if_neg hch.symm]
    rfl
  · exact absurd hx List.not_mem_nil

theorem dataOn_handleCh2 (hch : ch ≠ CH_RELIABLE_ORDERED) (f : FrameRef)
    (h : ∀ e ∈ events, dataOn ch [e] = []) :
    ∀ e ∈ (handleCh2 s header f now events).2, dataOn ch [e] = [] := by
  unfold handleCh2
  split_ifs
  · exact h
  · exact h
  · cases decodeFragment f.body with
    | error e => exact h
    | ok fr =>
      dsimp only
      rcases s.assembler.push fr.groupId fr.firstSeq fr.fragNo fr.total fr.chunk now with
        ⟨assembler, _ | ⟨gseq, full⟩⟩
      · exact h
      · exact dataOn_deliverCh2InOrder hch h
  · exact dataOn_deliverCh2InOrder hch h

theorem dataOn_eq_nil (h : ∀ e ∈ events, dataOn ch [e] = []) : dataOn ch events = [] := by
  induction events with
  | nil => rfl
  | cons e es ih =>
    rw [← List.singleton_append, dataOn_append, h e List.mem_cons_self,
      ih fun x hx => h x (List.mem_cons_of_mem e hx)]
    rfl

/-- Off Ch2 a call is one plain datagram. -/
theorem Call.body_plain (h2 : c.ch ≠ CH_RELIABLE_ORDERED) (i : ℕ) : c.body i = c.payload :=
  if_neg fun hf => h2 hf.1

/-- **One arrival.** What it says on Ch0 is reported, on Ch1 if its number is newer than the
last. -/
theorem receive_says (ha : s.state = .Active) (h : Carried cfg i c bytes header) :
    dataOn CH_UNRELIABLE_UNORDERED (s.receive cfg stats peer bytes now clock).events =
        (if c.ch = CH_UNRELIABLE_UNORDERED then [(c.msgId, c.payload)] else []) ∧
      dataOn CH_UNRELIABLE_SEQUENCED (s.receive cfg stats peer bytes now clock).events =
        (if c.ch = CH_UNRELIABLE_SEQUENCED ∧ s.ch1Last.all (seqNewer (seqNum i)) = true then
          [(c.msgId, c.payload)] else []) ∧
      (s.receive cfg stats peer bytes now clock).session.ch1Last =
        if c.ch = CH_UNRELIABLE_SEQUENCED ∧ s.ch1Last.all (seqNewer (seqNum i)) = true
          then some (seqNum i)
        else s.ch1Last := by
  obtain ⟨rx, hs, he, h1, h2⟩ := receive_single stats peer now clock ha h
  have hlast : rx.session.ch1Last = s.ch1Last := by rw [hs]; rfl
  rw [h1, h2]
  unfold dispatchFrame
  rw [show (c.frame i).ch = c.ch from rfl, h.seq, hlast]
  by_cases hc0 : c.ch = CH_UNRELIABLE_UNORDERED
  · have hbody : c.body i = c.payload := Call.body_plain (by rw [hc0]; decide) i
    rw [if_pos hc0, if_pos hc0, if_neg fun hc => absurd (hc0.symm.trans hc.1) (by decide),
      if_neg fun hc => absurd (hc0.symm.trans hc.1) (by decide)]
    dsimp only
    rw [he]
    refine ⟨?_, ?_, hlast⟩
    · show (if c.ch = CH_UNRELIABLE_UNORDERED then some (c.msgId, c.body i) else none).toList = _
      rw [if_pos hc0, hbody]
      rfl
    · show (if c.ch = CH_UNRELIABLE_SEQUENCED then some (c.msgId, c.body i) else none).toList = _
      rw [if_neg (by rw [hc0]; decide)]
      rfl
  rw [if_neg hc0, if_neg hc0]
  by_cases hc1 : c.ch = CH_UNRELIABLE_SEQUENCED
  · have hbody : c.body i = c.payload := Call.body_plain (by rw [hc1]; decide) i
    rw [if_pos hc1]
    by_cases hnew : s.ch1Last.all (seqNewer (seqNum i)) = true
    · rw [if_pos hnew, if_pos ⟨hc1, hnew⟩, if_pos ⟨hc1, hnew⟩]
      dsimp only
      rw [he]
      refine ⟨?_, ?_, rfl⟩
      · show (if c.ch = CH_UNRELIABLE_UNORDERED then some (c.msgId, c.body i) else none).toList = _
        rw [if_neg hc0]
        rfl
      · show (if c.ch = CH_UNRELIABLE_SEQUENCED then some (c.msgId, c.body i) else none).toList = _
        rw [if_pos hc1, hbody]
        rfl
    · rw [if_neg hnew, if_neg fun hc => hnew hc.2, if_neg fun hc => hnew hc.2, he]
      exact ⟨rfl, rfl, hlast⟩
  have hno : ¬ (c.ch = CH_UNRELIABLE_SEQUENCED ∧ s.ch1Last.all (seqNewer (seqNum i)) = true) :=
    fun hc => hc1 hc.1
  rw [if_neg hc1, if_neg hno, if_neg hno]
  by_cases hc2 : c.ch = CH_RELIABLE_ORDERED
  · have hsame : _ = _ := handleCh2_same rx.session header (c.frame i) now rx.events
    have hnone (ch : U8) : ∀ e ∈ rx.events, dataOn ch [e] = [] := by
      rw [he]
      exact fun e hmem => absurd hmem List.not_mem_nil
    rw [if_pos hc2]
    exact ⟨dataOn_eq_nil (dataOn_handleCh2 now (by decide) _ (hnone CH_UNRELIABLE_UNORDERED)),
      dataOn_eq_nil (dataOn_handleCh2 now (by decide) _ (hnone CH_UNRELIABLE_SEQUENCED)),
      (congrArg Session.ch1Last hsame).trans hlast⟩
  rw [if_neg hc2]
  split_ifs
  · dsimp only
    rw [he]
    exact ⟨rfl, rfl, hlast⟩
  · dsimp only
    rw [he]
    refine ⟨?_, ?_, hlast⟩
    · show (if c.ch = CH_UNRELIABLE_UNORDERED then some _ else none).toList = []
      rw [if_neg hc0]
      rfl
    · show (if c.ch = CH_UNRELIABLE_SEQUENCED then some _ else none).toList = []
      rw [if_neg hc1]
      rfl
  · dsimp only
    rw [he]
    exact ⟨rfl, rfl, hlast⟩

/-- In the grace period a datagram says nothing. -/
theorem receive_says_nothing (cfg : SessionTableConfig) (bytes : Bytes) (ha : s.state ≠ .Active)
    (ch : U8) :
    dataOn ch (s.receive cfg stats peer bytes now clock).events = [] ∧
      (s.receive cfg stats peer bytes now clock).session.ch1Last = s.ch1Last := by
  unfold Session.receive
  cases decode (stripHmac cfg bytes) with
  | error e => exact ⟨rfl, rfl⟩
  | ok d =>
    cases hst : s.state with
    | Active => exact absurd hst ha
    | Grace since =>
      obtain ⟨hs, gap, he⟩ :=
        handlePacket_grace { stats with pktIn := stats.pktIn + 1 } peer d.1 d.2 now clock hst
      dsimp only
      rw [hs, he]
      exact ⟨rfl, rfl⟩

end Receive

/-! ## Steps -/

namespace Arrivals

open Link

variable {hmac4 : Hmac} {cfg : SessionTableConfig} {l l' : Link} {v v' : Arrivals} {i : ℕ}

theorem isOn_congr (h : l'.log[i]? = l.log[i]?) (ch : U8) : l'.IsOn ch i ↔ l.IsOn ch i := by
  unfold Link.IsOn
  rw [h]

theorem message_congr (h : l'.log[i]? = l.log[i]?) : l'.message i = l.message i := by
  unfold Link.message
  rw [h]

/-- Without an arrival nothing is reported, and what is remembered of Ch1 stays. -/
theorem unheard_step (hmac4 : Hmac) (cfg : SessionTableConfig) (l : Link) {x : Action}
    (hx : ∀ i peer now clock, x ≠ .arrive i peer now clock) :
    (l.step hmac4 cfg x).b.ch1Last = l.b.ch1Last ∧ (l.step hmac4 cfg x).events = l.events ∧
    l.landed x = [] := by
  cases x with
  | arrive i peer now clock => exact absurd rfl (hx i peer now clock)
  | ackB peer header now clock =>
    refine ⟨?_, rfl, rfl⟩
    show (handlePacket l.b Stats.new peer header [] now clock).session.ch1Last = _
    cases hst : l.b.state with
    | Active =>
      rw [handlePacket_no_frames Stats.new peer header now clock hst]
      rfl
    | Grace since => rw [(handlePacket_grace Stats.new peer header [] now clock hst).1]
  | sendB ch msgId payload now =>
    refine ⟨?_, rfl, rfl⟩
    exact @pack_keeps hmac4 cfg (fun s => s.ch1Last = l.b.ch1Last)
      (fun _ _ _ _ h => h) l.b ch msgId payload now rfl
  | idleB now =>
    refine ⟨?_, rfl, rfl⟩
    show (l.b.maintain cfg now).ch1Last = _
    unfold Session.maintain
    split_ifs
    · rfl
    · rfl
  | _ => exact ⟨rfl, rfl, rfl⟩

/-- What has arrived keeps its number. -/
theorem Filtered.log_eq (h : v.Filtered)
    (hlog : ∀ (i : ℕ) (e : Sent), v.link.log[i]? = some e → l'.log[i]? = some e)
    (hi : i ∈ v.arrived) : l'.log[i]? = v.link.log[i]? := by
  have hlt := h.arrived i hi
  rw [List.getElem?_eq_getElem hlt]
  exact hlog i _ (List.getElem?_eq_getElem hlt)

/-- A step in which nothing arrives. -/
theorem Filtered.quiet (h : v.Filtered)
    (hlog : ∀ (i : ℕ) (e : Sent), v.link.log[i]? = some e → l'.log[i]? = some e)
    (hlast : l'.b.ch1Last = v.link.b.ch1Last)
    (hdata : ∀ ch, dataOn ch l'.events = dataOn ch v.link.events) :
    Filtered ⟨l', v.arrived⟩ := by
  have hon (ch : U8) : Arrivals.on ⟨l', v.arrived⟩ ch = v.on ch :=
    List.filter_congr fun i hi => decide_eq_decide.2 (isOn_congr (h.log_eq hlog hi) ch)
  have hmap {is : List ℕ} (his : is ⊆ v.arrived) : is.map l'.message = is.map v.link.message :=
    List.map_congr_left fun i hi => message_congr (h.log_eq hlog (his hi))
  have hsub (ch : U8) : v.on ch ⊆ v.arrived := List.filter_sublist.subset
  refine ⟨fun i hi => ?_, ?_, ?_, ?_⟩
  · exact (List.getElem?_eq_some_iff.1 (hlog i _ (List.getElem?_eq_getElem (h.arrived i hi)))).1
  · rw [hon]
    exact hlast.trans h.ch1Last
  · rw [hon]
    calc dataOn CH_UNRELIABLE_UNORDERED l'.events
        = dataOn CH_UNRELIABLE_UNORDERED v.link.events := hdata _
      _ = (v.on CH_UNRELIABLE_UNORDERED).map v.link.message := h.ch0
      _ = (v.on CH_UNRELIABLE_UNORDERED).map l'.message := (hmap (hsub _)).symm
  · rw [hon]
    have hrecords : records (v.on CH_UNRELIABLE_SEQUENCED) ⊆ v.arrived :=
      List.Subset.trans (records_sublist _).subset (hsub _)
    calc dataOn CH_UNRELIABLE_SEQUENCED l'.events
        = dataOn CH_UNRELIABLE_SEQUENCED v.link.events := hdata _
      _ = (records (v.on CH_UNRELIABLE_SEQUENCED)).map v.link.message := h.ch1
      _ = (records (v.on CH_UNRELIABLE_SEQUENCED)).map l'.message := (hmap hrecords).symm

/-- What is newer than the last number taken is newer than the last record. -/
theorem Filtered.newer_iff (h : v.Filtered)
    (hnear : ∀ j ∈ (records (v.on CH_UNRELIABLE_SEQUENCED)).getLast?, j ≤ i + 32768 ∧
      i < j + 32768) :
    v.link.b.ch1Last.all (seqNewer (seqNum i)) =
      (records (v.on CH_UNRELIABLE_SEQUENCED)).getLast?.all fun j => decide (j < i) := by
  rw [h.ch1Last]
  cases hj : (records (v.on CH_UNRELIABLE_SEQUENCED)).getLast? with
  | none => rfl
  | some j =>
    obtain ⟨hlo, hhi⟩ := hnear j (by rw [hj]; rfl)
    show seqNewer (seqNum i) (seqNum j) = decide (j < i)
    exact seqNewer_num hlo hhi

theorem Filtered.arrive (h : v.Filtered) (hw : Wired cfg v.link) {c : Call} {bytes : Bytes}
    (he : v.link.log[i]? = some ⟨c, some bytes⟩) (ha : v.link.b.state = .Active)
    (peer : SocketAddr) (now clock : Instant) (hx : v.Ch1Near (.arrive i peer now clock)) :
    Filtered ⟨v.link.receiveB cfg i c bytes peer now clock, v.arrived ++ [i]⟩ := by
  obtain ⟨header, hcar⟩ := hw.carried i _ bytes he rfl
  obtain ⟨h0, h1, hlast⟩ := receive_says Stats.new peer now clock ha hcar
  have hison (ch : U8) : v.link.IsOn ch i ↔ c.ch = ch := by
    unfold Link.IsOn
    rw [he]
    constructor
    · rintro ⟨e, hmem, -, hch⟩
      obtain rfl := Option.some.inj hmem
      exact hch
    · exact fun hch => ⟨_, rfl, rfl, hch⟩
  have hon (ch : U8) :
      Arrivals.on ⟨v.link.receiveB cfg i c bytes peer now clock, v.arrived ++ [i]⟩ ch =
      v.on ch ++ if c.ch = ch then [i] else [] := by
    show (v.arrived ++ [i]).filter (fun i => decide (v.link.IsOn ch i)) = _
    rw [List.filter_append]
    congr 1
    by_cases hch : c.ch = ch
    · rw [if_pos hch]
      exact List.filter_eq_self.2 fun j hj => by
        rw [List.mem_singleton.1 hj]
        exact decide_eq_true ((hison ch).2 hch)
    · rw [if_neg hch]
      exact List.filter_eq_nil_iff.2 fun j hj => by
        rw [List.mem_singleton.1 hj, decide_eq_true_eq]
        exact fun hc => hch ((hison ch).1 hc)
  have hmsg : v.link.message i = (c.msgId, c.payload) := by
    unfold Link.message
    rw [he]
    rfl
  have hevents (ch : U8) : dataOn ch (v.link.receiveB cfg i c bytes peer now clock).events =
      dataOn ch v.link.events ++ dataOn ch
        (v.link.b.receive cfg Stats.new peer bytes now clock).events :=
    dataOn_append ch _ _
  refine ⟨fun j hj => ?_, ?_, ?_, ?_⟩
  · rcases List.mem_append.1 hj with hold | hi
    · exact h.arrived j hold
    · rw [List.mem_singleton.1 hi]
      exact (List.getElem?_eq_some_iff.1 he).1
  · show (v.link.b.receive cfg Stats.new peer bytes now clock).session.ch1Last = _
    rw [hlast, hon]
    by_cases hch : c.ch = CH_UNRELIABLE_SEQUENCED
    · rw [if_pos hch, records_concat]
      unfold push
      rw [← h.newer_iff (hx ((hison _).2 hch))]
      by_cases hnew : v.link.b.ch1Last.all (seqNewer (seqNum i)) = true
      · rw [if_pos ⟨hch, hnew⟩, if_pos hnew, List.getLast?_concat]
        rfl
      · rw [if_neg fun hc => hnew hc.2, if_neg hnew]
        exact h.ch1Last
    · rw [if_neg fun hc => hch hc.1, if_neg hch, List.append_nil]
      exact h.ch1Last
  · rw [hevents, h0, h.ch0, hon, List.map_append]
    congr 1
    split_ifs
    · exact congrArg (fun m => [m]) hmsg.symm
    · rfl
  · rw [hevents, h1, h.ch1, hon]
    by_cases hch : c.ch = CH_UNRELIABLE_SEQUENCED
    · rw [if_pos hch, records_concat]
      unfold push
      rw [← h.newer_iff (hx ((hison _).2 hch))]
      by_cases hnew : v.link.b.ch1Last.all (seqNewer (seqNum i)) = true
      · rw [if_pos ⟨hch, hnew⟩, if_pos hnew, List.map_append]
        exact congrArg (fun m => _ ++ [m]) hmsg.symm
      · rw [if_neg fun hc => hnew hc.2, if_neg hnew, List.append_nil]
        rfl
    · rw [if_neg fun hc => hch hc.1, if_neg hch, List.append_nil, List.append_nil]
      rfl

theorem filtered_step (hw : Wired cfg v.link) (h : v.Filtered) {x : Action} (hx : v.Ch1Near x) :
    (v.step hmac4 cfg x).Filtered := by
  by_cases harrive : ∀ i peer now clock, x ≠ .arrive i peer now clock
  · obtain ⟨hlast, hevents, hnone⟩ := unheard_step hmac4 cfg v.link harrive
    have hq := h.quiet (quiet_step hmac4 hw harrive).log hlast fun ch => by rw [hevents]
    unfold step
    rw [hnone, List.append_nil]
    exact hq
  push Not at harrive
  obtain ⟨i, peer, now, clock, rfl⟩ := harrive
  unfold step
  have hlost (hno : ∀ e ∈ v.link.log[i]?, e.datagram.isSome ≠ true) :
      v.link.landed (.arrive i peer now clock) = [] :=
        if_neg fun ⟨_, e, he, hsome⟩ => hno e he hsome
  rcases he : v.link.log[i]? with _ | ⟨c, _ | bytes⟩
  · have hsame : v.link.step hmac4 cfg (.arrive i peer now clock) = v.link := by
      unfold Link.step
      dsimp only
      rw [he]
    have hnone : ∀ e ∈ v.link.log[i]?, e.datagram.isSome ≠ true := by
      rw [he]
      exact fun e hmem => absurd hmem.symm (Option.some_ne_none e)
    rw [hsame, hlost hnone, List.append_nil]
    exact h
  · have hsame : v.link.step hmac4 cfg (.arrive i peer now clock) = v.link := by
      unfold Link.step
      dsimp only
      rw [he]
    have hnone : ∀ e ∈ v.link.log[i]?, e.datagram.isSome ≠ true := by
      rw [he]
      intro e hmem
      rw [← Option.some.inj hmem]
      exact Bool.false_ne_true
    rw [hsame, hlost hnone, List.append_nil]
    exact h
  · have hstep : v.link.step hmac4 cfg (.arrive i peer now clock) =
        v.link.receiveB cfg i c bytes peer now clock := by
      unfold Link.step
      dsimp only
      rw [he]
    rw [hstep]
    by_cases ha : v.link.b.state = .Active
    · have harr : v.link.landed (.arrive i peer now clock) = [i] :=
        if_pos ⟨isActive_iff.2 ha, _, he, rfl⟩
      rw [harr]
      exact h.arrive hw he ha peer now clock hx
    · have harr : v.link.landed (.arrive i peer now clock) = [] :=
        if_neg fun hc => ha (isActive_iff.1 hc.1)
      rw [harr, List.append_nil]
      refine h.quiet (fun _ _ h => h)
        (receive_says_nothing Stats.new peer now clock cfg bytes ha 0).2 fun ch => ?_
      show dataOn ch (v.link.events ++ _) = _
      rw [dataOn_append, (receive_says_nothing Stats.new peer now clock cfg bytes ha ch).1,
        List.append_nil]

theorem filtered_start (a b : Opening) : Filtered ⟨start a b, []⟩ where
  arrived _ hi := absurd hi List.not_mem_nil
  ch1Last := rfl
  ch0 := rfl
  ch1 := rfl

/-- **The unreliable channels.** In every run of the link, with any loss, duplication, reordering
and grace periods, what `b` reports on Ch0 are the messages of the Ch0 datagrams that have reached
it, and on Ch1 those of the ones that were newer than all before them: messages in the order of
sending, each once. -/
theorem unreliable_channels (hmac4 : Hmac) (cfg : SessionTableConfig) (a b : Opening) {v : Arrivals}
    (h : Reach (step hmac4 cfg) Ch1Near ⟨start a b, []⟩ v) :
    dataOn CH_UNRELIABLE_UNORDERED v.link.events =
      (v.on CH_UNRELIABLE_UNORDERED).map v.link.message ∧
      dataOn CH_UNRELIABLE_SEQUENCED v.link.events =
        (records (v.on CH_UNRELIABLE_SEQUENCED)).map v.link.message ∧
      (records (v.on CH_UNRELIABLE_SEQUENCED)).Pairwise (· < ·) := by
  have hinv : Wired cfg v.link ∧ v.Filtered := by
    refine h.invariant (I := fun v => Wired cfg v.link ∧ v.Filtered)
      ⟨wired_start a b, filtered_start a b⟩ ?_
    rintro v x ⟨hw, hf⟩ hx
    exact ⟨wired_step hw x, filtered_step hw hf hx⟩
  exact ⟨hinv.2.ch0, hinv.2.ch1, records_increasing _⟩

/-- Two messages of Ch1 and one of Ch0 are sent; the second of Ch1 overtakes the first, and that of
Ch0 comes twice. -/
def overtaken : List Action :=
  [.sendA 1 7 [1] 0, .sendA 1 7 [2] 0, .sendA 0 7 [3] 0, .arrive 1 (.V4 0 0) 0 0,
    .arrive 0 (.V4 0 0) 0 0, .arrive 2 (.V4 0 0) 0 0, .arrive 2 (.V4 0 0) 0 0]

theorem unreliable_channels_overtaken :
    ∃ v, Reach (step noHmac plainConfig) Ch1Near
      ⟨start ⟨1, 1, .V4 0 0, 0, [], 0⟩ ⟨1, 1, .V4 1 0, 0, [], 0⟩, []⟩ v ∧
      dataOn CH_UNRELIABLE_UNORDERED v.link.events = [(7, [3]), (7, [3])] ∧
      dataOn CH_UNRELIABLE_SEQUENCED v.link.events = [(7, [2])] := by
  have hall : Allowed (step noHmac plainConfig) Ch1Near
      ⟨start ⟨1, 1, .V4 0 0, 0, [], 0⟩ ⟨1, 1, .V4 1 0, 0, [], 0⟩, []⟩ overtaken := by decide +kernel
  have hreach := Reach.foldl hall
  obtain ⟨h0, h1, -⟩ := unreliable_channels noHmac plainConfig _ _ hreach
  refine ⟨_, hreach, h0.trans ?_, h1.trans ?_⟩
  · decide +kernel
  · decide +kernel

end Arrivals

end SoupEngine
