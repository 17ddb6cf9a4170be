import SoupEngine.Link.Sender

/-!
# An arrival

What a datagram of `a` does to the receiving side of `b`, by the channel of its call: nothing on Ch0
and Ch1 (`receive_unreliable`), the memory of numbers on Ch3 (`receive_ch3`), and `handleCh2` on
Ch2.
-/

namespace SoupEngine

open BoundedMemory Release

attribute [local irreducible] remember

/-- The Ch2 messages among a list of events. -/
def ch2Data (events : List SessionEvent) : List (U16 × Bytes) :=
  events.filterMap fun
    | .Data _ ch msgId payload => if ch = CH_RELIABLE_ORDERED then some (msgId, payload) else none
    | _ => none

theorem ch2Data_append (xs ys : List SessionEvent) :
    ch2Data (xs ++ ys) = ch2Data xs ++ ch2Data ys := List.filterMap_append

/-- The messages that the entries of `p, …, q - 1` deliver. -/
def delivered (slot : ℕ → U16 × Bytes) (p q : ℕ) : List (U16 × Bytes) :=
  ((List.range' p (q - p)).map slot).filter fun e => e ≠ placeholder

theorem ch2Data_deliveryEvents (sessId : U64) (e : U16 × Bytes) :
    ch2Data (deliveryEvents sessId e) = if e ≠ placeholder then [e] else [] := by
  have hiff : (e.1 ≠ 0xFFFF ∨ e.2 ≠ []) ↔ e ≠ placeholder := by
    obtain ⟨id, p⟩ := e
    simp only [placeholder, ne_eq, Prod.mk.injEq, not_and_or]
  unfold deliveryEvents
  by_cases he : e ≠ placeholder
  · rw [if_pos (hiff.2 he), if_pos he]
    rfl
  · rw [if_neg fun h => he (hiff.1 h), if_neg he]
    rfl

theorem ch2Data_release (sessId : U64) (slot : ℕ → U16 × Bytes) (p q : ℕ) :
    ch2Data (release sessId slot p q) = delivered slot p q := by
  unfold release delivered
  induction List.range' p (q - p) with
  | nil => rfl
  | cons i is ih =>
    rw [List.flatMap_cons, ch2Data_append, ih, ch2Data_deliveryEvents, List.map_cons,
      List.filter_cons]
    by_cases he : slot i ≠ placeholder
    · rw [if_pos he, if_pos (decide_eq_true he)]
      rfl
    · rw [if_neg he, if_neg fun h => he (of_decide_eq_true h)]
      rfl

theorem delivered_append {slot : ℕ → U16 × Bytes} {p q r : ℕ} (hpq : p ≤ q) (hqr : q ≤ r) :
    delivered slot p q ++ delivered slot q r = delivered slot p r := by
  rw [← ch2Data_release 0, ← ch2Data_release 0, ← ch2Data_release 0, ← ch2Data_append,
    release_append hpq hqr]

theorem delivered_congr {slot slot' : ℕ → U16 × Bytes} {p q : ℕ}
    (h : ∀ i, p ≤ i → i < q → slot i = slot' i) : delivered slot p q = delivered slot' p q := by
  unfold delivered
  congr 1
  refine List.map_congr_left fun i hi => ?_
  have := List.mem_range'_1.1 hi
  exact h i this.1 (by omega)

theorem slot_mem_delivered {slot : ℕ → U16 × Bytes} {p q i : ℕ} (hp : p ≤ i) (hq : i < q)
    (hne : slot i ≠ placeholder) : slot i ∈ delivered slot p q := by
  refine List.mem_filter.2 ⟨List.mem_map.2 ⟨i, List.mem_range'_1.2 ⟨hp, by omega⟩, rfl⟩, ?_⟩
  exact decide_eq_true hne

/-! ## The receiving side -/

/-- The fields of a session that receiving works on. -/
structure ReceiverView where
  state : SessionState
  ch2 : Ch2View
  assembler : FragmentAssembler
  ch3Seen : List U16

def Session.receiverView (s : Session) : ReceiverView :=
  ⟨s.state, s.ch2View, s.assembler, s.ch3Seen⟩

section Channels

variable {cfg : SessionTableConfig} {s : Session} (stats : Stats) (peer : SocketAddr) {i : ℕ}
  {c : Call} {bytes : Bytes} (now clock : Instant) {header : DatagramHeader}

theorem receive_single (ha : s.state = .Active) (h : Carried cfg i c bytes header) :
    ∃ rx : Rx, rx.session = s.prepared peer header now ∧ rx.events = [] ∧
      (s.receive cfg stats peer bytes now clock).session =
        (dispatchFrame header now rx (c.frame i)).session ∧
      (s.receive cfg stats peer bytes now clock).events =
        (dispatchFrame header now rx (c.frame i)).events := by
  unfold Session.receive
  rw [h.decode]
  exact handlePacket_single _ peer header now clock ha _

/-- Ch0 and Ch1 leave the state of the reliable channels alone. -/
theorem receive_unreliable (ha : s.state = .Active) (h : Carried cfg i c bytes header)
    (h2 : c.ch ≠ CH_RELIABLE_ORDERED) (h3 : c.ch ≠ CH_RELIABLE_UNORDERED) :
    (s.receive cfg stats peer bytes now clock).session.receiverView = s.receiverView ∧
      ch2Data (s.receive cfg stats peer bytes now clock).events = [] := by
  obtain ⟨rx, hs, he, h1, h2'⟩ := receive_single stats peer now clock ha h
  have hview : rx.session.receiverView = s.receiverView := by rw [hs]; rfl
  have hev : ∀ f : FrameRef, f.ch ≠ CH_RELIABLE_ORDERED →
      ch2Data (rx.events ++ [frameEvent rx.session f]) = [] := by
    intro f hf
    rw [he]
    show (if f.ch = CH_RELIABLE_ORDERED then some (f.msgId, f.body) else none).toList = []
    rw [if_neg hf]
    rfl
  rw [h1, h2']
  have hch2 : (c.frame i).ch ≠ CH_RELIABLE_ORDERED := h2
  have hch3 : (c.frame i).ch ≠ CH_RELIABLE_UNORDERED := h3
  unfold dispatchFrame
  split_ifs with h0 h1 hnew
  · exact ⟨hview, hev _ hch2⟩
  · exact ⟨hview, hev _ hch2⟩
  · exact ⟨hview, by rw [he]; rfl⟩
  · exact ⟨hview, by rw [he]; rfl⟩

/-- Ch3 remembers the number. -/
theorem receive_ch3 (ha : s.state = .Active) (h : Carried cfg i c bytes header)
    (h3 : c.ch = CH_RELIABLE_UNORDERED) :
    (s.receive cfg stats peer bytes now clock).session.receiverView =
        { s.receiverView with
          ch3Seen := if seqNum i ∈ s.ch3Seen then s.ch3Seen
            else remember CH3_SEEN_CAP s.ch3Seen (seqNum i) } ∧
      ch2Data (s.receive cfg stats peer bytes now clock).events = [] := by
  obtain ⟨rx, hs, he, h1, h2⟩ := receive_single stats peer now clock ha h
  have hview : rx.session.receiverView = s.receiverView := by rw [hs]; rfl
  have hseen : rx.session.ch3Seen = s.ch3Seen := congrArg ReceiverView.ch3Seen hview
  have hch : (c.frame i).ch = CH_RELIABLE_UNORDERED := h3
  rw [h1, h2]
  unfold dispatchFrame
  rw [hch, if_neg (by decide), if_neg (by decide), if_neg (by decide), if_pos rfl, h.seq, hseen]
  by_cases hm : seqNum i ∈ s.ch3Seen
  · rw [if_pos hm, if_pos hm]
    exact ⟨hview, by rw [he]; rfl⟩
  · rw [if_neg hm, if_neg hm, he, hs]
    refine ⟨rfl, ?_⟩
    show (if (c.frame i).ch = CH_RELIABLE_ORDERED then some _ else none).toList = []
    rw [hch, if_neg (by decide)]
    rfl

/-- Ch2 goes to `handleCh2`. -/
theorem receive_ch2 (ha : s.state = .Active) (h : Carried cfg i c bytes header)
    (h2 : c.ch = CH_RELIABLE_ORDERED) :
    (s.receive cfg stats peer bytes now clock).session =
        (handleCh2 (s.prepared peer header now) header (c.frame i) now []).1 ∧
      (s.receive cfg stats peer bytes now clock).events =
        (handleCh2 (s.prepared peer header now) header (c.frame i) now []).2 :=
  Session.receive_ch2 stats peer now clock ha h.decode h2

end Channels

/-! ## Fragments of a call -/

namespace Call

variable {c : Call} {i : ℕ}

theorem total_fragment (c : Call) (i : ℕ) : (c.fragment i).total.toNat = c.total :=
  BitVec.toNat_ofNat _ _

/-- A receiver reads the fragment, or rejects it. -/
theorem decodeFragment_frame (hf : c.Fragmented) (hi : i ≤ c.first + 64) :
    (c.Decodes i ∧ decodeFragment (c.frame i).body = .ok (c.fragment i)) ∨
      (¬ c.Decodes i ∧ ∃ e, decodeFragment (c.frame i).body = .error e) := by
  have hbody : (c.frame i).body = fragmentBody c.groupId c.first c.payload (i - c.first) := by
    show c.body i = _
    unfold body
    rw [if_pos hf]
  rw [hbody]
  rcases decodeFragment_fragmentBody c.groupId c.first (i := i - c.first) (by omega) with
    ⟨h1, h2, h3⟩ | ⟨h1, h2⟩
  · exact Or.inl ⟨⟨hf, h2, h3⟩, h1⟩
  · exact Or.inr ⟨fun hd => h2 ⟨hd.2.1, hd.2.2⟩, h1⟩

end Call

end SoupEngine
