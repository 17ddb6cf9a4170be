import SoupEngine.Link.Assembled

/-!
# The receiving side of a link

`Receiving l D`: the numbers buffered for Ch2 so far are those of `D`, all of them received, and `b`
has delivered up to the first one missing. An arrival adds to `D` what `grown` says
(`receiving_receiveB`), as long as it is near the position and no delivered or foreign group is
taken in.
-/

namespace SoupEngine

open BoundedMemory Release

attribute [local irreducible] remember

namespace Link

/-- The entry of number `i` in the reorder buffer of `b`. -/
def slot (l : Link) (i : ℕ) : U16 × Bytes :=
  match l.log[i]? with
  | some e => e.call.slot i
  | none => placeholder

structure Receiving (l : Link) (D : Finset ℕ) : Prop where
  window : Window l.slot D l.pos l.b.ch2View
  front : l.pos = front D
  buffered : ∀ i ∈ D, i ∈ l.received ∧
    ∃ e : Sent, l.log[i]? = some e ∧ e.call.ch = CH_RELIABLE_ORDERED
  logged : ∀ i ∈ l.received, ∃ e : Sent, l.log[i]? = some e ∧ e.datagram.isSome
  near : ∀ i ∈ l.received, ∀ e : Sent, l.log[i]? = some e → e.call.ch = CH_RELIABLE_ORDERED →
    i ≤ l.pos + 32766
  ch3Seen : l.b.ch3Seen = l.seen.map seqNum
  seen : ∀ i ∈ l.seen, i ∈ l.received ∧
    ∃ e : Sent, l.log[i]? = some e ∧ e.call.ch = CH_RELIABLE_UNORDERED
  events : ch2Data l.events = delivered l.slot 0 l.pos

/-- What is buffered once number `i` of the call has arrived. -/
def grown (l : Link) (i : ℕ) (c : Call) (D : Finset ℕ) : Finset ℕ :=
  if l.b.isActive = false ∨ c.ch ≠ CH_RELIABLE_ORDERED then D
  else if ¬ c.Fragmented then insert i D
  else if l.Accepts i c ∧ l.b.Completes (c.fragment i) then D ∪ groupNums c.first c.total
  else D

section

variable {cfg : SessionTableConfig} {l l' : Link} {c : Call} {i : ℕ} {bytes : Bytes}
  {D : Finset ℕ}

theorem slot_of_log {e : Sent} (he : l.log[i]? = some e) : l.slot i = e.call.slot i := by
  unfold slot
  rw [he]

theorem slot_of_numbered (h : l.Numbered c i) : l.slot i = c.slot i := by
  obtain ⟨e, he, rfl⟩ := h
  exact slot_of_log he

theorem subset_grown (l : Link) (i : ℕ) (c : Call) (D : Finset ℕ) : D ⊆ l.grown i c D := by
  unfold grown
  split_ifs
  · exact Finset.Subset.refl D
  · exact Finset.subset_union_left
  · exact Finset.Subset.refl D
  · exact Finset.subset_insert _ _

theorem receiving_start (a b : Opening) : Receiving (start a b) ∅ where
  window := window_create _ _ _ _ _ _ _
  front := front_empty.symm
  buffered i hi := absurd hi (Finset.notMem_empty i)
  logged i hi := absurd hi (Finset.notMem_empty i)
  near _ hi := absurd hi (Finset.notMem_empty _)
  ch3Seen := rfl
  seen _ hi := absurd hi List.not_mem_nil
  events := rfl

theorem Receiving.quiet (h : Receiving l D) (hq : Quiet l l') : Receiving l' D := by
  have hslot : ∀ i, i ∈ l.received → l'.slot i = l.slot i := by
    intro i hi
    obtain ⟨e, he, -⟩ := h.logged i hi
    rw [slot_of_log he, slot_of_log (hq.log i e he)]
  have hwin : Window l'.slot D l.pos l.b.ch2View :=
    h.window.congr_slot fun i hi => hslot i (h.buffered i hi).1
  refine ⟨?_, ?_, fun i hi => ?_, fun i hi => ?_, fun i hi e he hch => ?_, ?_, fun i hi => ?_, ?_⟩
  · rw [hq.pos, hq.ch2]
    exact hwin
  · rw [hq.pos, h.front]
  · obtain ⟨hr, e, he, hch⟩ := h.buffered i hi
    exact ⟨by rw [hq.received]; exact hr, e, hq.log i e he, hch⟩
  · rw [hq.received] at hi
    obtain ⟨e, he, hd⟩ := h.logged i hi
    exact ⟨e, hq.log i e he, hd⟩
  · rw [hq.received] at hi
    obtain ⟨e', he', -⟩ := h.logged i hi
    have hee := hq.log i e' he'
    rw [he] at hee
    cases hee
    rw [hq.pos]
    exact h.near i hi e he' hch
  · rw [hq.ch3Seen, hq.seen, h.ch3Seen]
  · rw [hq.seen] at hi
    obtain ⟨hr, e, he, hch⟩ := h.seen i hi
    exact ⟨by rw [hq.received]; exact hr, e, hq.log i e he, hch⟩
  · rw [hq.events, hq.pos, h.events]
    refine delivered_congr fun i _ hi => (hslot i ?_).symm
    rw [h.front] at hi
    exact (h.buffered i (mem_of_lt_front hi)).1

/-- The numbers below the position are Ch2 numbers. -/
theorem Receiving.ordered (h : Receiving l D) :
    ∀ i < l.pos, ∃ e : Sent, l.log[i]? = some e ∧ e.call.ch = CH_RELIABLE_ORDERED := by
  intro i hi
  rw [h.front] at hi
  exact (h.buffered i (mem_of_lt_front hi)).2

theorem Receiving.pos_le (h : Receiving l D) : l.pos ≤ l.log.length := by
  by_contra hc
  have hm : l.log.length ∈ D := mem_of_lt_front (by rw [← h.front]; omega)
  obtain ⟨-, e, he, -⟩ := h.buffered _ hm
  have := (List.getElem?_eq_some_iff.1 he).1
  omega

/-- Ch2 does not get past a number of another channel. -/
theorem Receiving.pos_le_of_ne (h : Receiving l D) {q : ℕ} {e : Sent} (he : l.log[q]? = some e)
    (hne : e.call.ch ≠ CH_RELIABLE_ORDERED) : l.pos ≤ q := by
  rw [h.front]
  refine front_le fun hq => ?_
  obtain ⟨-, d, hd, hch⟩ := h.buffered q hq
  rw [he] at hd
  cases hd
  exact hne hch

/-! ## An arrival -/

section Arrival

variable (hw : Wired cfg l) (hR : Receiving l D) (ha : l.b.state = .Active)
  (he : l.log[i]? = some ⟨c, some bytes⟩) (peer : SocketAddr) (now clock : Instant)

include hw hR ha he in
/-- The window of Ch3 after an arrival at an active session. -/
theorem seen_receiveB :
    (l.receiveB cfg i c bytes peer now clock).b.ch3Seen =
        (l.receiveB cfg i c bytes peer now clock).seen.map seqNum ∧
      ∀ j ∈ (l.receiveB cfg i c bytes peer now clock).seen,
        j ∈ (l.receiveB cfg i c bytes peer now clock).received ∧
        ∃ e : Sent, l.log[j]? = some e ∧ e.call.ch = CH_RELIABLE_UNORDERED := by
  obtain ⟨header, hcar⟩ := hw.carried i _ bytes he rfl
  have hactive : l.b.isActive = true := isActive_iff.2 ha
  set l' := l.receiveB cfg i c bytes peer now clock with hl'
  have hreceived : l'.received = insert i l.received := if_pos hactive
  have hseen : l'.seen = if l.b.isActive ∧ c.ch = CH_RELIABLE_UNORDERED ∧ seqNum i ∉ l.b.ch3Seen
    then remember CH3_SEEN_CAP l.seen i else l.seen := rfl
  have hold : ∀ j ∈ l.seen, j ∈ l'.received ∧
      ∃ e : Sent, l.log[j]? = some e ∧ e.call.ch = CH_RELIABLE_UNORDERED := by
    intro j hj
    obtain ⟨hr, e, hje, hch⟩ := hR.seen j hj
    exact ⟨by rw [hreceived]; exact Finset.mem_insert_of_mem hr, e, hje, hch⟩
  have hb : l'.b.ch3Seen =
    (l.b.receive cfg Stats.new peer bytes now clock).session.ch3Seen := rfl
  by_cases h2 : c.ch = CH_RELIABLE_ORDERED
  · have hne : c.ch ≠ CH_RELIABLE_UNORDERED := by rw [h2]; decide
    rw [hseen, if_neg fun h => hne h.2.1, hb, (receive_ch2 Stats.new peer now clock ha hcar h2).1,
      handleCh2_same]
    exact ⟨hR.ch3Seen, hold⟩
  · by_cases h3 : c.ch = CH_RELIABLE_UNORDERED
    · have hview :=
        congrArg ReceiverView.ch3Seen (receive_ch3 Stats.new peer now clock ha hcar h3).1
      have hview' : (l.b.receive cfg Stats.new peer bytes now clock).session.ch3Seen =
        if seqNum i ∈ l.b.ch3Seen then l.b.ch3Seen
        else remember CH3_SEEN_CAP l.b.ch3Seen (seqNum i) := hview
      rw [hseen, hb, hview']
      by_cases hm : seqNum i ∈ l.b.ch3Seen
      · rw [if_pos hm, if_neg fun h => h.2.2 hm]
        exact ⟨hR.ch3Seen, hold⟩
      · rw [if_neg hm, if_pos ⟨hactive, h3, hm⟩, hR.ch3Seen, remember_map]
        refine ⟨rfl, fun j hj => ?_⟩
        rcases mem_of_mem_remember hj with hj | rfl
        · exact hold j hj
        · exact ⟨by rw [hreceived]; exact Finset.mem_insert_self _ _, _, he, h3⟩
    · have hview :=
        congrArg ReceiverView.ch3Seen
          (receive_unreliable Stats.new peer now clock ha hcar h2 h3).1
      have hview' : (l.b.receive cfg Stats.new peer bytes now clock).session.ch3Seen =
        l.b.ch3Seen := hview
      rw [hseen, if_neg fun h => h3 h.2.1, hb, hview']
      exact ⟨hR.ch3Seen, hold⟩

include hw hR ha he in
/-- What is to be shown of an arrival at an active session. -/
theorem receiving_of_window {D' : Finset ℕ}
    (hwin : Window l.slot D' (front D')
      (l.b.receive cfg Stats.new peer bytes now clock).session.ch2View)
    (hsub : D ⊆ D')
    (hnew : ∀ j ∈ D', j ∈ D ∨ c.ch = CH_RELIABLE_ORDERED ∧ l.Numbered c j ∧ j ∈ insert i l.received)
    (hnear : c.ch = CH_RELIABLE_ORDERED → i ≤ l.pos + 32766)
    (hev : ch2Data (l.b.receive cfg Stats.new peer bytes now clock).events =
      delivered l.slot l.pos (front D')) :
    Receiving (l.receiveB cfg i c bytes peer now clock) D' := by
  obtain ⟨header, hcar⟩ := hw.carried i _ bytes he rfl
  have hactive : l.b.isActive = true := isActive_iff.2 ha
  set l' := l.receiveB cfg i c bytes peer now clock with hl'
  have hreceived : l'.received = insert i l.received := if_pos hactive
  have hmono : l.pos ≤ front D' := by
    rw [hR.front]
    exact front_mono hsub
  have hmem : ∀ j ∈ D', j ∈ l'.received ∧
      ∃ e : Sent, l.log[j]? = some e ∧ e.call.ch = CH_RELIABLE_ORDERED := by
    intro j hj
    rw [hreceived]
    rcases hnew j hj with hj | ⟨hch, ⟨e, hje, hc⟩, hr⟩
    · obtain ⟨hr, e, hje, hch⟩ := hR.buffered j hj
      exact ⟨Finset.mem_insert_of_mem hr, e, hje, hch⟩
    · exact ⟨hr, e, hje, by rw [hc]; exact hch⟩
  have hnear' : ∀ j ∈ l'.received, ∀ e : Sent, l.log[j]? = some e →
      e.call.ch = CH_RELIABLE_ORDERED → j ≤ l.pos + 32766 := by
    intro j hj e hje hch
    rw [hreceived] at hj
    rcases Finset.mem_insert.1 hj with rfl | hj
    · rw [he] at hje
      cases hje
      exact hnear hch
    · exact hR.near j hj e hje hch
  -- the position advances by less than half a turn
  have hfar : front D' ≤ l.pos + 32767 := by
    by_contra hc
    have hj : front D' - 1 ∈ D' := mem_of_lt_front (by omega)
    obtain ⟨hr, e, hje, hch⟩ := hmem _ hj
    have := hnear' _ hr e hje hch
    omega
  have hpos : l'.pos = front D' := by
    have hn : l.b.ch2Next = some (seqNum l.pos) := hR.window.next
    have hn' : (l.b.receive cfg Stats.new peer bytes now clock).session.ch2Next =
      some (seqNum (front D')) := hwin.next
    show l.pos + ((l.b.receive cfg Stats.new peer bytes now clock).session.ch2Next.getD 0 -
      l.b.ch2Next.getD 0).toNat = _
    rw [hn, hn', Option.getD_some, Option.getD_some, seqNum_sub hmono (by omega)]
    omega
  have hch3 := seen_receiveB hw hR ha he peer now clock
  refine ⟨?_, hpos, hmem, fun j hj => ?_, fun j hj e hje hch => ?_, hch3.1, hch3.2, ?_⟩
  · rw [hpos]
    exact hwin
  · rw [hreceived] at hj
    rcases Finset.mem_insert.1 hj with rfl | hj
    · exact ⟨_, he, rfl⟩
    · exact hR.logged j hj
  · have := hnear' j hj e hje hch
    rw [hpos]
    omega
  · show ch2Data (l.events ++ _) = delivered l.slot 0 l'.pos
    rw [ch2Data_append, hev, hR.events, hpos, delivered_append (Nat.zero_le _) hmono]

include hw hR ha he in
/-- Nothing is buffered or delivered. -/
theorem receiving_of_view
    (hview : (l.b.receive cfg Stats.new peer bytes now clock).session.ch2View = l.b.ch2View)
    (hev : ch2Data (l.b.receive cfg Stats.new peer bytes now clock).events = [])
    (hnear : c.ch = CH_RELIABLE_ORDERED → i ≤ l.pos + 32766) :
    Receiving (l.receiveB cfg i c bytes peer now clock) D := by
  refine receiving_of_window hw hR ha he peer now clock ?_ subset_rfl
    (fun j hj => Or.inl hj) hnear ?_
  · rw [hview, ← hR.front]
    exact hR.window
  · rw [hev, ← hR.front]
    unfold delivered
    rw [Nat.sub_self]
    rfl

include hw hR ha he in
/-- A plain number is buffered. -/
theorem receiving_plain (h2 : c.ch = CH_RELIABLE_ORDERED) (hf : ¬ c.Fragmented) (hnear : l.Near i) :
    Receiving (l.receiveB cfg i c bytes peer now clock) (insert i D) := by
  obtain ⟨header, hcar⟩ := hw.carried i _ bytes he rfl
  obtain ⟨hlo, hhi⟩ := hnear
  have hflag : header.flags &&& FLAG_FRAGMENT = 0 := not_not.1 fun h => hf (hcar.flag.1 h)
  have hfront := hR.front
  obtain ⟨hs, hev⟩ := receive_ch2 Stats.new peer now clock ha hcar h2
  have hcount : c.count = 1 := if_neg hf
  obtain ⟨hn1, hn2, -⟩ := hw.number i _ he
  have hfirst : i = c.first := by
    have h1 : c.first ≤ i := hn1
    have h2 : i < c.first + c.count := hn2
    omega
  have hslot : l.slot i = ((c.frame i).msgId, (c.frame i).body) := by
    rw [slot_of_log he]
    show c.slot i = (c.msgId, c.body i)
    unfold Call.slot Call.reassembled Call.body
    rw [if_pos hfirst, if_neg hf, if_neg hf]
  have hwin : Window l.slot D (front D) (l.b.prepared peer header now).ch2View := by
    rw [← hfront]
    exact hR.window
  obtain ⟨hwin', hev', -, -⟩ := handleCh2_plain now [] hwin hflag hcar.seq (by omega) (by omega)
    (fun j hj => by
      obtain ⟨hr, e, hje, hch⟩ := hR.buffered j hj
      have := hR.near j hr e hje hch
      omega) hslot
  refine receiving_of_window hw hR ha he peer now clock ?_ (Finset.subset_insert _ _)
    (fun j hj => ?_) (fun _ => hhi) ?_
  · rw [hs]
    exact hwin'
  · rcases Finset.mem_insert.1 hj with rfl | hj
    · exact Or.inr ⟨h2, ⟨_, he, rfl⟩, Finset.mem_insert_self _ _⟩
    · exact Or.inl hj
  · rw [hev, hev', List.nil_append, ch2Data_release, hfront]

include hw hR ha he in
/-- A fragment that completes its call buffers the numbers of the call. -/
theorem receiving_group (hf : c.Fragmented) (hstale : ¬ l.Stale i c)
    (hnear : i ≤ l.pos + 32766) (hacc : l.Accepts i c)
    (hall : ∀ j < c.total, j = i - c.first ∨ l.Got c (c.first + j)) {s : Session}
    (hview : s.receiverView = Session.withGroup l.b c (c.fragment i).total)
    (hs : (l.b.receive cfg Stats.new peer bytes now clock).session = (deliverCh2InOrder s []).1)
    (hev : (l.b.receive cfg Stats.new peer bytes now clock).events = (deliverCh2InOrder s []).2) :
    Receiving (l.receiveB cfg i c bytes peer now clock) (D ∪ groupNums c.first c.total) := by
  obtain ⟨hn1, -, -⟩ := hw.number i _ he
  have hfirst : c.first ≤ i := hn1
  obtain ⟨-, h64, hlt⟩ := hacc.2.1
  have hlo : l.pos ≤ c.first := not_lt.1 fun hlt => hstale ⟨hacc, hlt⟩
  have htotal := Call.total_fragment c i
  have hnum : ∀ j ∈ groupNums c.first c.total, l.Numbered c j ∧ j ∈ insert i l.received := by
    intro j hj
    rw [mem_groupNums] at hj
    rcases hall (j - c.first) (by omega) with hji | ⟨hr, hnumj⟩
    · rw [show j = i by omega]
      exact ⟨⟨_, he, rfl⟩, Finset.mem_insert_self _ _⟩
    · rw [show c.first + (j - c.first) = j by omega] at hr hnumj
      exact ⟨hnumj, Finset.mem_insert_of_mem hr⟩
  have hslot0 : l.slot c.first = (c.msgId, c.reassembled) := by
    rw [slot_of_numbered (hnum c.first (by rw [mem_groupNums]; omega)).1]
    exact if_pos rfl
  have hslot : ∀ j, c.first < j → j < c.first + (c.fragment i).total.toNat →
      l.slot j = placeholder := by
    intro j h1 h2
    rw [slot_of_numbered (hnum j (by rw [mem_groupNums]; omega)).1]
    exact if_neg (by omega)
  have hend : c.first + c.total ≤ l.pos + 65536 := by omega
  have hins := hR.window.insertGroup (c.fragment i).total hlo (by omega) (by omega) hslot0 hslot
  rw [htotal] at hins
  have hins' : Window l.slot (D ∪ groupNums c.first c.total) l.pos s.ch2View := by
    rw [show s.ch2View = _ from congrArg ReceiverView.ch2 hview]
    exact hins
  obtain ⟨hwin', hev'⟩ := deliverCh2InOrder_window [] hins'
  refine receiving_of_window hw hR ha he peer now clock ?_ Finset.subset_union_left (fun j hj => ?_)
    (fun _ => hnear) ?_
  · rw [hs]
    exact hwin'
  · rcases Finset.mem_union.1 hj with hj | hj
    · exact Or.inl hj
    · exact Or.inr ⟨hf.1, hnum j hj⟩
  · rw [hev, hev', List.nil_append, ch2Data_release]

end Arrival

/-- **An arrival.** -/
theorem receiving_receiveB (hw : Wired cfg l) (hA : l.Assembled) (hR : Receiving l D)
    (he : l.log[i]? = some ⟨c, some bytes⟩) (hmix : ¬ l.Mixes i c) (hstale : ¬ l.Stale i c)
    (hnear : l.b.state = .Active → c.ch = CH_RELIABLE_ORDERED → l.Near i) (peer : SocketAddr)
    (now clock : Instant) :
    Receiving (l.receiveB cfg i c bytes peer now clock) (l.grown i c D) := by
  unfold grown
  by_cases ha : l.b.state = .Active
  swap
  · have hact : l.b.isActive = false := Bool.eq_false_iff.2 fun h => ha (isActive_iff.1 h)
    rw [if_pos (Or.inl hact)]
    exact hR.quiet (quiet_receiveB_inactive ha i c bytes peer now clock)
  have hactive : l.b.isActive = true := isActive_iff.2 ha
  obtain ⟨header, hcar⟩ := hw.carried i _ bytes he rfl
  by_cases h2 : c.ch = CH_RELIABLE_ORDERED
  swap
  · rw [if_pos (Or.inr h2)]
    by_cases h3 : c.ch = CH_RELIABLE_UNORDERED
    · obtain ⟨hview, hev⟩ := receive_ch3 Stats.new peer now clock ha hcar h3
      exact receiving_of_view hw hR ha he peer now clock (congrArg ReceiverView.ch2 hview) hev
        fun h => absurd h h2
    · obtain ⟨hview, hev⟩ := receive_unreliable Stats.new peer now clock ha hcar h2 h3
      exact receiving_of_view hw hR ha he peer now clock (congrArg ReceiverView.ch2 hview) hev
        fun h => absurd h h2
  rw [if_neg (by rw [hactive]; exact fun h => h.elim Bool.noConfusion fun h => h h2)]
  by_cases hf : c.Fragmented
  swap
  · rw [if_pos hf]
    exact receiving_plain hw hR ha he peer now clock h2 hf (hnear ha h2)
  rw [if_neg (not_not.2 hf)]
  have hhi := (hnear ha h2).2
  rcases fragment_cases hw hA ha he h2 hf hmix peer now clock with
    ⟨hacc, hview, hev⟩ | ⟨-, hnc, st, -, -, -, hview, hev⟩ | ⟨hacc, hcomp, hall, s, hview, -,
      hs, hev⟩
  · rw [if_neg fun h => hacc h.1]
    exact receiving_of_view hw hR ha he peer now clock (congrArg ReceiverView.ch2 hview)
      (by rw [hev]; rfl) fun _ => hhi
  · rw [if_neg fun h => hnc h.2]
    exact receiving_of_view hw hR ha he peer now clock (congrArg ReceiverView.ch2 hview)
      (by rw [hev]; rfl) fun _ => hhi
  · rw [if_pos ⟨hacc, hcomp⟩]
    exact receiving_group hw hR ha he peer now clock hf hstale hhi hacc hall hview hs hev

end

end Link

end SoupEngine
