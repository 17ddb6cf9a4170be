import SoupEngine.Session.Inbound
import SoupEngine.Session.Window

/-!
# A packet of one frame

Before the frame of a packet is dispatched, the session has followed the address, processed the
acknowledgement and recorded the number (`prepared`); none of this touches the delivery state. What
is left is the dispatch by channel.
-/

namespace SoupEngine

open BoundedMemory Release

attribute [local irreducible] remember

/-- The session as the frame of a packet finds it. -/
def Session.prepared (s : Session) (peer : SocketAddr) (header : DatagramHeader) (now : Instant) :
    Session :=
  { ({ s with peer, lastRx := now } : Session).processAck header now with
    recvSeq := (recordSeq s.recvSeq s.recvBits header.seq).1
    recvBits := (recordSeq s.recvSeq s.recvBits header.seq).2 }

section Single

variable {s : Session} (stats : Stats) (peer : SocketAddr) (header : DatagramHeader)
  {f : FrameRef} (now clock : Instant)

theorem isActive_iff : s.isActive = true ↔ s.state = .Active := decide_eq_true_iff

/-- The answering ACK changes neither the session nor the events. -/
theorem answerAck_fields (rx : Rx) :
    (answerAck peer rx).session = rx.session ∧ (answerAck peer rx).events = rx.events := by
  unfold answerAck
  split_ifs
  · split
    · exact ⟨rfl, rfl⟩
    · exact ⟨rfl, rfl⟩
  · exact ⟨rfl, rfl⟩

theorem handlePacket_active (ha : s.state = .Active) (frames : List FrameRef) :
    handlePacket s stats peer header frames now clock =
      handleActive { s with peer }
        (if s.peer ≠ peer then { stats with natRebind := stats.natRebind + 1 }
          else stats) peer header
        frames now := by
  cases s
  dsimp only at ha
  subst ha
  rfl

/-- A packet of one frame dispatches it on the prepared session. -/
theorem handlePacket_single (ha : s.state = .Active) (f : FrameRef) :
    ∃ rx : Rx, rx.session = s.prepared peer header now ∧ rx.events = [] ∧
      (handlePacket s stats peer header [f] now clock).session =
        (dispatchFrame header now rx f).session ∧
      (handlePacket s stats peer header [f] now clock).events =
        (dispatchFrame header now rx f).events := by
  rw [handlePacket_active stats peer header now clock ha]
  exact ⟨_, rfl, rfl, answerAck_fields peer _⟩

/-! ## Dispatch -/

theorem dispatchFrame_ch2 (rx : Rx) (hf : f.ch = CH_RELIABLE_ORDERED) :
    (dispatchFrame header now rx f).session = (handleCh2 rx.session header f now rx.events).1 ∧
      (dispatchFrame header now rx f).events = (handleCh2 rx.session header f now rx.events).2 := by
  unfold dispatchFrame
  rw [hf, if_neg (by decide), if_neg (by decide), if_pos rfl]
  exact ⟨rfl, rfl⟩

end Single

/-! ## The acknowledgement -/

/-- The bitmap of an acknowledgement of the number before `p`. -/
theorem getLsbD_computeAck {s : Session} {p j : ℕ} (hack : s.computeAck.1 + 1 = seqNum p)
    (hj : j < 32) :
    s.computeAck.2.getLsbD j = s.ackSees (seqNum (p + j)) := by
  have hseq : s.computeAck.1 + BitVec.ofNat 16 (j + 1) = seqNum (p + j) := by
    rw [show BitVec.ofNat 16 (j + 1) = 1 + seqNum j by rw [BitVec.add_comm, seqNum_succ]; rfl,
      ← BitVec.add_assoc, hack, seqNum_add]
  rw [← hseq]
  show (BitMask.setWhere 32 32 _).getLsbD j = _
  rw [BitMask.getLsbD_setWhere]
  simp [hj]
  rfl

/-- The acknowledgement of a session delivered up to `p`: the number before `p`, and for each of the
32 numbers from `p` on whether it is buffered or was seen on Ch3. -/
theorem computeAck_window {slot : ℕ → U16 × Bytes} {D : Finset ℕ} {p : ℕ} {s : Session}
    (h : Window slot D p s.ch2View) :
    s.computeAck.1 + 1 = seqNum p ∧ ∀ j < 32,
      (s.computeAck.2.getLsbD j = true ↔ p + j ∈ D ∨ seqNum (p + j) ∈ s.ch3Seen) := by
  have hn : s.ch2Next = some (seqNum p) := h.next
  have hack : s.computeAck.1 + 1 = seqNum p := by
    show s.ch2Next.getD 0 - 1 + 1 = _
    rw [hn, Option.getD_some, BitVec.sub_add_cancel]
  refine ⟨hack, fun j hj => ?_⟩
  have hold : seqNum (p + j) ∉ s.deliveredSeqs := fun hm => by
    have := (h.mem_seqs (by omega) (by omega)).1 hm
    omega
  have hbuf : s.reorder.contains (seqNum (p + j)) = decide (p + j ∈ D) :=
    h.contains (by omega) (by omega)
  rw [getLsbD_computeAck hack hj]
  unfold Session.ackSees
  rw [hbuf]
  simp [hold]

/-! ## A plain Ch2 frame -/

section Plain

variable {slot : ℕ → U16 × Bytes} {D : Finset ℕ} {s : Session} {header : DatagramHeader}
  {f : FrameRef} {i : ℕ} (now : Instant)

/-- A plain frame is buffered and what has become deliverable is delivered; a copy of a delivered
one is dropped. -/
theorem handleCh2_plain (events : List SessionEvent) (h : Window slot D (front D) s.ch2View)
    (hflag : header.flags &&& FLAG_FRAGMENT = 0) (hseq : header.seq = seqNum i)
    (hlo : front D ≤ i + 32769) (hhi : i ≤ front D + 32766) (hfar : ∀ j ∈ D, j < i + 65536)
    (hslot : slot i = (f.msgId, f.body)) :
    Window slot (insert i D) (front (insert i D)) (handleCh2 s header f now events).1.ch2View ∧
      (handleCh2 s header f now events).2 =
        events ++ release s.sessId slot (front D) (front (insert i D)) ∧
      SameOutsideCh2 s (handleCh2 s header f now events).1 ∧
      (handleCh2 s header f now events).1.assembler = s.assembler := by
  have hmax : s.deliveredMax = seqNum (front D - 1) := h.max
  unfold handleCh2
  rw [hseq]
  by_cases hi : i < front D
  · -- delivered before: either remembered or behind the window
    have hmem : i ∈ D := mem_of_lt_front hi
    have hdone : Window slot (insert i D) (front (insert i D)) s.ch2View ∧
        events = events ++ release s.sessId slot (front D) (front (insert i D)) ∧
        SameOutsideCh2 s s ∧ s.assembler = s.assembler := by
      rw [Finset.insert_eq_of_mem hmem, release_self, List.append_nil]
      exact ⟨h, rfl, rfl, rfl⟩
    by_cases hsq : seqNum i ∈ s.deliveredSeqs
    · rw [if_pos hsq]
      exact hdone
    · have hne : i + 1 ≠ front D := fun he => hsq ((h.mem_seqs (by omega) (by omega)).2 (by omega))
      have hlt : seqLt (seqNum i) s.deliveredMax = true := by
        rw [hmax, seqLt_num (by omega) (by omega)]
        exact decide_eq_true (by omega)
      have hout : ¬ s.reorder.contains (seqNum i) = true := by
        have hc : s.reorder.contains (seqNum i) = _ := h.contains_old hi (by omega)
        rw [hc, decide_eq_true_eq]
        exact fun hm => by have := hfar _ hm; omega
      rw [if_neg hsq, if_pos ⟨hflag, hlt, hout⟩]
      exact hdone
  · have hsq : seqNum i ∉ s.deliveredSeqs := fun hm => by
      have := (h.mem_seqs (by omega) (by omega)).1 hm
      omega
    have hlt : seqLt (seqNum i) s.deliveredMax = false := by
      rw [hmax, seqLt_num (by omega) (by omega)]
      exact decide_eq_false (by omega)
    rw [if_neg hsq, if_neg (fun hc => by rw [hlt] at hc; exact Bool.noConfusion hc.2.1),
      if_neg (not_not.2 hflag)]
    have hins := h.insert (i := i) (by omega) (by omega)
    rw [hslot] at hins
    have hdel := deliverCh2InOrder_window
      (s := { s with reorder := s.reorder.insert (seqNum i) (f.msgId, f.body) }) events hins
    have hsame := deliverCh2InOrder_same
      { s with reorder := s.reorder.insert (seqNum i) (f.msgId, f.body) } events
    have hframe : SameOutsideCh2 s
        { s with reorder := s.reorder.insert (seqNum i) (f.msgId, f.body) } := rfl
    exact ⟨hdel.1, hdel.2, hframe.trans hsame.1, hsame.2⟩

end Plain

end SoupEngine
