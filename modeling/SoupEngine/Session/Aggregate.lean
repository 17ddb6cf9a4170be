import SoupEngine.Session.Packet
import SoupEngine.Session.Table

/-!
# Datagrams of several frames

All frames of a datagram share its sequence number, by which the channels 1, 2 and 3 filter what
they have seen. On a session for which the number is new, the frame loop therefore delivers, apart
from Ch0, the first frame of each channel (`handleSessionPacket_fresh`).
-/

namespace SoupEngine

open BoundedMemory

attribute [local irreducible] remember

/-- Number `seq` is the next expected and was never seen on any channel, and nothing waits in the
reorder buffer. -/
structure Session.Fresh (s : Session) (seq : U16) : Prop where
  active : s.state = .Active
  newer : s.ch1Last.all (seqNewer seq) = true
  next : s.ch2Next = some seq
  undelivered : seq ∉ s.deliveredSeqs
  ahead : seqLt seq s.deliveredMax = false
  empty : s.reorder = ∅
  unseen : seq ∉ s.ch3Seen

/-- A channel that has carried a frame of the datagram takes no other; Ch0 takes all. -/
def Takes (used : List U8) (f : FrameRef) : Prop := f.ch = CH_UNRELIABLE_UNORDERED ∨ f.ch ∉ used

instance (used : List U8) (f : FrameRef) : Decidable (Takes used f) := by
  unfold Takes; infer_instance

/-- The frames of a datagram that are delivered when the channels `used` have carried one. -/
def taken (used : List U8) : List FrameRef → List FrameRef
  | [] => []
  | f :: fs =>
    if Takes used f then f :: taken (f.ch :: used) fs else taken (f.ch :: used) fs

theorem takes_ch0 (used : List U8) {f : FrameRef} (h : f.ch = CH_UNRELIABLE_UNORDERED) :
    Takes used f := Or.inl h

theorem takes_iff {used : List U8} {f : FrameRef} (h : f.ch ≠ CH_UNRELIABLE_UNORDERED) :
    Takes used f ↔ f.ch ∉ used := or_iff_right h

/-- The channels of the frames outside Ch0. -/
def filtered (frames : List FrameRef) : List U8 :=
  (frames.map FrameRef.ch).filter (· ≠ CH_UNRELIABLE_UNORDERED)

/-! ## Which frames are delivered -/

theorem taken_cons (used : List U8) (f : FrameRef) (fs : List FrameRef) :
    taken used (f :: fs) =
      if Takes used f then f :: taken (f.ch :: used) fs else taken (f.ch :: used) fs := rfl

theorem taken_sublist (used : List U8) (frames : List FrameRef) :
    (taken used frames).Sublist frames := by
  induction frames generalizing used with
  | nil => exact List.Sublist.refl _
  | cons f fs ih =>
    rw [taken_cons]
    split_ifs
    · exact (ih _).cons_cons f
    · exact (ih _).cons f

/-- All frames are delivered exactly when every channel but Ch0 carries at most one. -/
theorem taken_eq_iff (used : List U8) (frames : List FrameRef) :
    taken used frames = frames ↔
      (filtered frames).Nodup ∧ ∀ c ∈ filtered frames, c ∉ used := by
  induction frames generalizing used with
  | nil => simp [taken, filtered]
  | cons f fs ih =>
    rw [taken_cons]
    by_cases h0 : f.ch = CH_UNRELIABLE_UNORDERED
    · have hskip : filtered (f :: fs) = filtered fs := by simp [filtered, h0]
      have hne : ∀ c ∈ filtered fs, c ≠ f.ch := fun c hc he =>
        of_decide_eq_true (List.mem_filter.1 hc).2 (he.trans h0)
      rw [if_pos (takes_ch0 used h0), hskip, List.cons_inj_right, ih]
      refine and_congr_right fun _ => forall₂_congr fun c hc => ?_
      rw [List.mem_cons, not_or]
      exact and_iff_right (hne c hc)
    · have hcons : filtered (f :: fs) = f.ch :: filtered fs := by simp [filtered, h0]
      rw [hcons, List.nodup_cons, List.forall_mem_cons]
      split_ifs with ht
      · have hu : f.ch ∉ used := (takes_iff h0).1 ht
        rw [List.cons_inj_right, ih]
        constructor
        · rintro ⟨hd, hall⟩
          refine ⟨⟨fun hm => hall _ hm List.mem_cons_self, hd⟩, hu, fun c hc hm => ?_⟩
          exact hall c hc (List.mem_cons_of_mem _ hm)
        · rintro ⟨⟨hn, hd⟩, -, hall⟩
          refine ⟨hd, fun c hc hm => ?_⟩
          rcases List.mem_cons.1 hm with rfl | hm
          · exact hn hc
          · exact hall c hc hm
      · have hu : f.ch ∈ used := not_not.1 fun hu => ht ((takes_iff h0).2 hu)
        constructor
        · intro he
          have hle := (taken_sublist (f.ch :: used) fs).length_le
          rw [he, List.length_cons] at hle
          omega
        · rintro ⟨-, hn, -⟩
          exact absurd hu hn

/-! ## The frame loop -/

/-- Where the frame loop stands when the channels `used` have carried a frame of number `seq`. -/
structure Session.Carried (s : Session) (seq : U16) (used : List U8) : Prop where
  ch1 : s.ch1Last.all (seqNewer seq) = true ↔ CH_UNRELIABLE_SEQUENCED ∉ used
  ch2 : seq ∈ s.deliveredSeqs ↔ CH_RELIABLE_ORDERED ∈ used
  ch3 : seq ∈ s.ch3Seen ↔ CH_RELIABLE_UNORDERED ∈ used
  ready : CH_RELIABLE_ORDERED ∉ used →
    s.ch2Next = some seq ∧ seqLt seq s.deliveredMax = false ∧ s.reorder = ∅

theorem Session.Fresh.carried {s : Session} {seq : U16} (h : s.Fresh seq) : s.Carried seq [] where
  ch1 := by simp [h.newer]
  ch2 := by simp [h.undelivered]
  ch3 := by simp [h.unseen]
  ready _ := ⟨h.next, h.ahead, h.empty⟩

/-- Only the channels with a filter count. -/
theorem Session.Carried.congr {s : Session} {seq : U16} {used used' : List U8}
    (h : s.Carried seq used) (hu : ∀ c, c ≠ CH_UNRELIABLE_UNORDERED → (c ∈ used' ↔ c ∈ used)) :
    s.Carried seq used' where
  ch1 := by rw [h.ch1, hu _ (by decide)]
  ch2 := by rw [h.ch2, hu _ (by decide)]
  ch3 := by rw [h.ch3, hu _ (by decide)]
  ready hn := h.ready (by rwa [← hu _ (by decide)])

theorem mem_used {c d : U8} {used : List U8} (h : c ≠ d) : c ∈ d :: used ↔ c ∈ used := by
  rw [List.mem_cons, or_iff_right h]

theorem seqNewer_self (seq : U16) : seqNewer seq seq = false := by
  unfold seqNewer SerialNumber.dist
  rw [BitVec.sub_self]
  rfl

theorem Valid_ch {f : FrameRef} (hf : f.Valid) :
    f.ch = CH_UNRELIABLE_UNORDERED ∨ f.ch = CH_UNRELIABLE_SEQUENCED ∨ f.ch = CH_RELIABLE_ORDERED ∨
      f.ch = CH_RELIABLE_UNORDERED := by
  have hle : f.ch.toNat ≤ 3 := hf.1
  have hcases : f.ch.toNat = 0 ∨ f.ch.toNat = 1 ∨ f.ch.toNat = 2 ∨ f.ch.toNat = 3 := by omega
  rcases hcases with h | h | h | h
  · exact Or.inl (BitVec.eq_of_toNat_eq h)
  · exact Or.inr (Or.inl (BitVec.eq_of_toNat_eq h))
  · exact Or.inr (Or.inr (Or.inl (BitVec.eq_of_toNat_eq h)))
  · exact Or.inr (Or.inr (Or.inr (BitVec.eq_of_toNat_eq h)))

/-- A valid frame is no placeholder. -/
theorem deliveryEvents_valid (sessId : U64) {f : FrameRef} (hf : f.Valid) :
    deliveryEvents sessId (f.msgId, f.body) =
      [.Data sessId CH_RELIABLE_ORDERED f.msgId f.body] := by
  unfold deliveryEvents
  refine if_pos (Or.inl fun he => ?_)
  have hle : f.msgId ≤ 0x0FFF := hf.2
  rw [show f.msgId = 0xFFFF from he] at hle
  exact absurd hle (by decide)

section Loop

variable {header : DatagramHeader} {f : FrameRef} {used : List U8} (now : Instant)

/-- On a ready session the Ch2 frame of the expected number goes through the reorder buffer. -/
theorem handleCh2_ready {s : Session} (events : List SessionEvent) (hf : f.Valid)
    (hflag : header.flags &&& FLAG_FRAGMENT = 0) (hnew : header.seq ∉ s.deliveredSeqs)
    (hnext : s.ch2Next = some header.seq) (hahead : seqLt header.seq s.deliveredMax = false)
    (hempty : s.reorder = ∅) :
    handleCh2 s header f now events =
      (({ s with reorder := s.reorder.insert header.seq (f.msgId, f.body) } : Session).consume
          header.seq,
        events ++ [.Data s.sessId CH_RELIABLE_ORDERED f.msgId f.body]) := by
  have hsize : (s.reorder.insert header.seq (f.msgId, f.body)).size = 1 := by
    rw [hempty]
    rfl
  unfold handleCh2
  rw [if_neg hnew, if_neg (by rw [hahead]; simp), if_neg (not_not.2 hflag)]
  unfold deliverCh2InOrder
  dsimp only
  rw [hnext]
  dsimp only
  rw [hsize]
  unfold deliverLoop
  dsimp only
  rw [Std.ExtTreeMap.getElem?_insert_self]
  dsimp only
  rw [deliveryEvents_valid s.sessId hf]
  rfl

/-- One round of the frame loop delivers its frame when its channel has carried none. -/
theorem dispatchFrame_carried {rx : Rx} (hf : f.Valid) (hflag : header.flags &&& FLAG_FRAGMENT = 0)
    (h : rx.session.Carried header.seq used) :
    (dispatchFrame header now rx f).events =
        rx.events ++ (if Takes used f then [frameEvent rx.session f] else []) ∧
      (dispatchFrame header now rx f).session.Carried header.seq (f.ch :: used) ∧
      (dispatchFrame header now rx f).session.sessId = rx.session.sessId := by
  have hagain (hu : f.ch ∈ used) : rx.session.Carried header.seq (f.ch :: used) :=
    h.congr fun c _ => ⟨fun hm => (List.mem_cons.1 hm).elim (fun he => he ▸ hu) id,
      List.mem_cons_of_mem _⟩
  unfold dispatchFrame
  rcases Valid_ch hf with h0 | h1 | h2 | h3
  · rw [if_pos h0, if_pos (takes_ch0 used h0)]
    exact ⟨rfl, h.congr fun c hc => mem_used (h0 ▸ hc), rfl⟩
  · have ht : Takes used f ↔ rx.session.ch1Last.all (seqNewer header.seq) = true := by
      rw [takes_iff (by rw [h1]; decide), h1, h.ch1]
    rw [if_neg (by rw [h1]; decide), if_pos h1]
    by_cases hn : rx.session.ch1Last.all (seqNewer header.seq) = true
    · rw [if_pos hn, if_pos (ht.2 hn), h1]
      refine ⟨rfl, ⟨?_, ?_, ?_, ?_⟩, rfl⟩
      · simp [seqNewer_self]
      · rw [mem_used (by decide)]
        exact h.ch2
      · rw [mem_used (by decide)]
        exact h.ch3
      · rw [mem_used (by decide)]
        exact h.ready
    · have hu : f.ch ∈ used := by
        rw [h1]
        exact not_not.1 fun hu => hn (h.ch1.2 hu)
      rw [if_neg hn, if_neg (fun hc => hn (ht.1 hc)), List.append_nil]
      exact ⟨rfl, hagain hu, rfl⟩
  · have ht : Takes used f ↔ header.seq ∉ rx.session.deliveredSeqs := by
      rw [takes_iff (by rw [h2]; decide), h2, h.ch2]
    rw [if_neg (by rw [h2]; decide), if_neg (by rw [h2]; decide), if_pos h2]
    by_cases hn : header.seq ∈ rx.session.deliveredSeqs
    · have hu : f.ch ∈ used := by
        rw [h2]
        exact h.ch2.1 hn
      have hdrop : handleCh2 rx.session header f now rx.events = (rx.session, rx.events) := by
        unfold handleCh2
        exact if_pos hn
      rw [hdrop, if_neg (fun hc => ht.1 hc hn), List.append_nil]
      exact ⟨rfl, hagain hu, rfl⟩
    · obtain ⟨hnext, hahead, hempty⟩ := h.ready fun hu => hn (h.ch2.2 hu)
      rw [handleCh2_ready now rx.events hf hflag hn hnext hahead hempty, if_pos (ht.2 hn)]
      have hevent : frameEvent rx.session f =
          .Data rx.session.sessId CH_RELIABLE_ORDERED f.msgId f.body := by
        unfold frameEvent
        rw [h2]
      rw [hevent, h2]
      refine ⟨rfl, ⟨?_, ?_, ?_, ?_⟩, rfl⟩
      · rw [mem_used (by decide)]
        exact h.ch1
      · refine iff_of_true ?_ List.mem_cons_self
        exact mem_remember_self (by decide) _ _
      · rw [mem_used (by decide)]
        exact h.ch3
      · exact fun hm => absurd List.mem_cons_self hm
  · have ht : Takes used f ↔ header.seq ∉ rx.session.ch3Seen := by
      rw [takes_iff (by rw [h3]; decide), h3, h.ch3]
    rw [if_neg (by rw [h3]; decide), if_neg (by rw [h3]; decide), if_neg (by rw [h3]; decide),
      if_pos h3]
    by_cases hn : header.seq ∈ rx.session.ch3Seen
    · have hu : f.ch ∈ used := by
        rw [h3]
        exact h.ch3.1 hn
      rw [if_pos hn, if_neg (fun hc => ht.1 hc hn), List.append_nil]
      exact ⟨rfl, hagain hu, rfl⟩
    · rw [if_neg hn, if_pos (ht.2 hn), h3]
      refine ⟨rfl, ⟨?_, ?_, ?_, ?_⟩, rfl⟩
      · rw [mem_used (by decide)]
        exact h.ch1
      · rw [mem_used (by decide)]
        exact h.ch2
      · refine iff_of_true ?_ List.mem_cons_self
        exact mem_remember_self (by decide) _ _
      · rw [mem_used (by decide)]
        exact h.ready

/-- Recording the number and counting the bytes does not touch what the channels have carried. -/
theorem handleFrame_carried {rx : Rx} (hf : f.Valid) (hflag : header.flags &&& FLAG_FRAGMENT = 0)
    (h : rx.session.Carried header.seq used) :
    (handleFrame header now rx f).events =
        rx.events ++ (if Takes used f then [frameEvent rx.session f] else []) ∧
      (handleFrame header now rx f).session.Carried header.seq (f.ch :: used) ∧
      (handleFrame header now rx f).session.sessId = rx.session.sessId := by
  unfold handleFrame
  exact dispatchFrame_carried now hf hflag ⟨h.ch1, h.ch2, h.ch3, h.ready⟩

/-- The whole frame loop delivers the first frame of every channel, and all of Ch0. -/
theorem foldl_handleFrame_carried {frames : List FrameRef} {rx : Rx} (hv : ∀ f ∈ frames, f.Valid)
    (hflag : header.flags &&& FLAG_FRAGMENT = 0) (h : rx.session.Carried header.seq used) :
    (frames.foldl (handleFrame header now) rx).events =
      rx.events ++ (taken used frames).map (frameEvent rx.session) := by
  induction frames generalizing used rx with
  | nil => exact (List.append_nil _).symm
  | cons f fs ih =>
    rw [List.forall_mem_cons] at hv
    obtain ⟨hev, hcar, hid⟩ := handleFrame_carried now hv.1 hflag h
    have hsame : frameEvent (handleFrame header now rx f).session = frameEvent rx.session := by
      funext g
      unfold frameEvent
      rw [hid]
    rw [List.foldl_cons, ih hv.2 hcar, hsame, hev, List.append_assoc]
    by_cases ht : Takes used f
    · rw [if_pos ht, taken_cons, if_pos ht]
      rfl
    · rw [if_neg ht, taken_cons, if_neg ht]
      rfl

end Loop

/-! ## A datagram on a fresh session -/

section Datagram

variable {cfg : SessionTableConfig} (t : SessionTable cfg) {s : Session} (peer : SocketAddr)
  {header : DatagramHeader} {frames : List FrameRef} {buf : Bytes} (now clock : Instant)

theorem handleSessionPacket_fresh (hget : t.get header.connId = some s)
    (hdec : decode buf = .ok (header, frames)) (hflag : header.flags &&& FLAG_FRAGMENT = 0)
    (hs : s.Fresh header.seq) :
    (t.handleSessionPacket peer header frames now clock).events =
      (taken [] frames).map (frameEvent s) := by
  unfold SessionTable.handleSessionPacket
  rw [hget]
  dsimp only
  rw [handlePacket_active t.stats peer header now clock hs.active]
  unfold handleActive
  have hstart : (startRx { s with peer, lastRx := now }
      (if s.peer ≠ peer then { t.stats with natRebind := t.stats.natRebind + 1 } else t.stats) peer
      header now).session.Carried header.seq [] :=
    ⟨hs.carried.ch1, hs.carried.ch2, hs.carried.ch3, hs.carried.ready⟩
  rw [(answerAck_fields peer _).2, foldl_handleFrame_carried now (decode_valid hdec) hflag hstart]
  rfl

/-- A datagram whose number is new on every channel has each of its frames delivered, in their
order, exactly when no two of its frames share one of the channels 1, 2 and 3. -/
theorem aggregate_iff (hget : t.get header.connId = some s)
    (hdec : decode buf = .ok (header, frames)) (hflag : header.flags &&& FLAG_FRAGMENT = 0)
    (hs : s.Fresh header.seq) :
    (t.handleSessionPacket peer header frames now clock).events = frames.map (frameEvent s) ↔
      (filtered frames).Nodup := by
  have hall : taken [] frames = frames ↔ (filtered frames).Nodup := by
    rw [taken_eq_iff]
    exact and_iff_left fun c _ => List.not_mem_nil
  rw [handleSessionPacket_fresh t peer now clock hget hdec hflag hs, ← hall]
  constructor
  · intro he
    refine (taken_sublist [] frames).eq_of_length ?_
    rw [← List.length_map (frameEvent s), he, List.length_map]
  · intro he
    rw [he]

end Datagram

/-- The table after one handshake. -/
def openedTable : SessionTable .default :=
  (SessionTable.new.openSession (.V4 0 0) [] (Vector.replicate 8 0) 0).table

/-- The first datagram of its session. -/
def firstHeader : DatagramHeader := ⟨VERSION, 0, 1, 0, 0, 0⟩

theorem openedTable_get : openedTable.get 1 = some (Session.create 1 1 (.V4 0 0) 0 [] 0) := by
  unfold openedTable SessionTable.openSession SessionTable.set SessionTable.get
  dsimp only
  rw [show @SessionTable.shard .default 1 = SessionTable.shard
    ((@SessionTable.new .default).nextConnId.setWidth 32) from rfl, Function.update_self]
  exact Std.ExtTreeMap.getElem?_insert_self

theorem fresh_create : (Session.create 1 1 (.V4 0 0) 0 [] 0).Fresh 0 where
  active := rfl
  newer := rfl
  next := rfl
  undelivered := List.not_mem_nil
  ahead := by decide
  empty := rfl
  unseen := List.not_mem_nil

/-- One frame of each channel that filters, and two of Ch0. -/
def mixedFrames : List FrameRef :=
  [⟨3, 1, [1]⟩, ⟨0, 2, []⟩, ⟨2, 3, [3]⟩, ⟨0, 4, []⟩, ⟨1, 5, []⟩]

theorem aggregate_mixed :
    (openedTable.handleSessionPacket (.V4 0 0) firstHeader mixedFrames 0 0).events =
      [.Data 1 3 1 [1], .Data 1 0 2 [], .Data 1 2 3 [3], .Data 1 0 4 [], .Data 1 1 5 []] := by
  have hdec : decode (encode firstHeader mixedFrames []).1 = .ok (firstHeader, mixedFrames) :=
    decode_encode (n := 38) (by decide +kernel)
  exact (aggregate_iff openedTable (.V4 0 0) 0 0 openedTable_get hdec (by decide) fresh_create).2
    (by decide)

/-- Two frames of each channel that filters. -/
def pairedFrames : List FrameRef :=
  [⟨2, 1, [1]⟩, ⟨2, 2, [2]⟩, ⟨3, 3, [3]⟩, ⟨3, 4, [4]⟩, ⟨1, 5, [5]⟩, ⟨1, 6, [6]⟩]

/-- Of two frames of a channel only the first is delivered. -/
theorem aggregate_drops :
    ∃ s buf, openedTable.get firstHeader.connId = some s ∧ s.Fresh firstHeader.seq ∧
      decode buf = .ok (firstHeader, pairedFrames) ∧ firstHeader.flags &&& FLAG_FRAGMENT = 0 ∧
      (openedTable.handleSessionPacket (.V4 0 0) firstHeader pairedFrames 0 0).events =
        [.Data 1 2 1 [1], .Data 1 3 3 [3], .Data 1 1 5 [5]] ∧
      (openedTable.handleSessionPacket (.V4 0 0) firstHeader pairedFrames 0 0).events ≠
        pairedFrames.map (frameEvent s) := by
  have hdec : decode (encode firstHeader pairedFrames []).1 = .ok (firstHeader, pairedFrames) :=
    decode_encode (n := 46) (by decide +kernel)
  have hev : (openedTable.handleSessionPacket (.V4 0 0) firstHeader pairedFrames 0 0).events =
      [.Data 1 2 1 [1], .Data 1 3 3 [3], .Data 1 1 5 [5]] :=
    handleSessionPacket_fresh openedTable (.V4 0 0) 0 0 openedTable_get hdec
      (by decide) fresh_create
  refine ⟨_, _, openedTable_get, fresh_create, hdec, by decide, hev, ?_⟩
  rw [hev]
  decide

end SoupEngine
