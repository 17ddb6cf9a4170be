import SoupEngine.Session.MessageSize
import SoupEngine.Session.Readable

/-!
# What a session holds

A session keeps datagrams until they are acknowledged, numbers that it has seen, chunks of groups
that are not complete, and messages whose turn has not come. Whatever arrives and whatever it is
told to send, none of these grows without a limit (`capped_act`, `bounded_act`), and all the bytes
in them are at most `HELD_MAX` (`holdings_limited`).
-/

namespace SoupEngine

open BoundedMemory SessionTable

attribute [local irreducible] remember

/-- The bytes of what has been received and sent that a session still holds. -/
def Session.held (s : Session) : ℕ :=
  ((s.retrans 0).contents.map fun e => e.2.length).sum + ((s.retrans 1).contents.map fun e =>
    e.2.length).sum +
    ((s.assembler.pending.values.map fun st => st.concat.length).sum +
      (s.reorder.values.map fun e => e.2.length).sum)

/-- Two full queues, and a message of full length under every group id and every number. -/
def HELD_MAX : ℕ := 2 * (RETRANSMIT_QUEUE_CAP * (MTU + HMAC_LEN)) + 2 * (65536 * MESSAGE_MAX)

/-- The memories of the receiving side are within their capacity. -/
structure Session.Remembered (s : Session) : Prop where
  ch3Seen : s.ch3Seen.length ≤ CH3_SEEN_CAP
  deliveredSeqs : s.deliveredSeqs.length ≤ DELIVERED_CAP
  completed : s.assembler.completed.length ≤ COMPLETED_CAP

/-- All memories with a capacity are within it. -/
structure Session.Capped (s : Session) : Prop extends s.Remembered where
  queues : ∀ qi, (s.retrans qi).contents.length ≤ RETRANSMIT_QUEUE_CAP

/-! ## Sums -/

theorem sum_map_le {α : Type*} {f : α → ℕ} {B : ℕ} {xs : List α} (h : ∀ x ∈ xs, f x ≤ B) :
    (xs.map f).sum ≤ xs.length * B := by
  have hsum := List.sum_le_card_nsmul (xs.map f) B fun y hy => by
    obtain ⟨x, hx, rfl⟩ := List.mem_map.1 hy
    exact h x hx
  rwa [List.length_map, smul_eq_mul] at hsum

/-- There are no more keys than numbers of 16 bits. -/
theorem length_values_le {β : Type} (m : Map U16 β) : m.values.length ≤ 65536 := by
  have hnodup : (m.keys.map BitVec.toNat).Nodup :=
    Std.ExtTreeMap.nodup_keys.map fun a b h => BitVec.eq_of_toNat_eq h
  have hsub : m.keys.map BitVec.toNat ⊆ List.range 65536 := by
    intro n hn
    obtain ⟨k, -, rfl⟩ := List.mem_map.1 hn
    exact List.mem_range.2 k.isLt
  have hlen := (hnodup.subperm hsub).length_le
  rw [List.length_map, List.length_range, Std.ExtTreeMap.length_keys] at hlen
  rw [values_eq, List.length_map, Std.ExtTreeMap.length_toList]
  exact hlen

/-! ## One session -/

section Session

variable {hmac4 : Hmac} {cfg : SessionTableConfig} {s : Session} {events : List SessionEvent}

theorem remembered_deliverLoop (rounds : ℕ) (next : U16) (s : Session) (events : List SessionEvent)
    (h : s.Remembered) : (deliverLoop rounds next s events).1.Remembered := by
  induction rounds generalizing next s events with
  | zero => exact h
  | succ rounds ih =>
    unfold deliverLoop
    cases s.reorder[next]? with
    | none => exact h
    | some e => exact ih _ _ _ ⟨h.ch3Seen, length_remember_le _ _ _, h.completed⟩

theorem remembered_deliverCh2InOrder (h : s.Remembered) :
    (deliverCh2InOrder s events).1.Remembered := by
  unfold deliverCh2InOrder
  cases s.ch2Next with
  | none => exact h
  | some next => exact remembered_deliverLoop _ _ _ _ h

theorem completed_push (a : FragmentAssembler) (h : a.completed.length ≤ COMPLETED_CAP) (g f : U16)
    (n t : U8) (c : Bytes) (now : Instant) :
    (a.push g f n t c now).1.completed.length ≤ COMPLETED_CAP := by
  unfold FragmentAssembler.push
  dsimp only
  split_ifs
  · exact h
  · exact length_remember_le _ _ _
  · exact h

theorem remembered_handleCh2 (h : s.Remembered) (header : DatagramHeader) (f : FrameRef)
    (now : Instant) :
    (handleCh2 s header f now events).1.Remembered := by
  unfold handleCh2
  split_ifs
  · exact h
  · exact h
  · cases decodeFragment f.body with
    | error e => exact h
    | ok fr =>
      have hpush :=
        completed_push s.assembler h.completed fr.groupId fr.firstSeq fr.fragNo fr.total
          fr.chunk now
      dsimp only
      split
      · rename_i assembler heq
        rw [heq] at hpush
        exact ⟨h.ch3Seen, h.deliveredSeqs, hpush⟩
      · rename_i assembler gseq full heq
        rw [heq] at hpush
        exact remembered_deliverCh2InOrder ⟨h.ch3Seen, h.deliveredSeqs, hpush⟩
  · exact remembered_deliverCh2InOrder ⟨h.ch3Seen, h.deliveredSeqs, h.completed⟩

theorem remembered_handleFrame (header : DatagramHeader) (now : Instant) {rx : Rx}
    (h : rx.session.Remembered) (f : FrameRef) :
    (handleFrame header now rx f).session.Remembered := by
  unfold handleFrame dispatchFrame
  dsimp only
  split_ifs
  · exact ⟨h.ch3Seen, h.deliveredSeqs, h.completed⟩
  · exact ⟨h.ch3Seen, h.deliveredSeqs, h.completed⟩
  · exact ⟨h.ch3Seen, h.deliveredSeqs, h.completed⟩
  · refine remembered_handleCh2 ?_ header f now
    exact ⟨h.ch3Seen, h.deliveredSeqs, h.completed⟩
  · exact ⟨h.ch3Seen, h.deliveredSeqs, h.completed⟩
  · exact ⟨length_remember_le _ _ _, h.deliveredSeqs, h.completed⟩
  · exact ⟨h.ch3Seen, h.deliveredSeqs, h.completed⟩

theorem remembered_foldl (header : DatagramHeader) (now : Instant) (frames : List FrameRef)
    {rx : Rx} (h : rx.session.Remembered) :
    (frames.foldl (handleFrame header now) rx).session.Remembered := by
  induction frames generalizing rx with
  | nil => exact h
  | cons f frames ih => exact ih (remembered_handleFrame header now h f)

theorem remembered_handlePacket (h : s.Remembered) (stats : Stats) (peer : SocketAddr)
    (header : DatagramHeader) (frames : List FrameRef) (now clock : Instant) :
    (handlePacket s stats peer header frames now clock).session.Remembered := by
  cases hst : s.state with
  | Grace since =>
    rw [(handlePacket_grace stats peer header frames now clock hst).1]
    exact ⟨h.ch3Seen, h.deliveredSeqs, h.completed⟩
  | Active =>
    rw [handlePacket_active stats peer header now clock hst]
    unfold handleActive
    rw [(answerAck_fields peer _).1]
    exact remembered_foldl header now frames ⟨h.ch3Seen, h.deliveredSeqs, h.completed⟩

theorem capped_enqueue (h : s.Capped) (ch : U8) (seq : U16) (bytes : Bytes) (now : Instant) :
    (s.enqueue ch seq bytes now).1.Capped := by
  unfold Session.enqueue
  cases queueOf ch with
  | none => exact h
  | some qi =>
    refine ⟨⟨h.ch3Seen, h.deliveredSeqs, h.completed⟩, fun qj => ?_⟩
    show (Function.update s.retrans qi ((s.retrans qi).push seq bytes now).1 qj).contents.length ≤ _
    by_cases hqj : qj = qi
    · subst hqj
      have hold := h.queues qj
      rw [Function.update_self]
      unfold RetransmitQueue.push
      split_ifs with hfull
      · exact hold
      · rw [RetransmitQueue.length_contents, List.length_append, List.length_singleton]
        omega
    · rw [Function.update_of_ne hqj]
      exact h.queues qj

theorem capped_packLoop (k : PackKind) (now : Instant) (bodies : List Bytes) (s : Session)
    (out : List Bytes) (h : s.Capped) : (packLoop hmac4 cfg k now bodies s out).1.Capped := by
  induction bodies generalizing s out with
  | nil => exact h
  | cons body bodies ih =>
    have hnext : ({ s with sendSeq := s.sendSeq + 1 } : Session).Capped :=
      ⟨⟨h.ch3Seen, h.deliveredSeqs, h.completed⟩, h.queues⟩
    unfold packLoop
    dsimp only
    split
    · exact hnext
    · rename_i bytes n hseal
      have hqueued := capped_enqueue hnext k.ch s.sendSeq bytes now
      split
      · rename_i s₁ e heq
        rw [heq] at hqueued
        exact hqueued
      · rename_i s₁ heq
        rw [heq] at hqueued
        exact ih _ _ hqueued

theorem capped_pack (h : s.Capped) (ch : U8) (msgId : U16) (payload : Bytes) (now : Instant) :
    (s.pack hmac4 cfg ch msgId payload now).1.Capped := by
  unfold Session.pack
  split_ifs
  · exact h
  · refine capped_packLoop _ now _ _ _ ?_
    exact ⟨⟨h.ch3Seen, h.deliveredSeqs, h.completed⟩, h.queues⟩
  · exact capped_packLoop _ now _ _ _ h

/-- A packet only takes datagrams out of the queues. -/
theorem queues_handlePacket (h : ∀ qi, (s.retrans qi).contents.length ≤ RETRANSMIT_QUEUE_CAP)
    (stats : Stats) (peer : SocketAddr) (header : DatagramHeader) (frames : List FrameRef)
    (now clock : Instant) (qi : Fin 2) :
    ((handlePacket s stats peer header frames now clock).session.retrans qi).contents.length ≤
      RETRANSMIT_QUEUE_CAP := by
  cases hst : s.state with
  | Grace since =>
    rw [(handlePacket_grace stats peer header frames now clock hst).1]
    exact h qi
  | Active =>
    have hqueue := congrFun (congrArg SenderView.retrans
      (handlePacket_sender stats peer header frames now clock hst)) qi
    rw [show (handlePacket s stats peer header frames now clock).session.retrans qi =
      ((s.retrans qi).onAck header.ack header.ackBits now).1 from hqueue,
      RetransmitQueue.contents_onAck]
    exact (List.dropWhile_sublist _).length_le.trans (h qi)

/-- The operations of the table keep the sessions capped. -/
theorem preserved_capped (hmac4 : Hmac) (t : SessionTable cfg) :
    Preserved hmac4 t PacketGuard.any True Session.Capped where
  create _ _ _ _ _ _ := ⟨⟨Nat.zero_le _, Nat.zero_le _, Nat.zero_le _⟩, fun _ => Nat.zero_le _⟩
  packet _ stats peer _ header frames now clock h _ _ :=
    ⟨remembered_handlePacket h.toRemembered stats peer header frames now clock,
      queues_handlePacket h.queues stats peer header frames now clock⟩
  maintain s now h := by
    unfold Session.maintain
    split_ifs
    · exact ⟨⟨h.ch3Seen, h.deliveredSeqs, h.completed⟩, h.queues⟩
    · exact h
  maintainReliable s now h := by
    refine ⟨⟨h.ch3Seen, h.deliveredSeqs, h.completed⟩, fun qi => ?_⟩
    show ((s.retrans qi).retransmitDue now s.rtt.rto).1.contents.length ≤ _
    rw [RetransmitQueue.contents_retransmitDue]
    exact h.queues qi
  pack _ ch msgId payload now h := capped_pack h ch msgId payload now
  budget _ _ _ h := ⟨⟨h.ch3Seen, h.deliveredSeqs, h.completed⟩, h.queues⟩

/-- What is capped, readable and of bounded messages takes a limited number of bytes. -/
theorem Session.Capped.held_le (h : s.Capped) (hclean : s.Clean hmac4 cfg)
    (hb : s.Bounded MESSAGE_MAX) :
    s.held ≤ HELD_MAX := by
  have hqueue (qi : Fin 2) : ((s.retrans qi).contents.map fun e => e.2.length).sum ≤
      RETRANSMIT_QUEUE_CAP * (MTU + HMAC_LEN) :=
    calc _ ≤ (s.retrans qi).contents.length * (MTU + HMAC_LEN) :=
          sum_map_le fun e he => (hclean qi e he).length.2
      _ ≤ RETRANSMIT_QUEUE_CAP * (MTU + HMAC_LEN) := Nat.mul_le_mul_right _ (h.queues qi)
  have hpending : (s.assembler.pending.values.map fun st => st.concat.length).sum ≤
      65536 * MESSAGE_MAX := by
    have hconcat : ∀ st ∈ s.assembler.pending.values, st.concat.length ≤ MESSAGE_MAX := by
      intro st hst
      obtain ⟨g, hg⟩ := mem_values.1 hst
      exact (hb.pending g st hg).concat
    calc _ ≤ s.assembler.pending.values.length * MESSAGE_MAX := sum_map_le hconcat
      _ ≤ 65536 * MESSAGE_MAX := Nat.mul_le_mul_right _ (length_values_le _)
  have hreorder : (s.reorder.values.map fun e => e.2.length).sum ≤ 65536 * MESSAGE_MAX := by
    have hpayload : ∀ e ∈ s.reorder.values, e.2.length ≤ MESSAGE_MAX := by
      intro e he
      obtain ⟨n, hn⟩ := mem_values.1 he
      exact hb.reorder n e hn
    calc _ ≤ s.reorder.values.length * MESSAGE_MAX := sum_map_le hpayload
      _ ≤ 65536 * MESSAGE_MAX := Nat.mul_le_mul_right _ (length_values_le _)
  have h0 := hqueue 0
  have h1 := hqueue 1
  unfold held HELD_MAX
  omega

end Session

/-! ## The table -/

section Table

variable (hmac4 : Hmac) (cfg : SessionTableConfig)

theorem capped_act {t : SessionTable cfg} (h : t.All Session.Capped) (x : TableAction) :
    (t.act hmac4 x).1.All Session.Capped :=
  (preserved_capped hmac4 t).act h (guarded_any x) fun _ _ _ => trivial

theorem bounded_act {t : SessionTable cfg} (h : t.All (Session.Bounded MESSAGE_MAX))
    (x : TableAction) :
    (t.act hmac4 x).1.All (Session.Bounded MESSAGE_MAX) :=
  (preserved_bounded t (by decide)).act h (guarded_message h x) fun _ _ _ => trivial

/-- **Bounded memory.** After any operations whatever, with any datagrams from anyone, the memories
of every session are within their capacities and it holds at most `HELD_MAX` bytes. -/
theorem holdings_limited (xs : List TableAction) :
    ∀ s ∈ ((new : SessionTable cfg).run hmac4 xs).1.sessions, s.Capped ∧ s.held ≤ HELD_MAX := by
  have hrun : ∀ t : SessionTable cfg, t.All Session.Capped → t.All (Session.Clean hmac4 cfg) →
      t.All (Session.Bounded MESSAGE_MAX) → ∀ s ∈ (t.run hmac4 xs).1.sessions, s.Capped ∧
      s.held ≤ HELD_MAX := by
    induction xs with
    | nil =>
      intro t hcap hclean hb s hs
      exact ⟨hcap.sessions hs, (hcap.sessions hs).held_le (hclean.sessions hs) (hb.sessions hs)⟩
    | cons x xs ih =>
      intro t hcap hclean hb
      exact ih (t.act hmac4 x).1 (capped_act hmac4 cfg hcap x) (clean_act hclean x)
        (bounded_act hmac4 cfg hb x)
  exact hrun _ all_new all_new all_new

/-- A message is sent on Ch3; one fragment of two comes, and a message of Ch2 before its turn. -/
def kept : List TableAction :=
  hello ++ [.packOutbound 1 3 7 [1, 2] 0,
    .datagram (.V4 0 0) (encode ⟨VERSION, FLAG_FRAGMENT, 1, 0, 0xFFFF, 0⟩
      [⟨CH_RELIABLE_ORDERED, 7, encodeFragment 0 0 0 2 [3, 4, 5]⟩] []).1 (Vector.replicate 8 0) 0 0,
    .datagram (.V4 0 0) (encode ⟨VERSION, 0, 1, 9, 0xFFFF, 0⟩ [⟨CH_RELIABLE_ORDERED, 7, [6]⟩] []).1
      (Vector.replicate 8 0) 0 0]

theorem holdings_limited_kept :
    ∃ s ∈ (plainRun kept).1.sessions, s.held = 26 ∧ s.Capped ∧ s.held ≤ HELD_MAX := by
  have hheld : (plainRun kept).1.sessions.map Session.held = [26] := by decide +kernel
  obtain ⟨s, hs, heq⟩ := List.mem_map.1 (hheld ▸ List.mem_singleton_self 26)
  exact ⟨s, hs, heq, holdings_limited noHmac plainConfig kept s hs⟩

end Table

end SoupEngine
