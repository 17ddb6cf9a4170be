import SoupEngine.Session.Fragments
import SoupEngine.Session.Packing

/-!
# The round trip of a fragmented message

A long Ch2 message is packed into fragments, which reach a peer in any order and with any
duplication. `fragmented_round_trip`: the peer delivers the message once, with the last missing
fragment, and ignores every copy after that.
-/

namespace SoupEngine

open BoundedMemory Release

attribute [local irreducible] remember

/-- What a copy of one of `n` datagrams meets on its way. -/
structure Copy (n : ℕ) where
  index : Fin n
  peer : SocketAddr
  now : Instant
  clock : Instant

/-- A peer with the events it has produced. -/
structure Fed where
  session : Session
  stats : Stats
  events : List SessionEvent

/-- One copy reaches the peer. -/
def feedOne (cfg : SessionTableConfig) (out : List (Bytes × SocketAddr)) (p : Fed)
    (c : Copy out.length) : Fed :=
  let rx := p.session.receive cfg p.stats c.peer (out.get c.index).1 c.now c.clock
  ⟨rx.session, rx.stats, p.events ++ rx.events⟩

/-- Copies reach a session one after the other. -/
def feed (cfg : SessionTableConfig) (out : List (Bytes × SocketAddr)) (p : Session)
    (copies : List (Copy out.length)) : Fed :=
  copies.foldl (feedOne cfg out) ⟨p, Stats.new, []⟩

/-- A session that has delivered the numbers of `0, …, k - 1` and holds nothing else. -/
structure HasDelivered (k : ℕ) (p : Session) : Prop where
  next : p.ch2Next = some (seqNum k)
  max : p.deliveredMax = seqNum (k - 1)
  seqs : p.deliveredSeqs = ((List.range k).map seqNum).rtake DELIVERED_CAP
  reorder : p.reorder = ∅
  pending : p.assembler.pending = ∅

/-- The state of a session that delivery depends on. -/
structure DeliveryState where
  ch2 : Ch2View
  assembler : FragmentAssembler
  ch1Last : Option U16
  ch3Seen : List U16

def Session.deliveryState (s : Session) : DeliveryState :=
  ⟨s.ch2View, s.assembler, s.ch1Last, s.ch3Seen⟩

/-! ## The sender -/

section Sender

variable {hmac4 : Hmac} {cfg : SessionTableConfig} {s s' : Session} {msgId : U16} {payload : Bytes}
  {now : Instant} {out : List (Bytes × SocketAddr)} {k : ℕ}

/-- The frame of fragment `i`. -/
def fragmentFrame (groupId : U16) (k : ℕ) (msgId : U16) (payload : Bytes) (i : ℕ) : FrameRef :=
  ⟨CH_RELIABLE_ORDERED, msgId, fragmentBody groupId k payload i⟩

/-- A datagram that carries fragment `i` of the message. -/
structure Carries (cfg : SessionTableConfig) (groupId : U16) (k : ℕ) (msgId : U16) (payload : Bytes)
    (i : ℕ) (bytes : Bytes) (header : DatagramHeader) : Prop where
  seq : header.seq = seqNum (k + i)
  flag : header.flags &&& FLAG_FRAGMENT ≠ 0
  decode : decode (stripHmac cfg bytes) = .ok (header, [fragmentFrame groupId k msgId payload i])

/-- The datagrams of a packed long message carry its fragments. -/
theorem packed_fragments (hlong : FRAGMENT_THRESHOLD < payload.length)
    (hpack : s.packOutbound hmac4 cfg CH_RELIABLE_ORDERED msgId payload now = (s', .ok out))
    (hk : s.sendSeq = seqNum k) :
    fragmentCount payload ≤ RETRANSMIT_QUEUE_CAP ∧ msgId ≤ 0x0FFF ∧
      out.length = fragmentCount payload ∧
      ∀ i : Fin out.length, ∃ header,
        Carries cfg s.fragGroupId k msgId payload i (out.get i).1 header := by
  have hfrag : fragments CH_RELIABLE_ORDERED payload := ⟨rfl, hlong⟩
  have hN := two_le_fragmentCount hlong
  have hact : s.state = .Active := by
    by_contra hc
    unfold Session.packOutbound at hpack
    rw [Session.pack_inactive _ _ _ _ _ _ hc] at hpack
    exact absurd (Prod.mk.inj hpack).2 (by intro h; cases h)
  obtain ⟨m, s2, out2, hspec, -, ⟨hloop, hm⟩ | ⟨⟨e, hloop⟩, -, -⟩⟩ :=
    packLoop_spec hmac4 cfg (s.packKind CH_RELIABLE_ORDERED msgId payload) now
      (s.bodies CH_RELIABLE_ORDERED payload) (s := s.grouped CH_RELIABLE_ORDERED payload) hk []
  · unfold Session.packOutbound at hpack
    rw [Session.pack_active _ _ _ _ _ _ hact, hloop] at hpack
    have hout : out = out2.map fun bytes => (bytes, s.peer) :=
      (Except.ok.inj (Prod.mk.inj hpack).2).symm
    have hbodies : s.bodies CH_RELIABLE_ORDERED payload =
        split payload s.fragGroupId s.sendSeq FRAGMENT_THRESHOLD := if_pos hfrag
    have hlen : (s.bodies CH_RELIABLE_ORDERED payload).length = fragmentCount payload := by
      rw [hbodies, length_split]
      rfl
    have hmN : m = fragmentCount payload := hm.trans hlen
    have hout2 : out2.length = fragmentCount payload := by
      rw [hspec.out, List.nil_append, List.length_map, List.length_range, hmN]
    have hlenout : out.length = fragmentCount payload := by rw [hout, List.length_map, hout2]
    have hget : ∀ i < m, out[i]? = some (packed hmac4 cfg (s.grouped CH_RELIABLE_ORDERED payload)
        (s.packKind CH_RELIABLE_ORDERED msgId payload) k (s.bodies CH_RELIABLE_ORDERED payload) i,
        s.peer) := by
      intro i hi
      rw [hout, hspec.out, List.nil_append, List.map_map, List.getElem?_map, List.getElem?_range hi]
      rfl
    refine ⟨?_, ?_, hlenout, fun i => ?_⟩
    · have hroom := hspec.room 0 rfl (by omega)
      omega
    · obtain ⟨b, hb⟩ := hspec.encoded 0 (by omega)
      exact (valid_of_sealed hb).2
    · have hi : (i : ℕ) < m := by have := i.isLt; omega
      obtain ⟨b, hb⟩ := hspec.encoded i hi
      have hbytes : (out.get i).1 = packed hmac4 cfg (s.grouped CH_RELIABLE_ORDERED payload)
          (s.packKind CH_RELIABLE_ORDERED msgId payload) k
            (s.bodies CH_RELIABLE_ORDERED payload) i := by
        have := (List.getElem?_eq_some_iff.1 (hget i hi)).2
        rw [List.get_eq_getElem, this]
      have hbody : (s.bodies CH_RELIABLE_ORDERED payload).getD i [] =
          fragmentBody s.fragGroupId k payload i := by
        rw [hbodies, hk, getD_split s.fragGroupId k hlong (by omega)]
      refine ⟨mkHeader cfg s.connId FLAG_FRAGMENT s.computeAck (seqNum (k + i)), rfl, ?_, ?_⟩
      · show (FLAG_FRAGMENT ||| if cfg.enableHmac then FLAG_HMAC else 0) &&& FLAG_FRAGMENT ≠ 0
        split_ifs <;> decide
      · rw [hbytes]
        unfold packed
        rw [decode_sealed hb, hbody]
        unfold Session.packKind
        rw [if_pos hfrag]
        rfl
  · unfold Session.packOutbound at hpack
    rw [Session.pack_active _ _ _ _ _ _ hact, hloop] at hpack
    exact absurd (Prod.mk.inj hpack).2 (by intro h; cases h)

end Sender

/-! ## The receiver -/

section Receiver

/-- The fragments of a message that is not too long are read as such. -/
theorem decodeFragment_frame (g : U16) (k : ℕ) (msgId : U16) {payload : Bytes} {i : ℕ}
    (hi : i < fragmentCount payload) (hN : fragmentCount payload ≤ 64) :
    decodeFragment (fragmentFrame g k msgId payload i).body = .ok (fragmentOf g k payload i) := by
  rcases decodeFragment_fragmentBody g k (i := i) (by omega) with h | h
  · exact h.1
  · exact absurd ⟨by omega, by omega⟩ h.2

variable {p : Session} {g : U16} {k : ℕ} {payload : Bytes} {msgId : U16}

/-- The entries of the message whose first number is `k`. -/
def groupSlot (k : ℕ) (e : U16 × Bytes) (i : ℕ) : U16 × Bytes := if i = k then e else placeholder

theorem release_groupSlot (sessId : U64) {N : ℕ} (hN : 0 < N) (hid : msgId ≤ 0x0FFF) :
    release sessId (groupSlot k (msgId, payload)) k (k + N) =
      [.Data sessId CH_RELIABLE_ORDERED msgId payload] := by
  have hne : msgId ≠ 0xFFFF := fun he => absurd hid (by rw [he]; decide)
  have hs : ∀ j, k < j → j < k + N → groupSlot k (msgId, payload) j = placeholder :=
    fun j hj _ => if_neg (by omega)
  rw [release_group hN hs, groupSlot, if_pos rfl]
  exact if_pos (Or.inl hne)

/-- What a peer is that has received the fragments `G` of the message. -/
structure FedInv (p : Session) (g : U16) (k : ℕ) (msgId : U16) (payload : Bytes) (G : Finset ℕ)
    (r : Fed) : Prop where
  active : r.session.state = .Active
  sess : r.session.sessId = p.sessId
  /-- Fragments are missing: they are collected and nothing is delivered. -/
  collecting : G ≠ Finset.range (fragmentCount payload) →
    Window (groupSlot k (msgId, payload)) (Finset.range k) k r.session.ch2View ∧
      g ∉ r.session.assembler.completed ∧
      (∀ j, r.session.assembler.collected g (seqNum k) (BitVec.ofNat 8 (fragmentCount payload)) j =
        if j ∈ G then some (chunk FRAGMENT_THRESHOLD payload j) else none) ∧
      r.events = []
  /-- The message has been delivered. -/
  done : G = Finset.range (fragmentCount payload) →
    Window (groupSlot k (msgId, payload)) (Finset.range (k + fragmentCount payload))
        (k + fragmentCount payload) r.session.ch2View ∧
      r.events = [.Data p.sessId CH_RELIABLE_ORDERED msgId payload]

theorem fedInv_start (hp : HasDelivered k p) (ha : p.state = .Active)
    (hg : g ∉ p.assembler.completed) (hN : 2 ≤ fragmentCount payload) :
    FedInv p g k msgId payload ∅ ⟨p, Stats.new, []⟩ where
  active := ha
  sess := rfl
  collecting _ := by
    refine ⟨⟨hp.next, hp.max, hp.seqs, by rw [front_range], fun i hi => ?_, fun i hi _ => ?_⟩, hg,
      fun j => ?_, rfl⟩
    · rw [Finset.mem_range] at hi; omega
    · show p.reorder[seqNum i]? = _
      rw [hp.reorder, Std.ExtTreeMap.getElem?_empty, if_neg (by rw [Finset.mem_range]; omega)]
    · show p.assembler.collected _ _ _ j = _
      unfold FragmentAssembler.collected
      rw [hp.pending, Std.ExtTreeMap.getElem?_empty, if_neg (Finset.notMem_empty j)]
  done h := by
    have : (0 : ℕ) ∈ (∅ : Finset ℕ) := by rw [h, Finset.mem_range]; omega
    exact absurd this (Finset.notMem_empty 0)

section Step

variable {cfg : SessionTableConfig} {out : List (Bytes × SocketAddr)} {G : Finset ℕ} {r : Fed}
  {c : Copy out.length} {header : DatagramHeader}

/-- A copy is handed to `handleCh2` as a fragment. -/
theorem feedOne_eq (h : r.session.state = .Active)
    (hc : Carries cfg g k msgId payload c.index (out.get c.index).1 header) :
    (feedOne cfg out r c).session = (handleCh2 (r.session.prepared c.peer header c.now) header
        (fragmentFrame g k msgId payload c.index) c.now []).1 ∧
      (feedOne cfg out r c).events = r.events ++
        (handleCh2 (r.session.prepared c.peer header c.now) header
          (fragmentFrame g k msgId payload c.index) c.now []).2 := by
  obtain ⟨hsess, hev⟩ := Session.receive_ch2 r.stats c.peer c.now c.clock h hc.decode rfl
  refine ⟨hsess, ?_⟩
  rw [← hev]
  rfl

/-- After delivery a copy is remembered by its number and changes nothing. -/
theorem fedInv_step_done (h : FedInv p g k msgId payload (Finset.range (fragmentCount payload)) r)
    (hc : Carries cfg g k msgId payload c.index (out.get c.index).1 header)
    (hi : c.index < fragmentCount payload) (hN : fragmentCount payload ≤ 64) :
    FedInv p g k msgId payload (Finset.range (fragmentCount payload)) (feedOne cfg out r c) ∧
      (feedOne cfg out r c).session.deliveryState = r.session.deliveryState ∧
        (feedOne cfg out r c).events = r.events := by
  obtain ⟨hwin, hdone⟩ := h.done rfl
  obtain ⟨hfed, hevents⟩ := feedOne_eq h.active hc
  set s := r.session.prepared c.peer header c.now with hs
  have hrem : s.Remembers header.seq g := by
    left
    rw [hc.seq]
    exact (hwin.mem_seqs (by omega) (by omega)).2 (by omega)
  have hfr : decodeFragment (fragmentFrame g k msgId payload c.index).body =
      .ok (fragmentOf g k payload c.index) := decodeFragment_frame g k msgId hi hN
  have hsame : handleCh2 s header (fragmentFrame g k msgId payload c.index)
      c.now [] = (s, []) := by
    rcases handleCh2_fragment c.now [] hc.flag hfr with ⟨-, heq⟩ | ⟨hn, -⟩ | ⟨hn, -⟩
    · exact heq
    · exact absurd hrem hn
    · exact absurd hrem hn
  rw [hsame] at hfed hevents
  rw [List.append_nil] at hevents
  refine ⟨⟨?_, ?_, fun hne => absurd rfl hne, fun _ => ?_⟩, ?_, hevents⟩
  · rw [hfed]; exact h.active
  · rw [hfed]; exact h.sess
  · rw [hfed, hevents]; exact ⟨hwin, hdone⟩
  · rw [hfed]; rfl

variable (c header) in
/-- Before delivery the chunks held with a copy added are those of the fragments received. -/
theorem heldWith_collecting (h : FedInv p g k msgId payload G r)
    (hall : G ≠ Finset.range (fragmentCount payload)) {i : ℕ} (hi : i < 256) (j : ℕ) :
    (r.session.prepared c.peer header c.now).heldWith (fragmentOf g k payload i) j =
      if j ∈ insert i G then some (chunk FRAGMENT_THRESHOLD payload j) else none := by
  obtain ⟨-, -, hcoll, -⟩ := h.collecting hall
  have hni : (BitVec.ofNat 8 i).toNat = i := Nat.mod_eq_of_lt hi
  show FragmentAssembler.withChunk
    (r.session.assembler.collected g (seqNum k) (BitVec.ofNat 8 (fragmentCount payload)))
    (BitVec.ofNat 8 i).toNat (chunk FRAGMENT_THRESHOLD payload i) j = _
  unfold FragmentAssembler.withChunk
  rw [hni, hcoll]
  by_cases hji : j = i
  · rw [if_pos hji, hji, if_pos (Finset.mem_insert_self i G)]
    split_ifs <;> rfl
  · rw [if_neg hji]
    simp only [Finset.mem_insert, hji, false_or]

/-- Before delivery a copy adds its fragment; the last one delivers the message. -/
theorem fedInv_step_collecting (h : FedInv p g k msgId payload G r)
    (hall : G ≠ Finset.range (fragmentCount payload))
    (hG : G ⊆ Finset.range (fragmentCount payload))
    (hc : Carries cfg g k msgId payload c.index (out.get c.index).1 header)
    (hi : c.index < fragmentCount payload) (hN : fragmentCount payload ≤ 64)
    (hid : msgId ≤ 0x0FFF) :
    FedInv p g k msgId payload (insert c.index.val G) (feedOne cfg out r c) := by
  obtain ⟨hwin, hcompl, -, hnone⟩ := h.collecting hall
  obtain ⟨hfed, hevents⟩ := feedOne_eq h.active hc
  have hheld := heldWith_collecting c header h hall (i := c.index.val) (by omega)
  set N := fragmentCount payload with hNdef
  set i : ℕ := c.index.val with hidef
  set s := r.session.prepared c.peer header c.now with hs
  set fr := fragmentOf g k payload i with hfrdef
  have hfr : decodeFragment (fragmentFrame g k msgId payload i).body = .ok fr :=
    decodeFragment_frame g k msgId hi hN
  have htotal : fr.total.toNat = N := Nat.mod_eq_of_lt (by omega)
  have hrem : ¬ s.Remembers header.seq g := by
    rintro (hm | hm)
    · rw [hc.seq] at hm
      have := (hwin.mem_seqs (by omega) (by omega)).1 hm
      omega
    · exact hcompl hm
  have hcomplete : s.Completes fr ↔ insert i G = Finset.range N := by
    unfold Session.Completes
    rw [htotal]
    constructor
    · intro hall'
      refine Finset.Subset.antisymm (Finset.insert_subset (Finset.mem_range.2 hi) hG) fun j hj => ?_
      have := hall' j (Finset.mem_range.1 hj)
      rw [hheld] at this
      by_contra hjn
      rw [if_neg hjn] at this
      cases this
    · intro heq j hj
      rw [hheld, heq, if_pos (Finset.mem_range.2 hj)]
      rfl
  rcases handleCh2_fragment c.now [] hc.flag hfr with
    ⟨hr, -⟩ | ⟨-, hnc, st, hst, hsf, hparts, heq⟩ | ⟨-, hcomp, heq⟩
  · exact absurd hr hrem
  · rw [heq] at hfed hevents
    have hne : insert i G ≠ Finset.range N := fun he => hnc (hcomplete.2 he)
    refine ⟨?_, ?_, fun _ => ⟨?_, ?_, fun j => ?_, ?_⟩, fun he => absurd he hne⟩
    · rw [hfed]; exact h.active
    · rw [hfed]; exact h.sess
    · rw [hfed]; exact hwin
    · rw [hfed]; exact hcompl
    · rw [hfed, ← hheld, ← hparts]
      exact FragmentAssembler.collected_insert (a := s.assembler) rfl hst hsf j
    · rw [hevents, hnone]; rfl
  · have hinsert := hcomplete.1 hcomp
    have hpayload : ((List.range fr.total.toNat).flatMap fun j => (s.heldWith fr j).getD []) =
        payload := by
      rw [htotal, ← flatMap_chunk payload (show 0 < FRAGMENT_THRESHOLD by decide)]
      refine List.flatMap_congr fun j hj => ?_
      rw [hheld, hinsert, if_pos (Finset.mem_range.2 (List.mem_range.1 hj))]
      rfl
    rw [heq, hpayload] at hfed hevents
    have hgrp := hwin.insertGroup fr.total (e := (msgId, payload)) le_rfl
      (by rw [htotal]; omega) (by rw [htotal]; omega) (if_pos rfl) (fun j hj _ => if_neg (by omega))
    have hD : Finset.range k ∪ groupNums k fr.total.toNat = Finset.range (k + N) := by
      ext j
      rw [htotal, Finset.mem_union, mem_groupNums, Finset.mem_range, Finset.mem_range]
      omega
    rw [hD] at hgrp
    set s' : Session := { s with
      assembler := ⟨s.assembler.pending.erase g, remember COMPLETED_CAP s.assembler.completed g⟩
      reorder := insertGroup s.reorder (seqNum k) fr.total (msgId, payload) } with hs'
    have hdel := deliverCh2InOrder_window (s := s') [] hgrp
    have hfed' : (feedOne cfg out r c).session = _ :=
      hfed.trans (deliverCh2InOrder_same s' []).1
    rw [front_range] at hdel
    refine ⟨?_, ?_, fun hne => absurd hinsert hne, fun _ => ⟨?_, ?_⟩⟩
    · rw [hfed']; exact h.active
    · rw [hfed']; exact h.sess
    · rw [hfed]; exact hdel.1
    · show (feedOne cfg out r c).events = _
      have hdata : (deliverCh2InOrder s' []).2 =
          [.Data p.sessId CH_RELIABLE_ORDERED msgId payload] := by
        rw [hdel.2, release_groupSlot _ (by omega) hid, ← h.sess]
        rfl
      rw [hevents, hnone]
      exact hdata

end Step

/-- The fragments of which a list holds a copy. -/
def indices {n : ℕ} (copies : List (Copy n)) : Finset ℕ :=
  (copies.map fun c => c.index.val).toFinset

theorem mem_indices {n : ℕ} {copies : List (Copy n)} {j : ℕ} :
    j ∈ indices copies ↔ ∃ c ∈ copies, c.index.val = j := by
  unfold indices
  rw [List.mem_toFinset, List.mem_map]

/-- What a peer has become that was fed a list of copies. -/
theorem fedInv_foldl {cfg : SessionTableConfig} {out : List (Bytes × SocketAddr)}
    (hout : out.length = fragmentCount payload) (hN : fragmentCount payload ≤ 64)
    (hid : msgId ≤ 0x0FFF)
    (hc : ∀ i : Fin out.length, ∃ header, Carries cfg g k msgId payload i (out.get i).1 header)
    (copies : List (Copy out.length)) {G : Finset ℕ} {r : Fed}
    (h : FedInv p g k msgId payload G r) (hG : G ⊆ Finset.range (fragmentCount payload)) :
    FedInv p g k msgId payload (indices copies ∪ G) (copies.foldl (feedOne cfg out) r) := by
  induction copies generalizing G r with
  | nil =>
    rw [show indices ([] : List (Copy out.length)) ∪ G = G from Finset.empty_union G]
    exact h
  | cons c copies ih =>
    obtain ⟨header, hcar⟩ := hc c.index
    have hi : c.index.val < fragmentCount payload := hout ▸ c.index.isLt
    have hG' : insert c.index.val G ⊆ Finset.range (fragmentCount payload) :=
      Finset.insert_subset (Finset.mem_range.2 hi) hG
    have hstep : FedInv p g k msgId payload (insert c.index.val G) (feedOne cfg out r c) := by
      by_cases hall : G = Finset.range (fragmentCount payload)
      · subst hall
        rw [Finset.insert_eq_of_mem (Finset.mem_range.2 hi)]
        exact (fedInv_step_done h hcar hi hN).1
      · exact fedInv_step_collecting h hall hG hcar hi hN hid
    have hunion : indices (c :: copies) ∪ G = indices copies ∪ insert c.index.val G := by
      unfold indices
      rw [List.map_cons, List.toFinset_cons, Finset.insert_union, Finset.union_insert]
    rw [hunion]
    exact ih hstep hG'

end Receiver

/-- **Round trip of a fragmented message.** As long as a fragment is missing the peer produces
nothing. Once all have arrived it has produced the message, the next number has moved on by the
number of fragments, nothing is buffered, and any further copy leaves the delivery state alone. -/
theorem fragmented_round_trip {hmac4 : Hmac} {cfg : SessionTableConfig} {s s' : Session}
    {msgId : U16} {payload : Bytes} {now : Instant} {out : List (Bytes × SocketAddr)}
    (hlong : FRAGMENT_THRESHOLD < payload.length)
    (hpack : s.packOutbound hmac4 cfg CH_RELIABLE_ORDERED msgId payload now = (s', .ok out))
    {p : Session} {k : ℕ} (hk : s.sendSeq = seqNum k) (hp : HasDelivered k p)
    (ha : p.state = .Active) (hg : s.fragGroupId ∉ p.assembler.completed)
    (copies : List (Copy out.length)) :
    (¬ (∀ i, ∃ c ∈ copies, c.index = i) → (feed cfg out p copies).events = []) ∧
      ((∀ i, ∃ c ∈ copies, c.index = i) →
        (feed cfg out p copies).events = [.Data p.sessId CH_RELIABLE_ORDERED msgId payload] ∧
        (feed cfg out p copies).session.ch2Next = some (s.sendSeq + BitVec.ofNat 16 out.length) ∧
        (feed cfg out p copies).session.reorder = ∅ ∧
        ∀ c, (feed cfg out p (copies ++ [c])).session.deliveryState =
            (feed cfg out p copies).session.deliveryState ∧
          (feed cfg out p (copies ++ [c])).events = (feed cfg out p copies).events) := by
  obtain ⟨hN, hid, hlen, hcar⟩ := packed_fragments hlong hpack hk
  have hinv : FedInv p s.fragGroupId k msgId payload (indices copies ∪ ∅) (feed cfg out p copies) :=
    fedInv_foldl hlen hN hid hcar copies (fedInv_start hp ha hg (two_le_fragmentCount hlong))
      (Finset.empty_subset _)
  rw [Finset.union_empty] at hinv
  have hall : (∀ i, ∃ c ∈ copies, c.index = i) ↔
      indices copies = Finset.range (fragmentCount payload) := by
    constructor
    · intro h
      ext j
      rw [mem_indices, Finset.mem_range]
      constructor
      · rintro ⟨c, -, rfl⟩
        exact hlen ▸ c.index.isLt
      · intro hj
        obtain ⟨c, hc, hcj⟩ := h ⟨j, hlen ▸ hj⟩
        exact ⟨c, hc, congrArg Fin.val hcj⟩
    · intro h i
      have hi : i.val ∈ indices copies := by
        rw [h, Finset.mem_range]
        exact hlen ▸ i.isLt
      obtain ⟨c, hc, hci⟩ := mem_indices.1 hi
      exact ⟨c, hc, Fin.ext hci⟩
  refine ⟨fun h => ?_, fun h => ?_⟩
  · exact (hinv.collecting fun heq => h (hall.2 heq)).2.2.2
  · have heq := hall.1 h
    obtain ⟨hwin, hev⟩ := hinv.done heq
    refine ⟨hev, ?_, hwin.reorder_eq_empty, fun c => ?_⟩
    · rw [hk, hlen]
      exact hwin.next.trans (congrArg some (seqNum_add k _).symm)
    · obtain ⟨header, hcc⟩ := hcar c.index
      rw [heq] at hinv
      have hi : c.index.val < fragmentCount payload := hlen ▸ c.index.isLt
      have hfeed : feed cfg out p (copies ++ [c]) = feedOne cfg out (feed cfg out p copies) c := by
        unfold feed
        rw [List.foldl_append]
        rfl
      rw [hfeed]
      exact (fedInv_step_done hinv hcc hi hN).2

/-- A message of two fragments reaches a fresh peer. -/
theorem fragmented_round_trip_two :
    ∃ s' out, (Session.create 1 1 (.V4 0 0) 0 [] 0).packOutbound (fun _ _ => Vector.replicate 4 0)
        SessionTableConfig.default CH_RELIABLE_ORDERED 7 (List.replicate 1101 1) 0 = (s', .ok out) ∧
      ∀ copies : List (Copy out.length), (∀ i, ∃ c ∈ copies, c.index = i) →
        (feed SessionTableConfig.default out (Session.create 1 1 (.V4 0 0) 0 [] 0) copies).events =
          [.Data 1 CH_RELIABLE_ORDERED 7 (List.replicate 1101 1)] := by
  have hok : ((Session.create 1 1 (.V4 0 0) 0 [] 0).packOutbound (fun _ _ => Vector.replicate 4 0)
      SessionTableConfig.default CH_RELIABLE_ORDERED 7 (List.replicate 1101 1) 0).2.toBool =
        true := by
    decide +kernel
  have hlong : FRAGMENT_THRESHOLD < (List.replicate 1101 (1 : U8)).length := by
    rw [List.length_replicate]
    decide
  generalize hpack : (Session.create 1 1 (.V4 0 0) 0 [] 0).packOutbound
    (fun _ _ => Vector.replicate 4 0) SessionTableConfig.default CH_RELIABLE_ORDERED 7
    (List.replicate 1101 1) 0 = x at hok ⊢
  obtain ⟨s', e | out⟩ := x
  · cases hok
  · exact ⟨s', out, rfl, fun copies hall => ((fragmented_round_trip hlong hpack (k := 0) rfl
      ⟨rfl, rfl, rfl, rfl, rfl⟩ rfl (by decide) copies).2 hall).1⟩

end SoupEngine
