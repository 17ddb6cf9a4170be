import SoupEngine.Lib.TransitionSystem
import SoupEngine.Session.Operations
import SoupEngine.Session.Delivery
import SoupEngine.Session.Fragments
import SoupEngine.Session.Packet

/-!
# The size of messages

A chunk is what a datagram has room for behind its headers, and a message is put together from at
most `MAX_FRAGMENTS` of them. So nothing that the table reports carries more than `MESSAGE_MAX`
bytes (`bounded_run`); and it carries no more than a smaller bound as long as no fragment completes
a longer message (`bounded_tame`).
-/

namespace SoupEngine

open BoundedMemory TransitionSystem

attribute [local irreducible] remember

/-- Room for a chunk in a datagram. -/
def CHUNK_MAX : ℕ := MTU - HEADER_LEN - 4 - FRAG_HEADER_LEN

/-- The longest message that can be put together. -/
def MESSAGE_MAX : ℕ := MAX_FRAGMENTS.toNat * CHUNK_MAX

/-- What is pending came in datagrams. -/
structure FragState.Small (st : FragState) : Prop where
  total : st.total ≤ MAX_FRAGMENTS
  parts : ∀ c, some c ∈ st.parts → c.length ≤ CHUNK_MAX

/-- What is pending came in datagrams, and what waits is not longer than the bound. -/
structure Session.Bounded (B : ℕ) (s : Session) : Prop where
  pending : ∀ (g : U16) (st : FragState), s.assembler.pending[g]? = some st → st.Small
  reorder : ∀ (n : U16) (e : U16 × Bytes), s.reorder[n]? = some e → e.2.length ≤ B

/-- An event carries no more than the bound. -/
def SessionEvent.Bounded (B : ℕ) : SessionEvent → Prop
  | .Data _ _ _ payload => payload.length ≤ B
  | .Open _ _ token => token.length ≤ MTU
  | _ => True

/-! ## Reassembly -/

section Assembly

variable {st : FragState} {a : FragmentAssembler}

theorem FragState.small_fresh {total : U8} (h : total ≤ MAX_FRAGMENTS) (firstSeq : U16)
    (now : Instant) : (FragState.fresh total firstSeq now).Small where
  total := h
  parts c hc := by cases (List.mem_replicate.1 hc).2

theorem FragState.Small.store (h : st.Small) {chunk : Bytes} (hc : chunk.length ≤ CHUNK_MAX)
    (fragNo : U8) : (st.store fragNo chunk).Small where
  total := h.total
  parts c hmem := by
    have hmem' : some c ∈ if st.parts[fragNo.toNat]? = some none then
      st.parts.set fragNo.toNat (some chunk) else st.parts := hmem
    split_ifs at hmem'
    · rcases List.mem_or_eq_of_mem_set hmem' with hold | hnew
      · exact h.parts c hold
      · cases hnew
        exact hc
    · exact h.parts c hmem'

/-- A group has at most so many chunks. -/
theorem FragState.Small.concat (h : st.Small) : st.concat.length ≤ MESSAGE_MAX := by
  have hlen : ∀ ps : List (Option Bytes), (∀ c, some c ∈ ps → c.length ≤ CHUNK_MAX) →
      (ps.flatMap fun p => p.getD []).length ≤ ps.length * CHUNK_MAX := by
    intro ps hps
    induction ps with
    | nil => simp
    | cons p ps ih =>
      have hp : (p.getD []).length ≤ CHUNK_MAX := by
        cases p with
        | none => exact Nat.zero_le _
        | some c => exact hps c List.mem_cons_self
      have := ih fun c hc => hps c (List.mem_cons_of_mem _ hc)
      rw [List.flatMap_cons, List.length_append, List.length_cons, Nat.add_mul, Nat.one_mul]
      omega
  have htotal : st.total.toNat ≤ MAX_FRAGMENTS.toNat := h.total
  calc st.concat.length ≤ st.parts.length * CHUNK_MAX := hlen st.parts h.parts
    _ ≤ MESSAGE_MAX := by
      rw [st.length_parts]
      exact Nat.mul_le_mul_right _ htotal

theorem FragmentAssembler.small_entry
    (h : ∀ (g : U16) (st : FragState), a.pending[g]? = some st → st.Small) {total : U8}
    (ht : total ≤ MAX_FRAGMENTS) (groupId firstSeq : U16) (now : Instant) :
    (a.entry groupId firstSeq total now).Small := by
  unfold FragmentAssembler.entry
  cases hg : a.pending[groupId]? with
  | none => exact FragState.small_fresh ht firstSeq now
  | some st =>
    dsimp only
    split_ifs
    · exact FragState.small_fresh ht firstSeq now
    · exact ⟨(h groupId st hg).total, (h groupId st hg).parts⟩

/-- Pushing a chunk keeps what is pending small, and a completed message is small. -/
theorem FragmentAssembler.small_push
    (h : ∀ (g : U16) (st : FragState), a.pending[g]? = some st → st.Small) {total : U8}
    (ht : total ≤ MAX_FRAGMENTS) {chunk : Bytes} (hc : chunk.length ≤ CHUNK_MAX)
    (groupId firstSeq : U16) (fragNo : U8) (now : Instant) :
    (∀ (g : U16) (st : FragState),
        (a.push groupId firstSeq fragNo total chunk now).1.pending[g]? = some st → st.Small) ∧
      ∀ gseq full, (a.push groupId firstSeq fragNo total chunk now).2 = some (gseq, full) →
        full.length ≤ MESSAGE_MAX := by
  have hst := (FragmentAssembler.small_entry h ht groupId firstSeq now).store hc fragNo
  unfold FragmentAssembler.push
  dsimp only
  split_ifs
  · exact ⟨h, fun _ _ he => by cases he⟩
  · refine ⟨fun g st hg => ?_, fun gseq full he => ?_⟩
    · rw [Std.ExtTreeMap.getElem?_erase] at hg
      split_ifs at hg
      exact h g st hg
    · cases he
      exact hst.concat
  · refine ⟨fun g st hg => ?_, fun _ _ he => by cases he⟩
    rw [Std.ExtTreeMap.getElem?_insert] at hg
    split_ifs at hg
    · cases hg
      exact hst
    · exact h g st hg

end Assembly

/-- A fragment is shorter than the body it came in. -/
theorem length_chunk {body : Bytes} {fr : Fragment} (h : decodeFragment body = .ok fr) :
    fr.chunk.length + FRAG_HEADER_LEN = body.length := by
  unfold decodeFragment at h
  split_ifs at h with hlen
  dsimp only at h
  split_ifs at h
  cases h
  rw [List.length_drop]
  omega

/-! ## Delivery -/

section Delivery

variable {B : ℕ} {s : Session} {events : List SessionEvent}

theorem bounded_deliveryEvents {e : U16 × Bytes} (he : e.2.length ≤ B) (sessId : U64) :
    ∀ x ∈ deliveryEvents sessId e, x.Bounded B := by
  intro x hx
  unfold deliveryEvents at hx
  split_ifs at hx
  · cases List.mem_singleton.1 hx
    exact he
  · cases hx

theorem bounded_deliverCh2InOrder (hs : s.Bounded B) (hev : ∀ x ∈ events, x.Bounded B) :
    (deliverCh2InOrder s events).1.Bounded B ∧
      ∀ x ∈ (deliverCh2InOrder s events).2, x.Bounded B := by
  have hwait : Buffers (fun e => e.2.length ≤ B) s.reorder := hs.reorder
  obtain ⟨hreorder, hevents⟩ :=
    hwait.deliverCh2InOrder (fun e he => bounded_deliveryEvents he s.sessId) hev
  refine ⟨⟨?_, hreorder⟩, hevents⟩
  rw [(deliverCh2InOrder_same s events).2]
  exact hs.pending

/-- The message that a fragment completes. -/
def Session.completing (s : Session) (f : FrameRef) (now : Instant) : Option Bytes :=
  match decodeFragment f.body with
  | .error _ => none
  | .ok fr =>
    (s.assembler.push fr.groupId fr.firstSeq fr.fragNo fr.total fr.chunk now).2.map Prod.snd

/-- A fragment that is not one of a delivered number completes a message longer than the bound. -/
def Session.Overlong (B : ℕ) (s : Session) (header : DatagramHeader) (f : FrameRef)
    (now : Instant) :
    Prop :=
  f.ch = CH_RELIABLE_ORDERED ∧ header.flags &&& FLAG_FRAGMENT ≠ 0 ∧ header.seq ∉ s.deliveredSeqs ∧
    ∃ full, s.completing f now = some full ∧ B < full.length

theorem length_chunk_le {f : FrameRef} (hf : HEADER_LEN + 4 + f.body.length ≤ MTU) {fr : Fragment}
    (hdec : decodeFragment f.body = .ok fr) : fr.chunk.length ≤ CHUNK_MAX := by
  have hroom : CHUNK_MAX + FRAG_HEADER_LEN + 4 + HEADER_LEN = MTU := by decide
  have hchunk := length_chunk hdec
  omega

/-- No message is longer than `MESSAGE_MAX`. -/
theorem Session.Bounded.not_overlong (hs : s.Bounded B) (header : DatagramHeader) {f : FrameRef}
    (hf : HEADER_LEN + 4 + f.body.length ≤ MTU) (now : Instant) :
    ¬ s.Overlong MESSAGE_MAX header f now := by
  rintro ⟨-, -, -, full, hfull, hlong⟩
  unfold Session.completing at hfull
  cases hdec : decodeFragment f.body with
  | error e =>
    rw [hdec] at hfull
    cases hfull
  | ok fr =>
    rw [hdec] at hfull
    obtain ⟨⟨gseq, full'⟩, hpush, rfl⟩ := Option.map_eq_some_iff.1 hfull
    have hle := (FragmentAssembler.small_push hs.pending (decodeFragment_ok hdec).2.1
      (length_chunk_le hf hdec) fr.groupId fr.firstSeq fr.fragNo now).2 gseq full' hpush
    exact absurd hlong (Nat.not_lt.2 hle)

/-- A Ch2 frame that fits a datagram. -/
theorem bounded_handleCh2 (hs : s.Bounded B) (hev : ∀ x ∈ events, x.Bounded B)
    (header : DatagramHeader) {f : FrameRef} (hch : f.ch = CH_RELIABLE_ORDERED)
    (hf : HEADER_LEN + 4 + f.body.length ≤ MTU) (hB : MTU ≤ B) (now : Instant)
    (htame : ¬ s.Overlong B header f now) :
    (handleCh2 s header f now events).1.Bounded B ∧
      ∀ x ∈ (handleCh2 s header f now events).2, x.Bounded B := by
  unfold handleCh2
  split_ifs with hseq _ hflag
  · exact ⟨hs, hev⟩
  · exact ⟨hs, hev⟩
  · cases hdec : decodeFragment f.body with
    | error e => exact ⟨hs, hev⟩
    | ok fr =>
      have hpend := (FragmentAssembler.small_push hs.pending (decodeFragment_ok hdec).2.1
        (length_chunk_le hf hdec) fr.groupId fr.firstSeq fr.fragNo now).1
      dsimp only
      rcases hpush : s.assembler.push fr.groupId fr.firstSeq fr.fragNo fr.total fr.chunk now with
        ⟨assembler, _ | ⟨gseq, full⟩⟩
      · rw [hpush] at hpend
        exact ⟨⟨hpend, hs.reorder⟩, hev⟩
      · rw [hpush] at hpend
        have hcompleting : s.completing f now = some full := by
          unfold Session.completing
          rw [hdec]
          dsimp only
          rw [hpush]
          rfl
        have hfull : full.length ≤ B := by
          by_contra hlong
          exact htame ⟨hch, hflag, hseq, full, hcompleting, by omega⟩
        refine bounded_deliverCh2InOrder ⟨hpend, ?_⟩ hev
        exact Buffers.insertGroup hs.reorder gseq fr.total (Nat.zero_le B) hfull
  · refine bounded_deliverCh2InOrder ⟨hs.pending, ?_⟩ hev
    exact Buffers.insert hs.reorder header.seq (show f.body.length ≤ B by omega)

end Delivery

/-! ## Packets -/

section Packet

variable {B : ℕ} {rx : Rx} {header : DatagramHeader} {now : Instant}

/-- A session and events within the bound. -/
def Rx.Bounded (B : ℕ) (rx : Rx) : Prop := rx.session.Bounded B ∧ ∀ x ∈ rx.events, x.Bounded B

/-- In the frame loop no fragment completes a message longer than the bound. -/
def Rx.Tame (B : ℕ) (header : DatagramHeader) (now : Instant) : Rx → List FrameRef → Prop
  | _, [] => True
  | rx, f :: fs =>
    ¬ rx.session.Overlong B header f now ∧ Tame B header now (handleFrame header now rx f) fs

/-- No fragment of a packet for an active session completes a message longer than the bound. -/
def Tame (B : ℕ) : PacketGuard := fun s header frames now =>
  s.state = .Active → ∀ stats peer,
    Rx.Tame B header now (startRx { s with peer, lastRx := now } stats peer header now) frames

theorem Rx.Bounded.event (h : rx.Bounded B) (s : Session) {f : FrameRef}
    (hf : HEADER_LEN + 4 + f.body.length ≤ MTU) (hB : MTU ≤ B) :
    ∀ x ∈ rx.events ++ [frameEvent s f], x.Bounded B := by
  refine forall_mem_append h.2 fun x hx => ?_
  cases List.mem_singleton.1 hx
  show f.body.length ≤ B
  omega

theorem Rx.Bounded.dispatchFrame (h : rx.Bounded B) {f : FrameRef}
    (hf : HEADER_LEN + 4 + f.body.length ≤ MTU) (hB : MTU ≤ B)
    (htame : ¬ rx.session.Overlong B header f now) : (dispatchFrame header now rx f).Bounded B := by
  have hs := h.1
  have hevent := h.event rx.session hf hB
  unfold SoupEngine.dispatchFrame
  split_ifs with h0 h1 hnew h2
  · exact ⟨hs, hevent⟩
  · exact ⟨⟨hs.pending, hs.reorder⟩, hevent⟩
  · exact h
  · exact bounded_handleCh2 hs h.2 header h2 hf hB now htame
  · exact h
  · exact ⟨⟨hs.pending, hs.reorder⟩, hevent⟩
  · exact h

/-- Recording the number touches neither what is bounded nor what a fragment completes. -/
theorem Rx.Bounded.handleFrame (h : rx.Bounded B) {f : FrameRef}
    (hf : HEADER_LEN + 4 + f.body.length ≤ MTU) (hB : MTU ≤ B)
    (htame : ¬ rx.session.Overlong B header f now) : (handleFrame header now rx f).Bounded B := by
  unfold SoupEngine.handleFrame
  refine Rx.Bounded.dispatchFrame ?_ hf hB ?_
  · exact ⟨⟨h.1.pending, h.1.reorder⟩, h.2⟩
  · exact htame

theorem Rx.Bounded.foldl {frames : List FrameRef} (h : rx.Bounded B)
    (hf : ∀ f ∈ frames, HEADER_LEN + 4 + f.body.length ≤ MTU) (hB : MTU ≤ B)
    (htame : rx.Tame B header now frames) :
    (frames.foldl (SoupEngine.handleFrame header now) rx).Bounded B := by
  induction frames generalizing rx with
  | nil => exact h
  | cons f fs ih =>
    rw [List.forall_mem_cons] at hf
    exact ih (h.handleFrame hf.1 hB htame.1) hf.2 htame.2

theorem Rx.Bounded.answerAck (h : rx.Bounded B) (peer : SocketAddr) :
    (answerAck peer rx).Bounded B := by
  obtain ⟨hs, he⟩ := answerAck_fields peer rx
  unfold Rx.Bounded
  rw [hs, he]
  exact h

theorem Rx.Bounded.tame {frames : List FrameRef} (h : rx.Bounded MESSAGE_MAX)
    (hf : ∀ f ∈ frames, HEADER_LEN + 4 + f.body.length ≤ MTU) :
    rx.Tame MESSAGE_MAX header now frames := by
  induction frames generalizing rx with
  | nil => trivial
  | cons f fs ih =>
    rw [List.forall_mem_cons] at hf
    have hnot := h.1.not_overlong header hf.1 now
    exact ⟨hnot, ih (h.handleFrame hf.1 (by decide) hnot) hf.2⟩

theorem Session.Bounded.startRx {s : Session} (hs : s.Bounded B) (stats : Stats)
    (peer : SocketAddr) :
    (startRx { s with peer, lastRx := now } stats peer header now).Bounded B :=
  ⟨⟨hs.pending, hs.reorder⟩, fun _ hx => absurd hx List.not_mem_nil⟩

/-- Every packet is tame for the longest message. -/
theorem tame_message {s : Session} (hs : s.Bounded MESSAGE_MAX) {frames : List FrameRef}
    (hf : ∀ f ∈ frames, HEADER_LEN + 4 + f.body.length ≤ MTU) :
    Tame MESSAGE_MAX s header frames now :=
  fun _ stats peer => (hs.startRx stats peer).tame hf

theorem bounded_handlePacket {s : Session} (hs : s.Bounded B) (stats : Stats) (peer : SocketAddr)
    {frames : List FrameRef} (hf : ∀ f ∈ frames, HEADER_LEN + 4 + f.body.length ≤ MTU)
    (hB : MTU ≤ B) (clock : Instant) (htame : Tame B s header frames now) :
    (handlePacket s stats peer header frames now clock).Bounded B := by
  cases hst : s.state with
  | Grace since =>
    unfold handlePacket
    rw [hst]
    refine ⟨⟨hs.pending, hs.reorder⟩, fun x hx => ?_⟩
    cases List.mem_singleton.1 hx
    trivial
  | Active =>
    rw [handlePacket_active stats peer header now clock hst]
    exact ((hs.startRx _ peer).foldl hf hB (htame hst _ peer)).answerAck peer

end Packet

/-! ## The table -/

section Table

variable {B : ℕ} {hmac4 : Hmac} {cfg : SessionTableConfig} {t : SessionTable cfg}

theorem bounded_create (connId : U32) (sessId : U64) (peer : SocketAddr) (secret : U64)
    (token : Bytes) (now : Instant) :
    (Session.create connId sessId peer secret token now).Bounded B where
  pending g st h := by
    have h' : (∅ : Map U16 FragState)[g]? = some st := h
    rw [Std.ExtTreeMap.getElem?_empty] at h'
    cases h'
  reorder n e h := by
    have h' : (∅ : Map U16 (U16 × Bytes))[n]? = some e := h
    rw [Std.ExtTreeMap.getElem?_empty] at h'
    cases h'

theorem Session.Bounded.maintainReliable {s : Session} (h : s.Bounded B) (now : Instant) :
    (s.maintainReliable now).Bounded B where
  pending g st hg := by
    have hg' : (s.assembler.pending.filter fun _ st =>
        decide (now - st.lastUpdate < FRAGMENT_TIMEOUT))[g]? = some st := hg
    rw [Std.ExtTreeMap.getElem?_filter] at hg'
    exact h.pending g st (Option.eq_some_of_pfilter_eq_some hg')
  reorder := h.reorder

theorem preserved_bounded (t : SessionTable cfg) (hB : MTU ≤ B) :
    Preserved hmac4 t (Tame B) True (Session.Bounded B) where
  create connId peer secret token now _ := bounded_create connId _ peer secret token now
  packet s stats peer buf header frames now clock hs hdec htame :=
    (bounded_handlePacket hs stats peer (decode_length hdec) hB clock htame).1
  maintain s now hs := by
    unfold Session.maintain
    split_ifs
    · exact ⟨hs.pending, hs.reorder⟩
    · exact hs
  maintainReliable s now hs := hs.maintainReliable now
  pack s ch msgId payload now hs :=
    pack_keeps (fun s' _ _ _ hs' => ⟨hs'.pending, hs'.reorder⟩) s ch msgId payload now hs
  budget s _ _ hs := ⟨hs.pending, hs.reorder⟩

theorem reports_bounded (t : SessionTable cfg) (hB : MTU ≤ B) :
    Reports t (Tame B) True (Session.Bounded B) (SessionEvent.Bounded B) where
  opened peer buf header frames f hdec hf _ := by
    show (f.body.drop 8).length ≤ MTU
    have := decode_length hdec f hf
    rw [List.length_drop]
    omega
  packet s stats peer buf header frames now clock hs hdec htame :=
    (bounded_handlePacket hs stats peer (decode_length hdec) hB clock htame).2
  close _ _ := trivial

theorem bounded_nil : ∀ e ∈ ([] : List SessionEvent), e.Bounded B :=
  fun _ he => absurd he List.not_mem_nil

/-- Everything that can be done to the table is tame for the longest message. -/
theorem guarded_message (h : t.All (Session.Bounded MESSAGE_MAX)) (x : TableAction) :
    t.Guarded hmac4 (Tame MESSAGE_MAX) x := by
  cases x with
  | datagram peer buf random now clock =>
    intro header frames s hreads _ hget
    obtain ⟨data, hdec⟩ := SessionTable.decode_of_reads hreads
    exact tame_message (h.get hget) (decode_length hdec)
  | _ => trivial

/-- **Bounded messages.** Whatever is done to the table, it reports nothing longer than a
message. -/
theorem bounded_run (h : t.All (Session.Bounded MESSAGE_MAX)) (xs : List TableAction) :
    ∀ e ∈ (t.run hmac4 xs).2, e.Bounded MESSAGE_MAX := by
  induction xs generalizing t with
  | nil => exact bounded_nil
  | cons x xs ih =>
    have hx : t.Guarded hmac4 (Tame MESSAGE_MAX) x := guarded_message h x
    exact forall_mem_append ((reports_bounded t (by decide)).act h hx fun _ _ _ => trivial)
      (ih ((preserved_bounded t (by decide)).act h hx fun _ _ _ => trivial))

/-- As long as no fragment completes a message longer than the bound, nothing longer is reported. -/
theorem bounded_tame (hB : MTU ≤ B) (h : t.All (Session.Bounded B)) {xs : List TableAction}
    (hxs : Allowed (SessionTable.step hmac4) (SessionTable.Guarded hmac4 (Tame B)) t xs) :
    ∀ e ∈ (t.run hmac4 xs).2, e.Bounded B := by
  induction xs generalizing t with
  | nil => exact bounded_nil
  | cons x xs ih =>
    exact forall_mem_append ((reports_bounded t hB).act h hxs.1 fun _ _ _ => trivial)
      (ih ((preserved_bounded t hB).act h hxs.1 fun _ _ _ => trivial) hxs.2)

end Table

end SoupEngine
