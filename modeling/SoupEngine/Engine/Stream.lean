import SoupEngine.Engine.Uplink
import SoupEngine.Sdk.ReadLoop
import SoupEngine.Session.MessageSize
import SoupEngine.Session.RoundTrip

/-!
# From the session table to the read loop

The events of the session table become frames, the frames a stream, and the read loop of the SDK
splits the stream again. Every frame can be written; but a message put together from fragments may
be longer than a buffer of the read pool, and then the stream is not read back
(`uplink_read_back_iff`).
-/

namespace SoupEngine

open TransitionSystem

/-- The longest payload of a Data frame that fits a buffer of the read pool. -/
def PAYLOAD_MAX : ℕ := Sdk.maxFrameLen - 11

/-- The frame of the event fits a buffer of the read pool. -/
def SessionEvent.Fits : SessionEvent → Prop
  | .Data _ _ _ payload => payload.length ≤ PAYLOAD_MAX
  | _ => True

theorem length_encode_addr (a : SocketAddr) : (Frame.encode_addr a).length = Frame.ADDR_LEN := by
  cases a with
  | V4 ip port => simp [Frame.encode_addr, Frame.ADDR_LEN]
  | V6 ip port flowinfo scope => simp [Frame.encode_addr, Frame.ADDR_LEN]

/-- The length of a Data frame, and a bound for the others. -/
theorem length_upFrame {B : ℕ} {e : SessionEvent} (h : e.Bounded B) :
    (∃ sessId ch msgId payload, e = .Data sessId ch msgId payload ∧
        (upFrame e).body.length = 11 + payload.length ∧ payload.length ≤ B) ∨
      (upFrame e).body.length ≤ 28 + MTU ∧ e.Fits := by
  cases e with
  | Data sessId ch msgId payload =>
    refine Or.inl ⟨sessId, ch, msgId, payload, rfl, ?_, h⟩
    simp [upFrame, Frame.data_up]
    omega
  | Open sessId peer token =>
    have htoken : token.length ≤ MTU := h
    refine Or.inr ⟨?_, trivial⟩
    simp [upFrame, Frame.session_open, length_encode_addr, Frame.ADDR_LEN]
    omega
  | Close sessId reason =>
    refine Or.inr ⟨?_, trivial⟩
    simp [upFrame, Frame.session_close]
    omega
  | Resume sessId gapMs =>
    refine Or.inr ⟨?_, trivial⟩
    simp [upFrame, Frame.session_resume]
    omega

/-- Every frame can be written. -/
theorem upFrame_writable {e : SessionEvent} (h : e.Bounded MESSAGE_MAX) :
    (upFrame e).body.length ≤ MAX_FRAME_BODY := by
  have hmax : 11 + MESSAGE_MAX ≤ MAX_FRAME_BODY := by decide
  have hmtu : 28 + MTU ≤ MAX_FRAME_BODY := by decide
  rcases length_upFrame h with ⟨_, _, _, payload, -, hlen, hle⟩ | ⟨hlen, -⟩
  · omega
  · omega

theorem upFrame_fits_iff {e : SessionEvent} (h : e.Bounded MESSAGE_MAX) :
    (upFrame e).body.length ≤ Sdk.maxFrameLen ↔ e.Fits := by
  have hmax : PAYLOAD_MAX + 11 = Sdk.maxFrameLen := by decide
  have hmtu : 28 + MTU ≤ Sdk.maxFrameLen := by decide
  rcases length_upFrame h with ⟨_, _, _, payload, rfl, hlen, -⟩ | ⟨hlen, hfits⟩
  · show _ ↔ payload.length ≤ PAYLOAD_MAX
    omega
  · exact iff_of_true (by omega) hfits

theorem fits_of_bounded {e : SessionEvent} (h : e.Bounded PAYLOAD_MAX) : e.Fits := by
  cases e with
  | Data sessId ch msgId payload => exact h
  | _ => trivial

/-! ## The stream -/

section Stream

variable (hmac4 : Hmac) (cfg : SessionTableConfig)

/-- What a list of operations on a new table reports. -/
def reported (xs : List TableAction) : List SessionEvent :=
  ((SessionTable.new : SessionTable cfg).run hmac4 xs).2

/-- Whatever is done to the session table, its events can be written to the stream. However the
stream is cut, it is read back exactly when every reported message fits a buffer of the read pool;
and that is so if no fragment completes a message of more than `PAYLOAD_MAX` bytes. -/
theorem uplink_read_back_iff (xs : List TableAction) :
    ∃ stream, ((reported hmac4 cfg xs).map upFrame).foldlM Frame.write_frame [] = .ok stream ∧
      ∀ chunks : List Bytes, chunks.flatten = stream →
        ((((Sdk.readLoop chunks).items = ((reported hmac4 cfg xs).map upFrame).map Sdk.received ∧
            (Sdk.readLoop chunks).resets = 0) ↔ ∀ e ∈ reported hmac4 cfg xs, e.Fits) ∧
          (Allowed (SessionTable.step hmac4) (SessionTable.Guarded hmac4 (Tame PAYLOAD_MAX))
              (SessionTable.new : SessionTable cfg) xs →
            (Sdk.readLoop chunks).items = ((reported hmac4 cfg xs).map upFrame).map Sdk.received ∧
              (Sdk.readLoop chunks).resets = 0)) := by
  have hbound : ∀ e ∈ reported hmac4 cfg xs, e.Bounded MESSAGE_MAX :=
    bounded_run SessionTable.all_new xs
  have hwrite : ∀ f ∈ (reported hmac4 cfg xs).map upFrame, f.body.length ≤ MAX_FRAME_BODY := by
    rw [List.forall_mem_map]
    exact fun e he => upFrame_writable (hbound e he)
  refine ⟨_, Frame.foldlM_write_frame hwrite [], fun chunks hc => ?_⟩
  have hfits : (∀ f ∈ (reported hmac4 cfg xs).map upFrame, f.body.length ≤ Sdk.maxFrameLen) ↔
      ∀ e ∈ reported hmac4 cfg xs, e.Fits := by
    rw [List.forall_mem_map]
    exact forall₂_congr fun e he => upFrame_fits_iff (hbound e he)
  have hiff := (Sdk.readLoop_iff hwrite hc).trans hfits
  refine ⟨hiff, fun htame => hiff.2 fun e he => fits_of_bounded ?_⟩
  exact bounded_tame (by decide) SessionTable.all_new htame e he

end Stream

/-! ## A message that is too long -/

section LongMessage

variable {cfg : SessionTableConfig} {out : List (Bytes × SocketAddr)} {t : SessionTable cfg}
  {connId : U32} {r : Fed}

/-- The table holds what a session has become that was fed. -/
structure Holds (t : SessionTable cfg) (connId : U32) (r : Fed) : Prop where
  get : t.get connId = some r.session
  stats : t.stats = r.stats

/-- A datagram that reaches the session. -/
def Copy.action (c : Copy out.length) : TableAction :=
  .datagram c.peer (out.get c.index).1 (Vector.replicate 8 0) c.now c.clock

/-- Without HMACs, handling a datagram of the session is feeding it. -/
theorem Holds.feedOne (h : Holds t connId r) (hmac4 : Hmac) (hcfg : cfg.enableHmac = false)
    {c : Copy out.length} {header : DatagramHeader} {frames : List FrameRef}
    (hdec : decode (out.get c.index).1 = .ok (header, frames))
    (hflag : header.flags &&& FLAG_HANDSHAKE = 0) (hconn : header.connId = connId)
    (hne : connId ≠ 0) :
    Holds (t.act hmac4 c.action).1 connId (feedOne cfg out r c) ∧
      (feedOne cfg out r c).events = r.events ++ (t.act hmac4 c.action).2 := by
  subst hconn
  have hplain : t.act hmac4 c.action =
      ((t.handlePlain c.peer (out.get c.index).1 (Vector.replicate 8 0) c.now c.clock).table,
        (t.handlePlain c.peer (out.get c.index).1
          (Vector.replicate 8 0) c.now c.clock).events) := by
    unfold SessionTable.act Copy.action
    dsimp only
    unfold SessionTable.handleDatagram SessionTable.verifyHmac
    rw [if_pos (Or.inl (by rw [hcfg]; exact Bool.noConfusion))]
  have hget : SessionTable.get { t with stats := { t.stats with pktIn := t.stats.pktIn + 1 } }
      header.connId = some r.session := h.get
  have hreceive : r.session.receive cfg r.stats c.peer (out.get c.index).1 c.now c.clock =
      handlePacket r.session { t.stats with pktIn := t.stats.pktIn + 1 } c.peer header frames c.now
        c.clock := by
    unfold Session.receive stripHmac
    rw [if_neg (by rw [hcfg]; exact Bool.noConfusion), hdec, ← h.stats]
  rw [hplain]
  unfold SessionTable.handlePlain SoupEngine.feedOne
  rw [hdec, hreceive]
  dsimp only
  rw [if_neg (not_not.2 hflag), if_neg hne]
  unfold SessionTable.handleSessionPacket
  rw [hget]
  exact ⟨⟨SessionTable.get_set _ _ _, rfl⟩, rfl⟩

theorem Holds.feed (hmac4 : Hmac) (hcfg : cfg.enableHmac = false) (hne : connId ≠ 0)
    (hout : ∀ i : Fin out.length, ∃ header frames, decode (out.get i).1 = .ok (header, frames) ∧
      header.flags &&& FLAG_HANDSHAKE = 0 ∧ header.connId = connId)
    (copies : List (Copy out.length)) (h : Holds t connId r) :
    (copies.foldl (SoupEngine.feedOne cfg out) r).events =
      r.events ++ (t.run hmac4 (copies.map Copy.action)).2 := by
  induction copies generalizing t r with
  | nil => exact (List.append_nil _).symm
  | cons c cs ih =>
    obtain ⟨header, frames, hdec, hflag, hconn⟩ := hout c.index
    obtain ⟨hnext, hev⟩ := h.feedOne hmac4 hcfg hdec hflag hconn hne
    rw [List.foldl_cons, ih hnext, hev, List.append_assoc]
    rfl

/-- The table after the handshake. -/
def greeted : SessionTable plainConfig := (SessionTable.new.run noHmac hello).1

theorem reported_hello : reported noHmac plainConfig hello = [.Open 1 (.V4 0 0) []] := by
  decide +kernel

/-- A datagram of the client that the handshake lets in. -/
def fromClient (flags : U8) (seq : U16) (frames : List FrameRef) : TableAction :=
  .datagram (.V4 0 0) (encode ⟨VERSION, flags, 1, seq, 0, 0⟩ frames []).1 (Vector.replicate 8 0) 0 0

/-- Two frames in one datagram, then a message in two fragments of which the second comes first. -/
def chatter : List TableAction :=
  [fromClient 0 0 [⟨CH_RELIABLE_ORDERED, 7, [1, 2, 3]⟩, ⟨CH_UNRELIABLE_UNORDERED, 0, [9]⟩],
    fromClient FLAG_FRAGMENT 2 [⟨CH_RELIABLE_ORDERED, 8, encodeFragment 0 1 1 2 [5, 6]⟩],
    fromClient FLAG_FRAGMENT 1 [⟨CH_RELIABLE_ORDERED, 8, encodeFragment 0 1 0 2 [4]⟩], .shutdownAll]

/-- What the client has said. -/
def chatterEvents : List SessionEvent :=
  [.Open 1 (.V4 0 0) [], .Data 1 CH_RELIABLE_ORDERED 7 [1, 2, 3],
    .Data 1 CH_UNRELIABLE_UNORDERED 0 [9], .Data 1 CH_RELIABLE_ORDERED 8 [4, 5, 6],
    .Close 1 CLOSE_GRACE_TIMEOUT]

/-- The stream of the five frames is read back however it is cut into three. -/
theorem uplink_read_back_chatter :
    ∃ stream, (chatterEvents.map upFrame).foldlM Frame.write_frame [] = .ok stream ∧
      ∀ m n : ℕ,
        let chunks := [stream.take m, (stream.drop m).take n, (stream.drop m).drop n]
        (Sdk.readLoop chunks).items = (chatterEvents.map upFrame).map Sdk.received ∧
          (Sdk.readLoop chunks).resets = 0 := by
  obtain ⟨stream, hwrite, hread⟩ := uplink_read_back_iff noHmac plainConfig (hello ++ chatter)
  have hreported : reported noHmac plainConfig (hello ++ chatter) = chatterEvents := by
    decide +kernel
  rw [hreported] at hwrite hread
  have hfits : ∀ e ∈ chatterEvents, e.Fits := by
    unfold chatterEvents SessionEvent.Fits
    simp [PAYLOAD_MAX, Sdk.maxFrameLen]
  refine ⟨stream, hwrite, fun m n => (hread _ ?_).1.2 hfits⟩
  rw [List.flatten_cons, List.flatten_cons, List.flatten_singleton, List.take_append_drop,
    List.take_append_drop]

/-- The session of the client is new. -/
theorem greeted_get : ∃ s, greeted.get 1 = some s ∧ HasDelivered 0 s ∧ s.state = .Active ∧
    s.sessId = 1 ∧ s.assembler.completed = [] := by
  have h : (greeted.get 1).any (fun s => decide (s.ch2Next = some 0 ∧ s.deliveredMax = 0 ∧
      s.deliveredSeqs = [] ∧ s.reorder.size = 0 ∧ s.assembler.pending.size = 0 ∧ s.state = .Active ∧
      s.sessId = 1 ∧ s.assembler.completed = [])) = true := by
    decide +kernel
  obtain ⟨s, hs, he⟩ := (Option.any_eq_true _ _).1 h
  obtain ⟨hnext, hmax, hseqs, hreorder, hpending, hstate, hid, hcompleted⟩ := of_decide_eq_true he
  refine ⟨s, hs, ⟨hnext, hmax, hseqs, ?_, ?_⟩, hstate, hid, hcompleted⟩
  · exact Std.ExtTreeMap.eq_empty_iff_size_eq_zero.2 hreorder
  · exact Std.ExtTreeMap.eq_empty_iff_size_eq_zero.2 hpending

/-- The datagram of fragment `i` of the first message of a client. -/
def fragmentHeader (i : ℕ) : DatagramHeader := ⟨VERSION, FLAG_FRAGMENT, 1, seqNum i, 0, 0⟩

def fragmentDatagrams (payload : Bytes) : List (Bytes × SocketAddr) :=
  (List.range (fragmentCount payload)).map fun i =>
    ((encode (fragmentHeader i) [fragmentFrame 0 0 1 payload i] []).1, .V4 0 0)

theorem decode_fragmentDatagram (payload : Bytes) (i : ℕ) :
    decode (encode (fragmentHeader i) [fragmentFrame 0 0 1 payload i] []).1 =
      .ok (fragmentHeader i, [fragmentFrame 0 0 1 payload i]) := by
  have hchunk : (chunk FRAGMENT_THRESHOLD payload i).length ≤ FRAGMENT_THRESHOLD := by
    unfold chunk
    rw [List.length_take]
    exact min_le_left _ _
  have hlen : HEADER_LEN + ([fragmentFrame 0 0 1 payload i].flatMap frameBytes).length ≤ MTU := by
    have hroom : HEADER_LEN + (4 + (FRAG_HEADER_LEN + FRAGMENT_THRESHOLD)) ≤ MTU := by decide
    rw [List.flatMap_singleton, length_frameBytes]
    unfold fragmentFrame fragmentBody
    rw [length_encodeFragment]
    omega
  obtain ⟨n, hn⟩ := encode_ok (h := fragmentHeader i) [] rfl (fun f hf => by
    rw [List.mem_singleton.1 hf]
    exact ⟨show CH_RELIABLE_ORDERED ≤ 3 by decide, show (1 : U16) ≤ 0x0FFF by decide⟩) hlen
  rw [hn]
  exact decode_encode hn

/-- Copies of all datagrams, in order. -/
def allCopies (n : ℕ) : List (Copy n) := (List.finRange n).map fun i => ⟨i, .V4 0 0, 0, 0⟩

/-- The handshake and the fragments of a message. -/
def sendLong (payload : Bytes) : List TableAction :=
  hello ++ (allCopies (fragmentDatagrams payload).length).map Copy.action

/-- A message of 2 to 64 fragments is reported whole. -/
theorem reported_sendLong {payload : Bytes} (hlong : FRAGMENT_THRESHOLD < payload.length)
    (hN : fragmentCount payload ≤ 64) :
    reported noHmac plainConfig (sendLong payload) =
      [.Open 1 (.V4 0 0) [], .Data 1 CH_RELIABLE_ORDERED 1 payload] := by
  obtain ⟨s, hget, hdel, hact, hid, hcompleted⟩ := greeted_get
  set out := fragmentDatagrams payload with hout
  have hlen : out.length = fragmentCount payload := by
    rw [hout, fragmentDatagrams, List.length_map, List.length_range]
  have hbytes (i : Fin out.length) :
      (out.get i).1 = (encode (fragmentHeader i) [fragmentFrame 0 0 1 payload i] []).1 := by
    simp [hout, fragmentDatagrams]
  have hcarries (i : Fin out.length) : ∃ header,
      Carries plainConfig 0 0 1 payload i (out.get i).1 header := by
    refine ⟨fragmentHeader i, by rw [Nat.zero_add]; rfl,
      show FLAG_FRAGMENT &&& FLAG_FRAGMENT ≠ 0 by decide, ?_⟩
    rw [hbytes]
    exact decode_fragmentDatagram payload i
  have hnew := @fedInv_start s 0 0 payload 1 hdel hact (hcompleted ▸ List.not_mem_nil)
    (two_le_fragmentCount hlong)
  have hstart : FedInv s 0 0 1 payload ∅ ⟨s, greeted.stats, []⟩ :=
    ⟨hnew.active, hnew.sess, hnew.collecting, hnew.done⟩
  have hfed := fedInv_foldl hlen hN (by decide) hcarries (allCopies out.length) hstart
    (Finset.empty_subset _)
  have hall : indices (allCopies out.length) ∪ ∅ = Finset.range (fragmentCount payload) := by
    ext j
    rw [Finset.union_empty, mem_indices, Finset.mem_range, ← hlen]
    constructor
    · rintro ⟨c, -, rfl⟩
      exact c.index.isLt
    · intro hj
      exact ⟨⟨⟨j, hj⟩, .V4 0 0, 0, 0⟩, List.mem_map.2 ⟨⟨j, hj⟩, List.mem_finRange _, rfl⟩, rfl⟩
  have hholds : Holds greeted 1 ⟨s, greeted.stats, []⟩ := ⟨hget, rfl⟩
  have hrun := hholds.feed noHmac rfl (by decide) (fun i => ⟨fragmentHeader i, _, by
    rw [hbytes]
    exact decode_fragmentDatagram payload i, show FLAG_FRAGMENT &&& FLAG_HANDSHAKE = 0 by decide,
    rfl⟩) (allCopies out.length)
  rw [(hfed.done hall).2, List.nil_append, hid] at hrun
  unfold reported sendLong
  rw [SessionTable.run_append, ← hout]
  have hhello := reported_hello
  unfold reported at hhello
  unfold greeted at hrun
  rw [hhello, ← hrun]
  rfl

/-- A message of 2 to 64 fragments that does not fit a buffer of the read pool is not read back. -/
theorem sendLong_not_read_back {payload : Bytes} (hlong : PAYLOAD_MAX < payload.length)
    (hN : fragmentCount payload ≤ 64) :
    ∃ stream, ((reported noHmac plainConfig (sendLong payload)).map upFrame).foldlM
        Frame.write_frame [] = .ok stream ∧
      ¬ ((Sdk.readLoop [stream]).items =
          ((reported noHmac plainConfig (sendLong payload)).map upFrame).map Sdk.received ∧
        (Sdk.readLoop [stream]).resets = 0) := by
  have hthreshold : FRAGMENT_THRESHOLD ≤ PAYLOAD_MAX := by decide
  have hrep := reported_sendLong (hthreshold.trans_lt hlong) hN
  have hbound : ∀ e ∈ reported noHmac plainConfig (sendLong payload), e.Bounded MESSAGE_MAX :=
    bounded_run SessionTable.all_new _
  have hwrite : ∀ f ∈ (reported noHmac plainConfig (sendLong payload)).map upFrame,
      f.body.length ≤ MAX_FRAME_BODY := by
    rw [List.forall_mem_map]
    exact fun e he => upFrame_writable (hbound e he)
  refine ⟨_, Frame.foldlM_write_frame hwrite [], fun hread => ?_⟩
  have hfits := (Sdk.readLoop_iff hwrite List.flatten_singleton).1 hread
  rw [List.forall_mem_map] at hfits
  rw [hrep] at hbound hfits
  have hmem : SessionEvent.Data 1 CH_RELIABLE_ORDERED 1 payload ∈
      [SessionEvent.Open 1 (.V4 0 0) [], .Data 1 CH_RELIABLE_ORDERED 1 payload] :=
    List.mem_cons_of_mem _ List.mem_cons_self
  have hle : payload.length ≤ PAYLOAD_MAX := (upFrame_fits_iff (hbound _ hmem)).1 (hfits _ hmem)
  omega

/-- The shortest message that does not fit a buffer of the read pool. -/
def longMessage : Bytes := List.replicate (PAYLOAD_MAX + 1) 0

theorem length_longMessage : longMessage.length = PAYLOAD_MAX + 1 := by
  unfold longMessage
  exact List.length_replicate

/-- A message of 60 fragments is written to the stream and not read back. -/
theorem uplink_not_read_back :
    ∃ stream, ((reported noHmac plainConfig (sendLong longMessage)).map upFrame).foldlM
        Frame.write_frame [] = .ok stream ∧
      ¬ ((Sdk.readLoop [stream]).items =
          ((reported noHmac plainConfig (sendLong longMessage)).map upFrame).map Sdk.received ∧
        (Sdk.readLoop [stream]).resets = 0) := by
  refine sendLong_not_read_back ?_ ?_
  · rw [length_longMessage]
    exact Nat.lt_succ_self _
  · unfold fragmentCount
    rw [length_longMessage]
    decide

end LongMessage

end SoupEngine
