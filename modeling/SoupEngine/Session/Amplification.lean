import SoupEngine.Session.Isolation

/-!
# No amplification

A handshake datagram is answered by at most one datagram, which goes to its sender and is not
longer. For a challenge the table compares the lengths (`buf_len_hint`); a confirmation answers a
datagram that carries the challenge, and this is long enough.
-/

namespace SoupEngine

variable {cfg : SessionTableConfig} {hmac4 : Hmac} {t : SessionTable cfg} {peer : SocketAddr}

/-- What is sent back: at most one datagram, to the peer, of at most `n` bytes. -/
def Modest (peer : SocketAddr) (n : ℕ) (sent : List (Bytes × SocketAddr)) : Prop :=
  sent.length ≤ 1 ∧ ∀ d ∈ sent, d.2 = peer ∧ d.1.length ≤ n

theorem modest_nil (peer : SocketAddr) (n : ℕ) : Modest peer n [] :=
  ⟨Nat.zero_le 1, fun _ hd => absurd hd List.not_mem_nil⟩

theorem modest_singleton {n : ℕ} {out : Bytes} (h : out.length ≤ n) :
    Modest peer n [(out, peer)] := by
  refine ⟨le_rfl, fun d hd => ?_⟩
  rw [List.mem_singleton.1 hd]
  exact ⟨rfl, h⟩

theorem Modest.mono {n m : ℕ} {sent : List (Bytes × SocketAddr)} (h : Modest peer n sent)
    (hle : n ≤ m) :
    Modest peer m sent :=
  ⟨h.1, fun d hd => ⟨(h.2 d hd).1, (h.2 d hd).2.trans hle⟩⟩

/-- An answer of the handshake has a header and one frame. -/
theorem length_handshakeReply {connId : U32} {body out : Bytes} {n : ℕ}
    (h : SessionTable.handshakeReply connId body = (out, .ok n)) :
    out.length = HEADER_LEN + (body.length + 4) := by
  obtain ⟨-, -, rfl, -⟩ := encode_eq_ok h
  rw [List.nil_append, List.length_append, List.flatMap_singleton]
  calc _ = HEADER_LEN + (4 + body.length) := by rw [length_headerBytes, length_frameBytes]
    _ = HEADER_LEN + (body.length + 4) := by rw [Nat.add_comm 4]

/-- The first frame counts in `buf_len_hint`. -/
theorem le_bufLenHint {frames : List FrameRef} {f : FrameRef} (h : frames.head? = some f) :
    HEADER_LEN + (f.body.length + 4) ≤ bufLenHint frames := by
  cases frames with
  | nil => cases h
  | cons g gs =>
    cases h
    unfold bufLenHint
    rw [List.map_cons, List.sum_cons]
    omega

/-- The confirmation. -/
theorem openSession_sent (t : SessionTable cfg) (peer : SocketAddr) (token : Bytes)
    (random : Vector U8 8) (now : Instant) :
    Modest peer (HEADER_LEN + 12) (t.openSession peer token random now).sent := by
  unfold SessionTable.openSession
  dsimp only
  split
  · rename_i out n hreply
    have hlen := length_handshakeReply hreply
    rw [Vector.length_toList] at hlen
    exact modest_singleton hlen.le
  · exact modest_nil peer _

theorem handleHandshake_sent (t : SessionTable cfg) (peer : SocketAddr) (frames : List FrameRef)
    (random : Vector U8 8) (now : Instant) :
    Modest peer (bufLenHint frames) (t.handleHandshake peer frames random now).sent := by
  unfold SessionTable.handleHandshake
  cases hhead : frames.head? with
  | none => exact modest_nil peer _
  | some f =>
    dsimp only
    split
    · split_ifs with hshort hwrong
      · exact modest_nil peer _
      · exact modest_nil peer _
      · -- the frame holds the challenge, which is as long as the secret
        have hle := le_bufLenHint hhead
        exact (openSession_sent _ peer _ random now).mono (by omega)
    · dsimp only
      split
      · split_ifs with hfits
        · exact modest_singleton hfits
        · exact modest_nil peer _
      · exact modest_nil peer _

/-- A datagram of the right HMAC is no handshake, and its session is known. -/
theorem verifyHmac_ok {buf data : Bytes} (h : t.verifyHmac hmac4 buf = .Ok data) :
    NoHandshake buf ∧ t.get (connIdOf buf) ≠ none := by
  have hflags : ∀ flags : U8, flags &&& (FLAG_HANDSHAKE ||| FLAG_HMAC) = FLAG_HMAC →
      flags &&& FLAG_HANDSHAKE = 0 := by
    decide +kernel
  unfold SessionTable.verifyHmac at h
  split_ifs at h with hoff hflag hshort
  cases hget : t.get (fromLe 32 (slice buf 4 8)) with
  | none =>
    rw [hget] at h
    cases h
  | some s =>
    refine ⟨hflags _ (not_not.1 hflag), fun hnone => ?_⟩
    exact absurd (hget.symm.trans hnone) nofun

theorem handlePlain_handshake {buf : Bytes} (h : ¬ NoHandshake buf) (random : Vector U8 8)
    (now clock : Instant) :
    Modest peer buf.length (t.handlePlain peer buf random now clock).sent := by
  unfold SessionTable.handlePlain
  cases hdec : decode buf with
  | error e => exact modest_nil peer _
  | ok r =>
    obtain ⟨header, frames⟩ := r
    have hflag : header.flags &&& FLAG_HANDSHAKE ≠ 0 := by
      rw [(decode_header hdec).2.1]
      exact h
    dsimp only
    rw [if_pos hflag]
    exact (handleHandshake_sent _ peer frames random now).mono (decode_total hdec)

theorem handlePlain_unknown {buf : Bytes} (h : NoHandshake buf)
    (hnone : t.get (connIdOf buf) = none) (random : Vector U8 8) (now clock : Instant) :
    (t.handlePlain peer buf random now clock).sent = [] := by
  unfold SessionTable.handlePlain
  cases hdec : decode buf with
  | error e => rfl
  | ok r =>
    obtain ⟨header, frames⟩ := r
    obtain ⟨-, hflags, hconn⟩ := decode_header hdec
    have hflag : header.flags &&& FLAG_HANDSHAKE = 0 := by
      rw [hflags]
      exact h
    dsimp only
    rw [if_neg (not_not.2 hflag)]
    split_ifs with hzero
    · rfl
    · unfold SessionTable.handleSessionPacket
      have hget : SessionTable.get { t with stats := { t.stats with pktIn := t.stats.pktIn + 1 } }
          header.connId = none := by
        rw [hconn]
        exact hnone
      rw [hget]

/-- **No amplification.** A datagram with the handshake flag is answered by at most one datagram, to
its sender and not longer than itself. A datagram without the flag is not answered if its connection
is unknown. -/
theorem no_amplification (hmac4 : Hmac) (t : SessionTable cfg) (peer : SocketAddr) (buf : Bytes)
    (random : Vector U8 8) (now clock : Instant) :
    (¬ NoHandshake buf →
      (t.handleDatagram hmac4 peer buf random now clock).sent.length ≤ 1 ∧
        ∀ d ∈ (t.handleDatagram hmac4 peer buf random now clock).sent,
          d.2 = peer ∧ d.1.length ≤ buf.length) ∧
    (NoHandshake buf → t.get (connIdOf buf) = none →
      (t.handleDatagram hmac4 peer buf random now clock).sent = []) := by
  unfold SessionTable.handleDatagram
  cases hmac : t.verifyHmac hmac4 buf with
  | Bad => exact ⟨fun _ => modest_nil peer _, fun _ _ => rfl⟩
  | NoHmac =>
    exact ⟨fun h => handlePlain_handshake h random now clock,
      fun h hnone => handlePlain_unknown h hnone random now clock⟩
  | Ok data =>
    obtain ⟨hplain, hsome⟩ := verifyHmac_ok hmac
    exact ⟨fun h => absurd hplain h, fun _ hnone => absurd hnone hsome⟩

/-- A datagram with one frame of eight bytes, for connection 1. -/
def lonePacket (flags : U8) : Bytes :=
  (encode ⟨VERSION, flags, 1, 0, 0, 0⟩ [⟨0, 0, List.replicate 8 0⟩] []).1

/-- A request and a packet of an unknown connection. -/
theorem no_amplification_hello :
    ((SessionTable.new : SessionTable plainConfig).handleDatagram noHmac (.V4 0 0)
        (lonePacket FLAG_HANDSHAKE) (Vector.replicate 8 0) 0 0).sent.length ≤ 1 ∧
      ((SessionTable.new : SessionTable plainConfig).handleDatagram noHmac (.V4 0 0) (lonePacket 0)
        (Vector.replicate 8 0) 0 0).sent = [] :=
  ⟨((no_amplification noHmac SessionTable.new (.V4 0 0) (lonePacket FLAG_HANDSHAKE) _ 0 0).1
    (by decide)).1,
    (no_amplification noHmac SessionTable.new (.V4 0 0) (lonePacket 0) _ 0 0).2 (by decide)
      (by decide +kernel)⟩

end SoupEngine
