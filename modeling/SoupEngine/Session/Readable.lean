import SoupEngine.Link.Frames
import SoupEngine.Session.Authentication
import SoupEngine.Session.Population
import SoupEngine.Session.Trailer

/-!
# Datagrams that a client can read

A datagram of a session is plaintext, or carries the HMAC under the secret of the session; whoever
knows the connection id and the secret, and checks as the table does, reads it (`Readable.reads`).
What a session packs is so, hence so is what waits in its retransmit queues (`preserved_clean`).
-/

namespace SoupEngine

open SessionTable

variable {hmac4 : Hmac} {cfg : SessionTableConfig} {connId : U32} {secret : U64} {bytes : Bytes}

/-- A datagram for the client of this connection. -/
inductive Readable (hmac4 : Hmac) (cfg : SessionTableConfig) (connId : U32) (secret : U64)
    (bytes : Bytes) : Prop
  | plain (header : DatagramHeader) (frames : List FrameRef)
      (decodes : decode bytes = .ok (header, frames))
      (flags : header.flags &&& (FLAG_HANDSHAKE ||| FLAG_HMAC) = 0) (conn : header.connId = connId)
  | marked (data : Bytes) (header : DatagramHeader) (frames : List FrameRef)
      (on : cfg.enableHmac = true) (split : bytes = data ++ (hmac4 (leBytes secret) data).toList)
      (decodes : decode data = .ok (header, frames))
      (flags : header.flags &&& (FLAG_HANDSHAKE ||| FLAG_HMAC) = FLAG_HMAC)
      (conn : header.connId = connId)

theorem length_of_decode {header : DatagramHeader} {frames : List FrameRef}
    (h : decode bytes = .ok (header, frames)) : HEADER_LEN ≤ bytes.length ∧ bytes.length ≤ MTU := by
  unfold decode at h
  split_ifs at h with hlo hhi
  exact ⟨not_lt.1 hlo, not_lt.1 hhi⟩

theorem Readable.length (h : Readable hmac4 cfg connId secret bytes) :
    HEADER_LEN ≤ bytes.length ∧ bytes.length ≤ MTU + HMAC_LEN := by
  cases h with
  | plain header frames decodes =>
    have hlen := length_of_decode decodes
    omega
  | marked data header frames on split decodes =>
    have hlen := length_of_decode decodes
    rw [split, List.length_append, Vector.length_toList]
    omega

/-- **Reading.** A table under the same configuration that holds a session with the connection id
and the secret reads the datagram. -/
theorem Readable.reads (h : Readable hmac4 cfg connId secret bytes) {t : SessionTable cfg}
    {s : Session} (hget : t.get connId = some s) (hs : s.secret = secret) :
    ∃ header frames, t.reads hmac4 bytes = some (header, frames) ∧ header.connId = connId ∧
      header.flags &&& FLAG_HANDSHAKE = 0 := by
  cases h with
  | plain header frames decodes flags conn =>
    have hno : ∀ f : U8, f &&& (FLAG_HANDSHAKE ||| FLAG_HMAC) = 0 →
        f &&& (FLAG_HANDSHAKE ||| FLAG_HMAC) ≠ FLAG_HMAC ∧ f &&& FLAG_HANDSHAKE = 0 := by
      decide +kernel
    have hflags := (decode_header decodes).2.1
    have hmac : t.verifyHmac hmac4 bytes = .NoHmac := by
      unfold SessionTable.verifyHmac
      rw [← hflags, if_pos (hno _ flags).1]
      exact ite_self _
    refine ⟨header, frames, ?_, conn, (hno _ flags).2⟩
    unfold SessionTable.reads
    rw [hmac, decodes]
    rfl
  | marked data header frames on split decodes flags conn =>
    have hno : ∀ f : U8, f &&& (FLAG_HANDSHAKE ||| FLAG_HMAC) = FLAG_HMAC →
        f &&& FLAG_HANDSHAKE = 0 := by
      decide +kernel
    obtain ⟨hlen, hflags, hconn⟩ := decode_header decodes
    have hwhole : bytes.length = data.length + HMAC_LEN := by
      rw [split, List.length_append, Vector.length_toList]
    have htake : bytes.take (bytes.length - HMAC_LEN) = data := by
      rw [hwhole, Nat.add_sub_cancel, split]
      exact List.take_left' rfl
    have hdrop : bytes.drop (bytes.length - HMAC_LEN) = (hmac4 (leBytes secret) data).toList := by
      rw [hwhole, Nat.add_sub_cancel, split]
      exact List.drop_left' rfl
    have hslice {lo hi : ℕ} (hhi : hi ≤ HEADER_LEN) : slice bytes lo hi = slice data lo hi := by
      rw [← htake]
      exact (slice_take bytes (by omega)).symm
    have hmac : t.verifyHmac hmac4 bytes = .Ok data := by
      unfold SessionTable.verifyHmac
      rw [if_neg (by rw [not_or]; exact ⟨not_not.2 on, by omega⟩), hslice (by decide), ← hflags,
        if_neg (not_not.2 flags), if_neg (by omega), hslice (by decide)]
      unfold connIdOf at hconn
      rw [← hconn, conn, hget]
      dsimp only
      rw [htake, hdrop, hs, if_pos rfl]
    refine ⟨header, frames, ?_, conn, hno _ flags⟩
    unfold SessionTable.reads
    rw [hmac]
    dsimp only
    rw [decodes]
    rfl

/-! ## What a session sends -/

section Session

variable {s : Session}

/-- A datagram without frames. -/
theorem readable_empty (hmac4 : Hmac) (cfg : SessionTableConfig) {h : DatagramHeader}
    {out : Bytes} {n : ℕ} (he : encode h [] [] = (out, .ok n))
    (hflags : h.flags &&& (FLAG_HANDSHAKE ||| FLAG_HMAC) = 0) :
    Readable hmac4 cfg h.connId secret out :=
  .plain h [] (decode_encode he) hflags rfl

/-- A sealed datagram. -/
theorem readable_sealed {k : PackKind} {seq : U16} {body : Bytes} {n : ℕ}
    (h : (sealedDatagram hmac4 cfg s k seq body).2 = .ok n)
    (hkind : k.kind &&& (FLAG_HANDSHAKE ||| FLAG_HMAC) = 0) :
    Readable hmac4 cfg s.connId s.secret (sealedDatagram hmac4 cfg s k seq body).1 := by
  have hdec := decode_sealed h
  have hflags : ∀ f : U8, f &&& (FLAG_HANDSHAKE ||| FLAG_HMAC) = 0 →
      (f ||| FLAG_HMAC) &&& (FLAG_HANDSHAKE ||| FLAG_HMAC) = FLAG_HMAC := by
    decide +kernel
  by_cases hon : cfg.enableHmac = true
  · refine .marked _ _ _ hon ?_ hdec ?_ rfl
    · unfold sealedDatagram
      dsimp only
      rw [stripHmac_attachHmac]
      unfold attachHmac
      rw [if_pos hon]
    · unfold mkHeader
      dsimp only
      rw [if_pos hon]
      exact hflags _ hkind
  · have hstrip : stripHmac cfg (sealedDatagram hmac4 cfg s k seq body).1 =
        (sealedDatagram hmac4 cfg s k seq body).1 := if_neg hon
    rw [hstrip] at hdec
    refine .plain _ _ hdec ?_ rfl
    unfold mkHeader
    dsimp only
    rw [if_neg hon, show k.kind ||| 0 = k.kind from BitVec.or_zero]
    exact hkind

/-- What waits in the retransmit queues can be read. -/
def Session.Clean (hmac4 : Hmac) (cfg : SessionTableConfig) (s : Session) : Prop :=
  ∀ qi, ∀ e ∈ (s.retrans qi).contents, Readable hmac4 cfg s.connId s.secret e.2

theorem Session.Clean.mono {s' : Session} (h : s.Clean hmac4 cfg) (hconn : s'.connId = s.connId)
    (hsecret : s'.secret = s.secret)
    (hsub : ∀ qi, (s'.retrans qi).contents ⊆ (s.retrans qi).contents) :
    s'.Clean hmac4 cfg := by
  intro qi e he
  rw [hconn, hsecret]
  exact h qi e (hsub qi he)

theorem packKind_flags (s : Session) (ch : U8) (msgId : U16) (payload : Bytes) :
    (s.packKind ch msgId payload).kind &&& (FLAG_HANDSHAKE ||| FLAG_HMAC) = 0 := by
  unfold Session.packKind
  dsimp only
  split_ifs
  · decide
  · decide

/-- What is packed can be read, and the session stays clean. -/
theorem Session.Clean.pack (h : s.Clean hmac4 cfg) (ch : U8) (msgId : U16) (payload : Bytes)
    (now : Instant) :
    (s.pack hmac4 cfg ch msgId payload now).1.Clean hmac4 cfg ∧
      (s.pack hmac4 cfg ch msgId payload now).1.connId = s.connId ∧
      (s.pack hmac4 cfg ch msgId payload now).1.secret = s.secret ∧
      (s.pack hmac4 cfg ch msgId payload now).1.peer = s.peer ∧
      ∀ bytes ∈ (s.pack hmac4 cfg ch msgId payload now).2.1,
      Readable hmac4 cfg s.connId s.secret bytes := by
  by_cases ha : s.state = .Active
  · obtain ⟨n, -, -, hn⟩ := exists_seqNum 0 s.sendSeq
    obtain ⟨m, taken, s', out, r, heq, hspec, -⟩ :=
      s.pack_spec ch msgId payload hmac4 cfg now ha hn.symm
    have hpacked : ∀ i < m, Readable hmac4 cfg s.connId s.secret
        (packed hmac4 cfg (s.grouped ch payload) (s.packKind ch msgId payload) n
          (s.bodies ch payload) i) := by
      intro i hi
      obtain ⟨b, hb⟩ := hspec.encoded i hi
      exact readable_sealed hb (packKind_flags s ch msgId payload)
    have hconn : s'.connId = s.connId := by
      rw [hspec.frame]
      rfl
    have hsecret : s'.secret = s.secret := by
      rw [hspec.frame]
      rfl
    have hpeer : s'.peer = s.peer := by
      rw [hspec.frame]
      rfl
    rw [heq]
    refine ⟨?_, hconn, hsecret, hpeer, ?_⟩
    · intro qi e he
      dsimp only at he ⊢
      rw [hconn, hsecret]
      rw [hspec.contents qi, List.mem_append] at he
      rcases he with he | he
      · exact h qi e he
      · split_ifs at he
        · obtain ⟨i, hi, rfl⟩ := List.mem_map.1 he
          exact hpacked i (List.mem_range.1 hi)
        · exact absurd he List.not_mem_nil
    · intro bytes hbytes
      dsimp only at hbytes
      rw [hspec.out, List.nil_append] at hbytes
      obtain ⟨i, hi, rfl⟩ := List.mem_map.1 hbytes
      exact hpacked i (List.mem_range.1 hi)
  · rw [s.pack_inactive ch msgId payload hmac4 cfg now ha]
    exact ⟨h, rfl, rfl, rfl, fun bytes hb => absurd hb List.not_mem_nil⟩

theorem Session.Clean.packet (h : s.Clean hmac4 cfg) (stats : Stats) (peer : SocketAddr)
    (header : DatagramHeader) (frames : List FrameRef) (now clock : Instant) :
    (handlePacket s stats peer header frames now clock).session.Clean hmac4 cfg := by
  cases hst : s.state with
  | Grace since =>
    rw [(handlePacket_grace stats peer header frames now clock hst).1]
    exact h
  | Active =>
    have hview := handlePacket_sender stats peer header frames now clock hst
    refine h.mono (congrArg SenderView.connId hview) (congrArg SenderView.secret hview) fun qi => ?_
    have hqueue := congrFun (congrArg SenderView.retrans hview) qi
    rw [show (handlePacket s stats peer header frames now clock).session.retrans qi =
      ((s.retrans qi).onAck header.ack header.ackBits now).1 from hqueue,
      RetransmitQueue.contents_onAck]
    exact (List.dropWhile_sublist _).subset

/-- The operations of the table keep the sessions clean. -/
theorem preserved_clean (hmac4 : Hmac) (t : SessionTable cfg) :
    Preserved hmac4 t PacketGuard.any True (Session.Clean hmac4 cfg) where
  create _ _ _ _ _ _ _ _ he := absurd he List.not_mem_nil
  packet _ stats peer _ header frames now clock h _ _ := h.packet stats peer header frames now clock
  maintain s now h := by
    unfold Session.maintain
    split_ifs
    · exact h
    · exact h
  maintainReliable s now h := h.mono rfl rfl fun qi => by
    show ((s.retrans qi).retransmitDue now s.rtt.rto).1.contents ⊆ _
    rw [RetransmitQueue.contents_retransmitDue]
    exact List.Subset.refl _
  pack s ch msgId payload now h := (h.pack ch msgId payload now).1
  budget _ _ _ h := h

end Session

theorem clean_act {t : SessionTable cfg} (h : t.All (Session.Clean hmac4 cfg)) (x : TableAction) :
    (t.act hmac4 x).1.All (Session.Clean hmac4 cfg) :=
  (preserved_clean hmac4 t).act h (guarded_any x) fun _ _ _ => trivial

end SoupEngine
