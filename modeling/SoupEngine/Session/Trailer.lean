import SoupEngine.Session.Atomic
import SoupEngine.Session.Authentication

/-!
# The length of what is sent

`encode` keeps a datagram within the MTU, and the HMAC is appended after that. So a datagram is
longer than the buffer of a receiver exactly if it is not a fragment and the HMAC does not fit any
more (`arrives_iff`).
-/

namespace SoupEngine

/-- A receiver with a buffer of the MTU gets the whole datagram, and its HMAC is right. -/
def Arrives (hmac4 : Hmac) (cfg : SessionTableConfig) (s : Session) (bytes : Bytes) : Prop :=
  bytes.length ≤ MTU ∧ bytes.take MTU = bytes ∧
  (cfg.enableHmac = true → Signed hmac4 s (bytes.take MTU))

section Length

variable {hmac4 : Hmac} {cfg : SessionTableConfig} {s s' : Session} {k : PackKind} {seq : U16}
  {body bytes : Bytes} {ch : U8} {msgId : U16} {payload : Bytes} {now : Instant} {out : List Bytes}

/-- The bytes of an HMAC, if there is one. -/
def trailerLen (cfg : SessionTableConfig) : ℕ := if cfg.enableHmac then HMAC_LEN else 0

theorem length_attachHmac (secret : U64) :
    (attachHmac hmac4 cfg secret bytes).length = bytes.length + trailerLen cfg := by
  unfold attachHmac trailerLen
  split_ifs
  · rw [List.length_append, Vector.length_toList]
  · rfl

theorem length_sealed {n : ℕ} (h : (sealedDatagram hmac4 cfg s k seq body).2 = .ok n) :
    (sealedDatagram hmac4 cfg s k seq body).1.length =
      HEADER_LEN + 4 + body.length + trailerLen cfg := by
  unfold sealedDatagram at h ⊢
  dsimp only at h ⊢
  obtain ⟨-, -, hbytes, -⟩ := encode_eq_ok (Prod.ext rfl h)
  calc _ = _ + trailerLen cfg := length_attachHmac s.secret
    _ = _ + trailerLen cfg := congrArg (· + trailerLen cfg) (congrArg List.length hbytes)
    _ = HEADER_LEN + (4 + body.length) + trailerLen cfg := by
        rw [List.nil_append, List.length_append, length_headerBytes, List.flatMap_singleton,
          length_frameBytes]
    _ = HEADER_LEN + 4 + body.length + trailerLen cfg := by rw [Nat.add_assoc HEADER_LEN 4]

/-- A sealed datagram within the MTU arrives. -/
theorem arrives_sealed (hle : (sealedDatagram hmac4 cfg s k seq body).1.length ≤ MTU) :
    Arrives hmac4 cfg s (sealedDatagram hmac4 cfg s k seq body).1 := by
  have hwhole := List.take_of_length_le hle
  refine ⟨hle, hwhole, fun hmac => ?_⟩
  rw [hwhole]
  unfold sealedDatagram attachHmac
  dsimp only
  rw [if_pos hmac]
  exact ⟨_, rfl⟩

/-- The message is sent in one datagram that has no room for its HMAC. -/
def Overlong (cfg : SessionTableConfig) (s : Session) (ch : U8) (msgId : U16) (payload : Bytes) :
    Prop :=
  cfg.enableHmac = true ∧ s.state = .Active ∧ s.Takes ch msgId payload ∧ ¬ fragments ch payload ∧
    MTU < HEADER_LEN + 4 + payload.length + HMAC_LEN

/-- A fragment leaves room for an HMAC. -/
theorem length_fragment_le (hf : fragments ch payload) {i : ℕ}
    (hi : i < (s.bodies ch payload).length) :
    HEADER_LEN + 4 + ((s.bodies ch payload).getD i []).length + HMAC_LEN ≤ MTU := by
  obtain ⟨n, -, -, hn⟩ := exists_seqNum 0 s.sendSeq
  have hT : FRAGMENT_THRESHOLD = 1100 := rfl
  have hM : MTU = 1200 := rfl
  have hH : HEADER_LEN = 16 := rfl
  have hF : FRAG_HEADER_LEN = 6 := rfl
  have hL : HMAC_LEN = 4 := rfl
  unfold Session.bodies at hi ⊢
  rw [if_pos hf] at hi ⊢
  rw [length_split] at hi
  rw [← hn, getD_split s.fragGroupId n hf.2 hi]
  unfold fragmentBody chunk
  rw [length_encodeFragment, List.length_take]
  omega

/-- What a message is packed into arrives, unless it is overlong. -/
theorem arrives_of_not_overlong (h : s.pack hmac4 cfg ch msgId payload now = (s', out, .ok ()))
    (hch : ch ≤ 3) (hno : ¬ Overlong cfg s ch msgId payload) :
    ∀ bytes ∈ out, Arrives hmac4 cfg s bytes := by
  obtain ⟨ha, -, n, -, hspec⟩ := Session.pack_ok_spec hmac4 cfg now h
  have htakes : s.Takes ch msgId payload :=
    (Session.pack_eq_ok_iff hmac4 cfg now ha hch).1 (by rw [h])
  rw [hspec.out, List.nil_append]
  intro bytes hbytes
  obtain ⟨i, hi, rfl⟩ := List.mem_map.1 hbytes
  have hi' := List.mem_range.1 hi
  obtain ⟨b, hb⟩ := hspec.encoded i hi'
  refine arrives_sealed (s := s.grouped ch payload) ?_
  rw [length_sealed hb]
  by_cases hf : fragments ch payload
  · have hle := length_fragment_le hf hi'
    have htrailer : trailerLen cfg ≤ HMAC_LEN := by
      unfold trailerLen
      split_ifs
      · exact le_rfl
      · exact Nat.zero_le _
    omega
  · have hle := Session.length_body_le htakes.length hi'
    have hbody : (s.bodies ch payload).getD i [] = payload := by
      unfold Session.bodies at hi' ⊢
      rw [if_neg hf] at hi' ⊢
      obtain rfl : i = 0 := by
        rw [List.length_singleton] at hi'
        omega
      rfl
    rw [hbody] at hle ⊢
    unfold trailerLen
    split_ifs with hmac
    · by_contra hover
      exact hno ⟨hmac, ha, htakes, hf, not_le.1 hover⟩
    · exact hle

/-- An overlong message is packed into a datagram that does not arrive. -/
theorem not_arrives_of_overlong (hmac4 : Hmac) (now : Instant) (hch : ch ≤ 3)
    (h : Overlong cfg s ch msgId payload) :
    ∃ s' bytes, s.pack hmac4 cfg ch msgId payload now = (s', [bytes], .ok ()) ∧
    MTU < bytes.length := by
  obtain ⟨hmac, ha, htakes, hf, hover⟩ := h
  have hok := (Session.pack_eq_ok_iff hmac4 cfg now ha hch).2 htakes
  rcases hpack : s.pack hmac4 cfg ch msgId payload now with ⟨s', out, r⟩
  rw [hpack] at hok
  dsimp only at hok
  subst hok
  obtain ⟨-, -, n, -, hspec⟩ := Session.pack_ok_spec hmac4 cfg now hpack
  have hbodies : s.bodies ch payload = [payload] := by
    unfold Session.bodies
    rw [if_neg hf]
  have hout : out =
      [packed hmac4 cfg (s.grouped ch payload) (s.packKind ch msgId payload) n [payload] 0] := by
    rw [hspec.out, hbodies]
    rfl
  obtain ⟨b, hb⟩ := hspec.encoded 0 (by rw [hbodies]; exact Nat.one_pos)
  have hlen := length_sealed hb
  rw [hbodies] at hlen
  refine ⟨s', packed hmac4 cfg (s.grouped ch payload) (s.packKind ch msgId payload) n [payload] 0,
    by rw [hout], ?_⟩
  unfold trailerLen at hlen
  rw [if_pos hmac] at hlen
  exact hover.trans_eq hlen.symm

end Length

/-- **What arrives.** All datagrams that `pack_outbound` returns fit the buffer of a receiver, and
are verified, if and only if the message is not one whose single datagram has no room for its
HMAC. -/
theorem arrives_iff {cfg : SessionTableConfig} (hmac4 : Hmac) (t : SessionTable cfg) (sessId : U64)
    (ch : U8) (msgId : U16) (payload : Bytes) (now : Instant) :
    (∀ packets, (t.packOutbound hmac4 sessId ch msgId payload now).2 = .ok packets →
        ∀ i c s, t.findSession sessId = some (i, c, s) → ∀ d ∈ packets, Arrives hmac4 cfg s d.1) ↔
      ∀ i c s, t.findSession sessId = some (i, c, s) →
      ¬ (ch ≤ 3 ∧ Overlong cfg s ch msgId payload) := by
  constructor
  · rintro h i c s hfind ⟨hch, hover⟩
    obtain ⟨s', bytes, hpack, hlong⟩ := not_arrives_of_overlong hmac4 now hch hover
    have hok : (t.packOutbound hmac4 sessId ch msgId payload now).2 = .ok [(bytes, s.peer)] := by
      unfold SessionTable.packOutbound Session.packOutbound
      rw [if_neg (BitVec.not_lt.2 hch), hfind]
      dsimp only
      rw [hpack]
      rfl
    exact absurd (h _ hok i c s hfind _ (List.mem_singleton_self _)).1 (not_le.2 hlong)
  · intro h packets hok i c s hfind
    obtain ⟨hch, j, d, s₁, s', out, hfound, -, hpack, rfl⟩ :=
      SessionTable.packOutbound_ok hmac4 msgId payload now (Prod.ext rfl hok)
    cases hfound.symm.trans hfind
    intro d hd
    obtain ⟨bytes, hbytes, rfl⟩ := List.mem_map.1 hd
    exact arrives_of_not_overlong hpack hch (fun hover => h _ _ _ hfind ⟨hch, hover⟩) bytes hbytes

/-- A message of 1177 bytes on Ch0 becomes a datagram of 1201 bytes. -/
theorem trailer_overflows :
    ∃ packets,
      (guardedTable.packOutbound checksum 1 CH_UNRELIABLE_UNORDERED 0 (List.replicate 1177 0) 0).2 =
        .ok packets ∧
      ∃ d ∈ packets, MTU < d.1.length := by
  have hlen : (guardedTable.packOutbound checksum 1 CH_UNRELIABLE_UNORDERED 0
      (List.replicate 1177 0)
      0).2.toOption.map (fun packets => packets.map fun d => d.1.length) = some [1201] := by
        decide +kernel
  cases hres :
    (guardedTable.packOutbound checksum 1 CH_UNRELIABLE_UNORDERED 0
      (List.replicate 1177 0) 0).2 with
  | error e =>
    rw [hres] at hlen
    cases hlen
  | ok packets =>
    rw [hres] at hlen
    have hlens : packets.map (fun d => d.1.length) = [1201] := Option.some.inj hlen
    have hmem : 1201 ∈ packets.map fun d => d.1.length := by
      rw [hlens]
      exact List.mem_singleton_self 1201
    obtain ⟨d, hd, hlong⟩ := List.mem_map.1 hmem
    exact ⟨packets, rfl, d, hd, hlong.symm ▸ by decide⟩

end SoupEngine
