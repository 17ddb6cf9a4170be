import SoupEngine.Session.Fragments
import SoupEngine.Session.Packing
import SoupEngine.Session.Slots

/-!
# Calls of `pack_outbound` that fail

A call for a channel that does not exist, or for a session that is not there or not active, is
turned away and leaves the table as it is. Every other call that fails has used up a number for the
datagram it failed at. `pack_atomic_iff`: so a call is atomic exactly if it is turned away or cannot
fail.
-/

namespace SoupEngine

namespace Session

/-- The datagrams of the message can be encoded, and the retransmit queue has room for all of
them. -/
structure Takes (s : Session) (ch : U8) (msgId : U16) (payload : Bytes) : Prop where
  msgId : msgId ≤ 0x0FFF
  length : ¬ fragments ch payload → HEADER_LEN + 4 + payload.length ≤ MTU
  room : ∀ qi, queueOf ch = some qi →
    (s.retrans qi).len + (s.bodies ch payload).length ≤ RETRANSMIT_QUEUE_CAP

variable {s : Session} {ch : U8} {msgId : U16} {payload : Bytes}

theorem bodies_pos : 0 < (s.bodies ch payload).length := by
  unfold bodies
  split_ifs with hf
  · have htwo : 2 ≤ divCeil payload.length FRAGMENT_THRESHOLD := two_le_fragmentCount hf.2
    rw [length_split]
    omega
  · exact Nat.one_pos

/-- A fragment fits a datagram, whatever the length of the message. -/
theorem length_body_le (h : ¬ fragments ch payload → HEADER_LEN + 4 + payload.length ≤ MTU) {i : ℕ}
    (hi : i < (s.bodies ch payload).length) :
    HEADER_LEN + 4 + ((s.bodies ch payload).getD i []).length ≤ MTU := by
  obtain ⟨n, -, -, hn⟩ := exists_seqNum 0 s.sendSeq
  unfold bodies at hi ⊢
  by_cases hf : fragments ch payload
  · have hT : FRAGMENT_THRESHOLD = 1100 := rfl
    have hM : MTU = 1200 := rfl
    have hH : HEADER_LEN = 16 := rfl
    have hF : FRAG_HEADER_LEN ≤ 16 := by decide
    rw [if_pos hf] at hi ⊢
    rw [length_split] at hi
    rw [← hn, getD_split s.fragGroupId n hf.2 hi]
    unfold fragmentBody chunk
    rw [length_encodeFragment, List.length_take]
    omega
  · rw [if_neg hf] at hi ⊢
    obtain rfl : i = 0 := by
      rw [List.length_singleton] at hi
      omega
    exact h hf

variable (hmac4 : Hmac) (cfg : SessionTableConfig) (now : Instant)

/-- **Success.** An active session packs the message exactly if it takes it. -/
theorem pack_eq_ok_iff (ha : s.state = .Active) (hch : ch ≤ 3) :
    (s.pack hmac4 cfg ch msgId payload now).2.2 = .ok () ↔ s.Takes ch msgId payload := by
  obtain ⟨n, -, -, hn⟩ := exists_seqNum 0 s.sendSeq
  obtain ⟨m, taken, s', out, r, hpack, hspec, -, -, -, hres⟩ :=
    pack_spec ch msgId payload hmac4 cfg now ha hn.symm
  have hpos : 0 < (s.bodies ch payload).length := bodies_pos
  rw [hpack]
  rcases hres with ⟨rfl, hm, -⟩ | ⟨⟨e, rfl⟩, hm, -, hstop⟩
  · refine ⟨fun _ => ⟨?_, fun hf => ?_, fun qi hq => ?_⟩, fun _ => rfl⟩
    · obtain ⟨b, hb⟩ := hspec.encoded 0 (by omega)
      exact (valid_of_sealed hb).2
    · obtain ⟨b, hb⟩ := hspec.encoded 0 (by omega)
      unfold sealedDatagram at hb
      obtain ⟨-, -, -, hle⟩ := encode_eq_ok (Prod.ext rfl hb)
      rw [List.flatMap_singleton, length_frameBytes, ← Nat.add_assoc] at hle
      have hbody : (s.bodies ch payload).getD 0 [] = payload := by
        unfold bodies
        rw [if_neg hf]
        rfl
      rw [hbody] at hle
      exact hle
    · have hroom : (s.retrans qi).len + m ≤ RETRANSMIT_QUEUE_CAP := hspec.room qi hq (by omega)
      omega
  · refine ⟨(fun h => nomatch h), fun htakes => ?_⟩
    rcases hstop with ⟨e', he⟩ | ⟨qi, hq, hfull⟩
    · obtain ⟨b, hb⟩ :=
        sealed_ok hmac4 cfg (s.grouped ch payload) (k := s.packKind ch msgId payload)
        (seqNum (n + m)) ⟨hch, htakes.msgId⟩ (length_body_le htakes.length hm)
      rw [hb] at he
      cases he
    · have hroom := htakes.room qi hq
      have hlen : RETRANSMIT_QUEUE_CAP ≤ (s.retrans qi).len + m := hfull
      omega

/-- What a call that succeeds has packed. -/
theorem pack_ok_spec {s' : Session} {out : List Bytes}
    (h : s.pack hmac4 cfg ch msgId payload now = (s', out, .ok ())) :
    s.state = .Active ∧ (s.bodies ch payload).length ≤ 65 ∧ ∃ n, s.sendSeq = seqNum n ∧
      PackedSpec hmac4 cfg (s.packKind ch msgId payload) (s.bodies ch payload) n
        (s.bodies ch payload).length
        (s.bodies ch payload).length (s.grouped ch payload) s' [] out := by
  have ha : s.state = .Active := by
    by_contra ha
    rw [pack_inactive ch msgId payload hmac4 cfg now ha] at h
    cases h
  obtain ⟨n, -, -, hn⟩ := exists_seqNum 0 s.sendSeq
  obtain ⟨m, taken, s₁, out₁, r, hpack, hspec, -, h65, -, ⟨-, rfl, rfl⟩ | ⟨⟨e, rfl⟩, -⟩⟩ :=
    pack_spec ch msgId payload hmac4 cfg now ha hn.symm
  · rw [hpack] at h
    cases h
    exact ⟨ha, h65, n, hn.symm, hspec⟩
  · rw [hpack] at h
    cases h

/-- **Failure.** An active session that does not take the message is left with another number. -/
theorem pack_sendSeq_ne (ha : s.state = .Active)
    (hr : (s.pack hmac4 cfg ch msgId payload now).2.2 ≠ .ok ()) :
    (s.pack hmac4 cfg ch msgId payload now).1.sendSeq ≠ s.sendSeq := by
  obtain ⟨n, -, -, hn⟩ := exists_seqNum 0 s.sendSeq
  obtain ⟨m, taken, s', out, r, hpack, hspec, -, h65, -, hres⟩ :=
    pack_spec ch msgId payload hmac4 cfg now ha hn.symm
  rw [hpack] at hr ⊢
  rcases hres with ⟨rfl, -, -⟩ | ⟨-, -, htaken, -⟩
  · exact absurd rfl hr
  · show s'.sendSeq ≠ s.sendSeq
    rw [hspec.sendSeq, ← hn, Ne, seqNum_inj (by omega) (by omega)]
    omega

end Session

/-! ## The table -/

namespace SessionTable

variable {cfg : SessionTableConfig} (hmac4 : Hmac) (t : SessionTable cfg) (sessId : U64) (ch : U8)
  (msgId : U16) (payload : Bytes) (now : Instant)

/-- If the call fails, nothing has changed. -/
def Atomic : Prop :=
  ∀ e, (t.packOutbound hmac4 sessId ch msgId payload now).2 = .error e →
    (t.packOutbound hmac4 sessId ch msgId payload now).1 = t

/-- The call is turned away, or the session takes the message. -/
def Harmless : Prop :=
  3 < ch ∨
    match t.findSession sessId with
    | none => True
    | some (_, _, s) => s.state ≠ .Active ∨ s.Takes ch msgId payload

variable {t sessId ch}

/-- What a call does with the session that it finds. -/
theorem packOutbound_found {i : Fin (max cfg.shards 1)} {connId : U32} {s : Session}
    (hch : ¬ 3 < ch) (hfind : t.findSession sessId = some (i, connId, s)) :
    ((t.packOutbound hmac4 sessId ch msgId payload now).1.shards i)[connId]? =
        some (s.pack hmac4 cfg ch msgId payload now).1 ∧
      ((∃ e, (t.packOutbound hmac4 sessId ch msgId payload now).2 = .error e) ↔
        (s.pack hmac4 cfg ch msgId payload now).2.2 ≠ .ok ()) ∧
      ((s.pack hmac4 cfg ch msgId payload now).2.2 ≠ .ok () →
        (t.packOutbound hmac4 sessId ch msgId payload now).1 =
          t.putBack i connId (s.pack hmac4 cfg ch msgId payload now).1) := by
  unfold packOutbound Session.packOutbound
  rw [if_neg hch, hfind]
  dsimp only
  rcases s.pack hmac4 cfg ch msgId payload now with ⟨s', out, e | ⟨⟩⟩
  · refine ⟨?_, ⟨(fun _ h => nomatch h), fun _ => ⟨e, rfl⟩⟩, fun _ => rfl⟩
    show (Function.update t.shards i ((t.shards i).insert connId s') i)[connId]? = some s'
    rw [get_insert, if_pos ⟨rfl, rfl⟩]
  · refine ⟨?_, ⟨(fun ⟨_, h⟩ => nomatch h), fun h => absurd rfl h⟩, fun h => absurd rfl h⟩
    show (Function.update t.shards i ((t.shards i).insert connId s') i)[connId]? = some s'
    rw [get_insert, if_pos ⟨rfl, rfl⟩]

/-- In a call that succeeds the session found packs the message. -/
theorem packOutbound_ok {t' : SessionTable cfg} {packets : List (Bytes × SocketAddr)}
    (h : t.packOutbound hmac4 sessId ch msgId payload now = (t', .ok packets)) :
    ch ≤ 3 ∧ ∃ i c s s' out, t.findSession sessId = some (i, c, s) ∧ (t'.shards i)[c]? = some s' ∧
      s.pack hmac4 cfg ch msgId payload now = (s', out, .ok ()) ∧
      packets = out.map fun bytes => (bytes, s.peer) := by
  unfold packOutbound at h
  by_cases hch : 3 < ch
  · rw [if_pos hch] at h
    cases h
  rw [if_neg hch] at h
  cases hfind : t.findSession sessId with
  | none =>
    rw [hfind] at h
    cases h
  | some r =>
    obtain ⟨i, c, s⟩ := r
    rw [hfind] at h
    dsimp only at h
    unfold Session.packOutbound at h
    rcases hpack : s.pack hmac4 cfg ch msgId payload now with ⟨s', out, err | u⟩
    · rw [hpack] at h
      cases h
    · rw [hpack] at h
      cases h
      refine ⟨BitVec.not_lt.1 hch, i, c, s, s', out, rfl, ?_, hpack, rfl⟩
      show (Function.update t.shards i _ i)[c]? = _
      rw [get_insert, if_pos ⟨rfl, rfl⟩]

/-- A session that is put back as it was. -/
theorem putBack_self {i : Fin (max cfg.shards 1)} {connId : U32} {s : Session}
    (h : (t.shards i)[connId]? = some s) : t.putBack i connId s = t := by
  have hshard : (t.shards i).insert connId s = t.shards i := by
    ext1 c
    rw [Std.ExtTreeMap.getElem?_insert]
    split_ifs with hc
    · rw [← Std.LawfulEqOrd.eq_of_compare hc, h]
    · rfl
  unfold putBack
  rw [hshard, Function.update_eq_self]

end SessionTable

open SessionTable

/-- **Atomicity.** For every table and every call: a failing call leaves the table as it was if and
only if it is turned away because of its channel or its session, or the session takes the message,
so that the call does not fail. -/
theorem pack_atomic_iff {cfg : SessionTableConfig} (hmac4 : Hmac) (t : SessionTable cfg)
    (sessId : U64) (ch : U8) (msgId : U16) (payload : Bytes) (now : Instant) :
    t.Atomic hmac4 sessId ch msgId payload now ↔ t.Harmless sessId ch msgId payload := by
  unfold Atomic Harmless
  by_cases hch : 3 < ch
  · refine ⟨fun _ => Or.inl hch, fun _ e _ => ?_⟩
    unfold SessionTable.packOutbound
    rw [if_pos hch]
  cases hfind : t.findSession sessId with
  | none =>
    refine ⟨fun _ => Or.inr trivial, fun _ e _ => ?_⟩
    unfold SessionTable.packOutbound
    rw [if_neg hch, hfind]
  | some found =>
    obtain ⟨i, connId, s⟩ := found
    obtain ⟨hget, hfail, hback⟩ := packOutbound_found hmac4 msgId payload now hch hfind
    have hslot := (mem_of_findSession hfind).1
    have hch3 : ch ≤ 3 := BitVec.not_lt.1 hch
    constructor
    · intro h
      right
      by_contra hno
      push Not at hno
      obtain ⟨ha, htakes⟩ := hno
      have hne : (s.pack hmac4 cfg ch msgId payload now).2.2 ≠ .ok () := fun hok =>
        htakes ((Session.pack_eq_ok_iff hmac4 cfg now ha hch3).1 hok)
      obtain ⟨e, he⟩ := hfail.2 hne
      rw [h e he, hslot] at hget
      exact Session.pack_sendSeq_ne hmac4 cfg now ha hne
        (congrArg Session.sendSeq (Option.some.inj hget)).symm
    · rintro (h | h) e he
      · exact absurd h hch
      have hne := hfail.1 ⟨e, he⟩
      by_cases ha : s.state = .Active
      · rcases h with h | h
        · exact absurd ha h
        · exact absurd ((Session.pack_eq_ok_iff hmac4 cfg now ha hch3).2 h) hne
      · rw [hback hne, Session.pack_inactive _ _ _ _ _ _ ha]
        exact putBack_self hslot

/-- A message id of thirteen bits on Ch2. -/
def thirteenBits : SessionTable plainConfig × Except Error (List (Bytes × SocketAddr)) :=
  (plainRun hello).1.packOutbound noHmac 1 CH_RELIABLE_ORDERED 0x1000 [] 0

/-- The number of the next datagram of a session. -/
def nextSeq (t : SessionTable plainConfig) (sessId : U64) : Option U16 :=
  (t.findSession sessId).map fun found => found.2.2.sendSeq

/-- The call fails and has used up the number 0. -/
theorem pack_not_atomic :
    ¬ (plainRun hello).1.Atomic noHmac 1 CH_RELIABLE_ORDERED 0x1000 [] 0 := by
  have hfail : thirteenBits.2 = .error (.Protocol "msg_id 超出 12bit: 4096") := by decide +kernel
  have hbefore : nextSeq (plainRun hello).1 1 = some 0 := by decide +kernel
  have hafter : nextSeq thirteenBits.1 1 = some 1 := by decide +kernel
  intro h
  have heq : thirteenBits.1 = (plainRun hello).1 := h _ hfail
  rw [heq, hbefore] at hafter
  cases hafter

end SoupEngine
