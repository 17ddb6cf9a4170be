import SoupEngine.Reliable.Assembly
import SoupEngine.Reliable.Retransmit
import SoupEngine.Session.Outbound
import SoupEngine.Session.Packet

/-!
# What packing produces

`pack` gives consecutive numbers to the bodies of a message. `packLoop_spec` says how far it comes
and what has become of the session then; `decode_sealed` is what a receiver reads in a datagram it
has built.
-/

namespace SoupEngine

/-! ## The fragments of a message -/

section Fragments

variable {payload : Bytes}

/-- The number of fragments of a payload. -/
def fragmentCount (payload : Bytes) : ℕ := divCeil payload.length FRAGMENT_THRESHOLD

theorem two_le_fragmentCount (h : FRAGMENT_THRESHOLD < payload.length) :
    2 ≤ fragmentCount payload := by
  have hT : FRAGMENT_THRESHOLD = 1100 := rfl
  unfold fragmentCount divCeil
  rw [Nat.le_div_iff_mul_le (by omega)]
  omega

/-- The body of fragment `i` of a message whose first number is `k`. -/
def fragmentBody (groupId : U16) (k : ℕ) (payload : Bytes) (i : ℕ) : Bytes :=
  encodeFragment groupId (seqNum k) (BitVec.ofNat 8 i) (BitVec.ofNat 8 (fragmentCount payload))
    (chunk FRAGMENT_THRESHOLD payload i)

/-- Fragment `i` as its receiver reads it. -/
def fragmentOf (groupId : U16) (k : ℕ) (payload : Bytes) (i : ℕ) : Fragment :=
  ⟨groupId, seqNum k, BitVec.ofNat 8 i, BitVec.ofNat 8 (fragmentCount payload),
    chunk FRAGMENT_THRESHOLD payload i⟩

theorem getD_split (g : U16) (k : ℕ) (hlong : FRAGMENT_THRESHOLD < payload.length) {i : ℕ}
    (hi : i < fragmentCount payload) :
    (split payload g (seqNum k) FRAGMENT_THRESHOLD).getD i [] = fragmentBody g k payload i := by
  have h2 := two_le_fragmentCount hlong
  have hmax : max (divCeil payload.length FRAGMENT_THRESHOLD) 1 = fragmentCount payload :=
    max_eq_left (by unfold fragmentCount at h2; omega)
  rw [List.getD_eq_getElem?_getD, getElem?_split g (seqNum k) hi, hmax]
  rfl

/-- A receiver rejects a fragment whose narrowed total is out of range or not above its index. -/
theorem decodeFragment_fragmentBody (g : U16) (k : ℕ) {i : ℕ} (hi : i < 256) :
    decodeFragment (fragmentBody g k payload i) = .ok (fragmentOf g k payload i) ∧
        fragmentCount payload % 256 ≤ 64 ∧ i < fragmentCount payload % 256 ∨
      (∃ e, decodeFragment (fragmentBody g k payload i) = .error e) ∧
        ¬ (fragmentCount payload % 256 ≤ 64 ∧ i < fragmentCount payload % 256) := by
  have hni : (BitVec.ofNat 8 i).toNat = i := Nat.mod_eq_of_lt hi
  have hnN : (BitVec.ofNat 8 (fragmentCount payload)).toNat = fragmentCount payload % 256 :=
    BitVec.toNat_ofNat _ _
  have h64 : MAX_FRAGMENTS.toNat = 64 := rfl
  unfold fragmentBody
  rw [decodeFragment_encodeFragment]
  by_cases hok : fragmentCount payload % 256 ≤ 64 ∧ i < fragmentCount payload % 256
  · left
    have hne : BitVec.ofNat 8 (fragmentCount payload) ≠ 0 := fun h => by
      rw [h] at hnN
      have : (0 : U8).toNat = 0 := rfl
      omega
    rw [if_neg]
    · exact ⟨rfl, hok⟩
    · rw [not_or, not_or, BitVec.not_lt, BitVec.not_le, BitVec.le_def, BitVec.lt_def, hni, hnN, h64]
      exact ⟨hne, hok.1, hok.2⟩
  · right
    refine ⟨⟨_, if_pos ?_⟩, hok⟩
    rw [BitVec.lt_def, BitVec.le_def, hni, hnN, h64]
    omega

end Fragments

/-! ## Receiving what was packed -/

/-- A datagram without its HMAC. -/
def stripHmac (cfg : SessionTableConfig) (bytes : Bytes) : Bytes :=
  if cfg.enableHmac then bytes.take (bytes.length - HMAC_LEN) else bytes

/-- A session receives a datagram that has passed the HMAC check. -/
def Session.receive (cfg : SessionTableConfig) (s : Session) (stats : Stats) (peer : SocketAddr)
    (bytes : Bytes) (now clock : Instant) : Rx :=
  match decode (stripHmac cfg bytes) with
  | .error _ => ⟨s, stats.incrPktBad, [], [], false⟩
  | .ok (header, frames) =>
    handlePacket s { stats with pktIn := stats.pktIn + 1 } peer header frames now clock

/-- An active session receives a datagram with one Ch2 frame. -/
theorem Session.receive_ch2 {cfg : SessionTableConfig} {s : Session} (stats : Stats)
    (peer : SocketAddr) {bytes : Bytes} (now clock : Instant) {header : DatagramHeader}
    {f : FrameRef} (ha : s.state = .Active)
    (hdec : decode (stripHmac cfg bytes) = .ok (header, [f])) (hf : f.ch = CH_RELIABLE_ORDERED) :
    (s.receive cfg stats peer bytes now clock).session =
        (handleCh2 (s.prepared peer header now) header f now []).1 ∧
      (s.receive cfg stats peer bytes now clock).events =
        (handleCh2 (s.prepared peer header now) header f now []).2 := by
  unfold Session.receive
  rw [hdec]
  obtain ⟨rx, hs, he, h1, h2⟩ :=
    handlePacket_single { stats with pktIn := stats.pktIn + 1 } peer header now clock ha f
  obtain ⟨d1, d2⟩ := dispatchFrame_ch2 header now rx hf
  rw [hs, he] at d1 d2
  exact ⟨h1.trans d1, h2.trans d2⟩

section Pack

variable {hmac4 : Hmac} {cfg : SessionTableConfig}

theorem stripHmac_attachHmac (secret : U64) (bytes : Bytes) :
    stripHmac cfg (attachHmac hmac4 cfg secret bytes) = bytes := by
  unfold stripHmac attachHmac
  split_ifs with h
  · rw [List.length_append, Vector.length_toList, Nat.add_sub_cancel, List.take_left' rfl]
  · rfl

/-- A receiver reads the header and the frame of a packed datagram. -/
theorem decode_sealed {s : Session} {k : PackKind} {seq : U16} {body : Bytes} {n : ℕ}
    (h : (sealedDatagram hmac4 cfg s k seq body).2 = .ok n) :
    decode (stripHmac cfg (sealedDatagram hmac4 cfg s k seq body).1) =
      .ok (mkHeader cfg s.connId k.kind k.ackPair seq, [⟨k.ch, k.msgId, body⟩]) := by
  unfold sealedDatagram at h ⊢
  dsimp only at h ⊢
  rw [stripHmac_attachHmac]
  exact decode_encode (Prod.ext rfl h)

/-- The frame of a packed datagram is valid. -/
theorem valid_of_sealed {s : Session} {k : PackKind} {seq : U16} {body : Bytes} {n : ℕ}
    (h : (sealedDatagram hmac4 cfg s k seq body).2 = .ok n) :
    FrameRef.Valid ⟨k.ch, k.msgId, body⟩ := by
  unfold sealedDatagram at h
  dsimp only at h
  obtain ⟨-, hv, -, -⟩ := encode_eq_ok (Prod.ext rfl h)
  exact hv _ (List.mem_singleton.2 rfl)

/-- A valid frame within the MTU is packed. -/
theorem sealed_ok (hmac4 : Hmac) (cfg : SessionTableConfig) (s : Session) {k : PackKind} (seq : U16)
    {body : Bytes} (hv : FrameRef.Valid ⟨k.ch, k.msgId, body⟩)
    (hle : HEADER_LEN + 4 + body.length ≤ MTU) :
    ∃ n, (sealedDatagram hmac4 cfg s k seq body).2 = .ok n := by
  have hvalid : ∀ f ∈ [(⟨k.ch, k.msgId, body⟩ : FrameRef)], f.Valid := by
    intro f hf
    rw [List.mem_singleton.1 hf]
    exact hv
  have hlen : HEADER_LEN + ([(⟨k.ch, k.msgId, body⟩ : FrameRef)].flatMap frameBytes).length ≤
      MTU := by
    rw [List.flatMap_singleton, length_frameBytes, ← Nat.add_assoc]
    exact hle
  obtain ⟨n, hn⟩ := encode_ok (h := mkHeader cfg s.connId k.kind k.ackPair seq) [] rfl hvalid hlen
  refine ⟨n, ?_⟩
  unfold sealedDatagram
  rw [hn]

/-! ## The queues -/

/-- What enqueueing does to a queue: on the queue of the channel a `push`, nothing else. -/
theorem enqueue_cases (s : Session) (ch : U8) (seq : U16) (bytes : Bytes) (now : Instant) :
    ∃ s', s' = { s with retrans := s'.retrans } ∧
      ((s.enqueue ch seq bytes now = (s', .ok ()) ∧
          (∀ qi, queueOf ch = some qi → (s.retrans qi).len < RETRANSMIT_QUEUE_CAP) ∧
          ∀ qi, (s'.retrans qi).contents =
            (s.retrans qi).contents ++ if queueOf ch = some qi then [(seq, bytes)] else []) ∨
        (∃ e, s.enqueue ch seq bytes now = (s', .error e)) ∧ s' = s ∧
          ∃ qi, queueOf ch = some qi ∧ RETRANSMIT_QUEUE_CAP ≤ (s.retrans qi).len) := by
  unfold Session.enqueue
  cases hq : queueOf ch with
  | none =>
    refine ⟨s, rfl, Or.inl ⟨rfl, fun qi h => (by cases h), fun qi => ?_⟩⟩
    rw [if_neg (by intro h; cases h), List.append_nil]
  | some qi =>
    dsimp only
    rcases RetransmitQueue.push_cases (s.retrans qi) seq bytes now with
      ⟨hlen, hok, hc⟩ | ⟨hlen, ⟨e, he⟩, hc⟩
    · refine ⟨_, rfl, Or.inl ⟨by rw [hok], fun qj hj => ?_, fun qj => ?_⟩⟩
      · cases hj
        exact hlen
      · show (Function.update s.retrans qi ((s.retrans qi).push seq bytes now).1 qj).contents = _
        by_cases hj : qj = qi
        · subst hj
          rw [if_pos rfl, Function.update_self, hc]
        · rw [if_neg (fun h => hj (Option.some.inj h).symm), Function.update_of_ne hj,
            List.append_nil]
    · have hs : { s with
          retrans := Function.update s.retrans qi ((s.retrans qi).push seq bytes now).1 } = s := by
        rw [hc, Function.update_eq_self]
      exact ⟨s, rfl, Or.inr ⟨⟨e, by rw [he, hs]⟩, rfl, qi, rfl, hlen⟩⟩

/-! ## The loop -/

/-- The datagrams of the bodies from number `n` on. -/
def packed (hmac4 : Hmac) (cfg : SessionTableConfig) (s : Session) (k : PackKind) (n : ℕ)
    (bodies : List Bytes) (i : ℕ) : Bytes :=
  (sealedDatagram hmac4 cfg s k (seqNum (n + i)) (bodies.getD i [])).1

/-- What the loop has done when it has packed `m` bodies from number `n` on: the datagrams are
built and enqueued, `taken` numbers are used up. -/
structure PackedSpec (hmac4 : Hmac) (cfg : SessionTableConfig) (k : PackKind) (bodies : List Bytes)
    (n m taken : ℕ) (s s' : Session) (out out' : List Bytes) : Prop where
  frame : s' = { s with sendSeq := s'.sendSeq, retrans := s'.retrans }
  sendSeq : s'.sendSeq = seqNum (n + taken)
  out : out' = out ++ (List.range m).map (packed hmac4 cfg s k n bodies)
  encoded : ∀ i < m, ∃ b,
    (sealedDatagram hmac4 cfg s k (seqNum (n + i)) (bodies.getD i [])).2 = .ok b
  contents : ∀ qi, (s'.retrans qi).contents = (s.retrans qi).contents ++
    if queueOf k.ch = some qi then
      (List.range m).map fun i => (seqNum (n + i), packed hmac4 cfg s k n bodies i)
    else []
  room : ∀ qi, queueOf k.ch = some qi → 0 < m → (s.retrans qi).len + m ≤ RETRANSMIT_QUEUE_CAP

theorem packed_succ (s : Session) (k : PackKind) (n : ℕ) (body : Bytes) (bodies : List Bytes)
    (i : ℕ) : packed hmac4 cfg s k n (body :: bodies) (i + 1) =
      packed hmac4 cfg s k (n + 1) bodies i := by
  unfold packed
  rw [List.getD_cons_succ, show n + (i + 1) = n + 1 + i by omega]

/-- Why the loop stops at body `m`: it cannot be encoded, or the queue of the channel is full. -/
def Stops (hmac4 : Hmac) (cfg : SessionTableConfig) (k : PackKind) (bodies : List Bytes) (n m : ℕ)
    (s : Session) : Prop :=
  (∃ e, (sealedDatagram hmac4 cfg s k (seqNum (n + m)) (bodies.getD m [])).2 = .error e) ∨
    ∃ qi, queueOf k.ch = some qi ∧ RETRANSMIT_QUEUE_CAP ≤ (s.retrans qi).len + m

/-- Nothing is packed, with or without a number used up. -/
theorem packedSpec_none (hmac4 : Hmac) (cfg : SessionTableConfig) (k : PackKind)
    (bodies : List Bytes) {s s' : Session} {n taken : ℕ}
    (hframe : s' = { s with sendSeq := s'.sendSeq }) (hseq : s'.sendSeq = seqNum (n + taken))
    (out : List Bytes) :
    PackedSpec hmac4 cfg k bodies n 0 taken s s' out out := by
  have hretrans : s'.retrans = s.retrans := by rw [hframe]
  refine ⟨?_, hseq, (List.append_nil out).symm, fun i hi => absurd hi (Nat.not_lt_zero i),
    fun qi => ?_, fun _ _ h => absurd h (lt_irrefl 0)⟩
  · rw [hretrans]
    exact hframe
  · rw [hretrans, List.range_zero, List.map_nil, ite_self, List.append_nil]

/-- One body is packed and enqueued, and then `m` more. -/
theorem packedSpec_cons {hmac4 : Hmac} {cfg : SessionTableConfig} {k : PackKind}
    {body bytes : Bytes} {bodies : List Bytes} {s s2 s' : Session} {n m taken taken' : ℕ}
    {out out' : List Bytes} {b : ℕ}
    (hd : sealedDatagram hmac4 cfg s k (seqNum n) body = (bytes, .ok b))
    (hframe2 : s2 = { s with sendSeq := s2.sendSeq, retrans := s2.retrans })
      (hcont : ∀ qi, (s2.retrans qi).contents = (s.retrans qi).contents ++
      if queueOf k.ch = some qi then [(seqNum n, bytes)] else [])
    (hlen : ∀ qi, queueOf k.ch = some qi → (s2.retrans qi).len = (s.retrans qi).len + 1)
    (hroom : ∀ qi, queueOf k.ch = some qi → (s.retrans qi).len + 1 ≤ RETRANSMIT_QUEUE_CAP)
    (hspec : PackedSpec hmac4 cfg k bodies (n + 1) m taken s2 s' (out ++ [bytes]) out')
    (htaken : n + taken' = n + 1 + taken) :
    PackedSpec hmac4 cfg k (body :: bodies) n (m + 1) taken' s s' out out' := by
  have hpk : ∀ i, packed hmac4 cfg s2 k (n + 1) bodies i =
      packed hmac4 cfg s k n (body :: bodies) (i + 1) := by
    intro i
    rw [packed_succ]
    unfold packed sealedDatagram
    rw [hframe2]
  have hhead : packed hmac4 cfg s k n (body :: bodies) 0 = bytes := by
    unfold packed
    rw [List.getD_cons_zero, Nat.add_zero, hd]
  refine ⟨?_, ?_, ?_, fun i hi => ?_, fun qi => ?_, fun qi hq _ => ?_⟩
  · rw [hspec.frame, hframe2]
  · rw [hspec.sendSeq, htaken]
  · have hmap : (List.range m).map (packed hmac4 cfg s2 k (n + 1) bodies) =
        (List.range m).map (packed hmac4 cfg s k n (body :: bodies) ∘ Nat.succ) :=
      List.map_congr_left fun i _ => hpk i
    calc out' = out ++ [bytes] ++ (List.range m).map (packed hmac4 cfg s2 k (n + 1) bodies) :=
          hspec.out
      _ = out ++ bytes ::
          (List.range m).map (packed hmac4 cfg s k n (body :: bodies) ∘ Nat.succ) := by
          rw [hmap, List.append_assoc, List.singleton_append]
      _ = out ++ (List.range (m + 1)).map (packed hmac4 cfg s k n (body :: bodies)) := by
          rw [List.range_succ_eq_map, List.map_cons, List.map_map, hhead]
  · cases i with
    | zero =>
      rw [List.getD_cons_zero, Nat.add_zero, hd]
      exact ⟨b, rfl⟩
    | succ i =>
      obtain ⟨b', hb'⟩ := hspec.encoded i (by omega)
      refine ⟨b', ?_⟩
      rw [List.getD_cons_succ, show n + (i + 1) = n + 1 + i by omega, ← hb', hframe2]
      rfl
  · rw [hspec.contents, hcont]
    by_cases hq : queueOf k.ch = some qi
    · have hmap : (List.range m).map (fun i =>
            (seqNum (n + 1 + i), packed hmac4 cfg s2 k (n + 1) bodies i)) =
          (List.range m).map ((fun i =>
            (seqNum (n + i), packed hmac4 cfg s k n (body :: bodies) i)) ∘ Nat.succ) := by
        refine List.map_congr_left fun i _ => ?_
        rw [hpk i, show n + 1 + i = n + (i + 1) by omega]
        rfl
      rw [if_pos hq, if_pos hq, if_pos hq, List.append_assoc, List.range_succ_eq_map, List.map_cons,
        List.map_map, hhead, hmap, List.singleton_append]
      rfl
    · rw [if_neg hq, if_neg hq, if_neg hq, List.append_nil]
  · rcases Nat.eq_zero_or_pos m with rfl | hpos
    · exact hroom qi hq
    · have h1 := hspec.room qi hq hpos
      have h2 := hlen qi hq
      omega

/-- What stops the loop at body `m` of the rest stops it at body `m + 1`. -/
theorem Stops.cons {hmac4 : Hmac} {cfg : SessionTableConfig} {k : PackKind} {bodies : List Bytes}
    {s s2 : Session} {n m : ℕ} (h : Stops hmac4 cfg k bodies (n + 1) m s2) (body : Bytes)
    (hframe2 : s2 = { s with sendSeq := s2.sendSeq, retrans := s2.retrans })
    (hlen : ∀ qi, queueOf k.ch = some qi → (s2.retrans qi).len = (s.retrans qi).len + 1) :
    Stops hmac4 cfg k (body :: bodies) n (m + 1) s := by
  rcases h with ⟨e, he⟩ | ⟨qi, hq, hfull⟩
  · left
    refine ⟨e, ?_⟩
    rw [List.getD_cons_succ, show n + (m + 1) = n + 1 + m by omega, ← he, hframe2]
    rfl
  · right
    have hmore := hlen qi hq
    exact ⟨qi, hq, by omega⟩

/-- **The loop.** It packs all bodies, or stops at the first that cannot be encoded or enqueued; a
number is used up for that one too. -/
theorem packLoop_spec (hmac4 : Hmac) (cfg : SessionTableConfig) (k : PackKind) (now : Instant)
    (bodies : List Bytes) {s : Session} {n : ℕ} (hs : s.sendSeq = seqNum n) (out : List Bytes) :
    ∃ m s' out', PackedSpec hmac4 cfg k bodies n m (if m = bodies.length then m else m + 1) s s' out
        out' ∧ m ≤ bodies.length ∧
      ((packLoop hmac4 cfg k now bodies s out = (s', out', .ok ()) ∧ m = bodies.length) ∨
        (∃ e, packLoop hmac4 cfg k now bodies s out = (s', out', .error e)) ∧ m < bodies.length ∧
          Stops hmac4 cfg k bodies n m s) := by
  induction bodies generalizing s n out with
  | nil => exact ⟨0, s, out, packedSpec_none hmac4 cfg k [] rfl hs out, le_rfl, Or.inl ⟨rfl, rfl⟩⟩
  | cons body bodies ih =>
    set s1 : Session := { s with sendSeq := s.sendSeq + 1 } with hs1
    have hseq1 : s1.sendSeq = seqNum (n + 1) := by rw [← seqNum_succ, ← hs]
    have hsealed : sealedDatagram hmac4 cfg s1 k (seqNum n) body =
      sealedDatagram hmac4 cfg s k (seqNum n) body := rfl
    have hpos : 0 < (body :: bodies).length := Nat.succ_pos _
    -- the loop stops at this body
    have hstop : PackedSpec hmac4 cfg k (body :: bodies) n 0 (if 0 = (body :: bodies).length then 0
        else 0 + 1) s s1 out out := by
      rw [if_neg hpos.ne]
      exact packedSpec_none hmac4 cfg k _ rfl hseq1 out
    unfold packLoop
    dsimp only
    rw [← hs1, hs, hsealed]
    rcases hd : sealedDatagram hmac4 cfg s k (seqNum n) body with ⟨bytes, e | b⟩
    · exact ⟨0, s1, out, hstop, Nat.zero_le _, Or.inr ⟨⟨e, rfl⟩, hpos,
        Or.inl ⟨e, by rw [List.getD_cons_zero, Nat.add_zero, hd]⟩⟩⟩
    · dsimp only
      obtain ⟨s2, hframe2, ⟨heq, hroom, hcont⟩ | ⟨⟨e, heq⟩, hs2, qi, hqi, hfull⟩⟩ :=
        enqueue_cases s1 k.ch (seqNum n) bytes now
      · rw [heq]
        dsimp only
        have hseq2 : s2.sendSeq = seqNum (n + 1) := by rw [hframe2]; exact hseq1
        have hframe : s2 = { s with sendSeq := s2.sendSeq, retrans := s2.retrans } := by
          rw [hframe2]
        have hlen2 : ∀ qi, queueOf k.ch = some qi →
            (s2.retrans qi).len = (s.retrans qi).len + 1 := by
          intro qi hq
          have hlen := congrArg List.length (hcont qi)
          rw [if_pos hq, List.length_append, RetransmitQueue.length_contents,
            RetransmitQueue.length_contents] at hlen
          exact hlen
        obtain ⟨m, s', out', hspec, hm, hres⟩ := ih hseq2 (out ++ [bytes])
        refine ⟨m + 1, s', out', packedSpec_cons hd hframe hcont hlen2 hroom hspec ?_,
          Nat.succ_le_succ hm, ?_⟩
        · rw [List.length_cons]
          split_ifs <;> omega
        · rcases hres with ⟨hres, hm'⟩ | ⟨hres, hm', hwhy⟩
          · exact Or.inl ⟨hres, by rw [List.length_cons, hm']⟩
          · exact Or.inr ⟨hres, Nat.succ_lt_succ hm', hwhy.cons body hframe hlen2⟩
      · rw [heq, hs2]
        exact ⟨0, s1, out, hstop, Nat.zero_le _, Or.inr ⟨⟨e, rfl⟩, hpos, Or.inr ⟨qi, hqi, hfull⟩⟩⟩

end Pack

/-! ## One message -/

namespace Session

variable (s : Session) (ch : U8) (msgId : U16) (payload : Bytes)

/-- The frame bodies of a message. -/
def bodies : List Bytes :=
  if fragments ch payload then split payload s.fragGroupId s.sendSeq FRAGMENT_THRESHOLD
  else [payload]

def packKind : PackKind :=
  ⟨if fragments ch payload then FLAG_FRAGMENT else 0, s.computeAck, ch, msgId⟩

/-- The session after a group id has been given out for a fragmented message. -/
def grouped : Session :=
  { s with fragGroupId := if fragments ch payload then s.fragGroupId + 1 else s.fragGroupId }

variable {s}

theorem pack_active (hmac4 : Hmac) (cfg : SessionTableConfig) (now : Instant)
    (ha : s.state = .Active) :
    s.pack hmac4 cfg ch msgId payload now =
      packLoop hmac4 cfg (s.packKind ch msgId payload) now (s.bodies ch payload)
        (s.grouped ch payload) [] := by
  have hact : s.isActive = true := isActive_iff.2 ha
  unfold pack packKind bodies grouped
  rw [if_neg (by rw [hact]; exact Bool.noConfusion)]
  by_cases hf : fragments ch payload
  · simp only [if_pos hf]
  · simp only [if_neg hf]

/-- A message on an unreliable channel is one datagram. -/
theorem length_bodies_of_queueOf (h : queueOf ch = none) : (s.bodies ch payload).length = 1 := by
  have hf : ¬ fragments ch payload := by
    rintro ⟨rfl, -⟩
    cases h
  unfold bodies
  rw [if_neg hf]
  rfl

theorem pack_inactive (hmac4 : Hmac) (cfg : SessionTableConfig) (now : Instant)
    (ha : s.state ≠ .Active) :
    s.pack hmac4 cfg ch msgId payload now = (s, [], .error (.SessionNotFound s.sessId)) := by
  have hact : s.isActive = false := Bool.eq_false_iff.2 fun h => ha (isActive_iff.1 h)
  unfold pack
  rw [if_pos hact]

/-- **Packing a message.** An active session packs `m` of the bodies and uses up `taken` numbers:
all of them, or one more than it packs when it fails. -/
theorem pack_spec (hmac4 : Hmac) (cfg : SessionTableConfig) (now : Instant) (ha : s.state = .Active)
    {n : ℕ} (hs : s.sendSeq = seqNum n) :
    ∃ m taken s' out r, s.pack hmac4 cfg ch msgId payload now = (s', out, r) ∧
      PackedSpec hmac4 cfg (s.packKind ch msgId payload) (s.bodies ch payload) n m taken
        (s.grouped ch payload) s' [] out ∧
      m ≤ taken ∧ taken ≤ 65 ∧ taken ≤ (s.bodies ch payload).length ∧
      ((r = .ok () ∧ m = (s.bodies ch payload).length ∧ taken = m) ∨
        ((∃ e, r = .error e) ∧ m < (s.bodies ch payload).length ∧ taken = m + 1 ∧
          Stops hmac4 cfg (s.packKind ch msgId payload) (s.bodies ch payload) n m
            (s.grouped ch payload))) := by
  obtain ⟨m, s', out, hspec, hm, hres⟩ :=
    packLoop_spec hmac4 cfg (s.packKind ch msgId payload) now (s.bodies ch payload)
      (s := s.grouped ch payload) hs []
  have h64 : m ≤ 64 := by
    rcases Nat.eq_zero_or_pos m with rfl | hpos
    · exact Nat.zero_le 64
    · cases hq : queueOf ch with
      | none =>
        have := length_bodies_of_queueOf (s := s) ch payload hq
        omega
      | some qi =>
        have hroom := hspec.room qi hq hpos
        have hcap : RETRANSMIT_QUEUE_CAP = 64 := rfl
        omega
  rw [pack_active _ _ _ _ _ _ ha]
  rcases hres with ⟨hloop, hlen⟩ | ⟨⟨e, hloop⟩, hlen, hstop⟩
  · rw [if_pos hlen] at hspec
    exact ⟨m, m, s', out, _, hloop, hspec, le_rfl, by omega, hm, Or.inl ⟨rfl, hlen, rfl⟩⟩
  · rw [if_neg (by omega)] at hspec
    exact ⟨m, m + 1, s', out, _, hloop, hspec, by omega, by omega, hlen,
      Or.inr ⟨⟨e, rfl⟩, hlen, rfl, hstop⟩⟩

end Session

end SoupEngine
