import SoupEngine.Link.Frames

/-!
# The sending side of a link

`Wired` ties the state of `a` to the log: which number comes next, what its retransmit queues hold,
and what a receiver reads in each datagram. It holds in every state of every run (`wired_step`),
whatever the network does.
-/

namespace SoupEngine

open TransitionSystem

namespace Call

/-- The number of datagrams of the call. -/
def count (c : Call) : ℕ := if c.Fragmented then fragmentCount c.payload else 1

end Call

/-- What a receiver reads in the datagram of number `i`. -/
structure Carried (cfg : SessionTableConfig) (i : ℕ) (c : Call) (bytes : Bytes)
    (header : DatagramHeader) : Prop where
  seq : header.seq = seqNum i
  flag : header.flags &&& FLAG_FRAGMENT ≠ 0 ↔ c.Fragmented
  decode : decode (stripHmac cfg bytes) = .ok (header, [c.frame i])
  valid : (c.frame i).Valid

namespace Link

/-- What the retransmit queues hold for a number. -/
def tagged (l : Link) (i : ℕ) : U16 × Bytes := (seqNum i, l.wire i)

structure Wired (cfg : SessionTableConfig) (l : Link) : Prop where
  sendSeq : l.a.sendSeq = seqNum l.log.length
  contents : ∀ qi, (l.a.retrans qi).contents = (l.queued qi).map l.tagged
  queued : ∀ qi, ∀ i ∈ l.queued qi,
    ∃ e : Sent, l.log[i]? = some e ∧ e.datagram.isSome ∧ queueOf e.call.ch = some qi
  sorted : ∀ qi, (l.queued qi).Pairwise (· < ·)
  number : ∀ (i : ℕ) (e : Sent), l.log[i]? = some e →
    e.call.first ≤ i ∧ i < e.call.first + e.call.count ∧ i ≤ e.call.first + 64
  /-- The numbers of a call are consecutive. -/
  block : ∀ (i : ℕ) (e : Sent), l.log[i]? = some e → ∀ j : ℕ, e.call.first ≤ j → j ≤ i →
    ∃ e' : Sent, l.log[j]? = some e' ∧ e'.call = e.call
  carried : ∀ (i : ℕ) (e : Sent) bytes, l.log[i]? = some e → e.datagram = some bytes →
    ∃ header, Carried cfg i e.call bytes header

section

variable {hmac4 : Hmac} {cfg : SessionTableConfig} {l : Link}

theorem Wired.lt_of_queued (h : Wired cfg l) {qi : Fin 2} {i : ℕ} (hi : i ∈ l.queued qi) :
    i < l.log.length := by
  obtain ⟨e, he, -⟩ := h.queued qi i hi
  exact (List.getElem?_eq_some_iff.1 he).1

theorem length_queued (h : Wired cfg l) (qi : Fin 2) :
    (l.queued qi).length = (l.a.retrans qi).len := by
  have := congrArg List.length (h.contents qi)
  rw [RetransmitQueue.length_contents, List.length_map] at this
  exact this.symm

/-- Calls with a common first number are the same. -/
theorem Wired.call_eq (h : Wired cfg l) {i j : ℕ} {e e' : Sent} (he : l.log[i]? = some e)
    (he' : l.log[j]? = some e') (hf : e.call.first = e'.call.first) : e.call = e'.call := by
  obtain ⟨d, hd, hc⟩ := h.block i e he _ le_rfl (h.number i e he).1
  obtain ⟨d', hd', hc'⟩ := h.block j e' he' _ le_rfl (h.number j e' he').1
  rw [hf, hd'] at hd
  cases hd
  rw [← hc, ← hc']

theorem wired_start (a b : Opening) : Wired cfg (start a b) where
  sendSeq := rfl
  contents qi := rfl
  queued qi i hi := absurd hi (List.not_mem_nil)
  sorted qi := List.Pairwise.nil
  number i e he := by cases he
  block i e he := by cases he
  carried i e bytes he := by cases he

/-! ## Sending -/

/-- What a call adds to the log: `m` datagrams on `taken` numbers. -/
def logged (c : Call) (datagram : ℕ → Bytes) (m taken : ℕ) : List Sent :=
  (List.range taken).map fun j => ⟨c, if j < m then some (datagram j) else none⟩

/-- The call made in a state. -/
def callOf (l : Link) (ch : U8) (msgId : U16) (payload : Bytes) : Call :=
  ⟨l.log.length, ch, msgId, payload, l.a.fragGroupId⟩

/-- What a call on an active session does to the link. -/
structure SendSpec (hmac4 : Hmac) (cfg : SessionTableConfig) (l l' : Link) (c : Call) (m taken : ℕ)
    (datagram : ℕ → Bytes) : Prop where
  log : l'.log = l.log ++ logged c datagram m taken
  queued : ∀ qi, l'.queued qi =
    l.queued qi ++ if queueOf c.ch = some qi then List.range' l.log.length m else []
  contents : ∀ qi, (l'.a.retrans qi).contents = (l.a.retrans qi).contents ++
    if queueOf c.ch = some qi then
      (List.range m).map fun j => (seqNum (l.log.length + j), datagram j) else []
  sendSeq : l'.a.sendSeq = seqNum (l.log.length + taken)
  groupId : l'.a.fragGroupId = if c.Fragmented then l.a.fragGroupId + 1 else l.a.fragGroupId
  active : l'.a.state = .Active
  same : l' = { l with a := l'.a, log := l'.log, queued := l'.queued, failed := l'.failed }
  carried : ∀ j < m, ∃ header, Carried cfg (l.log.length + j) c (datagram j) header
  le_taken : m ≤ taken
  taken_le : taken ≤ 65
  taken_le_count : taken ≤ c.count
  room : ∀ qi, queueOf c.ch = some qi → 0 < m → (l.a.retrans qi).len + m ≤ RETRANSMIT_QUEUE_CAP
  /-- The call succeeds with all its datagrams, or fails short of them. -/
  outcome : (m = c.count ∧ taken = m ∧ l'.failed = l.failed) ∨
    (m < c.count ∧ taken = m + 1 ∧ l'.failed = true ∧
      Stops hmac4 cfg (l.a.packKind c.ch c.msgId c.payload) (l.a.bodies c.ch c.payload)
        l.log.length m (l.a.grouped c.ch c.payload))

theorem length_bodies (s : Session) (c : Call) : (s.bodies c.ch c.payload).length = c.count := by
  unfold Session.bodies Call.count
  by_cases hf : c.Fragmented
  · have hf' : fragments c.ch c.payload := hf
    rw [if_pos hf, if_pos hf']
    exact length_split _ _
  · have hf' : ¬ fragments c.ch c.payload := hf
    rw [if_neg hf, if_neg hf']
    rfl

/-- The bodies that are packed are those of the call. -/
theorem getD_bodies (h : l.a.sendSeq = seqNum l.log.length) (ch : U8) (msgId : U16)
    (payload : Bytes) {j : ℕ} (hj : j < (l.callOf ch msgId payload).count) :
    (l.a.bodies ch payload).getD j [] =
      (l.callOf ch msgId payload).body (l.log.length + j) := by
  unfold Session.bodies Call.body
  unfold Call.count at hj
  by_cases hf : (l.callOf ch msgId payload).Fragmented
  · have hf' : fragments ch payload := hf
    rw [if_pos hf] at hj
    rw [if_pos hf, if_pos hf', h]
    show (split payload l.a.fragGroupId (seqNum l.log.length) FRAGMENT_THRESHOLD).getD j [] =
      fragmentBody l.a.fragGroupId l.log.length payload (l.log.length + j - l.log.length)
    rw [getD_split l.a.fragGroupId l.log.length hf'.2 hj, Nat.add_sub_cancel_left]
  · have hf' : ¬ fragments ch payload := hf
    rw [if_neg hf] at hj
    rw [if_neg hf, if_neg hf', show j = 0 by omega]
    rfl

theorem carried_packed (h : l.a.sendSeq = seqNum l.log.length) (ch : U8) (msgId : U16)
    (payload : Bytes) {j n : ℕ} (hj : j < (l.callOf ch msgId payload).count)
    (hok : (sealedDatagram hmac4 cfg (l.a.grouped ch payload) (l.a.packKind ch msgId payload)
      (seqNum (l.log.length + j)) ((l.a.bodies ch payload).getD j [])).2 = .ok n) :
    ∃ header, Carried cfg (l.log.length + j) (l.callOf ch msgId payload)
      (packed hmac4 cfg (l.a.grouped ch payload) (l.a.packKind ch msgId payload) l.log.length
        (l.a.bodies ch payload) j) header := by
  have hbody := getD_bodies h ch msgId payload hj
  have hdec := decode_sealed hok
  refine ⟨mkHeader cfg l.a.connId (l.a.packKind ch msgId payload).kind l.a.computeAck
    (seqNum (l.log.length + j)), rfl, ?_, ?_, ?_⟩
  · show ((if fragments ch payload then FLAG_FRAGMENT else 0) |||
      if cfg.enableHmac then FLAG_HMAC else 0) &&& FLAG_FRAGMENT ≠ 0 ↔ fragments ch payload
    by_cases hf : fragments ch payload
    · rw [if_pos hf]
      refine iff_of_true ?_ hf
      split_ifs <;> decide
    · rw [if_neg hf]
      refine iff_of_false ?_ hf
      split_ifs <;> decide
  · unfold packed
    rw [hdec, hbody]
    rfl
  · have hv := valid_of_sealed hok
    rw [hbody] at hv
    exact hv

theorem send_inactive (ch : U8) (msgId : U16) (payload : Bytes) (now : Instant)
    (ha : l.a.state ≠ .Active) : l.send hmac4 cfg ch msgId payload now = l := by
  have hact : l.a.isActive = false := Bool.eq_false_iff.2 fun h => ha (isActive_iff.1 h)
  unfold send
  rw [Session.pack_inactive _ _ _ _ _ _ ha]
  dsimp only
  rw [hact, BitVec.sub_self, Bool.false_and, Bool.or_false]
  have hq : (fun qi => l.queued qi ++
      List.range' l.log.length ((l.a.retrans qi).len - (l.a.retrans qi).len)) = l.queued := by
    funext qi
    rw [Nat.sub_self]
    exact List.append_nil _
  rw [hq, show (0#16).toNat = 0 from rfl, List.range_zero, List.map_nil, List.append_nil]

/-- **Sending.** -/
theorem send_spec (hmac4 : Hmac) (cfg : SessionTableConfig) (h : l.a.sendSeq = seqNum l.log.length)
    (ch : U8) (msgId : U16) (payload : Bytes) (now : Instant) (ha : l.a.state = .Active) :
    ∃ m taken datagram, SendSpec hmac4 cfg l (l.send hmac4 cfg ch msgId payload now)
      (l.callOf ch msgId payload) m taken datagram := by
  have hact : l.a.isActive = true := isActive_iff.2 ha
  obtain ⟨m, taken, a', out, r, hpack, hspec, hm, h65, htk, hres⟩ :=
    Session.pack_spec ch msgId payload hmac4 cfg now ha h
  have hcount : (l.a.bodies ch payload).length = (l.callOf ch msgId payload).count :=
    length_bodies l.a (l.callOf ch msgId payload)
  rw [hcount] at htk hres
  set datagram := packed hmac4 cfg (l.a.grouped ch payload) (l.a.packKind ch msgId payload)
    l.log.length (l.a.bodies ch payload) with hdg
  have hout : out = (List.range m).map datagram := hspec.out
  have htaken : (a'.sendSeq - l.a.sendSeq).toNat = taken := by
    rw [hspec.sendSeq, h, seqNum_sub (Nat.le_add_right _ _) (by omega), Nat.add_sub_cancel_left]
  have hget : ∀ j, out[j]? = if j < m then some (datagram j) else none := by
    intro j
    rw [hout, List.getElem?_map]
    by_cases hj : j < m
    · rw [List.getElem?_range hj, if_pos hj]
      rfl
    · rw [List.getElem?_eq_none (by rw [List.length_range]; omega), if_neg hj]
      rfl
  have hcont : ∀ qi, (a'.retrans qi).contents = (l.a.retrans qi).contents ++
      if queueOf ch = some qi then
        (List.range m).map fun j => (seqNum (l.log.length + j), datagram j) else [] :=
    hspec.contents
  have hlen : ∀ qi, (a'.retrans qi).len - (l.a.retrans qi).len =
      if queueOf ch = some qi then m else 0 := by
    intro qi
    have := congrArg List.length (hcont qi)
    rw [List.length_append, RetransmitQueue.length_contents, RetransmitQueue.length_contents]
      at this
    unfold RetransmitQueue.len
    rw [this]
    split_ifs
    · rw [List.length_map, List.length_range, Nat.add_sub_cancel_left]
    · rw [List.length_nil, Nat.add_sub_cancel_left]
  have hsend : l.send hmac4 cfg ch msgId payload now =
      { l with
        a := a'
        log := l.log ++ logged (l.callOf ch msgId payload) datagram m taken
        queued := fun qi => l.queued qi ++
          if queueOf ch = some qi then List.range' l.log.length m else []
        failed := l.failed || !r.toBool } := by
    unfold send
    rw [hpack]
    dsimp only
    rw [htaken, hact, Bool.true_and]
    congr 1
    · unfold logged callOf
      simp only [hget]
    · funext qi
      rw [hlen qi]
      split_ifs <;> rfl
  refine ⟨m, taken, datagram, ?_⟩
  rw [hsend]
  refine ⟨rfl, fun qi => rfl, hcont, hspec.sendSeq, ?_, ?_, rfl, fun j hj => ?_, hm, h65, htk,
    hspec.room, ?_⟩
  · show a'.fragGroupId = _
    rw [hspec.frame]
    rfl
  · show a'.state = _
    rw [hspec.frame]
    exact ha
  · obtain ⟨n, hn⟩ := hspec.encoded j hj
    exact carried_packed h ch msgId payload (by omega) hn
  · rcases hres with ⟨hr, hm', ht⟩ | ⟨⟨e, hr⟩, hm', ht, hstop⟩
    · exact Or.inl ⟨hm', ht, by rw [hr]; exact Bool.or_false _⟩
    · exact Or.inr ⟨hm', ht, by rw [hr]; exact Bool.or_true _, hstop⟩

/-- A frame body fits a datagram, if the payload of a call that is not fragmented does. -/
theorem body_fits (c : Call) (i : ℕ)
    (h : ¬ c.Fragmented → HEADER_LEN + 4 + c.payload.length ≤ MTU) :
    HEADER_LEN + 4 + (c.body i).length ≤ MTU := by
  unfold Call.body
  split_ifs with hf
  · have hT : FRAGMENT_THRESHOLD = 1100 := rfl
    have hM : MTU = 1200 := rfl
    have hH : HEADER_LEN = 16 := rfl
    unfold fragmentBody encodeFragment chunk
    simp only [List.length_append, List.length_take, length_leBytes, List.length_singleton]
    omega
  · exact h hf

/-- A valid call that falls short of its datagrams has filled its queue. -/
theorem SendSpec.full {hmac4 : Hmac} {l' : Link} {ch : U8} {msgId : U16} {payload : Bytes}
    {m taken : ℕ} {datagram : ℕ → Bytes}
    (hs : SendSpec hmac4 cfg l l' (l.callOf ch msgId payload) m taken datagram)
    (h : l.a.sendSeq = seqNum l.log.length) (hch : ch ≤ 3) (hid : msgId ≤ 0x0FFF)
    (hle : ¬ fragments ch payload → HEADER_LEN + 4 + payload.length ≤ MTU)
    (hm : m < (l.callOf ch msgId payload).count) :
    ∃ qi, queueOf ch = some qi ∧ RETRANSMIT_QUEUE_CAP ≤ (l.a.retrans qi).len + m := by
  rcases hs.outcome with ⟨hall, -, -⟩ | ⟨-, -, -, ⟨e, he⟩ | hfull⟩
  · exact absurd hall (Nat.ne_of_lt hm)
  · have hbody := body_fits (l.callOf ch msgId payload) (l.log.length + m) hle
    rw [← getD_bodies h ch msgId payload hm] at hbody
    obtain ⟨n, hn⟩ := sealed_ok hmac4 cfg (l.a.grouped ch payload)
      (k := l.a.packKind ch msgId payload) (seqNum (l.log.length + m)) ⟨hch, hid⟩ hbody
    have he' : (sealedDatagram hmac4 cfg (l.a.grouped ch payload) (l.a.packKind ch msgId payload)
      (seqNum (l.log.length + m)) ((l.a.bodies ch payload).getD m [])).2 = .error e := he
    rw [hn] at he'
    cases he'
  · exact hfull

/-- A valid call succeeds when there is room for its datagrams. -/
theorem send_fits (hmac4 : Hmac) (cfg : SessionTableConfig) (h : l.a.sendSeq = seqNum l.log.length)
    (ch : U8) (msgId : U16) (payload : Bytes) (now : Instant) (ha : l.a.state = .Active)
    (hch : ch ≤ 3) (hid : msgId ≤ 0x0FFF)
    (hle : ¬ fragments ch payload → HEADER_LEN + 4 + payload.length ≤ MTU)
    (hroom : ∀ qi, queueOf ch = some qi →
      (l.a.retrans qi).len + (l.callOf ch msgId payload).count ≤ RETRANSMIT_QUEUE_CAP) :
    ∃ datagram, SendSpec hmac4 cfg l (l.send hmac4 cfg ch msgId payload now)
        (l.callOf ch msgId payload) (l.callOf ch msgId payload).count
        (l.callOf ch msgId payload).count datagram ∧
      (l.send hmac4 cfg ch msgId payload now).failed = l.failed := by
  obtain ⟨m, taken, datagram, hs⟩ := send_spec hmac4 cfg h ch msgId payload now ha
  rcases hs.outcome with ⟨rfl, rfl, hfail⟩ | ⟨hm, -, -, -⟩
  · exact ⟨datagram, hs, hfail⟩
  · obtain ⟨qi, hq, hfull⟩ := hs.full h hch hid hle hm
    have hlt := hroom qi hq
    omega

/-- A valid call that is not fragmented succeeds when there is room for it. -/
theorem send_single (hmac4 : Hmac) (cfg : SessionTableConfig)
    (h : l.a.sendSeq = seqNum l.log.length) (ch : U8) (msgId : U16) (payload : Bytes)
    (now : Instant) (ha : l.a.state = .Active) (hf : ¬ fragments ch payload)
    (hv : FrameRef.Valid ⟨ch, msgId, payload⟩) (hle : HEADER_LEN + 4 + payload.length ≤ MTU)
    (hroom : ∀ qi, queueOf ch = some qi → (l.a.retrans qi).len < RETRANSMIT_QUEUE_CAP) :
    ∃ datagram, SendSpec hmac4 cfg l (l.send hmac4 cfg ch msgId payload now)
        (l.callOf ch msgId payload) 1 1 datagram ∧
      (l.send hmac4 cfg ch msgId payload now).failed = l.failed := by
  have hcount : (l.callOf ch msgId payload).count = 1 := if_neg hf
  obtain ⟨datagram, hs, hfail⟩ := send_fits hmac4 cfg h ch msgId payload now ha hv.1 hv.2
    (fun _ => hle) (fun qi hq => by rw [hcount]; exact hroom qi hq)
  rw [hcount] at hs
  exact ⟨datagram, hs, hfail⟩

section SendSpec

variable {l' : Link} {c : Call} {m taken : ℕ} {datagram : ℕ → Bytes}

theorem SendSpec.log_new (hs : SendSpec hmac4 cfg l l' c m taken datagram) {j : ℕ}
    (hj : j < taken) : l'.log[l.log.length + j]? =
      some ⟨c, if j < m then some (datagram j) else none⟩ := by
  rw [hs.log, List.getElem?_append_right (Nat.le_add_right _ _), Nat.add_sub_cancel_left]
  unfold logged
  rw [List.getElem?_map, List.getElem?_range hj]
  rfl

theorem SendSpec.log_old (hs : SendSpec hmac4 cfg l l' c m taken datagram) {i : ℕ}
    (hi : i < l.log.length) : l'.log[i]? = l.log[i]? := by
  rw [hs.log, List.getElem?_append_left hi]

theorem SendSpec.length_log (hs : SendSpec hmac4 cfg l l' c m taken datagram) :
    l'.log.length = l.log.length + taken := by
  rw [hs.log, List.length_append]
  unfold logged
  rw [List.length_map, List.length_range]

/-- An entry of the log is an old one or one of the call. -/
theorem SendSpec.log_cases (hs : SendSpec hmac4 cfg l l' c m taken datagram) {i : ℕ} {e : Sent}
    (he : l'.log[i]? = some e) :
    (i < l.log.length ∧ l.log[i]? = some e) ∨
      ∃ j < taken, i = l.log.length + j ∧ e = ⟨c, if j < m then some (datagram j) else none⟩ := by
  by_cases hi : i < l.log.length
  · exact Or.inl ⟨hi, by rw [← hs.log_old hi, he]⟩
  · have hlt : i < l.log.length + taken := by
      rw [← hs.length_log]
      exact (List.getElem?_eq_some_iff.1 he).1
    refine Or.inr ⟨i - l.log.length, by omega, by omega, ?_⟩
    have hnew := hs.log_new (j := i - l.log.length) (by omega)
    rw [show l.log.length + (i - l.log.length) = i by omega, he] at hnew
    exact Option.some.inj hnew

theorem SendSpec.wire_old (hs : SendSpec hmac4 cfg l l' c m taken datagram) {i : ℕ}
    (hi : i < l.log.length) : l'.tagged i = l.tagged i := by
  unfold tagged wire
  rw [hs.log_old hi]

theorem SendSpec.wire_new (hs : SendSpec hmac4 cfg l l' c m taken datagram) {j : ℕ} (hj : j < m) :
    l'.tagged (l.log.length + j) = (seqNum (l.log.length + j), datagram j) := by
  unfold tagged wire
  rw [hs.log_new (lt_of_lt_of_le hj hs.le_taken), if_pos hj]
  rfl

theorem wired_send (h : Wired cfg l) (hs : SendSpec hmac4 cfg l l' c m taken datagram)
    (hc : c.first = l.log.length) : Wired cfg l' where
  sendSeq := by rw [hs.sendSeq, hs.length_log]
  contents qi := by
    rw [hs.contents, hs.queued, h.contents, List.map_append]
    congr 1
    · exact List.map_congr_left fun i hi => (hs.wire_old (h.lt_of_queued hi)).symm
    · split_ifs
      · rw [List.range'_eq_map_range, List.map_map]
        refine List.map_congr_left fun j hj => ?_
        exact (hs.wire_new (List.mem_range.1 hj)).symm
      · rfl
  queued qi i hi := by
    rw [hs.queued, List.mem_append] at hi
    rcases hi with hi | hi
    · rw [hs.log_old (h.lt_of_queued hi)]
      exact h.queued qi i hi
    · split_ifs at hi with hq
      · obtain ⟨j, hj, rfl⟩ := List.mem_range'.1 hi
        rw [Nat.one_mul]
        exact ⟨_, hs.log_new (lt_of_lt_of_le hj hs.le_taken), by rw [if_pos hj]; rfl, hq⟩
      · cases hi
  sorted qi := by
    rw [hs.queued, List.pairwise_append]
    refine ⟨h.sorted qi, ?_, fun i hi j hj => ?_⟩
    · split_ifs
      · exact List.pairwise_lt_range'
      · exact List.Pairwise.nil
    · split_ifs at hj with hq
      · have hlt := h.lt_of_queued hi
        have hle := (List.mem_range'_1.1 hj).1
        omega
      · cases hj
  number i e he := by
    rcases hs.log_cases he with ⟨-, he⟩ | ⟨j, hj, rfl, rfl⟩
    · exact h.number i e he
    · have h1 := hs.taken_le_count
      have h2 := hs.taken_le
      refine ⟨?_, ?_, ?_⟩
      · show c.first ≤ _
        omega
      · show _ < c.first + c.count
        omega
      · show _ ≤ c.first + 64
        omega
  block i e he j hj hji := by
    rcases hs.log_cases he with ⟨hi, he⟩ | ⟨k, hk, rfl, rfl⟩
    · rw [hs.log_old (by omega)]
      exact h.block i e he j hj hji
    · have hj' : c.first ≤ j := hj
      obtain ⟨d, rfl⟩ := Nat.exists_eq_add_of_le (hc ▸ hj')
      exact ⟨_, hs.log_new (by omega), rfl⟩
  carried i e bytes he hb := by
    rcases hs.log_cases he with ⟨-, he⟩ | ⟨j, hj, rfl, rfl⟩
    · exact h.carried i e bytes he hb
    · have hb' : (if j < m then some (datagram j) else none) = some bytes := hb
      split_ifs at hb' with hjm
      cases hb'
      exact hs.carried j hjm

end SendSpec

/-! ## Acknowledgements -/

section Receive

variable (peer : SocketAddr) (header : DatagramHeader) (frames : List FrameRef)
  (now clock : Instant)

theorem contents_receiveA (h : Wired cfg l) (qi : Fin 2) :
    ((l.receiveA peer header frames now clock).a.retrans qi).contents =
      (if l.a.state = .Active then
        (l.queued qi).dropWhile fun i => isAcked (seqNum i) header.ack header.ackBits
      else l.queued qi).map l.tagged := by
  show ((handlePacket l.a Stats.new peer header frames now clock).session.retrans qi).contents = _
  cases hst : l.a.state with
  | Active =>
    have hv := congrArg SenderView.retrans
      (handlePacket_sender Stats.new peer header frames now clock hst)
    rw [show (handlePacket l.a Stats.new peer header frames now clock).session.retrans = _ from hv,
      RetransmitQueue.contents_onAck, h.contents, List.dropWhile_map]
    rfl
  | Grace since =>
    rw [(handlePacket_grace Stats.new peer header frames now clock hst).1]
    exact h.contents qi

/-- An acknowledgement removes the longest acknowledged prefix of each queue. -/
theorem queued_receiveA (h : Wired cfg l) (qi : Fin 2) :
    (l.receiveA peer header frames now clock).queued qi =
      if l.a.state = .Active then
        (l.queued qi).dropWhile fun i => isAcked (seqNum i) header.ack header.ackBits
      else l.queued qi := by
  have hc := contents_receiveA peer header frames now clock h qi
  set rest := if l.a.state = .Active then
      (l.queued qi).dropWhile fun i => isAcked (seqNum i) header.ack header.ackBits
    else l.queued qi with hrest
  have hsuffix : rest <:+ l.queued qi := by
    rw [hrest]
    split_ifs
    · exact List.dropWhile_suffix _
    · exact List.suffix_rfl
  have h1 : ((l.receiveA peer header frames now clock).a.retrans qi).len = rest.length := by
    have := congrArg List.length hc
    rw [RetransmitQueue.length_contents, List.length_map] at this
    exact this
  have h2 : (l.a.retrans qi).len = (l.queued qi).length := by
    have := congrArg List.length (h.contents qi)
    rw [RetransmitQueue.length_contents, List.length_map] at this
    exact this
  show (l.queued qi).drop ((l.a.retrans qi).len -
    ((l.receiveA peer header frames now clock).a.retrans qi).len) = rest
  rw [h1, h2]
  exact (List.suffix_iff_eq_drop.1 hsuffix).symm

theorem sendSeq_receiveA :
    (l.receiveA peer header frames now clock).a.sendSeq = l.a.sendSeq ∧
      (l.receiveA peer header frames now clock).a.fragGroupId = l.a.fragGroupId := by
  show (handlePacket l.a Stats.new peer header frames now clock).session.sendSeq = _ ∧
    (handlePacket l.a Stats.new peer header frames now clock).session.fragGroupId = _
  cases hst : l.a.state with
  | Active =>
    have hv := handlePacket_sender Stats.new peer header frames now clock hst
    exact ⟨congrArg SenderView.sendSeq hv, congrArg SenderView.fragGroupId hv⟩
  | Grace since =>
    rw [(handlePacket_grace Stats.new peer header frames now clock hst).1]
    exact ⟨rfl, rfl⟩

theorem wired_receiveA (h : Wired cfg l) :
    Wired cfg (l.receiveA peer header frames now clock) where
  sendSeq := (sendSeq_receiveA peer header frames now clock).1.trans h.sendSeq
  contents qi := by
    rw [queued_receiveA peer header frames now clock h,
      contents_receiveA peer header frames now clock h]
    rfl
  queued qi i hi := h.queued qi i (List.mem_of_mem_drop hi)
  sorted qi := (h.sorted qi).sublist (List.drop_sublist _ _)
  number := h.number
  block := h.block
  carried := h.carried

end Receive

/-! ## Every run -/

/-- What `Wired` looks at. -/
theorem Wired.congr {l' : Link} (h : Wired cfg l) (hs : l'.a.sendSeq = l.a.sendSeq)
    (hc : ∀ qi, (l'.a.retrans qi).contents = (l.a.retrans qi).contents) (hl : l'.log = l.log)
    (hq : l'.queued = l.queued) : Wired cfg l' where
  sendSeq := by rw [hs, hl, h.sendSeq]
  contents qi := by
    have ht : l'.tagged = l.tagged := by
      funext i
      unfold tagged wire
      rw [hl]
    rw [hc, hq, ht, h.contents]
  queued := by rw [hq, hl]; exact h.queued
  sorted := by rw [hq]; exact h.sorted
  number := by rw [hl]; exact h.number
  block := by rw [hl]; exact h.block
  carried := by rw [hl]; exact h.carried

theorem arrive_cases (hmac4 : Hmac) (cfg : SessionTableConfig) (l : Link) (i : ℕ)
    (peer : SocketAddr) (now clock : Instant) :
    l.step hmac4 cfg (.arrive i peer now clock) = l ∨
      ∃ call bytes, l.log[i]? = some ⟨call, some bytes⟩ ∧
        l.step hmac4 cfg (.arrive i peer now clock) =
          l.receiveB cfg i call bytes peer now clock := by
  unfold step
  dsimp only
  rcases he : l.log[i]? with _ | ⟨call, _ | bytes⟩
  · exact Or.inl rfl
  · exact Or.inl rfl
  · exact Or.inr ⟨call, bytes, rfl, rfl⟩

/-- Only a call of `a` adds to the log. -/
theorem log_step_of_not_send (hmac4 : Hmac) (cfg : SessionTableConfig) (l : Link) {x : Action}
    (hx : ∀ ch msgId payload now, x ≠ .sendA ch msgId payload now) :
    (l.step hmac4 cfg x).log = l.log ∧ (l.step hmac4 cfg x).a.fragGroupId = l.a.fragGroupId := by
  cases x with
  | sendA ch msgId payload now => exact absurd rfl (hx ch msgId payload now)
  | recvA peer header frames now clock =>
    exact ⟨rfl, (sendSeq_receiveA peer header frames now clock).2⟩
  | idleA now =>
    refine ⟨rfl, ?_⟩
    show (l.a.maintain cfg now).fragGroupId = _
    unfold Session.maintain
    split_ifs <;> rfl
  | arrive i peer now clock =>
    rcases arrive_cases hmac4 cfg l i peer now clock with heq | ⟨call, bytes, -, heq⟩
    · rw [heq]
      exact ⟨rfl, rfl⟩
    · rw [heq]
      exact ⟨rfl, rfl⟩
  | _ => exact ⟨rfl, rfl⟩

/-- A failed call is not forgotten. -/
theorem failed_of_step {x : Action} (h : (l.step hmac4 cfg x).failed = false) :
    l.failed = false := by
  cases x with
  | sendA ch msgId payload now =>
    have h' : (l.failed || _) = false := h
    exact (Bool.or_eq_false_iff.1 h').1
  | arrive i peer now clock =>
    rcases arrive_cases hmac4 cfg l i peer now clock with heq | ⟨call, bytes, -, heq⟩
    · rw [heq] at h
      exact h
    · rw [heq] at h
      exact h
  | _ => exact h

/-- **The sending side.** Every action keeps it wired. -/
theorem wired_step (h : Wired cfg l) (x : Action) : Wired cfg (l.step hmac4 cfg x) := by
  cases x with
  | sendA ch msgId payload now =>
    by_cases ha : l.a.state = .Active
    · obtain ⟨m, taken, datagram, hs⟩ := send_spec hmac4 cfg h.sendSeq ch msgId payload now ha
      exact wired_send h hs rfl
    · show Wired cfg (l.send hmac4 cfg ch msgId payload now)
      rw [send_inactive ch msgId payload now ha]
      exact h
  | recvA peer header frames now clock => exact wired_receiveA peer header frames now clock h
  | resendA now =>
    exact h.congr rfl (fun qi => RetransmitQueue.contents_retransmitDue _ _ _) rfl rfl
  | idleA now =>
    have hm : (l.a.maintain cfg now).sendSeq = l.a.sendSeq ∧
        (l.a.maintain cfg now).retrans = l.a.retrans := by
      unfold Session.maintain
      split_ifs <;> exact ⟨rfl, rfl⟩
    refine h.congr hm.1 (fun qi => ?_) rfl rfl
    show ((l.a.maintain cfg now).retrans qi).contents = _
    rw [hm.2]
  | arrive i peer now clock =>
    rcases arrive_cases hmac4 cfg l i peer now clock with heq | ⟨call, bytes, -, heq⟩
    · rw [heq]
      exact h
    · rw [heq]
      exact h.congr rfl (fun _ => rfl) rfl rfl
  | ackB peer header now clock => exact h.congr rfl (fun _ => rfl) rfl rfl
  | sendB ch msgId payload now => exact h.congr rfl (fun _ => rfl) rfl rfl
  | resendB now => exact h.congr rfl (fun _ => rfl) rfl rfl
  | idleB now => exact h.congr rfl (fun _ => rfl) rfl rfl

/-- Messages on Ch0 only use up numbers. -/
theorem exists_numbers (hmac4 : Hmac) (h : Wired cfg l) (ha : l.a.state = .Active) (n : ℕ) :
    ∃ l', Reach (step hmac4 cfg) (fun _ x => ∃ ch msgId payload now,
        x = .sendA ch msgId payload now)
        l l' ∧ Wired cfg l' ∧ l'.a.state = .Active ∧ l'.log.length = l.log.length + n ∧
      l'.queued = l.queued ∧
      l' = { l with a := l'.a, log := l'.log, queued := l'.queued, failed := l'.failed } := by
  induction n with
  | zero => exact ⟨l, .start, h, ha, rfl, rfl, rfl⟩
  | succ n ih =>
    obtain ⟨l₁, hl, hw, hact, hn, hq, hsame⟩ := ih
    obtain ⟨datagram, hs, -⟩ :=
      send_single hmac4 cfg hw.sendSeq 0 0 [] 0 hact (by decide) (by decide)
      (by decide) (fun qi hq => by cases hq)
    refine ⟨_, hl.next (.sendA 0 0 [] 0) ⟨0, 0, [], 0, rfl⟩, wired_step hw _, hs.active, ?_, ?_, ?_⟩
    · rw [← Nat.add_assoc, ← hn]
      exact hs.length_log
    · funext qi
      have hqi := hs.queued qi
      rw [hq] at hqi
      exact hqi.trans (List.append_nil _)
    · show l₁.send hmac4 cfg 0 0 [] 0 = _
      rw [hs.same, hsame]
      rfl

end

end Link

end SoupEngine
