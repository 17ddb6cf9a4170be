import SoupEngine.Session.Slots

/-!
# Sessions do not disturb each other

A packet reads and writes the session of its connection id, and only adds to the counters
(`handlePacket_plus`). So a datagram that is not a handshake does the same in any two tables that
agree on its connection (`handleDatagram_write`, `handleDatagram_plus`), and two of them for
different connections commute.
-/

namespace SoupEngine

open BoundedMemory

attribute [local irreducible] remember

attribute [ext] Stats

/-! ## Counters -/

/-- The counters of two periods together. -/
instance : Add Stats where
  add a b :=
    { sessionsActive := a.sessionsActive + b.sessionsActive
      sessionsHandshaking := a.sessionsHandshaking + b.sessionsHandshaking
      sessionsGrace := a.sessionsGrace + b.sessionsGrace
      pktIn := a.pktIn + b.pktIn
      pktOut := a.pktOut + b.pktOut
      pktBad := a.pktBad + b.pktBad
      pktBytesIn := a.pktBytesIn + b.pktBytesIn
      pktBytesOut := a.pktBytesOut + b.pktBytesOut
      droppedUp := a.droppedUp + b.droppedUp
      droppedDown := a.droppedDown + b.droppedDown
      natRebind := a.natRebind + b.natRebind
      logicReconnects := a.logicReconnects + b.logicReconnects
      kicks := a.kicks + b.kicks
      retransmits := a.retransmits + b.retransmits
      acksSeen := a.acksSeen + b.acksSeen }

section Counters

variable (st d : Stats)

theorem word_swap (x y z : U64) : x + y + z = x + z + y := by
  rw [BitVec.add_assoc, BitVec.add_comm y z, BitVec.add_assoc]

theorem Stats.add_swap (e : Stats) : st + d + e = st + e + d := by
  ext1
  all_goals exact word_swap _ _ _

theorem Stats.new_add : Stats.new + st = st := by
  ext1
  all_goals exact BitVec.zero_add _

theorem Stats.add_comm : st + d = d + st := by
  ext1
  all_goals exact BitVec.add_comm _ _

variable {st d} in
/-- What only adds to the counters adds the same to all of them. -/
theorem Stats.additive {g : Stats → Stats} (h : ∀ a b, g (a + b) = g a + b) :
    g st = st + g Stats.new := by
  rw [Stats.add_comm, ← h, Stats.new_add]

theorem incrPktBad_add : (st + d).incrPktBad = st.incrPktBad + d := by
  ext1
  case pktBad => exact word_swap _ _ _
  all_goals rfl

theorem pktIn_add (n : U64) :
    { st + d with pktIn := (st + d).pktIn + n } = { st with pktIn := st.pktIn + n } + d := by
  ext1
  case pktIn => exact word_swap _ _ _
  all_goals rfl

theorem pktBytesIn_add (n : U64) :
    { st + d with pktBytesIn := (st + d).pktBytesIn + n } =
      { st with pktBytesIn := st.pktBytesIn + n } + d := by
  ext1
  case pktBytesIn => exact word_swap _ _ _
  all_goals rfl

theorem natRebind_add (n : U64) :
    { st + d with natRebind := (st + d).natRebind + n } =
      { st with natRebind := st.natRebind + n } + d := by
  ext1
  case natRebind => exact word_swap _ _ _
  all_goals rfl

theorem acksSeen_add (n m : U64) :
    { st + d with acksSeen := (st + d).acksSeen + n, retransmits := (st + d).retransmits + m } =
      { st with acksSeen := st.acksSeen + n, retransmits := st.retransmits + m } + d := by
  ext1
  case acksSeen => exact word_swap _ _ _
  case retransmits => exact word_swap _ _ _
  all_goals rfl

end Counters

/-! ## Packets -/

/-- The same with more on the counters. -/
def Rx.plus (rx : Rx) (d : Stats) : Rx := { rx with stats := rx.stats + d }

section Packet

variable (header : DatagramHeader) (now : Instant) (d : Stats)

theorem dispatchFrame_plus (rx : Rx) (f : FrameRef) :
    dispatchFrame header now (rx.plus d) f = (dispatchFrame header now rx f).plus d := by
  unfold dispatchFrame Rx.plus
  dsimp only
  split_ifs
  · rfl
  · rfl
  · rfl
  · rfl
  · rfl
  · rfl
  · rw [incrPktBad_add]

theorem handleFrame_plus (rx : Rx) (f : FrameRef) :
    handleFrame header now (rx.plus d) f = (handleFrame header now rx f).plus d := by
  unfold handleFrame
  rw [← dispatchFrame_plus]
  unfold Rx.plus
  dsimp only
  rw [pktBytesIn_add]

theorem foldl_plus (frames : List FrameRef) (rx : Rx) :
    frames.foldl (handleFrame header now) (rx.plus d) =
      (frames.foldl (handleFrame header now) rx).plus d := by
  induction frames generalizing rx with
  | nil => rfl
  | cons f fs ih => rw [List.foldl_cons, List.foldl_cons, handleFrame_plus, ih]

theorem answerAck_plus (peer : SocketAddr) (rx : Rx) :
    answerAck peer (rx.plus d) = (answerAck peer rx).plus d := by
  unfold answerAck Rx.plus
  dsimp only
  split_ifs
  · rcases encode (pureAck rx.session) [] [] with ⟨out, e | n⟩
    · rfl
    · rfl
  · rfl

/-- A packet only adds to the counters. -/
theorem handlePacket_plus (s : Session) (stats : Stats) (peer : SocketAddr) (frames : List FrameRef)
    (clock : Instant) :
    handlePacket s (stats + d) peer header frames now clock =
      (handlePacket s stats peer header frames now clock).plus d := by
  have hrebind : (if s.peer ≠ peer then { stats + d with natRebind := (stats + d).natRebind + 1 }
      else stats + d) =
      (if s.peer ≠ peer then { stats with natRebind := stats.natRebind + 1 } else stats) + d := by
    split_ifs
    · exact natRebind_add stats d 1
    · rfl
  unfold handlePacket
  dsimp only
  rw [hrebind]
  cases s.state with
  | Grace since => rfl
  | Active =>
    dsimp only
    unfold handleActive
    rw [← answerAck_plus, ← foldl_plus]
    unfold startRx
    dsimp only
    rw [acksSeen_add]
    rfl

end Packet

/-! ## Datagrams -/

/-- The connection id of a datagram with a header. -/
def connIdOf (buf : Bytes) : U32 := fromLe 32 (slice buf 4 8)

/-- The handshake flag is not set. -/
def NoHandshake (buf : Bytes) : Prop := fromLe 8 (slice buf 3 4) &&& FLAG_HANDSHAKE = 0

instance (buf : Bytes) : Decidable (NoHandshake buf) := by unfold NoHandshake; infer_instance

theorem slice_take (buf : Bytes) {lo hi n : ℕ} (h : hi ≤ n) :
    slice (buf.take n) lo hi = slice buf lo hi := by
  unfold slice
  rw [List.take_take, min_eq_left h]

theorem decode_header {data : Bytes} {header : DatagramHeader} {frames : List FrameRef}
    (h : decode data = .ok (header, frames)) :
    HEADER_LEN ≤ data.length ∧ header.flags = fromLe 8 (slice data 3 4) ∧
    header.connId = connIdOf data := by
  unfold decode at h
  split_ifs at h with hlen
  dsimp only at h
  split_ifs at h
  split at h
  · cases h
  · cases h
    exact ⟨not_lt.1 hlen, rfl, rfl⟩

namespace SessionTable

variable {cfg : SessionTableConfig}

/-- The same table with more on the counters. -/
def plus (t : SessionTable cfg) (d : Stats) : SessionTable cfg := { t with stats := t.stats + d }

/-- Store a session, if there is one. -/
def write (t : SessionTable cfg) (c : U32) : Option Session → SessionTable cfg
  | none => t
  | some s => t.set c s

theorem bad_eq (t : SessionTable cfg) : t.bad = t.plus Stats.new.incrPktBad := by
  unfold bad plus
  rw [Stats.additive incrPktBad_add]

theorem get_write (t : SessionTable cfg) {c d : U32} (h : c ≠ d) (o : Option Session) :
    (t.write c o).get d = t.get d := by
  cases o with
  | none => rfl
  | some s =>
    show (Function.update t.shards _ _ (shard d))[d]? = (t.shards (shard d))[d]?
    rw [get_insert, if_neg]
    rintro ⟨-, rfl⟩
    exact h rfl

theorem write_plus (t : SessionTable cfg) (c : U32) (o : Option Session) (d : Stats) :
    (t.write c o).plus d = (t.plus d).write c o := by
  cases o with
  | none => rfl
  | some s => rfl

theorem plus_swap (t : SessionTable cfg) (d e : Stats) : (t.plus d).plus e = (t.plus e).plus d := by
  unfold plus
  dsimp only
  rw [Stats.add_swap]

theorem getElem?_set (t : SessionTable cfg) (d : U32) (s : Session) (i : Fin (max cfg.shards 1))
    (c : U32) :
    ((t.set d s).shards i)[c]? = if i = shard d ∧ c = d then some s else (t.shards i)[c]? :=
      get_insert

/-- Two connections are stored in either order. -/
theorem write_swap (t : SessionTable cfg) {c d : U32} (h : c ≠ d) (o p : Option Session) :
    (t.write c o).write d p = (t.write d p).write c o := by
  cases o with
  | none => rfl
  | some s =>
    cases p with
    | none => rfl
    | some s' =>
      have hshards : ((t.set c s).set d s').shards = ((t.set d s').set c s).shards := by
        funext i
        apply Std.ExtTreeMap.ext_getElem?
        intro k
        rw [getElem?_set, getElem?_set, getElem?_set, getElem?_set]
        split_ifs with hd hc
        · exact absurd (hc.2.symm.trans hd.2) h
        · rfl
        · rfl
        · rfl
      show { t with shards := ((t.set c s).set d s').shards } = _
      rw [hshards]
      rfl

end SessionTable

section Datagram

variable {cfg : SessionTableConfig} (hmac4 : Hmac) (peer : SocketAddr) (buf : Bytes)
  (random : Vector U8 8) (now clock : Instant)

/-- The counters after a datagram that can be read. -/
def Stats.seen (st : Stats) : Stats := { st with pktIn := st.pktIn + 1 }

theorem seen_add (st d : Stats) : (st + d).seen = st.seen + d := pktIn_add st d 1

/-- A datagram that counts as bad after it has been read. -/
theorem seen_bad (t : SessionTable cfg) :
    { t with stats := t.stats.seen }.bad = t.plus Stats.new.seen.incrPktBad := by
  have hadd (a b : Stats) : (a + b).seen.incrPktBad = a.seen.incrPktBad + b := by
    rw [seen_add, incrPktBad_add]
  show { t with stats := t.stats.seen.incrPktBad } = _
  unfold SessionTable.plus
  rw [Stats.additive (g := fun st => st.seen.incrPktBad) hadd]

/-- What the packet of a session does in any table that holds the session. -/
theorem seen_packet (t : SessionTable cfg) (s : Session) (header : DatagramHeader)
    (frames : List FrameRef) :
    (⟨{ { t with stats := t.stats.seen }.set header.connId
          (handlePacket s t.stats.seen peer header frames now clock).session with
        stats := (handlePacket s t.stats.seen peer header frames now clock).stats },
      (handlePacket s t.stats.seen peer header frames now clock).events,
      (handlePacket s t.stats.seen peer header frames now clock).sent⟩ : Handled cfg) =
    ⟨(t.plus (handlePacket s Stats.new.seen peer header frames now clock).stats).write header.connId
        (some (handlePacket s Stats.new.seen peer header frames now clock).session),
      (handlePacket s Stats.new.seen peer header frames now clock).events,
      (handlePacket s Stats.new.seen peer header frames now clock).sent⟩ := by
  have hrx : handlePacket s t.stats.seen peer header frames now clock =
      (handlePacket s Stats.new.seen peer header frames now clock).plus t.stats := by
    rw [← handlePacket_plus, ← seen_add, Stats.new_add]
  rw [hrx]
  unfold Rx.plus SessionTable.plus
  dsimp only
  rw [Stats.add_comm]
  rfl

/-- A plaintext that is no handshake packet depends on the session of its connection, writes it and
adds to the counters. -/
theorem handlePlain_local (data : Bytes) (hflag : NoHandshake data) (o : Option Session) :
    ∃ (d : Stats) (o' : Option Session) (events : List SessionEvent)
      (sent : List (Bytes × SocketAddr)),
      ∀ t : SessionTable cfg, t.get (connIdOf data) = o →
        t.handlePlain peer data random now clock =
          ⟨(t.plus d).write (connIdOf data) o', events, sent⟩ := by
  cases hdec : decode data with
  | error e =>
    refine ⟨Stats.new.incrPktBad, none, [], [], fun t _ => ?_⟩
    unfold SessionTable.handlePlain
    rw [hdec]
    dsimp only
    rw [t.bad_eq]
    rfl
  | ok r =>
    obtain ⟨header, frames⟩ := r
    obtain ⟨-, hflags, hconn⟩ := decode_header hdec
    have hplain : ¬ header.flags &&& FLAG_HANDSHAKE ≠ 0 := by
      rw [hflags]
      exact not_not.2 hflag
    rw [← hconn]
    by_cases hzero : header.connId = 0
    · refine ⟨Stats.new.seen.incrPktBad, none, [], [], fun t _ => ?_⟩
      unfold SessionTable.handlePlain
      rw [hdec]
      dsimp only
      rw [if_neg hplain, if_pos hzero]
      exact congrArg (fun t' => (⟨t', [], []⟩ : Handled cfg)) (seen_bad t)
    · cases o with
      | none =>
        refine ⟨Stats.new.seen.incrPktBad, none, [], [], fun t hget => ?_⟩
        have hget' :
            SessionTable.get { t with stats := { t.stats with pktIn := t.stats.pktIn + 1 } }
            header.connId = none := hget
        unfold SessionTable.handlePlain
        rw [hdec]
        dsimp only
        rw [if_neg hplain, if_neg hzero]
        unfold SessionTable.handleSessionPacket
        rw [hget']
        exact congrArg (fun t' => (⟨t', [], []⟩ : Handled cfg)) (seen_bad t)
      | some s =>
        let rx := handlePacket s Stats.new.seen peer header frames now clock
        refine ⟨rx.stats, some rx.session, rx.events, rx.sent, fun t hget => ?_⟩
        have hget' :
            SessionTable.get { t with stats := { t.stats with pktIn := t.stats.pktIn + 1 } }
            header.connId = some s := hget
        unfold SessionTable.handlePlain
        rw [hdec]
        dsimp only
        rw [if_neg hplain, if_neg hzero]
        unfold SessionTable.handleSessionPacket
        rw [hget']
        exact seen_packet peer now clock t s header frames

/-- The HMAC check asks for the session of the connection only. -/
theorem verifyHmac_local (cfg : SessionTableConfig) (o : Option Session) :
    ∃ v, (∀ t : SessionTable cfg, t.get (connIdOf buf) = o → t.verifyHmac hmac4 buf = v) ∧
      ∀ data, v = .Ok data → data = buf.take (buf.length - HMAC_LEN) ∧
      HEADER_LEN + HMAC_LEN ≤ buf.length := by
  by_cases hoff : ¬ cfg.enableHmac ∨ buf.length < HEADER_LEN
  · refine ⟨.NoHmac, fun t _ => ?_, fun data hdata => nomatch hdata⟩
    unfold SessionTable.verifyHmac
    rw [if_pos hoff]
  by_cases hflags : fromLe 8 (slice buf 3 4) &&& (FLAG_HANDSHAKE ||| FLAG_HMAC) ≠ FLAG_HMAC
  · refine ⟨.NoHmac, fun t _ => ?_, fun data hdata => nomatch hdata⟩
    unfold SessionTable.verifyHmac
    rw [if_neg hoff, if_pos hflags]
  by_cases hmac : buf.length < HEADER_LEN + HMAC_LEN
  · refine ⟨.Bad, fun t _ => ?_, fun data hdata => nomatch hdata⟩
    unfold SessionTable.verifyHmac
    rw [if_neg hoff, if_neg hflags, if_pos hmac]
  cases o with
  | none =>
    refine ⟨.Bad, fun t hget => ?_, fun data hdata => nomatch hdata⟩
    unfold SessionTable.verifyHmac
    rw [if_neg hoff, if_neg hflags, if_neg hmac,
      show t.get (fromLe 32 (slice buf 4 8)) = none from hget]
  | some s =>
    refine ⟨if buf.drop (buf.length - HMAC_LEN) =
        (hmac4 (leBytes s.secret) (buf.take (buf.length - HMAC_LEN))).toList then
      .Ok (buf.take (buf.length - HMAC_LEN)) else .Bad, fun t hget => ?_, fun data hdata => ?_⟩
    · unfold SessionTable.verifyHmac
      rw [if_neg hoff, if_neg hflags, if_neg hmac,
        show t.get (fromLe 32 (slice buf 4 8)) = some s from hget]
    · split_ifs at hdata
      cases hdata
      exact ⟨rfl, not_lt.1 hmac⟩

/-- **One datagram** that is no handshake packet depends on the session of its connection, writes it
and adds to the counters. -/
theorem handleDatagram_local (hflag : NoHandshake buf) (o : Option Session) :
    ∃ (d : Stats) (o' : Option Session) (events : List SessionEvent)
      (sent : List (Bytes × SocketAddr)),
      (buf.length < HEADER_LEN → o' = none) ∧
      ∀ t : SessionTable cfg, (HEADER_LEN ≤ buf.length → t.get (connIdOf buf) = o) →
        t.handleDatagram hmac4 peer buf random now clock =
          ⟨(t.plus d).write (connIdOf buf) o', events, sent⟩ := by
  by_cases hlen : HEADER_LEN ≤ buf.length
  · obtain ⟨v, hv, hok⟩ := verifyHmac_local hmac4 buf cfg o
    have hlong (h : buf.length < HEADER_LEN) : False := absurd hlen (not_le.2 h)
    cases v with
    | Bad =>
      refine ⟨Stats.new.incrPktBad, none, [], [], fun _ => rfl, fun t hget => ?_⟩
      unfold SessionTable.handleDatagram
      rw [hv t (hget hlen)]
      dsimp only
      rw [t.bad_eq]
      rfl
    | NoHmac =>
      obtain ⟨d, o', events, sent, h⟩ := @handlePlain_local cfg peer random now clock buf hflag o
      refine ⟨d, o', events, sent, fun h => (hlong h).elim, fun t hget => ?_⟩
      unfold SessionTable.handleDatagram
      rw [hv t (hget hlen)]
      exact h t (hget hlen)
    | Ok data =>
      obtain ⟨rfl, hmac⟩ := hok data rfl
      have hcut : HEADER_LEN ≤ buf.length - HMAC_LEN := Nat.le_sub_of_add_le hmac
      have hconn : connIdOf (buf.take (buf.length - HMAC_LEN)) = connIdOf buf := by
        unfold connIdOf
        rw [slice_take buf (le_trans (by decide) hcut)]
      have hflag' : NoHandshake (buf.take (buf.length - HMAC_LEN)) := by
        unfold NoHandshake
        rw [slice_take buf (le_trans (by decide) hcut)]
        exact hflag
      obtain ⟨d, o', events, sent, h⟩ := @handlePlain_local cfg peer random now clock _ hflag' o
      rw [hconn] at h
      refine ⟨d, o', events, sent, fun h => (hlong h).elim, fun t hget => ?_⟩
      unfold SessionTable.handleDatagram
      rw [hv t (hget hlen)]
      exact h t (hget hlen)
  · -- without a header
    refine ⟨Stats.new.incrPktBad, none, [], [], fun _ => rfl, fun t _ => ?_⟩
    have hshort : buf.length < HEADER_LEN := not_le.1 hlen
    unfold SessionTable.handleDatagram SessionTable.verifyHmac
    rw [if_pos (Or.inr hshort)]
    unfold SessionTable.handlePlain decode
    rw [if_pos hshort]
    dsimp only
    rw [t.bad_eq]
    rfl

end Datagram

/-! ## Two datagrams -/

/-- A datagram with its sender and the readings that belong to it. -/
structure Received where
  peer : SocketAddr
  buf : Bytes
  random : Vector U8 8
  now : Instant
  clock : Instant

/-- `handle_datagram`. -/
def Received.handle {cfg : SessionTableConfig} (hmac4 : Hmac) (r : Received)
    (t : SessionTable cfg) :
    Handled cfg :=
  t.handleDatagram hmac4 r.peer r.buf r.random r.now r.clock

/-- **Sessions are isolated and their packets commute.** Of two datagrams without the handshake
flag, that have different connection ids if both have a header, each returns the same in both
orders, and leaves the session of the other one alone; the tables with their counters are equal in
the end. -/
theorem datagrams_commute {cfg : SessionTableConfig} (hmac4 : Hmac) (t : SessionTable cfg)
    (a b : Received) (ha : NoHandshake a.buf) (hb : NoHandshake b.buf)
    (hne : HEADER_LEN ≤ a.buf.length → HEADER_LEN ≤ b.buf.length →
      connIdOf a.buf ≠ connIdOf b.buf) :
    (b.handle hmac4 (a.handle hmac4 t).table).table =
      (a.handle hmac4 (b.handle hmac4 t).table).table ∧
    (b.handle hmac4 (a.handle hmac4 t).table).events = (b.handle hmac4 t).events ∧
    (b.handle hmac4 (a.handle hmac4 t).table).sent = (b.handle hmac4 t).sent ∧
    (a.handle hmac4 (b.handle hmac4 t).table).events = (a.handle hmac4 t).events ∧
    (a.handle hmac4 (b.handle hmac4 t).table).sent = (a.handle hmac4 t).sent ∧
    ((HEADER_LEN ≤ b.buf.length → (a.handle hmac4 t).table.get (connIdOf b.buf) =
      t.get (connIdOf b.buf)) ∧
      (HEADER_LEN ≤ a.buf.length →
        (b.handle hmac4 t).table.get (connIdOf a.buf) = t.get (connIdOf a.buf))) := by
  obtain ⟨da, oa, ea, sa, hnonea, hA⟩ :=
    @handleDatagram_local cfg hmac4 a.peer a.buf a.random a.now a.clock ha (t.get (connIdOf a.buf))
  obtain ⟨db, ob, eb, sb, hnoneb, hB⟩ :=
    @handleDatagram_local cfg hmac4 b.peer b.buf b.random b.now b.clock hb (t.get (connIdOf b.buf))
  have hat : a.handle hmac4 t = ⟨(t.plus da).write (connIdOf a.buf) oa, ea, sa⟩ := hA t fun _ => rfl
  have hbt : b.handle hmac4 t = ⟨(t.plus db).write (connIdOf b.buf) ob, eb, sb⟩ := hB t fun _ => rfl
  -- neither writes the session of the other one
  have hgetb (hlen : HEADER_LEN ≤ b.buf.length) :
      (a.handle hmac4 t).table.get (connIdOf b.buf) = t.get (connIdOf b.buf) := by
    rw [hat]
    by_cases hlena : HEADER_LEN ≤ a.buf.length
    · exact SessionTable.get_write _ (hne hlena hlen) oa
    · rw [hnonea (not_le.1 hlena)]
      rfl
  have hgeta (hlen : HEADER_LEN ≤ a.buf.length) :
      (b.handle hmac4 t).table.get (connIdOf a.buf) = t.get (connIdOf a.buf) := by
    rw [hbt]
    by_cases hlenb : HEADER_LEN ≤ b.buf.length
    · exact SessionTable.get_write _ (hne hlen hlenb).symm ob
    · rw [hnoneb (not_le.1 hlenb)]
      rfl
  have hab : b.handle hmac4 (a.handle hmac4 t).table =
      ⟨((a.handle hmac4 t).table.plus db).write (connIdOf b.buf) ob, eb, sb⟩ := hB _ hgetb
  have hba : a.handle hmac4 (b.handle hmac4 t).table =
      ⟨((b.handle hmac4 t).table.plus da).write (connIdOf a.buf) oa, ea, sa⟩ := hA _ hgeta
  rw [hab, hba]
  refine ⟨?_, by rw [hbt], by rw [hbt], by rw [hat], by rw [hat], hgetb, hgeta⟩
  rw [hat, hbt]
  dsimp only
  rw [SessionTable.write_plus, SessionTable.write_plus, SessionTable.plus_swap]
  by_cases hlena : HEADER_LEN ≤ a.buf.length
  · by_cases hlenb : HEADER_LEN ≤ b.buf.length
    · exact SessionTable.write_swap _ (hne hlena hlenb) oa ob
    · rw [hnoneb (not_le.1 hlenb)]
      rfl
  · rw [hnonea (not_le.1 hlena)]
    rfl

/-- A byte for a connection. -/
def oneByte (connId : U32) : Received where
  peer := .V4 0 0
  buf := (encode ⟨VERSION, 0, connId, 0, 0, 0⟩ [⟨0, 0, [7]⟩] []).1
  random := Vector.replicate 8 0
  now := 0
  clock := 0

/-- Two clients send a byte each. -/
theorem datagrams_commute_bytes :
    ((oneByte 2).handle noHmac
      ((oneByte 1).handle noHmac (plainRun (hello ++ hello)).1).table).table =
      ((oneByte 1).handle noHmac
        ((oneByte 2).handle noHmac (plainRun (hello ++ hello)).1).table).table :=
  (datagrams_commute noHmac (plainRun (hello ++ hello)).1 (oneByte 1) (oneByte 2)
    (by decide +kernel) (by decide +kernel) fun _ _ => by decide +kernel).1

end SoupEngine
