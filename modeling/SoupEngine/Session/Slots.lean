import SoupEngine.Session.Events

/-!
# What an operation does to one connection

A datagram is idle, answers a challenge and opens a session, or is accepted for the session of its
connection id (`handleDatagram_outcome`). From this and the other operations follows what can happen
to the session that is stored under one connection id (`act_slot`).
-/

namespace SoupEngine

variable {cfg : SessionTableConfig}

/-- The datagram is accepted for a session. -/
structure Accepts (hmac4 : Hmac) (t : SessionTable cfg) (buf : Bytes) (header : DatagramHeader)
    (frames : List FrameRef) (s : Session) : Prop where
  reads : t.reads hmac4 buf = some (header, frames)
  plain : header.flags &&& FLAG_HANDSHAKE = 0
  conn : header.connId ≠ 0
  get : t.get header.connId = some s

/-- The datagram is a handshake packet with this first frame. -/
def Greets (hmac4 : Hmac) (t : SessionTable cfg) (buf : Bytes) (f : FrameRef) : Prop :=
  ∃ header frames, t.reads hmac4 buf = some (header, frames) ∧ header.flags &&& FLAG_HANDSHAKE ≠ 0 ∧
    frames.head? = some f

/-- The datagram answers the challenge that is pending for its sender. -/
structure Answers (hmac4 : Hmac) (t : SessionTable cfg) (peer : SocketAddr) (buf : Bytes)
    (now : Instant) (f : FrameRef) (rec : PendingHandshake) : Prop where
  greets : Greets hmac4 t buf f
  pending : t.pending[peer]? = some rec
  fresh : now - rec.created < cfg.handshakeTimeout
  length : 8 ≤ f.body.length
  challenge : f.body.take 8 = rec.challenge.toList

/-- The session that an answered challenge opens. -/
def SessionTable.opened (t : SessionTable cfg) (peer : SocketAddr) (f : FrameRef)
    (random : Vector U8 8) (now : Instant) : Session :=
  Session.create (t.nextConnId.setWidth 32) t.nextSessId peer (fromLe 64 random.toList)
    (f.body.drop 8) now

section Datagram

variable (hmac4 : Hmac) (t : SessionTable cfg) (peer : SocketAddr) (buf : Bytes)
  (random : Vector U8 8) (now clock : Instant)

/-- The pending challenges that have not expired. -/
def SessionTable.fresh (t : SessionTable cfg) (now : Instant) : Map SocketAddr PendingHandshake :=
  t.pending.filter fun _ p => decide (now - p.created < cfg.handshakeTimeout)

theorem SessionTable.fresh_eq_some {t : SessionTable cfg} {peer : SocketAddr} {now : Instant}
    {rec : PendingHandshake} : (t.fresh now)[peer]? = some rec ↔
      t.pending[peer]? = some rec ∧ now - rec.created < cfg.handshakeTimeout := by
  unfold fresh
  rw [Std.ExtTreeMap.getElem?_filter, Option.pfilter_eq_some_iff]
  constructor
  · rintro ⟨hget, hfresh⟩
    exact ⟨hget, of_decide_eq_true hfresh⟩
  · rintro ⟨hget, hfresh⟩
    exact ⟨hget, decide_eq_true hfresh⟩

/-- What handling a datagram comes to. -/
inductive DatagramOutcome (r : Handled cfg) : Prop
  /-- It is dropped, and nothing but a counter changes. -/
  | dropped (events : r.events = []) (shards : r.table.shards = t.shards)
      (pending : r.table.pending = t.pending) (conn : r.table.nextConnId = t.nextConnId)
      (sess : r.table.nextSessId = t.nextSessId)
  /-- A wrong answer to a challenge. -/
  | refused (events : r.events = []) (shards : r.table.shards = t.shards)
      (pending : r.table.pending = t.fresh now) (conn : r.table.nextConnId = t.nextConnId)
      (sess : r.table.nextSessId = t.nextSessId)
  /-- A challenge is stored and sent. -/
  | challenged (f : FrameRef) (greets : Greets hmac4 t buf f) (none : (t.fresh now)[peer]? = none)
      (events : r.events = []) (shards : r.table.shards = t.shards)
      (pending : r.table.pending = (t.fresh now).insert peer ⟨random, now⟩)
      (conn : r.table.nextConnId = t.nextConnId) (sess : r.table.nextSessId = t.nextSessId)
  | opened (f : FrameRef) (rec : PendingHandshake) (answers : Answers hmac4 t peer buf now f rec)
      (events : r.events = [.Open t.nextSessId peer (f.body.drop 8)])
      (shards : r.table.shards =
        (t.set (t.nextConnId.setWidth 32) (t.opened peer f random now)).shards)
      (pending : r.table.pending = (t.fresh now).erase peer)
      (conn : r.table.nextConnId = t.nextConnId + 1) (sess : r.table.nextSessId = t.nextSessId + 1)
  | packet (header : DatagramHeader) (frames : List FrameRef) (s : Session) (stats : Stats)
      (accepts : Accepts hmac4 t buf header frames s)
      (events : r.events = (handlePacket s stats peer header frames now clock).events)
      (shards : r.table.shards =
        (t.set header.connId (handlePacket s stats peer header frames now clock).session).shards)
      (pending : r.table.pending = t.pending) (conn : r.table.nextConnId = t.nextConnId)
      (sess : r.table.nextSessId = t.nextSessId)

theorem handleDatagram_outcome :
    DatagramOutcome hmac4 t peer buf random now clock
      (t.handleDatagram hmac4 peer buf random now clock) := by
  rcases t.handleDatagram_cases hmac4 peer buf random now clock with
    hbad | ⟨data, header, frames, hdec, hreads, heq⟩
  · rw [hbad]
    exact .dropped rfl rfl rfl rfl rfl
  rw [heq]
  unfold SessionTable.handlePlain
  rw [hdec]
  dsimp only
  split_ifs with hflag hconn
  · unfold SessionTable.handleHandshake
    cases hf : frames.head? with
    | none => exact .dropped rfl rfl rfl rfl rfl
    | some f =>
      have hgreets : Greets hmac4 t buf f := ⟨header, frames, hreads, hflag, hf⟩
      dsimp only
      cases hrec : (t.fresh now)[peer]? with
      | none =>
        have hrec' := hrec
        unfold SessionTable.fresh at hrec'
        rw [hrec']
        exact .challenged f hgreets hrec rfl rfl rfl rfl rfl
      | some rec =>
        obtain ⟨hpending, hfresh⟩ := SessionTable.fresh_eq_some.1 hrec
        unfold SessionTable.fresh at hrec
        rw [hrec]
        dsimp only
        split_ifs with hlen hchal
        · exact .refused rfl rfl rfl rfl rfl
        · exact .refused rfl rfl rfl rfl rfl
        · exact .opened f rec ⟨hgreets, hpending, hfresh, not_lt.1 hlen, not_not.1 hchal⟩ rfl rfl
            rfl rfl rfl
  · exact .dropped rfl rfl rfl rfl rfl
  · unfold SessionTable.handleSessionPacket
    cases hget : SessionTable.get _ header.connId with
    | none => exact .dropped rfl rfl rfl rfl rfl
    | some s =>
      exact .packet header frames s _ ⟨hreads, not_not.1 hflag, hconn, hget⟩ rfl rfl rfl rfl rfl

/-- A datagram that can be read is handled as what it says. -/
theorem handleDatagram_of_reads {header : DatagramHeader} {frames : List FrameRef}
    (h : t.reads hmac4 buf = some (header, frames)) :
    ∃ data, decode data = .ok (header, frames) ∧
      t.handleDatagram hmac4 peer buf random now clock =
        t.handlePlain peer data random now clock := by
  unfold SessionTable.reads at h
  unfold SessionTable.handleDatagram
  cases hmac : t.verifyHmac hmac4 buf with
  | Bad =>
    rw [hmac] at h
    cases h
  | NoHmac =>
    rw [hmac] at h
    exact ⟨buf, decode_of_toOption h, rfl⟩
  | Ok data =>
    rw [hmac] at h
    exact ⟨data, decode_of_toOption h, rfl⟩

/-- An accepted datagram is the packet of its session. -/
theorem Accepts.outcome {header : DatagramHeader} {frames : List FrameRef} {s : Session}
    {hmac4 : Hmac} {t : SessionTable cfg} {buf : Bytes} (h : Accepts hmac4 t buf header frames s) :
    ∃ stats,
      (t.handleDatagram hmac4 peer buf random now clock).events =
        (handlePacket s stats peer header frames now clock).events ∧
      (t.handleDatagram hmac4 peer buf random now clock).table.shards =
        (t.set header.connId
          (handlePacket s stats peer header frames now clock).session).shards := by
  obtain ⟨data, hdec, heq⟩ := handleDatagram_of_reads hmac4 t peer buf random now clock h.reads
  rw [heq]
  unfold SessionTable.handlePlain
  rw [hdec]
  dsimp only
  rw [if_neg (not_not.2 h.plain), if_neg h.conn]
  unfold SessionTable.handleSessionPacket
  have hget : SessionTable.get { t with stats := { t.stats with pktIn := t.stats.pktIn + 1 } }
      header.connId = some s := h.get
  rw [hget]
  exact ⟨_, rfl, rfl⟩

/-- A greeting without a pending challenge is challenged. -/
theorem Greets.challenged {f : FrameRef} {hmac4 : Hmac} {t : SessionTable cfg} {buf : Bytes}
    {peer : SocketAddr} {now : Instant} (h : Greets hmac4 t buf f)
    (hnone : (t.fresh now)[peer]? = none) :
    (t.handleDatagram hmac4 peer buf random now clock).table.pending =
        (t.fresh now).insert peer ⟨random, now⟩ ∧
      (t.handleDatagram hmac4 peer buf random now clock).table.nextConnId = t.nextConnId ∧
      (t.handleDatagram hmac4 peer buf random now clock).table.nextSessId = t.nextSessId := by
  obtain ⟨header, frames, hreads, hflag, hhead⟩ := h
  obtain ⟨data, hdec, heq⟩ := handleDatagram_of_reads hmac4 t peer buf random now clock hreads
  unfold SessionTable.fresh at hnone ⊢
  rw [heq]
  unfold SessionTable.handlePlain
  rw [hdec]
  dsimp only
  rw [if_pos hflag]
  unfold SessionTable.handleHandshake
  rw [hhead]
  dsimp only
  rw [hnone]
  exact ⟨rfl, rfl, rfl⟩

/-- An answered challenge opens its session. -/
theorem Answers.handled {f : FrameRef} {rec : PendingHandshake} {hmac4 : Hmac}
    {t : SessionTable cfg} {buf : Bytes} {peer : SocketAddr} {now : Instant}
    (h : Answers hmac4 t peer buf now f rec) :
    ∃ stats, t.handleDatagram hmac4 peer buf random now clock =
      ({ t with pending := t.fresh now, stats } : SessionTable cfg).openSession peer
        (f.body.drop 8) random now := by
  obtain ⟨header, frames, hreads, hflag, hhead⟩ := h.greets
  obtain ⟨data, hdec, heq⟩ := handleDatagram_of_reads hmac4 t peer buf random now clock hreads
  have hrec : (t.fresh now)[peer]? = some rec := SessionTable.fresh_eq_some.2 ⟨h.pending, h.fresh⟩
  unfold SessionTable.fresh at hrec ⊢
  rw [heq]
  unfold SessionTable.handlePlain
  rw [hdec]
  dsimp only
  rw [if_pos hflag]
  unfold SessionTable.handleHandshake
  rw [hhead]
  dsimp only
  rw [hrec]
  dsimp only
  rw [if_neg (not_lt.2 h.length), if_neg (not_not.2 h.challenge)]
  exact ⟨_, rfl⟩

theorem Answers.outcome {f : FrameRef} {rec : PendingHandshake} {hmac4 : Hmac}
    {t : SessionTable cfg} {buf : Bytes} {peer : SocketAddr} {now : Instant}
    (h : Answers hmac4 t peer buf now f rec) :
    (t.handleDatagram hmac4 peer buf random now clock).table.shards =
      (t.set (t.nextConnId.setWidth 32) (t.opened peer f random now)).shards := by
  obtain ⟨stats, heq⟩ := h.handled random clock
  rw [heq]
  rfl

end Datagram

/-! ## One connection -/

/-- What an operation can make of what is stored under the id `c` in the shard `i`. -/
inductive SlotStep (hmac4 : Hmac) (t : SessionTable cfg) :
    TableAction → Fin (max cfg.shards 1) → U32 → Option Session → Option Session → Prop
  | same (x : TableAction) (i : Fin (max cfg.shards 1)) (c : U32) (o : Option Session) :
    SlotStep hmac4 t x i c o o
  | opened {peer : SocketAddr} {buf : Bytes} (random : Vector U8 8) {now : Instant}
    (clock : Instant) {f : FrameRef} {rec : PendingHandshake}
    (h : Answers hmac4 t peer buf now f rec) (o : Option Session) :
    SlotStep hmac4 t (.datagram peer buf random now clock)
      (SessionTable.shard (t.nextConnId.setWidth 32)) (t.nextConnId.setWidth 32) o
        (some (t.opened peer f random now))
  | packet (peer : SocketAddr) {buf : Bytes} (random : Vector U8 8) (now clock : Instant)
    {header : DatagramHeader} {frames : List FrameRef} {s : Session} (stats : Stats)
    (h : Accepts hmac4 t buf header frames s) :
    SlotStep hmac4 t (.datagram peer buf random now clock)
      (SessionTable.shard header.connId) header.connId
      (some s) (some (handlePacket s stats peer header frames now clock).session)
  | maintain (now : Instant) (i : Fin (max cfg.shards 1)) (c : U32) (o : Option Session) :
    SlotStep hmac4 t (.maintain now) i c o
      ((o.filter fun s => !s.expires cfg now).map fun s => s.maintain cfg now)
  | maintainReliable (now : Instant) (i : Fin (max cfg.shards 1)) (c : U32) (o : Option Session) :
    SlotStep hmac4 t (.maintainReliable now) i c o (o.map fun s => s.maintainReliable now)
  | packed (ch : U8) (msgId : U16) (payload : Bytes) (now : Instant) (i : Fin (max cfg.shards 1))
    (c : U32) (s : Session) :
    SlotStep hmac4 t (.packOutbound s.sessId ch msgId payload now) i c (some s)
      (some (s.pack hmac4 cfg ch msgId payload now).1)
  | kicked (i : Fin (max cfg.shards 1)) (c : U32) (s : Session) :
    SlotStep hmac4 t (.kick s.sessId) i c (some s) none
  | setBudget (kbps : U16) (i : Fin (max cfg.shards 1)) (c : U32) (s : Session) :
    SlotStep hmac4 t (.setBudget s.sessId kbps) i c (some s)
      (some { s with budgetKbps := some kbps })
  | checkBudget (bytes : U64) (now : Instant) (i : Fin (max cfg.shards 1)) (c : U32) (s : Session) :
    SlotStep hmac4 t (.checkBudget s.sessId bytes now) i c (some s)
      (some (s.checkBudget bytes now).1)
  | shutdown (i : Fin (max cfg.shards 1)) (c : U32) (o : Option Session) :
    SlotStep hmac4 t .shutdownAll i c o none

section Act

variable {hmac4 : Hmac} {t : SessionTable cfg} {i j : Fin (max cfg.shards 1)} {c d : U32}

theorem get_update {m : Map U32 Session} :
    (Function.update t.shards j m i)[c]? = if i = j then m[c]? else (t.shards i)[c]? := by
  by_cases hi : i = j
  · subst hi
    rw [Function.update_self, if_pos rfl]
  · rw [Function.update_of_ne hi, if_neg hi]

/-- The slot where a session is put, and the others. -/
theorem get_insert {s : Session} :
    (Function.update t.shards j ((t.shards j).insert d s) i)[c]? =
      if i = j ∧ c = d then some s else (t.shards i)[c]? := by
  rw [get_update]
  split_ifs with hi h h
  · obtain ⟨-, rfl⟩ := h
    exact Std.ExtTreeMap.getElem?_insert_self
  · rw [Map.getElem?_insert, if_neg, hi]
    rintro rfl
    exact h ⟨hi, rfl⟩
  · exact absurd h.1 hi
  · rfl

theorem get_erase :
    (Function.update t.shards j ((t.shards j).erase d) i)[c]? =
      if i = j ∧ c = d then none else (t.shards i)[c]? := by
  rw [get_update]
  split_ifs with hi h h
  · obtain ⟨-, rfl⟩ := h
    exact Std.ExtTreeMap.getElem?_erase_self
  · rw [Map.getElem?_erase, if_neg, hi]
    rintro rfl
    exact h ⟨hi, rfl⟩
  · exact absurd h.1 hi
  · rfl

/-- A datagram. -/
theorem handleDatagram_slot (hmac4 : Hmac) (t : SessionTable cfg) (peer : SocketAddr) (buf : Bytes)
    (random : Vector U8 8) (now clock : Instant) (i : Fin (max cfg.shards 1)) (c : U32) :
    SlotStep hmac4 t (.datagram peer buf random now clock) i c (t.shards i)[c]?
      ((t.act hmac4 (.datagram peer buf random now clock)).1.shards i)[c]? := by
  show SlotStep hmac4 t _ i c _
    ((t.handleDatagram hmac4 peer buf random now clock).table.shards i)[c]?
  cases handleDatagram_outcome hmac4 t peer buf random now clock with
  | dropped _ shards =>
    rw [shards]
    exact .same ..
  | refused _ shards =>
    rw [shards]
    exact .same ..
  | challenged _ _ _ _ shards =>
    rw [shards]
    exact .same ..
  | opened f rec answers _ shards =>
    rw [shards]
    unfold SessionTable.set
    rw [get_insert]
    split_ifs with h
    · obtain ⟨rfl, rfl⟩ := h
      exact .opened random clock answers _
    · exact .same ..
  | packet header frames s stats accepts _ shards =>
    rw [shards]
    unfold SessionTable.set
    rw [get_insert]
    split_ifs with h
    · obtain ⟨rfl, rfl⟩ := h
      have hget : (t.shards (SessionTable.shard header.connId))[header.connId]? = some s :=
        accepts.get
      rw [hget]
      exact .packet peer random now clock stats accepts
    · exact .same ..

/-- A message is packed; the session is as `pack` leaves it, also when it fails. -/
theorem packOutbound_slot (hmac4 : Hmac) (t : SessionTable cfg) (sessId : U64) (ch : U8)
    (msgId : U16) (payload : Bytes) (now : Instant) (i : Fin (max cfg.shards 1)) (c : U32) :
    SlotStep hmac4 t (.packOutbound sessId ch msgId payload now) i c (t.shards i)[c]?
      ((t.act hmac4 (.packOutbound sessId ch msgId payload now)).1.shards i)[c]? := by
  show SlotStep hmac4 t _ i c _ ((t.packOutbound hmac4 sessId ch msgId payload now).1.shards i)[c]?
  unfold SessionTable.packOutbound
  split_ifs
  · exact .same ..
  · cases hfind : t.findSession sessId with
    | none => exact .same ..
    | some e =>
      obtain ⟨j, d, s⟩ := e
      obtain ⟨hget, rfl⟩ := SessionTable.mem_of_findSession hfind
      have hslot :
          SlotStep hmac4 t (.packOutbound s.sessId ch msgId payload now) i c (t.shards i)[c]?
          (Function.update t.shards j ((t.shards j).insert d
            (s.pack hmac4 cfg ch msgId payload now).1) i)[c]? := by
        rw [get_insert]
        split_ifs with h
        · obtain ⟨rfl, rfl⟩ := h
          rw [hget]
          exact .packed ..
        · exact .same ..
      dsimp only
      cases (s.packOutbound hmac4 cfg ch msgId payload now).2 with
      | error e => exact hslot
      | ok out => exact hslot

theorem kick_slot (hmac4 : Hmac) (t : SessionTable cfg) (sessId : U64) (i : Fin (max cfg.shards 1))
    (c : U32) :
    SlotStep hmac4 t (.kick sessId) i c (t.shards i)[c]?
      ((t.act hmac4 (.kick sessId)).1.shards i)[c]? := by
  show SlotStep hmac4 t _ i c _ ((t.kick sessId).1.shards i)[c]?
  unfold SessionTable.kick
  cases hfind : t.findSession sessId with
  | none => exact .same ..
  | some e =>
    obtain ⟨j, d, s⟩ := e
    obtain ⟨hget, rfl⟩ := SessionTable.mem_of_findSession hfind
    dsimp only
    rw [get_erase]
    split_ifs with h
    · obtain ⟨rfl, rfl⟩ := h
      rw [hget]
      exact .kicked ..
    · exact .same ..

theorem setBudget_slot (hmac4 : Hmac) (t : SessionTable cfg) (sessId : U64) (kbps : U16)
    (i : Fin (max cfg.shards 1)) (c : U32) :
    SlotStep hmac4 t (.setBudget sessId kbps) i c (t.shards i)[c]?
      ((t.act hmac4 (.setBudget sessId kbps)).1.shards i)[c]? := by
  show SlotStep hmac4 t _ i c _ ((t.setBudget sessId kbps).shards i)[c]?
  unfold SessionTable.setBudget
  cases hfind : t.findSession sessId with
  | none => exact .same ..
  | some e =>
    obtain ⟨j, d, s⟩ := e
    obtain ⟨hget, rfl⟩ := SessionTable.mem_of_findSession hfind
    unfold SessionTable.putBack
    dsimp only
    rw [get_insert]
    split_ifs with h
    · obtain ⟨rfl, rfl⟩ := h
      rw [hget]
      exact .setBudget ..
    · exact .same ..

theorem checkBudget_slot (hmac4 : Hmac) (t : SessionTable cfg) (sessId : U64) (bytes : U64)
    (now : Instant) (i : Fin (max cfg.shards 1)) (c : U32) :
    SlotStep hmac4 t (.checkBudget sessId bytes now) i c (t.shards i)[c]?
      ((t.act hmac4 (.checkBudget sessId bytes now)).1.shards i)[c]? := by
  show SlotStep hmac4 t _ i c _ ((t.checkBudget sessId bytes now).1.shards i)[c]?
  unfold SessionTable.checkBudget
  cases hfind : t.findSession sessId with
  | none => exact .same ..
  | some e =>
    obtain ⟨j, d, s⟩ := e
    obtain ⟨hget, rfl⟩ := SessionTable.mem_of_findSession hfind
    unfold SessionTable.putBack
    dsimp only
    rw [get_insert]
    split_ifs with h
    · obtain ⟨rfl, rfl⟩ := h
      rw [hget]
      exact .checkBudget ..
    · exact .same ..

/-- **One operation** on one connection. -/
theorem act_slot (hmac4 : Hmac) (t : SessionTable cfg) (x : TableAction)
    (i : Fin (max cfg.shards 1)) (c : U32) :
    SlotStep hmac4 t x i c (t.shards i)[c]? ((t.act hmac4 x).1.shards i)[c]? := by
  cases x with
  | datagram peer buf random now clock =>
    exact handleDatagram_slot hmac4 t peer buf random now clock i c
  | maintain now =>
    have hget : ((t.maintain now).1.shards i)[c]? =
        ((t.shards i)[c]?.filter fun s => !s.expires cfg now).map fun s => s.maintain cfg now := by
      unfold SessionTable.maintain
      dsimp only
      rw [Std.ExtTreeMap.getElem?_map, Std.ExtTreeMap.getElem?_filter']
    show SlotStep hmac4 t _ i c _ ((t.maintain now).1.shards i)[c]?
    rw [hget]
    exact .maintain now i c _
  | maintainReliable now =>
    have hget : ((t.maintainReliable now).1.shards i)[c]? =
        (t.shards i)[c]?.map fun s => s.maintainReliable now := by
      unfold SessionTable.maintainReliable
      dsimp only
      rw [Std.ExtTreeMap.getElem?_map]
    show SlotStep hmac4 t _ i c _ ((t.maintainReliable now).1.shards i)[c]?
    rw [hget]
    exact .maintainReliable now i c _
  | packOutbound sessId ch msgId payload now =>
    exact packOutbound_slot hmac4 t sessId ch msgId payload now i c
  | kick sessId => exact kick_slot hmac4 t sessId i c
  | setBudget sessId kbps => exact setBudget_slot hmac4 t sessId kbps i c
  | checkBudget sessId bytes now => exact checkBudget_slot hmac4 t sessId bytes now i c
  | shutdownAll =>
    have hget : ((t.shutdownAll).1.shards i)[c]? = none := Std.ExtTreeMap.getElem?_empty
    show SlotStep hmac4 t _ i c _ ((t.shutdownAll).1.shards i)[c]?
    rw [hget]
    exact .shutdown i c _

/-- An operation of the engine itself. -/
def TableAction.Inner : TableAction → Prop
  | .datagram .. => False
  | _ => True

/-- Only datagrams change the pending challenges and the next ids. -/
theorem act_inner {x : TableAction} (hx : x.Inner) :
    (t.act hmac4 x).1.pending = t.pending ∧ (t.act hmac4 x).1.nextConnId = t.nextConnId ∧
      (t.act hmac4 x).1.nextSessId = t.nextSessId := by
  cases x with
  | datagram => exact hx.elim
  | maintain now => exact ⟨rfl, rfl, rfl⟩
  | maintainReliable now => exact ⟨rfl, rfl, rfl⟩
  | packOutbound sessId ch msgId payload now =>
    show (t.packOutbound hmac4 sessId ch msgId payload now).1.pending = _ ∧
      (t.packOutbound hmac4 sessId ch msgId payload now).1.nextConnId = _ ∧
      (t.packOutbound hmac4 sessId ch msgId payload now).1.nextSessId = _
    unfold SessionTable.packOutbound
    split_ifs
    · exact ⟨rfl, rfl, rfl⟩
    · cases t.findSession sessId with
      | none => exact ⟨rfl, rfl, rfl⟩
      | some e =>
        dsimp only
        cases (e.2.2.packOutbound hmac4 cfg ch msgId payload now).2 with
        | error e => exact ⟨rfl, rfl, rfl⟩
        | ok out => exact ⟨rfl, rfl, rfl⟩
  | kick sessId =>
    show (t.kick sessId).1.pending = _ ∧ (t.kick sessId).1.nextConnId = _ ∧
      (t.kick sessId).1.nextSessId = _
    unfold SessionTable.kick
    cases t.findSession sessId with
    | none => exact ⟨rfl, rfl, rfl⟩
    | some e => exact ⟨rfl, rfl, rfl⟩
  | setBudget sessId kbps =>
    show (t.setBudget sessId kbps).pending = _ ∧ (t.setBudget sessId kbps).nextConnId = _ ∧
      (t.setBudget sessId kbps).nextSessId = _
    unfold SessionTable.setBudget
    cases t.findSession sessId with
    | none => exact ⟨rfl, rfl, rfl⟩
    | some e => exact ⟨rfl, rfl, rfl⟩
  | checkBudget sessId bytes now =>
    show (t.checkBudget sessId bytes now).1.pending = _ ∧
      (t.checkBudget sessId bytes now).1.nextConnId = _ ∧
      (t.checkBudget sessId bytes now).1.nextSessId = _
    unfold SessionTable.checkBudget
    cases t.findSession sessId with
    | none => exact ⟨rfl, rfl, rfl⟩
    | some e => exact ⟨rfl, rfl, rfl⟩
  | shutdownAll => exact ⟨rfl, rfl, rfl⟩

/-- Without a datagram no session is opened. -/
theorem not_open_of_inner {x : TableAction} (hx : x.Inner) (id : U64) (peer : SocketAddr)
    (token : Bytes) :
    .Open id peer token ∉ (t.act hmac4 x).2 := by
  have hclose (ss : List Session) :
      .Open id peer token ∉ ss.map fun s => SessionEvent.Close s.sessId CLOSE_GRACE_TIMEOUT := by
    intro hmem
    obtain ⟨s, -, he⟩ := List.mem_map.1 hmem
    cases he
  cases x with
  | datagram => exact hx.elim
  | maintain now => exact hclose _
  | shutdownAll => exact hclose _
  | _ => exact List.not_mem_nil

end Act

end SoupEngine
