import SoupEngine.Session.Table

/-!
# Everything that is done to the session table

The instructions of the logic server and the shutdown, and the operations of the table together as
one step function. `Preserved.act` carries a property of sessions through all of them.
-/

namespace SoupEngine

namespace Session

/-- `check_budget` on the session found, with the sum of a build without overflow checks. -/
def checkBudget (s : Session) (bytes : U64) (now : Instant) : Session × Bool :=
  match s.budgetKbps with
  | none => (s, true)
  | some kbps =>
    let window := s.bytesWindow.dropWhile fun e => decide (Duration.fromSecs 1 ≤ now - e.1)
    let used := (window.map Prod.snd).sum
    let budgetBytes : U64 := kbps.setWidth 64 * 125
    if budgetBytes < used + bytes then ({ s with bytesWindow := window }, false)
    else ({ s with bytesWindow := window ++ [(now, bytes)] }, true)

end Session

namespace SessionTable

variable {cfg : SessionTableConfig}

/-- The sessions in the order in which `for_each_session` walks them. -/
def sessions (t : SessionTable cfg) : List Session :=
  (List.finRange (max cfg.shards 1)).flatMap fun i => (t.shards i).values

/-- Put the session found by `findSession` back. -/
def putBack (t : SessionTable cfg) (i : Fin (max cfg.shards 1)) (connId : U32) (s : Session) :
    SessionTable cfg :=
  { t with shards := Function.update t.shards i ((t.shards i).insert connId s) }

/-- `kick`: the session that has been removed. -/
def kick (t : SessionTable cfg) (sessId : U64) : SessionTable cfg × Option Session :=
  match t.findSession sessId with
  | none => (t, none)
  | some (i, connId, s) =>
    ({ t with
      shards := Function.update t.shards i ((t.shards i).erase connId)
      stats := { t.stats with sessionsActive := t.stats.sessionsActive - 1 } }, some s)

/-- `set_budget`. -/
def setBudget (t : SessionTable cfg) (sessId : U64) (kbps : U16) : SessionTable cfg :=
  match t.findSession sessId with
  | none => t
  | some (i, connId, s) => t.putBack i connId { s with budgetKbps := some kbps }

/-- `check_budget`. -/
def checkBudget (t : SessionTable cfg) (sessId : U64) (bytes : U64) (now : Instant) :
    SessionTable cfg × Bool :=
  match t.findSession sessId with
  | none => (t, true)
  | some (i, connId, s) =>
    (t.putBack i connId (s.checkBudget bytes now).1, (s.checkBudget bytes now).2)

/-- `shutdown_all`. -/
def shutdownAll (t : SessionTable cfg) : SessionTable cfg × List SessionEvent :=
  ({ t with
    shards := fun _ => ∅
    stats := { t.stats with
      sessionsActive := t.stats.sessionsActive - BitVec.ofNat 64 t.sessions.length } },
    t.sessions.map fun s => .Close s.sessId CLOSE_GRACE_TIMEOUT)

end SessionTable

/-- An operation of the table. -/
inductive TableAction
  | datagram (peer : SocketAddr) (buf : Bytes) (random : Vector U8 8) (now clock : Instant)
  | maintain (now : Instant)
  | maintainReliable (now : Instant)
  | packOutbound (sessId : U64) (ch : U8) (msgId : U16) (payload : Bytes) (now : Instant)
  | kick (sessId : U64)
  | setBudget (sessId : U64) (kbps : U16)
  | checkBudget (sessId : U64) (bytes : U64) (now : Instant)
  | shutdownAll

namespace SessionTable

variable {cfg : SessionTableConfig} (hmac4 : Hmac)

/-- The table after an operation, and the events it returns. -/
def act (t : SessionTable cfg) : TableAction → SessionTable cfg × List SessionEvent
  | .datagram peer buf random now clock =>
    ((t.handleDatagram hmac4 peer buf random now clock).table,
      (t.handleDatagram hmac4 peer buf random now clock).events)
  | .maintain now => t.maintain now
  | .maintainReliable now => ((t.maintainReliable now).1, [])
  | .packOutbound sessId ch msgId payload now =>
    ((t.packOutbound hmac4 sessId ch msgId payload now).1, [])
  | .kick sessId => ((t.kick sessId).1, [])
  | .setBudget sessId kbps => (t.setBudget sessId kbps, [])
  | .checkBudget sessId bytes now => ((t.checkBudget sessId bytes now).1, [])
  | .shutdownAll => t.shutdownAll

/-- The table after an operation. -/
def step (t : SessionTable cfg) (x : TableAction) : SessionTable cfg := (t.act hmac4 x).1

/-- The table and all events after a list of operations. -/
def run (t : SessionTable cfg) : List TableAction → SessionTable cfg × List SessionEvent
  | [] => (t, [])
  | x :: xs => (((t.act hmac4 x).1.run xs).1, (t.act hmac4 x).2 ++ ((t.act hmac4 x).1.run xs).2)

theorem run_append (t : SessionTable cfg) (xs ys : List TableAction) :
    (t.run hmac4 (xs ++ ys)).2 = (t.run hmac4 xs).2 ++ ((t.run hmac4 xs).1.run hmac4 ys).2 := by
  induction xs generalizing t with
  | nil => rfl
  | cons x xs ih =>
    show (t.act hmac4 x).2 ++ ((t.act hmac4 x).1.run hmac4 (xs ++ ys)).2 = _
    rw [ih, ← List.append_assoc]
    rfl

theorem run_append_fst (t : SessionTable cfg) (xs ys : List TableAction) :
    (t.run hmac4 (xs ++ ys)).1 = ((t.run hmac4 xs).1.run hmac4 ys).1 := by
  induction xs generalizing t with
  | nil => rfl
  | cons x xs ih => exact ih (t.act hmac4 x).1

theorem get_set (t : SessionTable cfg) (connId : U32) (s : Session) :
    (t.set connId s).get connId = some s := by
  unfold set get
  dsimp only
  rw [Function.update_self]
  exact Std.ExtTreeMap.getElem?_insert_self

end SessionTable

/-! ## Properties of all sessions -/

section Values

variable {κ β : Type} [Ord κ] [Std.TransOrd κ]

theorem values_eq (m : Map κ β) : m.values = m.toList.map Prod.snd := by
  have h : m.values = m.foldr (fun _ v l => v :: l) [] := rfl
  rw [h, Std.ExtTreeMap.foldr_eq_foldr_toList]
  exact List.map_eq_foldr.symm

theorem mem_values [Std.LawfulEqOrd κ] {m : Map κ β} {v : β} :
    v ∈ m.values ↔ ∃ k : κ, m[k]? = some v := by
  rw [values_eq, List.mem_map]
  constructor
  · rintro ⟨⟨k, v⟩, hmem, rfl⟩
    exact ⟨k, Std.ExtTreeMap.mem_toList_iff_getElem?_eq_some.1 hmem⟩
  · rintro ⟨k, hk⟩
    exact ⟨(k, v), Std.ExtTreeMap.mem_toList_iff_getElem?_eq_some.2 hk, rfl⟩

end Values

/-- Every session of a shard has the property. -/
def ShardAll (P : Session → Prop) (m : Map U32 Session) : Prop :=
  ∀ (connId : U32) (s : Session), m[connId]? = some s → P s

/-- Every session of the table has the property. -/
def SessionTable.All {cfg : SessionTableConfig} (P : Session → Prop) (t : SessionTable cfg) :
    Prop :=
  ∀ i, ShardAll P (t.shards i)

section Shard

variable {P : Session → Prop} {m : Map U32 Session}

theorem ShardAll.insert (h : ShardAll P m) {s : Session} (hs : P s) (connId : U32) :
    ShardAll P (m.insert connId s) := by
  intro k s' hk
  rw [Std.ExtTreeMap.getElem?_insert] at hk
  split_ifs at hk
  · cases hk
    exact hs
  · exact h k s' hk

theorem ShardAll.erase (h : ShardAll P m) (connId : U32) : ShardAll P (m.erase connId) := by
  intro k s hk
  rw [Std.ExtTreeMap.getElem?_erase] at hk
  split_ifs at hk
  exact h k s hk

theorem ShardAll.filter (h : ShardAll P m) (p : U32 → Session → Bool) :
    ShardAll P (m.filter p) := by
  intro k s hk
  rw [Std.ExtTreeMap.getElem?_filter] at hk
  exact h k s (Option.eq_some_of_pfilter_eq_some hk)

theorem ShardAll.map (h : ShardAll P m) {f : Session → Session} (hf : ∀ s, P s → P (f s)) :
    ShardAll P (m.map fun _ s => f s) := by
  intro k s hk
  rw [Std.ExtTreeMap.getElem?_map, Option.map_eq_some_iff] at hk
  obtain ⟨s', hs', rfl⟩ := hk
  exact hf s' (h k s' hs')

theorem shardAll_empty : ShardAll P ∅ := by
  intro k s hk
  rw [Std.ExtTreeMap.getElem?_empty] at hk
  cases hk

end Shard

/-- Packing changes no more than the next numbers and the retransmit queues. -/
theorem packLoop_keeps {hmac4 : Hmac} {cfg : SessionTableConfig} {P : Session → Prop}
    (hP : ∀ s sendSeq retrans fragGroupId, P s → P { s with sendSeq, retrans, fragGroupId })
    (k : PackKind) (now : Instant) (bodies : List Bytes) (s : Session) (out : List Bytes)
    (hs : P s) :
    P (packLoop hmac4 cfg k now bodies s out).1 := by
  induction bodies generalizing s out with
  | nil => exact hs
  | cons body bodies ih =>
    have hnext := hP s (s.sendSeq + 1) s.retrans s.fragGroupId hs
    unfold packLoop
    dsimp only
    split
    · exact hnext
    · unfold Session.enqueue
      cases queueOf k.ch with
      | none => exact ih _ _ hnext
      | some qi =>
        have hpush :=
          fun q => hP s (s.sendSeq + 1) (Function.update s.retrans qi q) s.fragGroupId hs
        dsimp only
        cases ((s.retrans qi).push s.sendSeq _ now).2 with
        | error e => exact hpush _
        | ok u => exact ih _ _ (hpush _)

theorem pack_keeps {hmac4 : Hmac} {cfg : SessionTableConfig} {P : Session → Prop}
    (hP : ∀ s sendSeq retrans fragGroupId, P s → P { s with sendSeq, retrans, fragGroupId })
    (s : Session) (ch : U8) (msgId : U16) (payload : Bytes) (now : Instant) (hs : P s) :
    P (s.pack hmac4 cfg ch msgId payload now).1 := by
  unfold Session.pack
  split_ifs
  · exact hs
  · exact packLoop_keeps hP _ now _ _ [] (hP s s.sendSeq s.retrans (s.fragGroupId + 1) hs)
  · exact packLoop_keeps hP _ now _ s [] hs

/-- What a datagram says, when it passes the HMAC check and can be read. -/
def SessionTable.reads {cfg : SessionTableConfig} (hmac4 : Hmac) (t : SessionTable cfg)
    (buf : Bytes) :
    Option (DatagramHeader × List FrameRef) :=
  match t.verifyHmac hmac4 buf with
  | .Bad => none
  | .NoHmac => (decode buf).toOption
  | .Ok data => (decode data).toOption

/-- A datagram counts as bad, or is handled as what it says. -/
theorem SessionTable.handleDatagram_cases {cfg : SessionTableConfig} (hmac4 : Hmac)
    (t : SessionTable cfg) (peer : SocketAddr) (buf : Bytes) (random : Vector U8 8)
    (now clock : Instant) :
    t.handleDatagram hmac4 peer buf random now clock = ⟨t.bad, [], []⟩ ∨
      ∃ data header frames, decode data = .ok (header, frames) ∧
        t.reads hmac4 buf = some (header, frames) ∧
        t.handleDatagram hmac4 peer buf random now clock =
          t.handlePlain peer data random now clock := by
  have hplain (data : Bytes) : t.handlePlain peer data random now clock = ⟨t.bad, [], []⟩ ∨
      ∃ header frames, decode data = .ok (header, frames) := by
    cases hdec : decode data with
    | error e =>
      left
      unfold handlePlain
      rw [hdec]
    | ok d => exact Or.inr ⟨d.1, d.2, rfl⟩
  unfold handleDatagram reads
  cases t.verifyHmac hmac4 buf with
  | Bad => exact Or.inl rfl
  | NoHmac =>
    rcases hplain buf with hbad | ⟨header, frames, hdec⟩
    · exact Or.inl hbad
    · exact Or.inr ⟨buf, header, frames, hdec, congrArg Except.toOption hdec, rfl⟩
  | Ok data =>
    rcases hplain data with hbad | ⟨header, frames, hdec⟩
    · exact Or.inl hbad
    · exact Or.inr ⟨data, header, frames, hdec, congrArg Except.toOption hdec, rfl⟩

theorem decode_of_toOption {data : Bytes} {header : DatagramHeader} {frames : List FrameRef}
    (h : (decode data).toOption = some (header, frames)) : decode data = .ok (header, frames) := by
  cases hdec : decode data with
  | error e =>
    rw [hdec] at h
    cases h
  | ok d =>
    rw [hdec] at h
    cases h
    rfl

theorem SessionTable.decode_of_reads {cfg : SessionTableConfig} {hmac4 : Hmac}
    {t : SessionTable cfg} {buf : Bytes} {header : DatagramHeader} {frames : List FrameRef}
    (h : t.reads hmac4 buf = some (header, frames)) :
    ∃ data, decode data = .ok (header, frames) := by
  unfold reads at h
  cases hmac : t.verifyHmac hmac4 buf with
  | Bad =>
    rw [hmac] at h
    cases h
  | NoHmac =>
    rw [hmac] at h
    exact ⟨buf, decode_of_toOption h⟩
  | Ok data =>
    rw [hmac] at h
    exact ⟨data, decode_of_toOption h⟩

/-- A handshake packet leaves the sessions alone and reports nothing, or opens a session. -/
theorem SessionTable.handleHandshake_cases {cfg : SessionTableConfig} (t : SessionTable cfg)
    (peer : SocketAddr) (frames : List FrameRef) (random : Vector U8 8) (now : Instant) :
    ((t.handleHandshake peer frames random now).events = [] ∧
        (t.handleHandshake peer frames random now).table.shards = t.shards) ∨
      ∃ f, frames.head? = some f ∧
        (t.handleHandshake peer frames random now).events =
          [.Open t.nextSessId peer (f.body.drop 8)] ∧
        (t.handleHandshake peer frames random now).table.shards =
          (t.set (t.nextConnId.setWidth 32)
            (Session.create (t.nextConnId.setWidth 32) t.nextSessId peer
            (fromLe 64 random.toList) (f.body.drop 8) now)).shards := by
  unfold handleHandshake
  cases hf : frames.head? with
  | none => exact Or.inl ⟨rfl, rfl⟩
  | some f =>
    dsimp only
    split
    · split_ifs
      · exact Or.inl ⟨rfl, rfl⟩
      · exact Or.inl ⟨rfl, rfl⟩
      · exact Or.inr ⟨f, rfl, rfl, rfl⟩
    · exact Or.inl ⟨rfl, rfl⟩

/-- A condition on the packet and the session that it is for. -/
abbrev PacketGuard := Session → DatagramHeader → List FrameRef → Instant → Prop

/-- The condition holds of the packet that the operation handles, if it handles one. -/
def SessionTable.Guarded {cfg : SessionTableConfig} (hmac4 : Hmac) (G : PacketGuard)
    (t : SessionTable cfg) : TableAction → Prop
  | .datagram _ buf _ now _ => ∀ header frames s, t.reads hmac4 buf = some (header, frames) →
      header.flags &&& FLAG_HANDSHAKE = 0 → t.get header.connId = some s → G s header frames now
  | _ => True

/-- A property of sessions that the operations on a table keep: packets under a condition `G`, and
the opening of a session under a condition `O`. -/
structure Preserved {cfg : SessionTableConfig} (hmac4 : Hmac) (t : SessionTable cfg)
    (G : PacketGuard) (O : Prop) (P : Session → Prop) : Prop where
  create : ∀ connId peer secret token now, O →
    P (Session.create connId t.nextSessId peer secret token now)
  packet : ∀ s stats peer buf header frames now clock, P s → decode buf = .ok (header, frames) →
    G s header frames now → P (handlePacket s stats peer header frames now clock).session
  maintain : ∀ s now, P s → P (s.maintain cfg now)
  maintainReliable : ∀ s now, P s → P (s.maintainReliable now)
  pack : ∀ s ch msgId payload now, P s → P (s.pack hmac4 cfg ch msgId payload now).1
  budget : ∀ s budgetKbps bytesWindow, P s → P { s with budgetKbps, bytesWindow }

/-- A property of the events that the operations on a table report, when its sessions have a
property. -/
structure Reports {cfg : SessionTableConfig} (t : SessionTable cfg) (G : PacketGuard) (O : Prop)
    (P : Session → Prop) (E : SessionEvent → Prop) : Prop where
  opened : ∀ peer buf header frames f, decode buf = .ok (header, frames) → f ∈ frames → O →
    E (.Open t.nextSessId peer (f.body.drop 8))
  packet : ∀ s stats peer buf header frames now clock, P s → decode buf = .ok (header, frames) →
    G s header frames now → ∀ e ∈ (handlePacket s stats peer header frames now clock).events, E e
  close : ∀ s, P s → E (.Close s.sessId CLOSE_GRACE_TIMEOUT)

section Preserved

variable {hmac4 : Hmac} {cfg : SessionTableConfig} {G : PacketGuard} {O : Prop}
  {P : Session → Prop} {E : SessionEvent → Prop} {t : SessionTable cfg}

theorem SessionTable.all_new : (SessionTable.new : SessionTable cfg).All P :=
  fun _ => shardAll_empty

/-- One shard is replaced. -/
theorem SessionTable.All.update (h : t.All P) {i : Fin (max cfg.shards 1)} {m : Map U32 Session}
    (hm : ShardAll P m) (j : Fin (max cfg.shards 1)) :
    ShardAll P (Function.update t.shards i m j) := by
  by_cases hj : j = i
  · rw [hj, Function.update_self]
    exact hm
  · rw [Function.update_of_ne hj]
    exact h j

theorem SessionTable.All.get (h : t.All P) {connId : U32} {s : Session}
    (hs : t.get connId = some s) :
    P s := h _ _ _ hs

theorem SessionTable.mem_of_findSession {sessId : U64} {i : Fin (max cfg.shards 1)} {connId : U32}
    {s : Session} (h : t.findSession sessId = some (i, connId, s)) :
    (t.shards i)[connId]? = some s ∧ s.sessId = sessId := by
  unfold findSession at h
  obtain ⟨j, -, hj⟩ := List.exists_of_findSome?_eq_some h
  obtain ⟨⟨k, s'⟩, hfind, he⟩ := Option.map_eq_some_iff.1 hj
  cases he
  have hmem := List.mem_of_find?_eq_some hfind
  have hid := List.find?_some hfind
  exact ⟨Std.ExtTreeMap.mem_toList_iff_getElem?_eq_some.1 hmem, of_decide_eq_true hid⟩

/-- A handshake packet at most opens a session; counting it has not changed the next id. -/
theorem Preserved.handshake (hP : Preserved hmac4 t G O P) {t' : SessionTable cfg}
    (hid : t'.nextSessId = t.nextSessId) (h : t'.All P) (peer : SocketAddr) (frames : List FrameRef)
    (random : Vector U8 8) (now : Instant)
    (hO : ∀ token, (t'.handleHandshake peer frames random now).events =
      [.Open t.nextSessId peer token] → O) :
    (t'.handleHandshake peer frames random now).table.All P := by
  intro i
  rcases t'.handleHandshake_cases peer frames random now with ⟨-, hsame⟩ | ⟨f, -, hev, hset⟩
  · rw [hsame]
    exact h i
  · rw [hset]
    refine h.update ((h _).insert ?_ _) i
    rw [hid] at hev ⊢
    exact hP.create _ _ _ _ _ (hO _ hev)

theorem Preserved.plain (hP : Preserved hmac4 t G O P) (h : t.All P) (peer : SocketAddr)
    {buf : Bytes} (random : Vector U8 8) (now clock : Instant) {header : DatagramHeader}
    {frames : List FrameRef} (hdec : decode buf = .ok (header, frames))
    (hG : ∀ s, header.flags &&& FLAG_HANDSHAKE = 0 → t.get header.connId = some s →
      G s header frames now)
    (hO : ∀ token, (t.handlePlain peer buf random now clock).events =
      [.Open t.nextSessId peer token] → O) :
    (t.handlePlain peer buf random now clock).table.All P := by
  unfold SessionTable.handlePlain at hO ⊢
  rw [hdec] at hO ⊢
  dsimp only at hO ⊢
  split_ifs at hO ⊢ with hflag
  · refine hP.handshake ?_ ?_ peer frames random now hO
    · rfl
    · exact h
  · exact h
  · unfold SessionTable.handleSessionPacket
    cases hget : SessionTable.get _ header.connId with
    | none => exact h
    | some s =>
      have hguard := hG s (not_not.1 hflag) hget
      exact h.update ((h _).insert (hP.packet _ _ _ buf _ _ _ _ (h.get hget) hdec hguard) _)

/-- **One operation** of the table keeps a preserved property of all sessions. -/
theorem Preserved.act (hP : Preserved hmac4 t G O P) (h : t.All P) {x : TableAction}
    (hx : t.Guarded hmac4 G x)
    (hO : ∀ peer token, (t.act hmac4 x).2 = [.Open t.nextSessId peer token] → O) :
    (t.act hmac4 x).1.All P := by
  cases x with
  | datagram peer buf random now clock =>
    have hopens : ∀ token, (t.handleDatagram hmac4 peer buf random now clock).events =
      [.Open t.nextSessId peer token] → O := hO peer
    show (t.handleDatagram hmac4 peer buf random now clock).table.All P
    rcases t.handleDatagram_cases hmac4 peer buf random now clock with
      hbad | ⟨data, header, frames, hdec, hreads, heq⟩
    · rw [hbad]
      exact h
    · rw [heq] at hopens ⊢
      exact hP.plain h peer random now clock hdec (fun s => hx header frames s hreads) hopens
  | maintain now =>
    intro i
    exact ((h i).filter _).map fun s hs => hP.maintain s now hs
  | maintainReliable now =>
    intro i
    exact (h i).map fun s hs => hP.maintainReliable s now hs
  | packOutbound sessId ch msgId payload now =>
    show (t.packOutbound hmac4 sessId ch msgId payload now).1.All P
    unfold SessionTable.packOutbound
    split_ifs
    · exact h
    · cases hfind : t.findSession sessId with
      | none => exact h
      | some e =>
        obtain ⟨i, connId, s⟩ := e
        have hs := hP.pack s ch msgId payload now
          (h _ _ _ (SessionTable.mem_of_findSession hfind).1)
        dsimp only
        cases (s.packOutbound hmac4 cfg ch msgId payload now).2 with
        | error e => exact h.update ((h i).insert hs connId)
        | ok out => exact h.update ((h i).insert hs connId)
  | kick sessId =>
    show (t.kick sessId).1.All P
    unfold SessionTable.kick
    cases t.findSession sessId with
    | none => exact h
    | some e => exact h.update ((h e.1).erase e.2.1)
  | setBudget sessId kbps =>
    show (t.setBudget sessId kbps).All P
    unfold SessionTable.setBudget
    cases hfind : t.findSession sessId with
    | none => exact h
    | some e =>
      obtain ⟨i, connId, s⟩ := e
      have hs := h _ _ _ (SessionTable.mem_of_findSession hfind).1
      exact h.update ((h i).insert (hP.budget s _ s.bytesWindow hs) connId)
  | checkBudget sessId bytes now =>
    show (t.checkBudget sessId bytes now).1.All P
    unfold SessionTable.checkBudget
    cases hfind : t.findSession sessId with
    | none => exact h
    | some e =>
      obtain ⟨i, connId, s⟩ := e
      have hs := h _ _ _ (SessionTable.mem_of_findSession hfind).1
      refine h.update ((h i).insert ?_ connId)
      unfold Session.checkBudget
      dsimp only
      split
      · exact hs
      · split_ifs
        · exact hP.budget s s.budgetKbps _ hs
        · exact hP.budget s s.budgetKbps _ hs
  | shutdownAll => exact fun _ => shardAll_empty

theorem SessionTable.All.sessions (h : t.All P) {s : Session} (hs : s ∈ t.sessions) : P s := by
  obtain ⟨i, -, hmem⟩ := List.mem_flatMap.1 hs
  obtain ⟨connId, hget⟩ := mem_values.1 hmem
  exact h i connId s hget

theorem Reports.plain (hR : Reports t G O P E) (h : t.All P) (peer : SocketAddr) {buf : Bytes}
    (random : Vector U8 8) (now clock : Instant) {header : DatagramHeader} {frames : List FrameRef}
    (hdec : decode buf = .ok (header, frames))
    (hG : ∀ s, header.flags &&& FLAG_HANDSHAKE = 0 → t.get header.connId = some s →
      G s header frames now)
    (hO : ∀ token, (t.handlePlain peer buf random now clock).events =
      [.Open t.nextSessId peer token] → O) :
    ∀ e ∈ (t.handlePlain peer buf random now clock).events, E e := by
  have hnil : ∀ e ∈ ([] : List SessionEvent), E e := fun _ he => absurd he List.not_mem_nil
  unfold SessionTable.handlePlain at hO ⊢
  rw [hdec] at hO ⊢
  dsimp only at hO ⊢
  split_ifs at hO ⊢ with hflag
  · rcases SessionTable.handleHandshake_cases _ peer frames random now with
      ⟨hev, -⟩ | ⟨f, hf, hev, -⟩
    · rw [hev]
      exact hnil
    · have hopen := hR.opened peer buf header frames f hdec (List.mem_of_head? hf) (hO _ hev)
      rw [hev]
      intro e he
      rw [List.mem_singleton.1 he]
      exact hopen
  · exact hnil
  · unfold SessionTable.handleSessionPacket
    cases hget : SessionTable.get _ header.connId with
    | none => exact hnil
    | some s =>
      have hguard := hG s (not_not.1 hflag) hget
      exact hR.packet s _ peer buf header frames now clock (h.get hget) hdec hguard

/-- **One operation** of the table reports only events of the property. -/
theorem Reports.act (hR : Reports t G O P E) (h : t.All P) {x : TableAction}
    (hx : t.Guarded hmac4 G x)
    (hO : ∀ peer token, (t.act hmac4 x).2 = [.Open t.nextSessId peer token] → O) :
    ∀ e ∈ (t.act hmac4 x).2, E e := by
  have hnil : ∀ e ∈ ([] : List SessionEvent), E e := fun _ he => absurd he List.not_mem_nil
  have hclose (ss : List Session) (hss : ∀ s ∈ ss, s ∈ t.sessions) :
      ∀ e ∈ ss.map fun s => SessionEvent.Close s.sessId CLOSE_GRACE_TIMEOUT, E e := by
    intro e he
    obtain ⟨s, hs, rfl⟩ := List.mem_map.1 he
    exact hR.close s (h.sessions (hss s hs))
  cases x with
  | datagram peer buf random now clock =>
    have hopens : ∀ token, (t.handleDatagram hmac4 peer buf random now clock).events =
      [.Open t.nextSessId peer token] → O := hO peer
    show ∀ e ∈ (t.handleDatagram hmac4 peer buf random now clock).events, E e
    rcases t.handleDatagram_cases hmac4 peer buf random now clock with
      hbad | ⟨data, header, frames, hdec, hreads, heq⟩
    · rw [hbad]
      exact hnil
    · rw [heq] at hopens ⊢
      exact hR.plain h peer random now clock hdec (fun s => hx header frames s hreads) hopens
  | maintain now => exact hclose _ fun s hs => List.mem_of_mem_filter hs
  | shutdownAll => exact hclose _ fun s hs => hs
  | maintainReliable now => exact hnil
  | packOutbound sessId ch msgId payload now => exact hnil
  | kick sessId => exact hnil
  | setBudget sessId kbps => exact hnil
  | checkBudget sessId bytes now => exact hnil

/-- No condition. -/
def PacketGuard.any : PacketGuard := fun _ _ _ _ => True

theorem SessionTable.guarded_any (x : TableAction) : t.Guarded hmac4 PacketGuard.any x := by
  cases x with
  | datagram peer buf random now clock => exact fun _ _ _ _ _ _ => trivial
  | _ => trivial

end Preserved

/-! ## A handshake -/

/-- A configuration without HMACs. -/
def plainConfig : SessionTableConfig := { SessionTableConfig.default with enableHmac := false }

def noHmac : Hmac := fun _ _ => Vector.replicate 4 0

/-- A client asks for a challenge and answers it. -/
def hello : List TableAction :=
  [[], List.replicate 8 0].map fun body =>
    .datagram (.V4 0 0) (encode ⟨VERSION, FLAG_HANDSHAKE, 0, 0, 0, 0⟩ [⟨0, 0, body⟩] []).1
      (Vector.replicate 8 0) 0 0

/-- Operations on a new table without HMACs. -/
def plainRun (xs : List TableAction) : SessionTable plainConfig × List SessionEvent :=
  SessionTable.new.run noHmac xs

end SoupEngine
