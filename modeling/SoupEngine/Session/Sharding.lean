import SoupEngine.Lib.Sharded
import SoupEngine.Session.ConnIds

/-!
# The shards

The shards are there for their locks. They change nothing: tables with different numbers of shards,
on which the same operations are run, hold the same sessions and give the same answers, up to the
order in which the sessions are walked (`shards_transparent`).
-/

namespace SoupEngine

open SessionTable

/-- The configuration with another number of shards. -/
abbrev SessionTableConfig.withShards (cfg : SessionTableConfig) (n : ℕ) : SessionTableConfig :=
  { cfg with shards := n }

/-- What an operation returns to its caller, its events apart. -/
inductive Reply
  | nothing
  | packets (r : Except Error (List (Bytes × SocketAddr)))
  | removed (s : Option Session)
  | admitted (b : Bool)

/-- What an operation does outside the table. -/
structure Outcome where
  events : List SessionEvent
  sent : List (Bytes × SocketAddr)
  reply : Reply

/-- What an operation does outside the table, beside `act`. -/
def SessionTable.outcome {cfg : SessionTableConfig} (hmac4 : Hmac) (t : SessionTable cfg) :
    TableAction → Outcome
  | .datagram peer buf random now clock =>
    ⟨(t.handleDatagram hmac4 peer buf random now clock).events,
      (t.handleDatagram hmac4 peer buf random now clock).sent, .nothing⟩
  | .maintain now => ⟨(t.maintain now).2, [], .nothing⟩
  | .maintainReliable now => ⟨[], (t.maintainReliable now).2, .nothing⟩
  | .packOutbound sessId ch msgId payload now =>
    ⟨[], [], .packets (t.packOutbound hmac4 sessId ch msgId payload now).2⟩
  | .kick sessId => ⟨[], [], .removed (t.kick sessId).2⟩
  | .setBudget _ _ => ⟨[], [], .nothing⟩
  | .checkBudget sessId bytes now => ⟨[], [], .admitted (t.checkBudget sessId bytes now).2⟩
  | .shutdownAll => ⟨t.shutdownAll.2, [], .nothing⟩

/-- The same, but for the order. -/
structure Outcome.Alike (o o' : Outcome) : Prop where
  events : o.events.Perm o'.events
  sent : o.sent.Perm o'.sent
  reply : o.reply = o'.reply

theorem Outcome.Alike.refl (o : Outcome) : o.Alike o := ⟨.refl _, .refl _, rfl⟩

/-- Two tables hold the same. -/
structure Agree {cfg cfg' : SessionTableConfig} (t : SessionTable cfg) (t' : SessionTable cfg') :
    Prop where
  get : ∀ c, t.get c = t'.get c
  pending : t.pending = t'.pending
  conn : t.nextConnId = t'.nextConnId
  sess : t.nextSessId = t'.nextSessId
  stats : t.stats = t'.stats

/-! ## One shard or many -/

section Filed

variable {cfg : SessionTableConfig} {t : SessionTable cfg}

theorem sessions_eq_entries (t : SessionTable cfg) :
    t.sessions = (Sharded.entries t.shards).map Prod.snd := by
  unfold SessionTable.sessions Sharded.entries
  rw [List.map_flatMap]
  exact List.flatMap_congr fun i _ => values_eq _

theorem Filed.routed (h : Filed t) : Sharded.Routed shard t.shards :=
  fun i c s hs => (h.slot i c s hs).1.symm

/-- A session is found by its id in the place that its id gives. -/
theorem Filed.findSession (h : Filed t) (id : U64) :
    t.findSession id =
      ((t.get (id.setWidth 32)).filter fun s => decide (s.sessId = id)).map fun s =>
      (shard (id.setWidth 32), id.setWidth 32, s) := by
  cases hfind : t.findSession id with
  | some e =>
    obtain ⟨i, c, s⟩ := e
    obtain ⟨hget, hid⟩ := mem_of_findSession hfind
    obtain ⟨rfl, -, hc⟩ := h.slot i c s hget
    rw [hid] at hc
    subst hc
    have hget' : t.get (id.setWidth 32) = some s := hget
    rw [hget', Option.filter_some, if_pos (decide_eq_true hid)]
    rfl
  | none =>
    cases hget : t.get (id.setWidth 32) with
    | none => rfl
    | some s =>
      have hnone :=
        List.findSome?_eq_none_iff.1 hfind (shard (id.setWidth 32)) (List.mem_finRange _)
      rw [Option.map_eq_none_iff, List.find?_eq_none] at hnone
      rw [Option.filter_some,
        if_neg (hnone _ (Std.ExtTreeMap.mem_toList_iff_getElem?_eq_some.2 hget))]
      rfl

end Filed

section Agree

variable {cfg : SessionTableConfig} {n : ℕ} {hmac4 : Hmac} {t : SessionTable cfg}
  {t' : SessionTable (cfg.withShards n)}

theorem Agree.sessions (h : Agree t t') (ht : Filed t) (ht' : Filed t') :
    t.sessions.Perm t'.sessions := by
  rw [sessions_eq_entries, sessions_eq_entries]
  exact (Sharded.entries_perm ht.routed ht'.routed h.get).map _

theorem get_set_of (t : SessionTable cfg) (c d : U32) (s : Session) :
    (t.set c s).get d = if d = c then some s else t.get d := by
  show (Function.update t.shards _ _ (shard d))[d]? = _
  rw [get_insert]
  refine if_congr ?_ rfl rfl
  constructor
  · rintro ⟨-, hd⟩
    exact hd
  · rintro rfl
    exact ⟨rfl, rfl⟩

theorem Agree.set (h : Agree t t') (c : U32) (s : Session) : Agree (t.set c s) (t'.set c s) where
  get d := by rw [get_set_of, get_set_of, h.get]
  pending := h.pending
  conn := h.conn
  sess := h.sess
  stats := h.stats

theorem Agree.bad (h : Agree t t') : Agree t.bad t'.bad where
  get := h.get
  pending := h.pending
  conn := h.conn
  sess := h.sess
  stats := congrArg Stats.incrPktBad h.stats

/-! ## A datagram -/

/-- The tables agree afterwards, and what comes out is the same. -/
structure Handled.Agree (r : Handled cfg) (r' : Handled (cfg.withShards n)) : Prop where
  table : SoupEngine.Agree r.table r'.table
  events : r.events = r'.events
  sent : r.sent = r'.sent

theorem Agree.verifyHmac (h : Agree t t') (buf : Bytes) :
    t.verifyHmac hmac4 buf = t'.verifyHmac hmac4 buf := by
  unfold SessionTable.verifyHmac
  rw [h.get]

theorem Agree.fresh (h : Agree t t') (now : Instant) : t.fresh now = t'.fresh now := by
  unfold SessionTable.fresh
  rw [h.pending]

theorem Agree.openSession (h : Agree t t') (peer : SocketAddr) (token : Bytes)
    (random : Vector U8 8) (now : Instant) :
    (t.openSession peer token random now).Agree (t'.openSession peer token random now) := by
  unfold SessionTable.openSession
  dsimp only
  rw [h.conn, h.sess, h.pending, h.stats]
  exact ⟨⟨(h.set _ _).get, rfl, rfl, rfl, rfl⟩, rfl, rfl⟩

theorem Agree.handleHandshake (h : Agree t t') (peer : SocketAddr) (frames : List FrameRef)
    (random : Vector U8 8) (now : Instant) :
    (t.handleHandshake peer frames random now).Agree
      (t'.handleHandshake peer frames random now) := by
  have hfresh := h.fresh now
  unfold SessionTable.handleHandshake
  unfold SessionTable.fresh at hfresh
  cases frames.head? with
  | none => exact ⟨h.bad, rfl, rfl⟩
  | some f =>
    dsimp only
    rw [← hfresh]
    have hkept (p : Map SocketAddr PendingHandshake) :
        SoupEngine.Agree { t with pending := p } { t' with pending := p } :=
      ⟨h.get, rfl, h.conn, h.sess, h.stats⟩
    split
    · split_ifs
      · exact ⟨(hkept _).bad, rfl, rfl⟩
      · exact ⟨(hkept _).bad, rfl, rfl⟩
      · exact (hkept _).openSession peer _ random now
    · rw [h.stats]
      exact ⟨⟨h.get, rfl, h.conn, h.sess, rfl⟩, rfl, rfl⟩

theorem Agree.handleSessionPacket (h : Agree t t') (peer : SocketAddr) (header : DatagramHeader)
    (frames : List FrameRef) (now clock : Instant) :
    (t.handleSessionPacket peer header frames now clock).Agree
      (t'.handleSessionPacket peer header frames now clock) := by
  unfold SessionTable.handleSessionPacket
  rw [← h.get, ← h.stats]
  cases t.get header.connId with
  | none => exact ⟨h.bad, rfl, rfl⟩
  | some s => exact ⟨⟨(h.set _ _).get, h.pending, h.conn, h.sess, rfl⟩, rfl, rfl⟩

theorem Agree.handlePlain (h : Agree t t') (peer : SocketAddr) (buf : Bytes) (random : Vector U8 8)
    (now clock : Instant) :
    (t.handlePlain peer buf random now clock).Agree (t'.handlePlain peer buf random now clock) := by
  unfold SessionTable.handlePlain
  cases decode buf with
  | error e => exact ⟨h.bad, rfl, rfl⟩
  | ok d =>
    dsimp only
    rw [h.stats]
    have hseen (st : Stats) : SoupEngine.Agree { t with stats := st } { t' with stats := st } :=
      ⟨h.get, h.pending, h.conn, h.sess, rfl⟩
    split_ifs
    · exact (hseen _).handleHandshake peer d.2 random now
    · exact ⟨(hseen _).bad, rfl, rfl⟩
    · exact (hseen _).handleSessionPacket peer d.1 d.2 now clock

theorem Agree.handleDatagram (h : Agree t t') (peer : SocketAddr) (buf : Bytes)
    (random : Vector U8 8) (now clock : Instant) :
    (t.handleDatagram hmac4 peer buf random now clock).Agree
      (t'.handleDatagram hmac4 peer buf random now clock) := by
  unfold SessionTable.handleDatagram
  rw [← h.verifyHmac]
  cases t.verifyHmac hmac4 buf with
  | Bad => exact ⟨h.bad, rfl, rfl⟩
  | NoHmac => exact h.handlePlain peer buf random now clock
  | Ok data => exact h.handlePlain peer data random now clock

/-! ## The other operations -/

/-- Both tables find the same session. -/
theorem Agree.found (h : Agree t t') (ht : Filed t) (ht' : Filed t') (id : U64) :
    (t.findSession id = none ∧ t'.findSession id = none) ∨
      ∃ c s, t.findSession id = some (shard c, c, s) ∧
      t'.findSession id = some (shard c, c, s) := by
  rw [ht.findSession, ht'.findSession, ← h.get]
  cases (t.get (id.setWidth 32)).filter fun s => decide (s.sessId = id) with
  | none => exact Or.inl ⟨rfl, rfl⟩
  | some s => exact Or.inr ⟨id.setWidth 32, s, rfl, rfl⟩

theorem packLoop_withShards (k : PackKind) (now : Instant) (bodies : List Bytes) (s : Session)
    (out : List Bytes) :
    packLoop hmac4 (cfg.withShards n) k now bodies s out =
      packLoop hmac4 cfg k now bodies s out := by
  induction bodies generalizing s out with
  | nil => rfl
  | cons body bodies ih =>
    unfold packLoop
    dsimp only
    rw [show sealedDatagram hmac4 (cfg.withShards n) = sealedDatagram hmac4 cfg from rfl]
    simp only [ih]

theorem packOutbound_withShards (s : Session) (ch : U8) (msgId : U16) (payload : Bytes)
    (now : Instant) :
    s.packOutbound hmac4 (cfg.withShards n) ch msgId payload now =
      s.packOutbound hmac4 cfg ch msgId payload now := by
  unfold Session.packOutbound Session.pack
  simp only [packLoop_withShards]

theorem get_erase_of (t : SessionTable cfg) (c d : U32) (st : Stats) :
    (@SessionTable.mk cfg (Function.update t.shards (shard c) ((t.shards (shard c)).erase c))
      t.pending t.nextConnId t.nextSessId st).get d = if d = c then none else t.get d := by
  show (Function.update t.shards _ _ (shard d))[d]? = _
  rw [get_erase]
  refine if_congr ?_ rfl rfl
  constructor
  · rintro ⟨-, hd⟩
    exact hd
  · rintro rfl
    exact ⟨rfl, rfl⟩

theorem get_maintain (t : SessionTable cfg) (now : Instant) (c : U32) :
    (t.maintain now).1.get c =
      ((t.get c).filter fun s => !s.expires cfg now).map fun s => s.maintain cfg now := by
  show (((t.shards (shard c)).filter _).map _)[c]? = _
  rw [Std.ExtTreeMap.getElem?_map, Std.ExtTreeMap.getElem?_filter, Option.pfilter_eq_filter]
  rfl

theorem stats_maintain (t : SessionTable cfg) (now : Instant) :
    (t.maintain now).1.stats = { t.stats with
      sessionsGrace := t.stats.sessionsGrace +
        BitVec.ofNat 64 (t.sessions.countP (Session.idles cfg now))
      sessionsActive := t.stats.sessionsActive -
        BitVec.ofNat 64 (t.sessions.filter (Session.expires cfg now)).length } := rfl

theorem get_maintainReliable (t : SessionTable cfg) (now : Instant) (c : U32) :
    (t.maintainReliable now).1.get c = (t.get c).map fun s => s.maintainReliable now := by
  show ((t.shards (shard c)).map _)[c]? = _
  rw [Std.ExtTreeMap.getElem?_map]
  rfl

theorem sent_maintainReliable (t : SessionTable cfg) (now : Instant) :
    (t.maintainReliable now).2 =
      t.sessions.flatMap fun s => (s.overdue now).map fun bytes => (bytes, s.peer) := by
  unfold SessionTable.maintainReliable SessionTable.sessions
  rw [List.flatMap_assoc]

/-- **One operation.** -/
theorem Agree.act (h : Agree t t') (ht : Filed t) (ht' : Filed t') (x : TableAction) :
    Agree (t.act hmac4 x).1 (t'.act hmac4 x).1 ∧ (t.act hmac4 x).2.Perm (t'.act hmac4 x).2 ∧
      (t.outcome hmac4 x).Alike (t'.outcome hmac4 x) := by
  have hsessions := h.sessions ht ht'
  cases x with
  | datagram peer buf random now clock =>
    have hr := @Agree.handleDatagram cfg _ hmac4 _ _ h peer buf random now clock
    exact ⟨hr.table, .of_eq hr.events, .of_eq hr.events, .of_eq hr.sent, rfl⟩
  | maintain now =>
    have hclosed : (t.maintain now).2.Perm (t'.maintain now).2 := (hsessions.filter _).map _
    refine ⟨⟨fun c => ?_, h.pending, h.conn, h.sess, ?_⟩, hclosed, hclosed, .refl _, rfl⟩
    · show (t.maintain now).1.get c = (t'.maintain now).1.get c
      rw [get_maintain, get_maintain, h.get]
      rfl
    · show (t.maintain now).1.stats = (t'.maintain now).1.stats
      rw [stats_maintain, stats_maintain, h.stats, hsessions.countP_eq,
        (hsessions.filter _).length_eq]
      rfl
  | maintainReliable now =>
    have hsent : (t.maintainReliable now).2.Perm (t'.maintainReliable now).2 := by
      rw [sent_maintainReliable, sent_maintainReliable]
      exact hsessions.flatMap_right _
    refine ⟨⟨fun c => ?_, h.pending, h.conn, h.sess, ?_⟩, .refl _, .refl _, hsent, rfl⟩
    · show (t.maintainReliable now).1.get c = (t'.maintainReliable now).1.get c
      rw [get_maintainReliable, get_maintainReliable, h.get]
    · show { t.stats with
          retransmits := t.stats.retransmits +
            BitVec.ofNat 64 (t.maintainReliable now).2.length } =
        { t'.stats with
          retransmits := t'.stats.retransmits +
            BitVec.ofNat 64 (t'.maintainReliable now).2.length }
      rw [h.stats, hsent.length_eq]
  | packOutbound sessId ch msgId payload now =>
    unfold SessionTable.act outcome SessionTable.packOutbound
    dsimp only
    split_ifs with hch
    · exact ⟨h, .refl _, .refl _⟩
    rcases h.found ht ht' sessId with ⟨hnone, hnone'⟩ | ⟨c, s, hsome, hsome'⟩
    · rw [hnone, hnone']
      exact ⟨h, .refl _, .refl _⟩
    · rw [hsome, hsome']
      dsimp only
      rw [@packOutbound_withShards cfg n hmac4 s ch msgId payload now]
      rcases s.packOutbound hmac4 cfg ch msgId payload now with ⟨s', e | out⟩
      · exact ⟨h.set c s', .refl _, .refl _⟩
      · refine ⟨⟨(h.set c s').get, h.pending, h.conn, h.sess, ?_⟩, .refl _, .refl _⟩
        dsimp only
        rw [h.stats]
  | kick sessId =>
    unfold SessionTable.act outcome SessionTable.kick
    dsimp only
    rcases h.found ht ht' sessId with ⟨hnone, hnone'⟩ | ⟨c, s, hsome, hsome'⟩
    · rw [hnone, hnone']
      exact ⟨h, .refl _, .refl _⟩
    · rw [hsome, hsome']
      dsimp only
      refine ⟨⟨fun d => ?_, h.pending, h.conn, h.sess, ?_⟩, .refl _, .refl _⟩
      · rw [get_erase_of, get_erase_of, h.get]
      · dsimp only
        rw [h.stats]
  | setBudget sessId kbps =>
    unfold SessionTable.act outcome SessionTable.setBudget
    dsimp only
    rcases h.found ht ht' sessId with ⟨hnone, hnone'⟩ | ⟨c, s, hsome, hsome'⟩
    · rw [hnone, hnone']
      exact ⟨h, .refl _, .refl _⟩
    · rw [hsome, hsome']
      exact ⟨h.set c _, .refl _, .refl _⟩
  | checkBudget sessId bytes now =>
    unfold SessionTable.act outcome SessionTable.checkBudget
    dsimp only
    rcases h.found ht ht' sessId with ⟨hnone, hnone'⟩ | ⟨c, s, hsome, hsome'⟩
    · rw [hnone, hnone']
      exact ⟨h, .refl _, .refl _⟩
    · rw [hsome, hsome']
      exact ⟨h.set c _, .refl _, .refl _⟩
  | shutdownAll =>
    have hclosed : t.shutdownAll.2.Perm t'.shutdownAll.2 := hsessions.map _
    refine ⟨⟨fun c => rfl, h.pending, h.conn, h.sess, ?_⟩, hclosed, hclosed, .refl _, rfl⟩
    show t.shutdownAll.1.stats = t'.shutdownAll.1.stats
    unfold SessionTable.shutdownAll
    dsimp only
    rw [h.stats, hsessions.length_eq]

end Agree

/-- Tables with different numbers of shards agree after every run. -/
theorem agree_after (hmac4 : Hmac) (cfg : SessionTableConfig) (n : ℕ) (xs : List TableAction) :
    Agree (after hmac4 cfg xs) (after hmac4 (cfg.withShards n) xs) := by
  induction xs using List.reverseRecOn with
  | nil => exact ⟨fun c => rfl, rfl, rfl, rfl, rfl⟩
  | append_singleton xs x ih =>
    rw [after_snoc, after_snoc]
    exact (ih.act (.after hmac4 cfg xs) (.after hmac4 (cfg.withShards n) xs) x).1

/-- **The shards change nothing.** After the same operations, whatever they are, tables with
different numbers of shards hold the same sessions under the same connection ids, the same pending
challenges and the same counters. Every further operation then does the same on both, up to the
order of the events and of the datagrams of one call. -/
theorem shards_transparent (hmac4 : Hmac) (cfg : SessionTableConfig) (n : ℕ)
    (xs : List TableAction) :
    Agree (after hmac4 cfg xs) (after hmac4 (cfg.withShards n) xs) ∧
      (after hmac4 cfg xs).sessions.Perm (after hmac4 (cfg.withShards n) xs).sessions ∧
      ∀ x, ((after hmac4 cfg xs).outcome hmac4 x).Alike
        ((after hmac4 (cfg.withShards n) xs).outcome hmac4 x) := by
  have hagree := agree_after hmac4 cfg n xs
  have hfiled := Filed.after hmac4 cfg xs
  have hfiled' := Filed.after hmac4 (cfg.withShards n) xs
  exact ⟨hagree, hagree.sessions hfiled hfiled', fun x => (hagree.act hfiled hfiled' x).2.2⟩

end SoupEngine
