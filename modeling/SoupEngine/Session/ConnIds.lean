import SoupEngine.Session.Grace
import SoupEngine.Session.Population

/-!
# Connection ids

A connection id is the low half of the number of its handshake, and so is the low half of the
session id (`Filed`). `conn_ids_iff`: in a run every new connection id is usable and its own, and
the counter of the sessions is right, exactly if no handshake is completed whose number is a
multiple of `2 ^ 32`, or that of a session still in the table up to a multiple of `2 ^ 32`.
-/

namespace SoupEngine

open SessionTable

variable {cfg : SessionTableConfig} {hmac4 : Hmac} {t : SessionTable cfg}

theorem ids_handlePacket (s : Session) (stats : Stats) (peer : SocketAddr) (header : DatagramHeader)
    (frames : List FrameRef) (now clock : Instant) :
    (handlePacket s stats peer header frames now clock).session.connId = s.connId ∧
      (handlePacket s stats peer header frames now clock).session.sessId = s.sessId := by
  refine ⟨?_, (own_handlePacket s stats peer header frames now clock).1⟩
  cases hst : s.state with
  | Grace since => rw [(handlePacket_grace stats peer header frames now clock hst).1]
  | Active =>
    exact congrArg SenderView.connId (handlePacket_sender stats peer header frames now clock hst)

/-- Connection ids and session ids are given together, and every session is stored under its own
id. -/
structure Filed (t : SessionTable cfg) : Prop where
  next : t.nextConnId = t.nextSessId
  slot : ∀ (i : Fin (max cfg.shards 1)) (c : U32) (s : Session), (t.shards i)[c]? = some s →
    i = shard c ∧ s.connId = c ∧ s.sessId.setWidth 32 = c

namespace Filed

theorem new : Filed (SessionTable.new : SessionTable cfg) where
  next := rfl
  slot i c s hs := by
    have hnone : ((SessionTable.new : SessionTable cfg).shards i)[c]? = none :=
      Std.ExtTreeMap.getElem?_empty
    rw [hnone] at hs
    cases hs

/-- A session stays where it is, with its ids, or is opened with the next ones. -/
theorem act (h : Filed t) (x : TableAction) : Filed (t.act hmac4 x).1 where
  next := by
    by_cases hinner : x.Inner
    · rw [(act_inner hinner).2.1, (act_inner hinner).2.2, h.next]
    cases x with
    | datagram peer buf random now clock =>
      show (t.handleDatagram hmac4 peer buf random now clock).table.nextConnId =
        (t.handleDatagram hmac4 peer buf random now clock).table.nextSessId
      cases handleDatagram_outcome hmac4 t peer buf random now clock with
      | dropped _ _ _ conn sess => rw [conn, sess, h.next]
      | refused _ _ _ conn sess => rw [conn, sess, h.next]
      | challenged _ _ _ _ _ _ conn sess => rw [conn, sess, h.next]
      | opened _ _ _ _ _ _ conn sess => rw [conn, sess, h.next]
      | packet _ _ _ _ _ _ _ _ conn sess => rw [conn, sess, h.next]
    | _ => exact absurd trivial hinner
  slot i c s hs := by
    have hslot := act_slot hmac4 t x i c
    rw [hs] at hslot
    have hold {s₀ : Session} (h₀ : (t.shards i)[c]? = some s₀) : _ := h.slot i c s₀ h₀
    generalize (t.shards i)[c]? = o at hslot hold
    generalize ho' : some s = o' at hslot
    cases hslot with
    | same => exact hold ho'.symm
    | opened =>
      obtain rfl := Option.some.inj ho'
      refine ⟨rfl, rfl, ?_⟩
      show t.nextSessId.setWidth 32 = t.nextConnId.setWidth 32
      rw [h.next]
    | packet peer random now clock stats =>
      obtain rfl := Option.some.inj ho'
      rw [(ids_handlePacket _ stats peer _ _ now clock).1,
        (ids_handlePacket _ stats peer _ _ now clock).2]
      exact hold rfl
    | maintain now =>
      obtain ⟨s₀, hs₀, rfl⟩ := Option.map_eq_some_iff.1 ho'.symm
      have hsame := hold (Option.filter_eq_some_iff.1 hs₀).1
      unfold Session.maintain
      split_ifs
      · exact hsame
      · exact hsame
    | maintainReliable now =>
      obtain ⟨s₀, hs₀, rfl⟩ := Option.map_eq_some_iff.1 ho'.symm
      have hsame := hold hs₀
      exact hsame
    | packed ch msgId payload now _ _ s₀ =>
      obtain rfl := Option.some.inj ho'
      obtain ⟨hi, hconn, hsess⟩ := hold rfl
      have hkeep := @pack_keeps hmac4 cfg (fun s' => s'.connId = s₀.connId ∧ s'.sessId = s₀.sessId)
        (fun _ _ _ _ hs' => hs') s₀ ch msgId payload now ⟨rfl, rfl⟩
      exact ⟨hi, hkeep.1.trans hconn, by rw [hkeep.2, hsess]⟩
    | kicked => cases ho'
    | setBudget =>
      obtain rfl := Option.some.inj ho'
      have hsame := hold rfl
      exact hsame
    | checkBudget bytes now _ _ s₀ =>
      obtain rfl := Option.some.inj ho'
      have hsame := hold rfl
      unfold Session.checkBudget
      split
      · exact hsame
      · dsimp only
        split_ifs
        · exact hsame
        · exact hsame
    | shutdown => cases ho'

/-- So it is after every run. -/
theorem after (hmac4 : Hmac) (cfg : SessionTableConfig) (xs : List TableAction) :
    Filed (after hmac4 cfg xs) := by
  induction xs using List.reverseRecOn with
  | nil => exact .new
  | append_singleton xs x ih =>
    rw [after_snoc]
    exact ih.act x

variable (h : Filed t)
include h

theorem get_of_mem {s : Session} (hs : s ∈ t.sessions) : t.get s.connId = some s := by
  obtain ⟨i, c, hc⟩ := mem_sessions.1 hs
  obtain ⟨rfl, rfl, -⟩ := h.slot i c s hc
  exact hc

theorem sessId_of_mem {s : Session} (hs : s ∈ t.sessions) : s.sessId.setWidth 32 = s.connId := by
  obtain ⟨i, c, hc⟩ := mem_sessions.1 hs
  obtain ⟨-, rfl, hsess⟩ := h.slot i c s hc
  exact hsess

/-- There are no more sessions than connection ids. -/
theorem length_sessions_le : t.sessions.length ≤ 2 ^ 32 := by
  have hnodup : (t.sessions.map fun s => s.connId.toFin).Nodup := by
    refine nodup_sessions fun i c i' c' s s' hs hs' heq => ?_
    obtain ⟨hi, hc, -⟩ := h.slot i c s hs
    obtain ⟨hi', hc', -⟩ := h.slot i' c' s' hs'
    have hsame : c = c' := by
      rw [← hc, ← hc']
      exact BitVec.eq_of_toFin_eq heq
    exact ⟨by rw [hi, hi', hsame], hsame⟩
  have hle := hnodup.length_le_card
  rw [List.length_map, Fintype.card_fin] at hle
  exact hle

end Filed

/-! ## What the ids are good for -/

/-- A datagram without frames for a connection. -/
def emptyDatagram (c : U32) : Bytes := (encode ⟨VERSION, 0, c, 0, 0, 0⟩ [] []).1

theorem reads_emptyDatagram (t : SessionTable cfg) (c : U32) :
    t.reads hmac4 (emptyDatagram c) = some (⟨VERSION, 0, c, 0, 0, 0⟩, []) := by
  have hflags : fromLe 8 (slice (emptyDatagram c) 3 4) = 0 := rfl
  obtain ⟨n, hn⟩ := encode_no_frames (h := ⟨VERSION, 0, c, 0, 0, 0⟩) rfl
  have hdec : decode (emptyDatagram c) = .ok (⟨VERSION, 0, c, 0, 0, 0⟩, []) :=
    decode_encode (show encode _ [] [] = (emptyDatagram c, .ok n) from Prod.ext rfl (by rw [hn]))
  have hplain : t.verifyHmac hmac4 (emptyDatagram c) = .NoHmac := by
    unfold SessionTable.verifyHmac
    split_ifs with h1 h2
    · rfl
    · rfl
    · rw [hflags] at h2
      exact absurd (show (0 : U8) &&& (FLAG_HANDSHAKE ||| FLAG_HMAC) ≠ FLAG_HMAC by decide) h2
    · rw [hflags] at h2
      exact absurd (show (0 : U8) &&& (FLAG_HANDSHAKE ||| FLAG_HMAC) ≠ FLAG_HMAC by decide) h2
  unfold SessionTable.reads
  rw [hplain, hdec]
  rfl

/-- Every session that the operation opens has a connection id other than 0 and those of the
sessions that are there, and all of these stay. -/
def OpensFresh (hmac4 : Hmac) (t : SessionTable cfg) (x : TableAction) : Prop :=
  ∀ id peer token, .Open id peer token ∈ (t.act hmac4 x).2 →
    ∃ s ∈ (t.act hmac4 x).1.sessions, s.sessId = id ∧ s.peer = peer ∧ s.connId ≠ 0 ∧
      (∀ s' ∈ t.sessions, s'.connId ≠ s.connId) ∧ ∀ s' ∈ t.sessions, s' ∈ (t.act hmac4 x).1.sessions

/-- For every session there is a datagram that is accepted for it, and `sessions_active` is
right. -/
structure Usable (hmac4 : Hmac) (t : SessionTable cfg) : Prop where
  addressed : ∀ s ∈ t.sessions, ∃ buf header frames, Accepts hmac4 t buf header frames s
  counted : t.stats.sessionsActive.toNat = t.sessions.length

/-- The number of the next handshake is not a multiple of `2 ^ 32`, and differs from the number of
every session in the table by more than a multiple of `2 ^ 32`. -/
def Unused (t : SessionTable cfg) : Prop :=
  t.nextSessId.setWidth 32 ≠ (0 : U32) ∧
    ∀ s ∈ t.sessions, s.sessId.setWidth 32 ≠ (t.nextSessId.setWidth 32 : U32)

/-- The operation completes a handshake. -/
def Opens (hmac4 : Hmac) (t : SessionTable cfg) (x : TableAction) : Prop :=
  ∃ id peer token, .Open id peer token ∈ (t.act hmac4 x).2

theorem opens_of_answers {peer : SocketAddr} {buf : Bytes} {now : Instant} {f : FrameRef}
    {rec : PendingHandshake} (h : Answers hmac4 t peer buf now f rec) (random : Vector U8 8)
    (clock : Instant) :
    Opens hmac4 t (.datagram peer buf random now clock) := by
  obtain ⟨stats, heq⟩ := h.handled random clock
  refine ⟨t.nextSessId, peer, f.body.drop 8, ?_⟩
  show _ ∈ (t.handleDatagram hmac4 peer buf random now clock).events
  rw [heq]
  exact List.mem_cons_self

theorem Unused.vacant (h : Filed t) (hu : Unused t) : t.Vacant := by
  unfold Vacant
  cases hget : t.get (t.nextConnId.setWidth 32) with
  | none => rfl
  | some s =>
    have hs : s ∈ t.sessions := mem_sessions.2 ⟨_, _, hget⟩
    obtain ⟨-, -, hsess⟩ := h.slot _ _ s hget
    rw [h.next] at hsess
    exact absurd hsess (hu.2 s hs)

/-- What an opening puts into the table. -/
theorem opened_session (h : Filed t) {x : TableAction} {id : U64} {peer : SocketAddr}
    {token : Bytes} (hopen : .Open id peer token ∈ (t.act hmac4 x).2) :
    ∃ s, id = t.nextSessId ∧ s.sessId = id ∧ s.peer = peer ∧ s.connId = t.nextSessId.setWidth 32 ∧
      (t.act hmac4 x).1.shards = (t.set (t.nextConnId.setWidth 32) s).shards := by
  obtain ⟨buf, random, now, clock, f, rec, rfl, answers, -, rfl, -, -⟩ := opened_by hopen
  refine ⟨t.opened peer f random now, rfl, rfl, rfl, ?_, answers.outcome random clock⟩
  show t.nextConnId.setWidth 32 = _
  rw [h.next]

theorem opensFresh_iff (h : Filed t) {x : TableAction} (hx : Opens hmac4 t x) :
    OpensFresh hmac4 t x ↔ Unused t := by
  constructor
  · intro hfresh
    obtain ⟨id, peer, token, hopen⟩ := hx
    obtain ⟨s, hs, hid, -, hzero, hother, -⟩ := hfresh id peer token hopen
    obtain ⟨-, rfl, -⟩ := opened_session h hopen
    have hconn : s.connId = t.nextSessId.setWidth 32 := by
      rw [← (h.act x).sessId_of_mem hs, hid]
    rw [hconn] at hzero hother
    refine ⟨hzero, fun s' hs' => ?_⟩
    rw [h.sessId_of_mem hs']
    exact hother s' hs'
  · intro hu id peer token hopen
    obtain ⟨s, -, hid, hpeer, hconn, hshards⟩ := opened_session h hopen
    have hvacant : t.get (t.nextConnId.setWidth 32) = none := hu.vacant h
    have hget (i : Fin (max cfg.shards 1)) (c : U32) : ((t.act hmac4 x).1.shards i)[c]? =
        if i = shard (t.nextConnId.setWidth 32) ∧ c = t.nextConnId.setWidth 32 then some s
        else (t.shards i)[c]? := by
      rw [hshards]
      exact get_insert
    refine ⟨s, ?_, hid, hpeer, ?_, fun s' hs' => ?_, fun s' hs' => ?_⟩
    · refine mem_sessions.2 ⟨shard (t.nextConnId.setWidth 32), t.nextConnId.setWidth 32, ?_⟩
      rw [hget, if_pos ⟨rfl, rfl⟩]
    · rw [hconn]
      exact hu.1
    · rw [hconn, ← h.sessId_of_mem hs']
      exact hu.2 s' hs'
    · obtain ⟨i, c, hc⟩ := mem_sessions.1 hs'
      refine mem_sessions.2 ⟨i, c, ?_⟩
      rw [hget, if_neg, hc]
      rintro ⟨rfl, rfl⟩
      have hnone :
          (t.shards (shard (t.nextConnId.setWidth 32)))[(t.nextConnId.setWidth 32 : U32)]? = none :=
        hvacant
      rw [hnone] at hc
      cases hc

/-! ## Runs -/

/-- Where there is a session after an operation, there was one before, if it opens none. -/
theorem occupied_of_act {x : TableAction} (hno : ¬ Opens hmac4 t x) {i : Fin (max cfg.shards 1)}
    {c : U32} {s : Session} (hs : ((t.act hmac4 x).1.shards i)[c]? = some s) :
    ∃ s₀, (t.shards i)[c]? = some s₀ := by
  have hslot := act_slot hmac4 t x i c
  rw [hs] at hslot
  generalize (t.shards i)[c]? = o at hslot
  generalize ho' : some s = o' at hslot
  cases hslot with
  | same => exact ⟨s, ho'.symm⟩
  | opened random clock answers => exact absurd (opens_of_answers answers random clock) hno
  | packet => exact ⟨_, rfl⟩
  | maintain =>
    obtain ⟨s₀, hs₀, -⟩ := Option.map_eq_some_iff.1 ho'.symm
    exact ⟨s₀, (Option.filter_eq_some_iff.1 hs₀).1⟩
  | maintainReliable =>
    obtain ⟨s₀, hs₀, -⟩ := Option.map_eq_some_iff.1 ho'.symm
    exact ⟨s₀, hs₀⟩
  | packed => exact ⟨_, rfl⟩
  | kicked => cases ho'
  | setBudget => exact ⟨_, rfl⟩
  | checkBudget => exact ⟨_, rfl⟩
  | shutdown => cases ho'

/-- No session has connection id 0. -/
def Addressable (t : SessionTable cfg) : Prop := ∀ s ∈ t.sessions, s.connId ≠ 0

theorem Addressable.act (ha : Addressable t) (h : Filed t) {x : TableAction}
    (hu : Opens hmac4 t x → Unused t) : Addressable (t.act hmac4 x).1 := by
  intro s hs
  obtain ⟨i, c, hc⟩ := mem_sessions.1 hs
  obtain ⟨-, hconn, -⟩ := (h.act x).slot i c s hc
  have hold {s₀ : Session} (hs₀ : (t.shards i)[c]? = some s₀) : c ≠ 0 := by
    obtain ⟨-, hc₀, -⟩ := h.slot i c s₀ hs₀
    rw [← hc₀]
    exact ha s₀ (mem_sessions.2 ⟨i, c, hs₀⟩)
  rw [hconn]
  by_cases hopen : Opens hmac4 t x
  · have hzero := (hu hopen).1
    obtain ⟨id, peer, token, hmem⟩ := hopen
    obtain ⟨s', -, -, -, -, hshards⟩ := opened_session h hmem
    rw [hshards] at hc
    unfold SessionTable.set at hc
    rw [get_insert] at hc
    split_ifs at hc with heq
    · rw [heq.2, h.next]
      exact hzero
    · exact hold hc
  · obtain ⟨s₀, hs₀⟩ := occupied_of_act hopen hc
    exact hold hs₀

theorem Filed.usable (h : Filed t) (ha : Addressable t) (hc : t.Counted) : Usable hmac4 t where
  addressed s hs :=
    ⟨emptyDatagram s.connId, ⟨VERSION, 0, s.connId, 0, 0, 0⟩, [], reads_emptyDatagram t s.connId,
      BitVec.zero_and, ha s hs, h.get_of_mem hs⟩
  counted := by
    have hle := h.length_sessions_le
    unfold Counted at hc
    rw [hc, BitVec.toNat_ofNat]
    exact Nat.mod_eq_of_lt (by omega)

/-- As long as every opening finds its number unused, the table is in order. -/
theorem inOrder_after {xs : List TableAction}
    (hu : ∀ before x rest, xs = before ++ x :: rest → Opens hmac4 (after hmac4 cfg before) x →
      Unused (after hmac4 cfg before)) :
    Addressable (after hmac4 cfg xs) ∧ (after hmac4 cfg xs).Counted := by
  induction xs using List.reverseRecOn with
  | nil =>
    refine ⟨fun s hs => ?_, counted_new⟩
    obtain ⟨i, c, hc⟩ := mem_sessions.1 hs
    have hnone : ((SessionTable.new : SessionTable cfg).shards i)[c]? = none :=
      Std.ExtTreeMap.getElem?_empty
    cases hnone.symm.trans hc
  | append_singleton xs x ih =>
    have hlast := hu xs x [] rfl
    have hfiled := Filed.after hmac4 cfg xs
    obtain ⟨ha, hcount⟩ := ih fun before y rest hxs hopen =>
      hu before y (rest ++ [x]) (by rw [hxs, List.append_assoc, List.cons_append]) hopen
    rw [after_snoc]
    exact ⟨ha.act hfiled hlast, hcount.act fun id peer token hmem =>
      (hlast ⟨id, peer, token, hmem⟩).vacant hfiled⟩

/-- **Connection ids.** For every run on a new table: every session that is opened gets a connection
id other than 0 and those of the sessions in the table, and replaces none of them, and in every
state each session can be addressed and `sessions_active` is the number of sessions, if and only if
every handshake that is completed finds its number unused. -/
theorem conn_ids_iff (hmac4 : Hmac) (cfg : SessionTableConfig) (xs : List TableAction) :
    ((∀ before x rest, xs = before ++ x :: rest → OpensFresh hmac4 (after hmac4 cfg before) x) ∧
        ∀ before rest, xs = before ++ rest → Usable hmac4 (after hmac4 cfg before)) ↔
      ∀ before x rest, xs = before ++ x :: rest → Opens hmac4 (after hmac4 cfg before) x →
        Unused (after hmac4 cfg before) := by
  constructor
  · rintro ⟨hfresh, -⟩ before x rest hxs hopen
    exact (opensFresh_iff (Filed.after hmac4 cfg before) hopen).1 (hfresh before x rest hxs)
  · intro hu
    refine ⟨fun before x rest hxs => ?_, fun before rest hxs => ?_⟩
    · by_cases hopen : Opens hmac4 (after hmac4 cfg before) x
      · exact (opensFresh_iff (Filed.after hmac4 cfg before) hopen).2 (hu before x rest hxs hopen)
      · exact fun id peer token hmem => absurd ⟨id, peer, token, hmem⟩ hopen
    · obtain ⟨ha, hcount⟩ := @inOrder_after cfg hmac4 before fun pre y mid hpre hopen =>
        hu pre y (mid ++ rest) (by rw [hxs, hpre, List.append_assoc, List.cons_append]) hopen
      exact (Filed.after hmac4 cfg before).usable ha hcount

/-! ## All ids given out -/

/-- The handshake packet with this body. -/
def greeting (body : Bytes) : Bytes :=
  (encode ⟨VERSION, FLAG_HANDSHAKE, 0, 0, 0, 0⟩ [⟨0, 0, body⟩] []).1

/-- A handshake packet reaches the table. -/
def greet (body : Bytes) : TableAction :=
  .datagram (.V4 0 0) (greeting body) (Vector.replicate 8 0) 0 0

/-- The client with this number comes and is kicked. -/
def visitor (n : ℕ) : List TableAction := hello ++ [.kick (BitVec.ofNat 64 (n + 1))]

def visitors (n : ℕ) : List TableAction := (List.range n).flatMap visitor

theorem greets_greeting (t : SessionTable plainConfig) {body : Bytes} (hlen : body.length ≤ 8) :
    Greets noHmac t (greeting body) ⟨0, 0, body⟩ := by
  have hvalid : ∀ f ∈ [(⟨0, 0, body⟩ : FrameRef)], f.Valid := by
    intro f hf
    rw [List.mem_singleton.1 hf]
    exact ⟨show (0 : U8) ≤ 3 by decide, show (0 : U16) ≤ 0x0FFF by decide⟩
  have hfits : HEADER_LEN + ([(⟨0, 0, body⟩ : FrameRef)].flatMap frameBytes).length ≤ MTU := by
    have hM : MTU = 1200 := rfl
    have hH : HEADER_LEN = 16 := rfl
    rw [List.flatMap_singleton, length_frameBytes]
    dsimp only
    omega
  obtain ⟨n, hn⟩ := encode_ok (h := ⟨VERSION, FLAG_HANDSHAKE, 0, 0, 0, 0⟩) [] rfl hvalid hfits
  have hdec : decode (greeting body) =
      .ok (⟨VERSION, FLAG_HANDSHAKE, 0, 0, 0, 0⟩, [⟨0, 0, body⟩]) :=
    decode_encode (show encode _ [⟨0, 0, body⟩] [] = (greeting body, .ok n) from
      Prod.ext rfl (by rw [hn]))
  have hplain : t.verifyHmac noHmac (greeting body) = .NoHmac := if_pos (Or.inl Bool.false_ne_true)
  refine ⟨⟨VERSION, FLAG_HANDSHAKE, 0, 0, 0, 0⟩, [⟨0, 0, body⟩], ?_,
    show FLAG_HANDSHAKE &&& FLAG_HANDSHAKE ≠ 0 by decide, rfl⟩
  unfold SessionTable.reads
  rw [hplain, hdec]
  rfl

/-- A first handshake packet is challenged, with zeros. -/
theorem challenged_greet {t : SessionTable plainConfig}
    (hp : t.pending[SocketAddr.V4 0 0]? = none) :
    (t.act noHmac (greet [])).1.nextSessId = t.nextSessId ∧
      Answers noHmac (t.act noHmac (greet [])).1 (.V4 0 0) (greeting (List.replicate 8 0)) 0
        ⟨0, 0, List.replicate 8 0⟩ ⟨Vector.replicate 8 0, 0⟩ := by
  have hfresh : (t.fresh 0)[SocketAddr.V4 0 0]? = none := by
    cases hrec : (t.fresh 0)[SocketAddr.V4 0 0]? with
    | none => rfl
    | some rec =>
      rw [(fresh_eq_some.1 hrec).1] at hp
      cases hp
  obtain ⟨hpending, -, hsess⟩ :=
    (greets_greeting t (show ([] : Bytes).length ≤ 8 from Nat.zero_le 8)).challenged
      (Vector.replicate 8 0) 0 hfresh
  refine ⟨hsess, greets_greeting _ le_rfl, ?_, by decide, le_rfl, rfl⟩
  show (t.handleDatagram noHmac _ _ _ _ _).table.pending[SocketAddr.V4 0 0]? = _
  rw [hpending, Std.ExtTreeMap.getElem?_insert_self]

/-- A visitor takes a number and leaves no challenge. -/
theorem visited_one {t : SessionTable plainConfig} (hp : t.pending[SocketAddr.V4 0 0]? = none)
    (n : ℕ) :
    (t.run noHmac (visitor n)).1.nextSessId = t.nextSessId + 1 ∧
      (t.run noHmac (visitor n)).1.pending[SocketAddr.V4 0 0]? = none := by
  obtain ⟨hsess, hanswers⟩ := challenged_greet hp
  set t₁ := (t.act noHmac (greet [])).1 with ht₁
  set t₂ := (t₁.act noHmac (greet (List.replicate 8 0))).1 with ht₂
  obtain ⟨stats, hopen⟩ := hanswers.handled (Vector.replicate 8 0) 0
  have ht₂' : t₂ = (t₁.handleDatagram noHmac _ _ _ _ _).table := rfl
  have hrun : (t.run noHmac (visitor n)).1 = (t₂.act noHmac (.kick (BitVec.ofNat 64 (n + 1)))).1 :=
    rfl
  obtain ⟨hpending, -, hkept⟩ := @act_inner _ noHmac t₂ (.kick (BitVec.ofNat 64 (n + 1))) trivial
  rw [hrun, hpending, hkept, ht₂', hopen]
  refine ⟨?_, Std.ExtTreeMap.getElem?_erase_self⟩
  rw [← hsess]
  rfl

theorem visited (n : ℕ) :
    (after noHmac plainConfig (visitors n)).nextSessId = BitVec.ofNat 64 (n + 1) ∧
      (after noHmac plainConfig (visitors n)).pending[SocketAddr.V4 0 0]? = none := by
  induction n with
  | zero => exact ⟨rfl, Std.ExtTreeMap.getElem?_empty⟩
  | succ n ih =>
    have hsplit : visitors (n + 1) = visitors n ++ visitor n := by
      unfold visitors
      rw [List.range_succ, List.flatMap_append, List.flatMap_singleton]
    have hstep := visited_one ih.2 n
    unfold after
    rw [hsplit, run_append_fst]
    rw [ih.1] at hstep
    refine ⟨hstep.1.trans ?_, hstep.2⟩
    exact (BitVec.ofNat_add ..).symm

/-- After `2 ^ 32 - 1` visitors the next client gets connection id 0. -/
theorem conn_id_zero :
    ¬ ((∀ before x rest, visitors (2 ^ 32 - 1) ++ hello = before ++ x :: rest →
          OpensFresh noHmac (after noHmac plainConfig before) x) ∧
        ∀ before rest, visitors (2 ^ 32 - 1) ++ hello = before ++ rest →
          Usable noHmac (after noHmac plainConfig before)) := by
  rintro ⟨hfresh, -⟩
  obtain ⟨hcount, hp⟩ := visited (2 ^ 32 - 1)
  obtain ⟨hsess, hanswers⟩ := challenged_greet hp
  have hsplit : visitors (2 ^ 32 - 1) ++ hello =
      (visitors (2 ^ 32 - 1) ++ [greet []]) ++ greet (List.replicate 8 0) :: [] := by
    rw [List.append_assoc]
    rfl
  have hlast := hfresh _ _ _ hsplit
  rw [after_snoc] at hlast
  have hfiled :
      Filed ((after noHmac plainConfig (visitors (2 ^ 32 - 1))).act noHmac (greet [])).1 :=
    (Filed.after noHmac plainConfig (visitors (2 ^ 32 - 1))).act (greet [])
  have hopens := opens_of_answers hanswers (Vector.replicate 8 0) 0
  refine ((opensFresh_iff hfiled hopens).1 hlast).1 ?_
  rw [hsess, hcount]
  decide

end SoupEngine
