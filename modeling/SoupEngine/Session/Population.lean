import SoupEngine.Session.Grammar
import SoupEngine.Session.Handshake

/-!
# How many sessions there are

The counter `sessions_active` is kept beside the table, and every operation counts what it removes
and what it opens. It counts an opening as one more session, also when the connection id is that of
another session: `Counted.act` asks that it is not.
-/

namespace SoupEngine

section Frames

variable {header : DatagramHeader} {now : Instant}

theorem dispatchFrame_sessionsActive (rx : Rx) (f : FrameRef) :
    (dispatchFrame header now rx f).stats.sessionsActive = rx.stats.sessionsActive := by
  unfold dispatchFrame
  split_ifs <;> rfl

theorem foldl_sessionsActive (frames : List FrameRef) (rx : Rx) :
    (frames.foldl (handleFrame header now) rx).stats.sessionsActive = rx.stats.sessionsActive := by
  induction frames generalizing rx with
  | nil => rfl
  | cons f fs ih =>
    rw [List.foldl_cons, ih]
    unfold handleFrame
    dsimp only
    rw [dispatchFrame_sessionsActive]

/-- A packet opens no session and closes none. -/
theorem handlePacket_sessionsActive (s : Session) (stats : Stats) (peer : SocketAddr)
    (frames : List FrameRef) (clock : Instant) :
    (handlePacket s stats peer header frames now clock).stats.sessionsActive =
      stats.sessionsActive := by
  have hrebind : (if s.peer ≠ peer then { stats with natRebind := stats.natRebind + 1 }
      else stats).sessionsActive = stats.sessionsActive := by
    split_ifs <;> rfl
  have hanswer (rx : Rx) : (answerAck peer rx).stats = rx.stats := by
    unfold answerAck
    split_ifs
    · split <;> rfl
    · rfl
  cases hst : s.state with
  | Grace since =>
    unfold handlePacket
    rw [hst]
    exact hrebind
  | Active =>
    rw [handlePacket_active stats peer header now clock hst]
    unfold handleActive
    rw [hanswer, foldl_sessionsActive]
    exact hrebind

end Frames

namespace SessionTable

variable {cfg : SessionTableConfig} {t : SessionTable cfg}

/-! ## The number of sessions -/

theorem length_values (m : Map U32 Session) : m.values.length = m.size := by
  rw [values_eq, List.length_map, Std.ExtTreeMap.length_toList]

theorem length_sessions (t : SessionTable cfg) : t.sessions.length = ∑ i, (t.shards i).size := by
  unfold sessions
  rw [List.length_flatMap, Fin.sum_univ_def]
  simp only [length_values]

/-- One shard is replaced. -/
theorem length_sessions_update {t' : SessionTable cfg} {i : Fin (max cfg.shards 1)}
    {m : Map U32 Session} (h : t'.shards = Function.update t.shards i m) :
    t'.sessions.length + (t.shards i).size = t.sessions.length + m.size := by
  have hsize : (fun j => (t'.shards j).size) =
      Function.update (fun j => (t.shards j).size) i m.size := by
    funext j
    rw [h]
    by_cases hj : j = i
    · subst hj
      rw [Function.update_self, Function.update_self]
    · rw [Function.update_of_ne hj, Function.update_of_ne hj]
  have hsum := Finset.sum_update_of_mem (Finset.mem_univ i) (fun j => (t.shards j).size) m.size
  have hall := Finset.add_sum_erase Finset.univ (fun j => (t.shards j).size) (Finset.mem_univ i)
  rw [Finset.sdiff_singleton_eq_erase] at hsum
  rw [length_sessions, length_sessions, hsize, hsum, ← hall]
  omega

theorem length_sessions_insert {t' : SessionTable cfg} {i : Fin (max cfg.shards 1)} {c : U32}
    {s : Session} (h : t'.shards = Function.update t.shards i ((t.shards i).insert c s)) :
    t'.sessions.length = t.sessions.length + if c ∈ t.shards i then 0 else 1 := by
  have hupd := length_sessions_update h
  rw [Std.ExtTreeMap.size_insert] at hupd
  simp only [Std.ExtTreeMap.contains_iff_mem] at hupd
  split_ifs at hupd ⊢ <;> omega

/-- A session that is there is replaced by another one. -/
theorem length_sessions_replace {t' : SessionTable cfg} {i : Fin (max cfg.shards 1)} {c : U32}
    {s s' : Session} (h : t'.shards = Function.update t.shards i ((t.shards i).insert c s'))
    (hs : (t.shards i)[c]? = some s) :
    t'.sessions.length = t.sessions.length := by
  have hmem : c ∈ t.shards i := by
    rw [Std.ExtTreeMap.mem_iff_isSome_getElem?, hs]
    rfl
  rw [length_sessions_insert h, if_pos hmem, Nat.add_zero]

theorem length_sessions_erase {t' : SessionTable cfg} {i : Fin (max cfg.shards 1)} {c : U32}
    {s : Session} (h : t'.shards = Function.update t.shards i ((t.shards i).erase c))
    (hs : (t.shards i)[c]? = some s) :
    t'.sessions.length + 1 = t.sessions.length := by
  have hmem : c ∈ t.shards i := by
    rw [Std.ExtTreeMap.mem_iff_isSome_getElem?, hs]
    rfl
  have hpos : 0 < (t.shards i).size := by
    by_contra hzero
    have hempty := Std.ExtTreeMap.eq_empty_iff_size_eq_zero.2 (Nat.eq_zero_of_not_pos hzero)
    rw [hempty] at hs
    cases (Std.ExtTreeMap.getElem?_empty (a := c)).symm.trans hs
  have hupd := length_sessions_update h
  rw [Std.ExtTreeMap.size_erase, if_pos (Std.ExtTreeMap.contains_iff_mem.2 hmem)] at hupd
  omega

/-- `maintain` keeps the sessions that it does not close. -/
theorem sessions_maintain (now : Instant) :
    (t.maintain now).1.sessions =
      (t.sessions.filter fun s => !s.expires cfg now).map fun s => s.maintain cfg now := by
  unfold sessions maintain
  dsimp only
  rw [List.filter_flatMap, List.map_flatMap]
  refine List.flatMap_congr fun i _ => ?_
  rw [values_eq, values_eq, Std.ExtTreeMap.toList_map, Std.ExtTreeMap.toList_filter, List.map_map,
    List.filter_map, List.map_map]
  rfl

theorem sessions_maintainReliable (now : Instant) :
    (t.maintainReliable now).1.sessions = t.sessions.map fun s => s.maintainReliable now := by
  unfold sessions maintainReliable
  dsimp only
  rw [List.map_flatMap]
  refine List.flatMap_congr fun i _ => ?_
  rw [values_eq, values_eq, Std.ExtTreeMap.toList_map, List.map_map, List.map_map]
  rfl

theorem sessions_shutdownAll : t.shutdownAll.1.sessions = [] := by
  unfold sessions shutdownAll
  dsimp only
  refine List.flatMap_eq_nil_iff.2 fun i _ => ?_
  rw [values_eq]
  rfl

/-! ## The counter -/

/-- `sessions_active` is the number of sessions. -/
def Counted (t : SessionTable cfg) : Prop :=
  t.stats.sessionsActive = BitVec.ofNat 64 t.sessions.length

theorem counted_new : (new : SessionTable cfg).Counted := by
  have hnil : (new : SessionTable cfg).sessions = [] := by
    refine List.eq_nil_iff_forall_not_mem.2 fun s hs => ?_
    obtain ⟨i, c, hc⟩ := mem_sessions.1 hs
    have hnone : ((new : SessionTable cfg).shards i)[c]? = none := Std.ExtTreeMap.getElem?_empty
    rw [hnone] at hc
    cases hc
  unfold Counted
  rw [hnil]
  rfl

variable {hmac4 : Hmac}

/-- The connection id that the next session will get belongs to no session. -/
def Vacant (t : SessionTable cfg) : Prop := t.get (t.nextConnId.setWidth 32) = none

theorem Counted.congr {t' : SessionTable cfg} (h : t.Counted)
    (hstats : t'.stats.sessionsActive = t.stats.sessionsActive)
    (hlen : t'.sessions.length = t.sessions.length) : t'.Counted := by
  unfold Counted
  rw [hstats, hlen]
  exact h

theorem sessions_congr {t' : SessionTable cfg} (h : t'.shards = t.shards) :
    t'.sessions = t.sessions := by
  unfold sessions
  rw [h]

/-- So many of the sessions are removed. -/
theorem Counted.removed {t' : SessionTable cfg} {n : ℕ} (h : t.Counted)
    (hstats : t'.stats.sessionsActive = t.stats.sessionsActive - BitVec.ofNat 64 n)
    (hlen : t'.sessions.length + n = t.sessions.length) : t'.Counted := by
  unfold Counted at h ⊢
  rw [hstats, h, ← hlen, BitVec.ofNat_add, BitVec.add_sub_cancel]

/-- An opening is counted, and nothing else that a datagram does. -/
theorem handleDatagram_sessionsActive (peer : SocketAddr) (buf : Bytes) (random : Vector U8 8)
    (now clock : Instant) :
    (t.handleDatagram hmac4 peer buf random now clock).table.stats.sessionsActive =
      t.stats.sessionsActive +
        BitVec.ofNat 64
          (openIds (t.handleDatagram hmac4 peer buf random now clock).events).length := by
  rcases t.handleDatagram_cases hmac4 peer buf random now clock with
    hbad | ⟨data, header, frames, hdec, -, heq⟩
  · rw [hbad]
    exact (BitVec.add_zero _).symm
  rw [heq]
  unfold handlePlain
  rw [hdec]
  dsimp only
  split_ifs with hflag hconn
  · unfold handleHandshake
    cases frames.head? with
    | none => exact (BitVec.add_zero _).symm
    | some f =>
      dsimp only
      split
      · split_ifs
        · exact (BitVec.add_zero _).symm
        · exact (BitVec.add_zero _).symm
        · rfl
      · exact (BitVec.add_zero _).symm
  · exact (BitVec.add_zero _).symm
  · unfold handleSessionPacket
    split
    · exact (BitVec.add_zero _).symm
    · rename_i s _
      have hnone : ∀ stats, openIds (handlePacket s stats peer header frames now clock).events =
          [] := by
        refine fun stats => openIds_eq_nil fun id peer' token hmem => ?_
        exact ((own_handlePacket s stats peer header frames now clock).2 _ hmem).elim
      dsimp only
      rw [handlePacket_sessionsActive, hnone]
      exact (BitVec.add_zero _).symm

/-- **The counter** stays right, if no session is opened under the connection id of another one. -/
theorem Counted.act (h : t.Counted) {x : TableAction}
    (hfree : ∀ id peer token, .Open id peer token ∈ (t.act hmac4 x).2 → t.Vacant) :
    (t.act hmac4 x).1.Counted := by
  cases x with
  | datagram peer buf random now clock =>
    have hactive := @handleDatagram_sessionsActive _ t hmac4 peer buf random now clock
    have hsame (hshards : (t.handleDatagram hmac4 peer buf random now clock).table.shards =
        t.shards) (hnone : (t.handleDatagram hmac4 peer buf random now clock).events = []) :
        (t.handleDatagram hmac4 peer buf random now clock).table.Counted := by
      rw [hnone] at hactive
      exact h.congr (hactive.trans (BitVec.add_zero _))
        (congrArg List.length (sessions_congr hshards))
    show (t.handleDatagram hmac4 peer buf random now clock).table.Counted
    cases handleDatagram_outcome hmac4 t peer buf random now clock with
    | dropped events shards => exact hsame shards events
    | refused events shards => exact hsame shards events
    | challenged _ _ _ events shards => exact hsame shards events
    | opened f rec _ events shards =>
      have hvacant : t.Vacant := hfree t.nextSessId peer (f.body.drop 8) (by
        show _ ∈ (t.handleDatagram hmac4 peer buf random now clock).events
        rw [events]
        exact List.mem_cons_self)
      have hout : (t.nextConnId.setWidth 32 : U32) ∉ t.shards
          (shard (t.nextConnId.setWidth 32)) := by
        rw [Std.ExtTreeMap.mem_iff_isSome_getElem?, Option.not_isSome_iff_eq_none]
        exact hvacant
      have hlen := length_sessions_insert (t := t) shards
      rw [if_neg hout] at hlen
      rw [events] at hactive
      unfold Counted at h ⊢
      rw [hactive, h, hlen, BitVec.ofNat_add]
      rfl
    | packet header frames s stats accepts events shards =>
      have hlen := length_sessions_replace (t := t) shards accepts.get
      have hnone : openIds (t.handleDatagram hmac4 peer buf random now clock).events = [] := by
        rw [events]
        refine openIds_eq_nil fun id peer' token hmem => ?_
        exact ((own_handlePacket s stats peer header frames now clock).2 _ hmem).elim
      rw [hnone] at hactive
      exact h.congr (hactive.trans (BitVec.add_zero _)) hlen
  | maintain now =>
    refine h.removed (n := (t.sessions.filter (Session.expires cfg now)).length) rfl ?_
    show (t.maintain now).1.sessions.length + _ = _
    rw [sessions_maintain, List.length_map, Nat.add_comm]
    exact (List.length_eq_length_filter_add _).symm
  | maintainReliable now =>
    refine h.congr rfl ?_
    show (t.maintainReliable now).1.sessions.length = _
    rw [sessions_maintainReliable, List.length_map]
  | packOutbound sessId ch msgId payload now =>
    show (t.packOutbound hmac4 sessId ch msgId payload now).1.Counted
    unfold packOutbound
    split_ifs
    · exact h
    · cases hfind : t.findSession sessId with
      | none => exact h
      | some e =>
        obtain ⟨i, c, s⟩ := e
        dsimp only
        cases (s.packOutbound hmac4 cfg ch msgId payload now).2 with
        | error e => exact h.congr rfl (length_sessions_replace rfl (mem_of_findSession hfind).1)
        | ok out => exact h.congr rfl (length_sessions_replace rfl (mem_of_findSession hfind).1)
  | kick sessId =>
    show (t.kick sessId).1.Counted
    unfold kick
    cases hfind : t.findSession sessId with
    | none => exact h
    | some e =>
      exact h.removed (n := 1) rfl (length_sessions_erase rfl (mem_of_findSession hfind).1)
  | setBudget sessId kbps =>
    show (t.setBudget sessId kbps).Counted
    unfold setBudget
    cases hfind : t.findSession sessId with
    | none => exact h
    | some e => exact h.congr rfl (length_sessions_replace rfl (mem_of_findSession hfind).1)
  | checkBudget sessId bytes now =>
    show (t.checkBudget sessId bytes now).1.Counted
    unfold checkBudget
    cases hfind : t.findSession sessId with
    | none => exact h
    | some e => exact h.congr rfl (length_sessions_replace rfl (mem_of_findSession hfind).1)
  | shutdownAll =>
    refine h.removed (n := t.sessions.length) rfl ?_
    show t.shutdownAll.1.sessions.length + _ = _
    rw [sessions_shutdownAll, List.length_nil, Nat.zero_add]

end SessionTable

end SoupEngine
