import SoupEngine.Lib.TransitionSystem
import SoupEngine.Session.Slots

/-!
# The life of a session

The events about a session are its opening, data and resumptions, and at most one closing. A session
that is kicked leaves the table without a closing, and so does one whose connection id is given to a
new session; in a run without that, exactly the sessions that are not in the table any more have
been closed (`session_grammar`).
-/

namespace SoupEngine

open TransitionSystem

/-- The events about a session. -/
def eventsOf (id : U64) (L : List SessionEvent) : List SessionEvent :=
  L.filter fun e => e.sessId = id

/-- The events about a session that is in the table, or not: nothing yet, or an opening, data and
resumptions, and a closing if and only if it is not. -/
def Grammar (live : Prop) (id : U64) (l : List SessionEvent) : Prop :=
  (¬ live ∧ l = []) ∨
    ∃ peer token talk ending, l = .Open id peer token :: (talk ++ ending) ∧
      (∀ e ∈ talk, e.Talk id) ∧
      (live ∧ ending = [] ∨ ¬ live ∧ ∃ reason, ending = [.Close id reason])

section Grammar

variable {live live' : Prop} {id : U64} {l : List SessionEvent}

theorem Grammar.congr (h : Grammar live id l) (hlive : live' ↔ live) : Grammar live' id l := by
  rw [propext hlive]
  exact h

/-- A session that is in the table talks. -/
theorem Grammar.talk (h : Grammar live id l) (hlive : live) {talk : List SessionEvent}
    (htalk : ∀ e ∈ talk, e.Talk id) : Grammar live id (l ++ talk) := by
  rcases h with ⟨hnot, -⟩ | ⟨peer, token, before, ending, rfl, hbefore, ⟨-, rfl⟩ | ⟨hnot, -⟩⟩
  · exact absurd hlive hnot
  · refine Or.inr ⟨peer, token, before ++ talk, [], ?_, fun e he => ?_, Or.inl ⟨hlive, rfl⟩⟩
    · rw [List.append_nil, List.append_nil, List.cons_append]
    · exact (List.mem_append.1 he).elim (hbefore e) (htalk e)
  · exact absurd hlive hnot

/-- A session that is in the table is closed and leaves it. -/
theorem Grammar.close (h : Grammar live id l) (hlive : live) (hleft : ¬ live') (reason : U8) :
    Grammar live' id (l ++ [.Close id reason]) := by
  rcases h with ⟨hnot, -⟩ | ⟨peer, token, talk, ending, rfl, htalk, ⟨-, rfl⟩ | ⟨hnot, -⟩⟩
  · exact absurd hlive hnot
  · refine Or.inr ⟨peer, token, talk, [.Close id reason], ?_, htalk, Or.inr ⟨hleft, reason, rfl⟩⟩
    rw [List.append_nil, List.cons_append]
  · exact absurd hlive hnot

theorem Grammar.open (hlive : live) (peer : SocketAddr) (token : Bytes) :
    Grammar live id [.Open id peer token] :=
  Or.inr ⟨peer, token, [], [], rfl, fun _ he => absurd he List.not_mem_nil, Or.inl ⟨hlive, rfl⟩⟩

/-- There are events about every session that is in the table. -/
theorem Grammar.ne_nil (h : Grammar live id l) (hlive : live) : l ≠ [] := by
  rcases h with ⟨hnot, -⟩ | ⟨peer, token, talk, ending, rfl, -, -⟩
  · exact absurd hlive hnot
  · exact List.cons_ne_nil _ _

end Grammar

section EventsOf

variable {id : U64} {L : List SessionEvent}

theorem eventsOf_append (id : U64) (L M : List SessionEvent) :
    eventsOf id (L ++ M) = eventsOf id L ++ eventsOf id M := List.filter_append L M

theorem eventsOf_talk (h : ∀ e ∈ L, e.Talk id) : eventsOf id L = L :=
  List.filter_eq_self.2 fun e he => decide_eq_true (h e he).sessId_eq

theorem eventsOf_other {id' : U64} (h : ∀ e ∈ L, e.sessId = id') (hne : id ≠ id') :
    eventsOf id L = [] :=
  List.filter_eq_nil_iff.2 fun e he hid => hne ((of_decide_eq_true hid).symm.trans (h e he))

/-- The closings of different sessions. -/
theorem eventsOf_closings {ss : List Session} (h : (ss.map Session.sessId).Nodup) (reason : U8) :
    eventsOf id (ss.map fun s => .Close s.sessId reason) =
      if id ∈ ss.map Session.sessId then [.Close id reason] else [] := by
  induction ss with
  | nil => rfl
  | cons s ss ih =>
    rw [List.map_cons, List.nodup_cons] at h
    have hrest := ih h.2
    unfold eventsOf at hrest ⊢
    rw [List.map_cons, List.map_cons, List.filter_cons, hrest]
    show (if decide (s.sessId = id) = true then _ else _) = _
    by_cases hid : s.sessId = id
    · subst hid
      rw [if_pos (decide_eq_true rfl), if_neg h.1, if_pos List.mem_cons_self]
    · rw [if_neg fun he => hid (of_decide_eq_true he)]
      exact if_congr (by rw [List.mem_cons, or_iff_right (Ne.symm hid)]) rfl rfl

end EventsOf

namespace SessionTable

variable {cfg : SessionTableConfig}

/-- The id of the session at a place of the table. -/
def idAt (t : SessionTable cfg) (i : Fin (max cfg.shards 1)) (c : U32) : Option U64 :=
  (t.shards i)[c]?.map Session.sessId

/-- The session is in the table. -/
def Live (t : SessionTable cfg) (id : U64) : Prop := ∃ i c, t.idAt i c = some id

/-- No two sessions have the same id. -/
def Distinct (t : SessionTable cfg) : Prop :=
  ∀ i c i' c' id, t.idAt i c = some id → t.idAt i' c' = some id → i = i' ∧ c = c'

theorem mem_sessions {t : SessionTable cfg} {s : Session} :
    s ∈ t.sessions ↔ ∃ (i : Fin (max cfg.shards 1)) (c : U32), (t.shards i)[c]? = some s := by
  unfold sessions
  rw [List.mem_flatMap]
  constructor
  · rintro ⟨i, -, hs⟩
    exact ⟨i, mem_values.1 hs⟩
  · rintro ⟨i, hs⟩
    exact ⟨i, List.mem_finRange i, mem_values.2 hs⟩

/-- What tells the slots of the table apart is different for all sessions. -/
theorem nodup_sessions {κ : Type} {t : SessionTable cfg} {f : Session → κ}
    (h : ∀ (i : Fin (max cfg.shards 1)) (c : U32) (i' : Fin (max cfg.shards 1)) (c' : U32)
      (s s' : Session),
      (t.shards i)[c]? = some s → (t.shards i')[c']? = some s' → f s = f s' → i = i' ∧ c = c') :
    (t.sessions.map f).Nodup := by
  have hat {i : Fin (max cfg.shards 1)} {c : U32} {s : Session}
      (hs : (c, s) ∈ (t.shards i).toList) :
      (t.shards i)[c]? = some s := Std.ExtTreeMap.mem_toList_iff_getElem?_eq_some.1 hs
  unfold sessions
  rw [List.map_flatMap, List.nodup_flatMap]
  refine ⟨fun i _ => ?_, ?_⟩
  · rw [values_eq, List.map_map]
    refine List.pairwise_map.2 (Std.ExtTreeMap.distinct_keys_toList.imp_of_mem ?_)
    rintro ⟨c, s⟩ ⟨c', s'⟩ hs hs' hne heq
    obtain ⟨-, rfl⟩ := h i c i c' s s' (hat hs) (hat hs') heq
    exact hne Std.ReflCmp.compare_self
  · refine (List.nodup_finRange _).imp_of_mem fun {i j} _ _ hne => ?_
    intro k hk hk'
    dsimp only at hk hk'
    rw [values_eq, List.map_map] at hk hk'
    obtain ⟨⟨c, s⟩, hs, rfl⟩ := List.mem_map.1 hk
    obtain ⟨⟨c', s'⟩, hs', he⟩ := List.mem_map.1 hk'
    have hsame : f s' = f s := he
    exact hne (h i c j c' s s' (hat hs) (hat hs') hsame.symm).1

theorem Distinct.nodup {t : SessionTable cfg} (h : t.Distinct) :
    (t.sessions.map Session.sessId).Nodup := by
  refine nodup_sessions fun i c i' c' s s' hs hs' heq => ?_
  have hid {i : Fin (max cfg.shards 1)} {c : U32} {s : Session} (hs : (t.shards i)[c]? = some s) :
      t.idAt i c = some s.sessId := by
    unfold idAt
    rw [hs]
    rfl
  exact h i c i' c' s.sessId (hid hs) (heq ▸ hid hs')

/-- No session leaves the table without a closing, and no id is given twice: no session of the table
is kicked, and when a challenge is answered the next connection id is free and the session ids have
not come round. -/
def Reported (hmac4 : Hmac) (t : SessionTable cfg) : TableAction → Prop
  | .datagram peer buf _ now _ => ∀ f rec, Answers hmac4 t peer buf now f rec →
      t.get (t.nextConnId.setWidth 32) = none ∧ t.nextSessId ≠ 0
  | .kick sessId => ¬ t.Live sessId
  | _ => True

end SessionTable

open SessionTable

/-- The table and the events so far. -/
structure Ledger {cfg : SessionTableConfig} (t : SessionTable cfg) (L : List SessionEvent) :
    Prop where
  distinct : t.Distinct
  fresh : t.nextSessId ≠ 0 → ∀ e ∈ L, e.sessId < t.nextSessId
  grammar : ∀ id, Grammar (t.Live id) id (eventsOf id L)

section Ledger

variable {cfg : SessionTableConfig} {t t' : SessionTable cfg} {L : List SessionEvent}

theorem ledger_new : Ledger (SessionTable.new : SessionTable cfg) [] where
  distinct i c i' c' id h := by
    have hnone : (SessionTable.new : SessionTable cfg).idAt i c = none :=
      congrArg (Option.map Session.sessId) Std.ExtTreeMap.getElem?_empty
    rw [hnone] at h
    cases h
  fresh _ e he := absurd he List.not_mem_nil
  grammar id := by
    refine Or.inl ⟨?_, rfl⟩
    rintro ⟨i, c, h⟩
    have hnone : (SessionTable.new : SessionTable cfg).idAt i c = none :=
      congrArg (Option.map Session.sessId) Std.ExtTreeMap.getElem?_empty
    rw [hnone] at h
    cases h

/-- The same sessions, and one of them has talked. -/
theorem Ledger.talk (h : Ledger t L) (hids : ∀ i c, t'.idAt i c = t.idAt i c)
    (hnext : t'.nextSessId = t.nextSessId) {id : U64} {talk : List SessionEvent}
    (htalk : ∀ e ∈ talk, e.Talk id) (hlive : talk = [] ∨ t.Live id) : Ledger t' (L ++ talk) := by
  have hsame (id : U64) : t'.Live id ↔ t.Live id := by
    unfold Live
    exact exists_congr fun i => exists_congr fun c => by rw [hids]
  refine ⟨fun i c i' c' id' h1 h2 => ?_, fun hne e he => ?_, fun id' => ?_⟩
  · rw [hids] at h1 h2
    exact h.distinct i c i' c' id' h1 h2
  · rw [hnext] at hne ⊢
    rcases List.mem_append.1 he with he | he
    · exact h.fresh hne e he
    · rcases hlive with rfl | hlive
      · cases he
      · obtain ⟨e', he', hid⟩ : ∃ e' ∈ L, e'.sessId = id := by
          obtain ⟨e', he'⟩ := List.exists_mem_of_ne_nil _ ((h.grammar id).ne_nil hlive)
          obtain ⟨hmem, hid⟩ := List.mem_filter.1 he'
          exact ⟨e', hmem, of_decide_eq_true hid⟩
        rw [(htalk e he).sessId_eq, ← hid]
        exact h.fresh hne e' he'
  · rw [eventsOf_append]
    refine Grammar.congr ?_ (hsame id')
    by_cases hid : id' = id
    · subst hid
      rcases hlive with rfl | hlive
      · exact (List.append_nil (eventsOf id' L)).symm ▸ h.grammar id'
      · rw [eventsOf_talk htalk]
        exact (h.grammar id').talk hlive htalk
    · rw [eventsOf_other (fun e he => (htalk e he).sessId_eq) hid, List.append_nil]
      exact h.grammar id'

/-- Nothing is reported and the same sessions stay. -/
theorem Ledger.silent (h : Ledger t L) (hids : ∀ i c, t'.idAt i c = t.idAt i c)
    (hnext : t'.nextSessId = t.nextSessId) : Ledger t' (L ++ []) :=
  @Ledger.talk _ t t' L h hids hnext 0 [] (fun _ he => absurd he List.not_mem_nil) (Or.inl rfl)

/-- A session with a new id is put at a free place. -/
theorem Ledger.open (h : Ledger t L) {j : Fin (max cfg.shards 1)} {d : U32}
    (hfree : t.idAt j d = none) (hids : ∀ i c, t'.idAt i c = if i = j ∧ c = d then some t.nextSessId
      else t.idAt i c)
    (hnext : t'.nextSessId = t.nextSessId + 1) (hne : t.nextSessId ≠ 0) (peer : SocketAddr)
    (token : Bytes) : Ledger t' (L ++ [.Open t.nextSessId peer token]) := by
  have hunborn : eventsOf t.nextSessId L = [] := List.filter_eq_nil_iff.2 fun e he hid => by
    have hlt := h.fresh hne e he
    rw [of_decide_eq_true hid] at hlt
    exact BitVec.lt_irrefl _ hlt
  have hdead : ¬ t.Live t.nextSessId := fun hlive => (h.grammar _).ne_nil hlive hunborn
  have hsame {id : U64} (hid : id ≠ t.nextSessId) : t'.Live id ↔ t.Live id := by
    constructor
    · rintro ⟨i, c, hat⟩
      rw [hids] at hat
      split_ifs at hat
      · exact absurd (Option.some.inj hat).symm hid
      · exact ⟨i, c, hat⟩
    · rintro ⟨i, c, hat⟩
      refine ⟨i, c, ?_⟩
      rw [hids, if_neg, hat]
      rintro ⟨rfl, rfl⟩
      rw [hfree] at hat
      cases hat
  have hborn : t'.Live t.nextSessId := ⟨j, d, by rw [hids, if_pos ⟨rfl, rfl⟩]⟩
  refine ⟨fun i c i' c' id h1 h2 => ?_, fun hne' e he => ?_, fun id => ?_⟩
  · rw [hids] at h1 h2
    split_ifs at h1 h2 with hp hq hq
    · exact ⟨hp.1.trans hq.1.symm, hp.2.trans hq.2.symm⟩
    · cases h1
      exact absurd ⟨i', c', h2⟩ hdead
    · cases h2
      exact absurd ⟨i, c, h1⟩ hdead
    · exact h.distinct i c i' c' id h1 h2
  · rw [hnext] at hne' ⊢
    have hsucc : (t.nextSessId + 1).toNat = t.nextSessId.toNat + 1 := by
      have hlt := t.nextSessId.isLt
      have hbig : t.nextSessId.toNat + 1 ≠ 2 ^ 64 := by
        intro heq
        refine hne' (BitVec.eq_of_toNat_eq ?_)
        rw [BitVec.toNat_add]
        show (t.nextSessId.toNat + 1) % 2 ^ 64 = 0
        rw [heq, Nat.mod_self]
      rw [BitVec.toNat_add]
      show (t.nextSessId.toNat + 1) % 2 ^ 64 = _
      exact Nat.mod_eq_of_lt (by omega)
    show e.sessId.toNat < (t.nextSessId + 1).toNat
    rw [hsucc]
    rcases List.mem_append.1 he with he | he
    · have hold : e.sessId.toNat < t.nextSessId.toNat := h.fresh hne e he
      omega
    · rw [List.mem_singleton.1 he]
      exact Nat.lt_succ_self _
  · rw [eventsOf_append]
    by_cases hid : id = t.nextSessId
    · subst hid
      rw [hunborn, List.nil_append]
      have hopen : eventsOf t.nextSessId [.Open t.nextSessId peer token] =
          [.Open t.nextSessId peer token] :=
        List.filter_eq_self.2 fun e he => by
          rw [List.mem_singleton.1 he]
          exact decide_eq_true rfl
      rw [hopen]
      exact Grammar.open hborn peer token
    · have hother : eventsOf id [.Open t.nextSessId peer token] = [] :=
        eventsOf_other (fun e he => by rw [List.mem_singleton.1 he]; rfl) hid
      rw [hother, List.append_nil]
      exact (h.grammar id).congr (hsame hid)

/-- Some sessions are closed and leave the table. -/
theorem Ledger.close (h : Ledger t L) (p : Session → Bool)
    (hids : ∀ i c, t'.idAt i c = ((t.shards i)[c]?.filter fun s => !p s).map Session.sessId)
    (hnext : t'.nextSessId = t.nextSessId) (reason : U8) :
    Ledger t' (L ++ (t.sessions.filter p).map fun s => .Close s.sessId reason) := by
  have hsub {i : Fin (max cfg.shards 1)} {c : U32} {id : U64} (hat : t'.idAt i c = some id) :
      ∃ s, (t.shards i)[c]? = some s ∧ p s = false ∧ s.sessId = id := by
    rw [hids] at hat
    obtain ⟨s, hs, hid⟩ := Option.map_eq_some_iff.1 hat
    obtain ⟨hget, hkeep⟩ := Option.filter_eq_some_iff.1 hs
    exact ⟨s, hget, by simpa using hkeep, hid⟩
  have hold {i : Fin (max cfg.shards 1)} {c : U32} {id : U64} (hat : t'.idAt i c = some id) :
      t.idAt i c = some id := by
    obtain ⟨s, hget, -, rfl⟩ := hsub hat
    unfold idAt
    rw [hget]
    rfl
  have hnodup : ((t.sessions.filter p).map Session.sessId).Nodup :=
    h.distinct.nodup.sublist ((List.filter_sublist (l := t.sessions)).map _)
  -- exactly the sessions that leave the table are closed
  have hclosed (id : U64) : id ∈ (t.sessions.filter p).map Session.sessId ↔
      t.Live id ∧ ¬ t'.Live id := by
    constructor
    · intro hmem
      obtain ⟨s, hs, rfl⟩ := List.mem_map.1 hmem
      obtain ⟨hs, hp⟩ := List.mem_filter.1 hs
      obtain ⟨i, c, hget⟩ := mem_sessions.1 hs
      have hat : t.idAt i c = some s.sessId := by
        unfold idAt
        rw [hget]
        rfl
      refine ⟨⟨i, c, hat⟩, ?_⟩
      rintro ⟨i', c', hat'⟩
      obtain ⟨rfl, rfl⟩ := h.distinct i c i' c' _ hat (hold hat')
      obtain ⟨s', hget', hkeep, -⟩ := hsub hat'
      rw [hget] at hget'
      cases hget'
      rw [hp] at hkeep
      cases hkeep
    · rintro ⟨⟨i, c, hat⟩, hgone⟩
      obtain ⟨s, hget, rfl⟩ := Option.map_eq_some_iff.1 hat
      refine List.mem_map.2 ⟨s, List.mem_filter.2 ⟨mem_sessions.2 ⟨i, c, hget⟩, ?_⟩, rfl⟩
      by_contra hp
      refine hgone ⟨i, c, ?_⟩
      rw [hids, hget, Option.filter_some, if_pos (by simpa using hp)]
      rfl
  have hknown {id : U64} (hlive : t.Live id) : ∃ e ∈ L, e.sessId = id := by
    obtain ⟨e, he⟩ := List.exists_mem_of_ne_nil _ ((h.grammar id).ne_nil hlive)
    obtain ⟨hmem, hid⟩ := List.mem_filter.1 he
    exact ⟨e, hmem, of_decide_eq_true hid⟩
  refine ⟨fun i c i' c' id h1 h2 => h.distinct i c i' c' id (hold h1) (hold h2), fun hne e he => ?_,
    fun id => ?_⟩
  · rw [hnext] at hne ⊢
    rcases List.mem_append.1 he with he | he
    · exact h.fresh hne e he
    · obtain ⟨s, hs, rfl⟩ := List.mem_map.1 he
      obtain ⟨e', he', hid⟩ := hknown ((hclosed s.sessId).1 (List.mem_map.2 ⟨s, hs, rfl⟩)).1
      show s.sessId < _
      rw [← hid]
      exact h.fresh hne e' he'
  · rw [eventsOf_append, eventsOf_closings hnodup]
    by_cases hid : t.Live id ∧ ¬ t'.Live id
    · rw [if_pos ((hclosed id).2 hid)]
      exact (h.grammar id).close hid.1 hid.2 reason
    · rw [if_neg fun hmem => hid ((hclosed id).1 hmem), List.append_nil]
      refine (h.grammar id).congr ⟨?_, fun hlive => ?_⟩
      · rintro ⟨i, c, hat⟩
        exact ⟨i, c, hold hat⟩
      · by_contra hgone
        exact hid ⟨hlive, hgone⟩

end Ledger

/-! ## Runs -/

/-- An operation that reports nothing and takes no session out of the table. -/
def TableAction.Quiet : TableAction → Prop
  | .datagram .. | .maintain _ | .kick _ | .shutdownAll => False
  | _ => True

section Run

variable {hmac4 : Hmac} {cfg : SessionTableConfig} {t : SessionTable cfg} {L : List SessionEvent}

theorem SlotStep.quiet {x : TableAction} {i : Fin (max cfg.shards 1)} {c : U32}
    {o o' : Option Session} (h : SlotStep hmac4 t x i c o o') (hx : x.Quiet) :
    o'.map Session.sessId = o.map Session.sessId := by
  cases h with
  | same => rfl
  | opened => exact hx.elim
  | packet => exact hx.elim
  | maintain => exact hx.elim
  | maintainReliable =>
    cases o with
    | none => rfl
    | some s => rfl
  | packed ch msgId payload now i c s =>
    have hkeep := @pack_keeps hmac4 cfg (fun s' => s'.sessId = s.sessId) (fun _ _ _ _ hs => hs) s ch
      msgId payload now rfl
    exact congrArg some hkeep
  | kicked => exact hx.elim
  | setBudget => rfl
  | checkBudget bytes now i c s =>
    refine congrArg some ?_
    unfold Session.checkBudget
    dsimp only
    split
    · rfl
    · split_ifs
      · rfl
      · rfl
  | shutdown => exact hx.elim

theorem act_quiet {x : TableAction} (hx : x.Quiet) :
    (t.act hmac4 x).2 = [] ∧ (t.act hmac4 x).1.nextSessId = t.nextSessId := by
  have hinner : x.Inner := by
    cases x with
    | datagram => exact hx.elim
    | _ => trivial
  refine ⟨?_, (act_inner hinner).2.2⟩
  cases x with
  | datagram => exact hx.elim
  | maintain now => exact hx.elim
  | shutdownAll => exact hx.elim
  | _ => rfl

theorem Ledger.quiet (h : Ledger t L) (x : TableAction) (hx : x.Quiet) :
    Ledger (t.act hmac4 x).1 (L ++ (t.act hmac4 x).2) := by
  obtain ⟨hev, hnext⟩ := @act_quiet hmac4 cfg t x hx
  rw [hev]
  exact h.silent (fun i c => (act_slot hmac4 t x i c).quiet hx) hnext

/-- A datagram. -/
theorem Ledger.datagram (h : Ledger t L) (peer : SocketAddr) (buf : Bytes) (random : Vector U8 8)
    (now clock : Instant) (hx : t.Reported hmac4 (.datagram peer buf random now clock)) :
    Ledger (t.handleDatagram hmac4 peer buf random now clock).table
      (L ++ (t.handleDatagram hmac4 peer buf random now clock).events) := by
  have hkeep {t' : SessionTable cfg} (hs : t'.shards = t.shards) (i : Fin (max cfg.shards 1))
      (c : U32) :
      t'.idAt i c = t.idAt i c := by
    unfold idAt
    rw [hs]
  cases handleDatagram_outcome hmac4 t peer buf random now clock with
  | dropped events shards _ _ sess =>
    rw [events]
    exact h.silent (hkeep shards) sess
  | refused events shards _ _ sess =>
    rw [events]
    exact h.silent (hkeep shards) sess
  | challenged _ _ _ events shards _ _ sess =>
    rw [events]
    exact h.silent (hkeep shards) sess
  | opened f rec answers events shards _ _ sess =>
    obtain ⟨hfree, hne⟩ := hx f rec answers
    rw [events]
    refine h.open (congrArg (Option.map Session.sessId) hfree) (fun i c => ?_) sess hne peer _
    unfold idAt
    rw [shards]
    unfold SessionTable.set
    rw [get_insert]
    split_ifs
    · rfl
    · rfl
  | packet header frames s stats accepts events shards _ _ sess =>
    obtain ⟨hown, htalk⟩ := own_handlePacket s stats peer header frames now clock
    have hget : (t.shards (shard header.connId))[header.connId]? = some s := accepts.get
    have hat : t.idAt (shard header.connId) header.connId = some s.sessId := by
      unfold idAt
      rw [hget]
      rfl
    rw [events]
    refine h.talk (fun i c => ?_) sess htalk (Or.inr ⟨_, _, hat⟩)
    unfold idAt
    rw [shards]
    unfold SessionTable.set
    rw [get_insert]
    split_ifs with hp
    · obtain ⟨rfl, rfl⟩ := hp
      rw [hget]
      exact congrArg some hown
    · rfl

/-- **One operation.** -/
theorem Ledger.act (h : Ledger t L) (x : TableAction) (hx : t.Reported hmac4 x) :
    Ledger (t.act hmac4 x).1 (L ++ (t.act hmac4 x).2) := by
  cases x with
  | datagram peer buf random now clock => exact h.datagram peer buf random now clock hx
  | maintain now =>
    refine @Ledger.close _ t (t.maintain now).1 L h (fun s => s.expires cfg now) (fun i c => ?_) rfl
      CLOSE_GRACE_TIMEOUT
    show ((t.maintain now).1.shards i)[c]?.map Session.sessId = _
    unfold SessionTable.maintain
    dsimp only
    rw [Std.ExtTreeMap.getElem?_map, Std.ExtTreeMap.getElem?_filter', Option.map_map]
    refine congrArg (fun f => Option.map f _) (funext fun s => ?_)
    show (s.maintain cfg now).sessId = s.sessId
    unfold Session.maintain
    split_ifs
    · rfl
    · rfl
  | kick sessId =>
    have hnone : t.findSession sessId = none := by
      cases hfind : t.findSession sessId with
      | none => rfl
      | some e =>
        obtain ⟨i, c, s⟩ := e
        obtain ⟨hget, hid⟩ := mem_of_findSession hfind
        refine absurd ⟨i, c, ?_⟩ hx
        unfold idAt
        rw [hget, ← hid]
        rfl
    show Ledger (t.kick sessId).1 (L ++ [])
    unfold SessionTable.kick
    rw [hnone]
    exact h.silent (fun _ _ => rfl) rfl
  | shutdownAll =>
    have hall : (t.sessions.filter fun _ => true) = t.sessions :=
      List.filter_eq_self.2 fun _ _ => rfl
    have hclose := @Ledger.close _ t t.shutdownAll.1 L h (fun _ => true) (fun i c => ?_) rfl
      CLOSE_GRACE_TIMEOUT
    · rw [hall] at hclose
      exact hclose
    · have hnone : (t.shutdownAll.1.shards i)[c]? = none := Std.ExtTreeMap.getElem?_empty
      unfold idAt
      rw [hnone]
      cases (t.shards i)[c]? with
      | none => rfl
      | some s => rfl
  | maintainReliable now => exact h.quiet (.maintainReliable now) trivial
  | packOutbound sessId ch msgId payload now =>
    exact h.quiet (.packOutbound sessId ch msgId payload now) trivial
  | setBudget sessId kbps => exact h.quiet (.setBudget sessId kbps) trivial
  | checkBudget sessId bytes now => exact h.quiet (.checkBudget sessId bytes now) trivial

theorem Ledger.run {xs : List TableAction} (h : Ledger t L)
    (hx : Allowed (SessionTable.step hmac4) (SessionTable.Reported hmac4) t xs) :
    Ledger (t.run hmac4 xs).1 (L ++ (t.run hmac4 xs).2) := by
  induction xs generalizing t L with
  | nil => exact (List.append_nil L).symm ▸ h
  | cons x xs ih =>
    have hrest := ih (h.act x hx.1) hx.2
    rw [List.append_assoc] at hrest
    exact hrest

end Run

/-- In a run in which every session is reported, the events about every session are an opening, data
and resumptions, and a closing if and only if the session is not in the table any more. -/
theorem session_grammar {hmac4 : Hmac} {cfg : SessionTableConfig} {xs : List TableAction}
    (h : Allowed (SessionTable.step hmac4) (SessionTable.Reported hmac4)
      (SessionTable.new : SessionTable cfg) xs) (id : U64) :
    Grammar (((SessionTable.new : SessionTable cfg).run hmac4 xs).1.Live id) id
      (eventsOf id ((SessionTable.new : SessionTable cfg).run hmac4 xs).2) := by
  have hrun := ledger_new.run h
  exact hrun.grammar id

theorem not_live_of_sessions {cfg : SessionTableConfig} {t : SessionTable cfg} {id : U64}
    (h : id ∉ t.sessions.map Session.sessId) : ¬ t.Live id := by
  rintro ⟨i, c, hat⟩
  obtain ⟨s, hget, rfl⟩ := Option.map_eq_some_iff.1 hat
  exact h (List.mem_map_of_mem (mem_sessions.2 ⟨i, c, hget⟩))

/-- A session that is opened and stays until the shutdown. -/
theorem session_grammar_shutdown :
    Grammar False 1 [.Open 1 (.V4 0 0) [], .Close 1 CLOSE_GRACE_TIMEOUT] := by
  have hallowed : Allowed (SessionTable.step noHmac) (SessionTable.Reported noHmac)
      (SessionTable.new : SessionTable plainConfig) (hello ++ [.shutdownAll]) :=
    ⟨fun _ _ _ => ⟨Option.isNone_iff_eq_none.1 (by decide +kernel), by decide +kernel⟩,
      fun _ _ _ => ⟨Option.isNone_iff_eq_none.1 (by decide +kernel), by decide +kernel⟩, trivial,
        trivial⟩
  have hrun := session_grammar hallowed 1
  have hevents : eventsOf 1 (plainRun (hello ++ [.shutdownAll])).2 =
      [.Open 1 (.V4 0 0) [], .Close 1 CLOSE_GRACE_TIMEOUT] := by
    decide +kernel
  have hgone : ¬ (plainRun (hello ++ [.shutdownAll])).1.Live 1 :=
    not_live_of_sessions (by decide +kernel)
  unfold plainRun at hevents hgone
  rw [hevents] at hrun
  exact hrun.congr (iff_of_false id hgone)

/-- A session that is kicked has left the table, and was not closed. -/
theorem session_kicked :
    ¬ Grammar ((plainRun (hello ++ [.kick 1])).1.Live 1) 1
      (eventsOf 1 (plainRun (hello ++ [.kick 1])).2) := by
  have hevents : eventsOf 1 (plainRun (hello ++ [.kick 1])).2 = [.Open 1 (.V4 0 0) []] := by
    decide +kernel
  have hgone : ¬ (plainRun (hello ++ [.kick 1])).1.Live 1 :=
    not_live_of_sessions (by decide +kernel)
  rw [hevents]
  rintro (⟨-, h⟩ | ⟨peer, token, talk, ending, h, -, ⟨hlive, -⟩ | ⟨-, reason, rfl⟩⟩)
  · cases h
  · exact hgone hlive
  · have hlen := congrArg List.length h
    simp at hlen

end SoupEngine
