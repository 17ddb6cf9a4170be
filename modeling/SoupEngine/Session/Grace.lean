import SoupEngine.Link.Frames
import SoupEngine.Session.Slots

/-!
# The grace period

Between two packets accepted for a session its last receipt and its round-trip estimate stay the
same (`act_untouched`), so both windows are those of the session as the last packet left it. A
session leaves the grace period by a packet or by a closing, and enters it only in `maintain`
(`grace_begins`).
-/

namespace SoupEngine

open BoundedMemory

attribute [local irreducible] remember

section Packet

/-- The session has heard from its client. -/
def Session.Heard (now : Instant) (id : U64) (s : Session) : Prop :=
  s.lastRx = now ∧ s.state = .Active ∧ s.sessId = id

variable {now : Instant} {id : U64}

theorem heard_dispatchFrame {rx : Rx} (header : DatagramHeader) (f : FrameRef)
    (h : rx.session.Heard now id) : (dispatchFrame header now rx f).session.Heard now id := by
  unfold dispatchFrame
  split_ifs
  · exact h
  · exact h
  · exact h
  · show (handleCh2 rx.session header f now rx.events).1.Heard now id
    rw [handleCh2_same rx.session header f now rx.events]
    exact h
  · exact h
  · exact h
  · exact h

theorem heard_foldl {rx : Rx} (header : DatagramHeader) (frames : List FrameRef)
    (h : rx.session.Heard now id) :
    (frames.foldl (handleFrame header now) rx).session.Heard now id := by
  induction frames generalizing rx with
  | nil => exact h
  | cons f fs ih =>
    refine ih (heard_dispatchFrame header f ?_)
    exact h

/-- Whatever the packet says, it resets the timer of its session. -/
theorem heard_handlePacket (s : Session) (stats : Stats) (peer : SocketAddr)
    (header : DatagramHeader) (frames : List FrameRef) (now clock : Instant) :
    (handlePacket s stats peer header frames now clock).session.Heard now s.sessId := by
  cases hst : s.state with
  | Grace since =>
    rw [(handlePacket_grace stats peer header frames now clock hst).1]
    exact ⟨rfl, rfl, rfl⟩
  | Active =>
    rw [handlePacket_active stats peer header now clock hst]
    unfold handleActive
    rw [(answerAck_fields peer _).1]
    exact heard_foldl header frames ⟨rfl, hst, rfl⟩

end Packet

variable {cfg : SessionTableConfig} {hmac4 : Hmac} {t : SessionTable cfg} {x : TableAction}
  {c : U32}

section Step

/-- A packet is accepted for the session of this connection at this time, or opens it. -/
def Touches (hmac4 : Hmac) (t : SessionTable cfg) (x : TableAction) (c : U32) (now : Instant) :
    Prop :=
  ∃ peer buf random clock, x = .datagram peer buf random now clock ∧
    ((∃ header frames s, Accepts hmac4 t buf header frames s ∧ header.connId = c) ∨
      ∃ f rec, Answers hmac4 t peer buf now f rec ∧ t.nextConnId.setWidth 32 = c)

/-- The session of a connection that is touched. -/
theorem Touches.heard {now : Instant} (h : Touches hmac4 t x c now) :
    ∃ s id, (t.act hmac4 x).1.get c = some s ∧ s.Heard now id := by
  obtain ⟨peer, buf, random, clock, rfl,
    ⟨header, frames, s, accepts, rfl⟩ | ⟨f, rec, answers, rfl⟩⟩ := h
  · obtain ⟨stats, -, hshards⟩ := accepts.outcome peer random now clock
    refine ⟨_, s.sessId, ?_, heard_handlePacket s stats peer header frames now clock⟩
    show (t.handleDatagram hmac4 peer buf random now clock).table.get header.connId = _
    unfold SessionTable.get
    rw [hshards]
    exact t.get_set header.connId _
  · refine ⟨t.opened peer f random now, t.nextSessId, ?_, rfl, rfl, rfl⟩
    show (t.handleDatagram hmac4 peer buf random now clock).table.get (t.nextConnId.setWidth 32) = _
    unfold SessionTable.get
    rw [answers.outcome random clock]
    exact t.get_set (t.nextConnId.setWidth 32) _

/-- What `maintain` and the senders leave alone. -/
structure Silent (s s' : Session) : Prop where
  sessId : s'.sessId = s.sessId
  lastRx : s'.lastRx = s.lastRx
  rtt : s'.rtt = s.rtt

theorem Silent.refl (s : Session) : Silent s s := ⟨rfl, rfl, rfl⟩

theorem Silent.idleGraceFor {s s' : Session} (h : Silent s s') :
    s'.idleGraceFor cfg = s.idleGraceFor cfg := by
  unfold Session.idleGraceFor
  rw [h.rtt]

/-- `maintain` puts the session of the connection into the grace period. -/
def Begins (t : SessionTable cfg) (x : TableAction) (c : U32) : Prop :=
  ∃ now s, x = .maintain now ∧ t.get c = some s ∧ s.idles cfg now = true

/-- A session that is not touched stays what it is, but for the beginning of a grace period. -/
theorem act_untouched (hx : ∀ now, ¬ Touches hmac4 t x c now) {s' : Session}
    (hs' : (t.act hmac4 x).1.get c = some s') :
    ∃ s, t.get c = some s ∧ Silent s s' ∧
      (s'.state = s.state ∨
        ∃ now, x = .maintain now ∧ s.idles cfg now = true ∧ s'.state = .Grace now) := by
  have hslot := act_slot hmac4 t x (SessionTable.shard c) c
  unfold SessionTable.get at hs' ⊢
  rw [hs'] at hslot
  generalize ho : (t.shards (SessionTable.shard c))[c]? = o at hslot ⊢
  generalize ho' : some s' = o' at hslot
  generalize hi : (SessionTable.shard c : Fin (max cfg.shards 1)) = i at hslot
  have hkept (s : Session) (hsame : Silent s s' ∧ s'.state = s.state) :
      Silent s s' ∧ (s'.state = s.state ∨
        ∃ now, x = .maintain now ∧ s.idles cfg now = true ∧ s'.state = .Grace now) :=
    ⟨hsame.1, Or.inl hsame.2⟩
  cases hslot with
  | same => exact ⟨s', ho'.symm, Silent.refl s', Or.inl rfl⟩
  | @opened peer buf random now clock f rec answers =>
    exact absurd ⟨peer, buf, random, clock, rfl, Or.inr ⟨f, rec, answers, rfl⟩⟩ (hx now)
  | @packet peer buf random now clock header frames s stats accepts =>
    exact absurd ⟨peer, buf, random, clock, rfl, Or.inl ⟨header, frames, s, accepts, rfl⟩⟩ (hx now)
  | maintain now =>
    obtain ⟨s, hs, rfl⟩ := Option.map_eq_some_iff.1 ho'.symm
    refine ⟨s, (Option.filter_eq_some_iff.1 hs).1, ?_⟩
    unfold Session.maintain
    split_ifs with hidle
    · exact ⟨⟨rfl, rfl, rfl⟩, Or.inr ⟨now, rfl, hidle, rfl⟩⟩
    · exact ⟨Silent.refl s, Or.inl rfl⟩
  | maintainReliable now =>
    obtain ⟨s, rfl, rfl⟩ := Option.map_eq_some_iff.1 ho'.symm
    exact ⟨s, rfl, hkept s ⟨⟨rfl, rfl, rfl⟩, rfl⟩⟩
  | packed ch msgId payload now i c s =>
    cases ho'
    refine ⟨s, rfl, hkept s ?_⟩
    exact pack_keeps (P := fun p => Silent s p ∧ p.state = s.state)
      (fun p sendSeq retrans fragGroupId hp => ⟨⟨hp.1.1, hp.1.2, hp.1.3⟩, hp.2⟩) s ch msgId
        payload now
      ⟨Silent.refl s, rfl⟩
  | kicked => cases ho'
  | setBudget kbps i c s =>
    cases ho'
    exact ⟨s, rfl, hkept s ⟨⟨rfl, rfl, rfl⟩, rfl⟩⟩
  | checkBudget bytes now i c s =>
    cases ho'
    refine ⟨s, rfl, hkept s ?_⟩
    unfold Session.checkBudget
    split
    · exact ⟨Silent.refl s, rfl⟩
    · dsimp only
      split_ifs
      · exact ⟨⟨rfl, rfl, rfl⟩, rfl⟩
      · exact ⟨⟨rfl, rfl, rfl⟩, rfl⟩
  | shutdown => cases ho'

/-- A packet is accepted for the session of the connection, which is in the grace period. -/
def Resumes (hmac4 : Hmac) (t : SessionTable cfg) (x : TableAction) (c : U32) (id : U64) : Prop :=
  ∃ peer buf random now clock header frames s since, x = .datagram peer buf random now clock ∧
    Accepts hmac4 t buf header frames s ∧ header.connId = c ∧ s.sessId = id ∧ s.state = .Grace since

/-- `maintain` closes the session of the connection. -/
def Closes (t : SessionTable cfg) (x : TableAction) (c : U32) (id : U64) : Prop :=
  ∃ now s, x = .maintain now ∧ t.get c = some s ∧ s.sessId = id ∧ s.expires cfg now = true

/-- A resumption is reported exactly when a packet is accepted for its session in the grace
period. -/
theorem resume_iff {id : U64} :
    (∃ gap, .Resume id gap ∈ (t.act hmac4 x).2) ↔ ∃ c, Resumes hmac4 t x c id := by
  constructor
  · rintro ⟨gap, hmem⟩
    cases x with
    | datagram peer buf random now clock =>
      have hmem' : .Resume id gap ∈ (t.handleDatagram hmac4 peer buf random now clock).events :=
        hmem
      have hnil {events : List SessionEvent} (he : events = []) : .Resume id gap ∉ events := by
        rw [he]
        exact List.not_mem_nil
      cases handleDatagram_outcome hmac4 t peer buf random now clock with
      | dropped events => exact absurd hmem' (hnil events)
      | refused events => exact absurd hmem' (hnil events)
      | challenged _ _ _ events => exact absurd hmem' (hnil events)
      | opened f rec answers events =>
        rw [events] at hmem'
        cases List.mem_singleton.1 hmem'
      | packet header frames s stats accepts events =>
        rw [events] at hmem'
        cases hst : s.state with
        | Active =>
          exact ((says_handlePacket stats peer header frames now clock hst).2 _ hmem').elim
        | Grace since =>
          have hid : id = s.sessId :=
            ((own_handlePacket s stats peer header frames now clock).2 _ hmem').sessId_eq
          exact ⟨header.connId, peer, buf, random, now, clock, header, frames, s, since, rfl,
            accepts, rfl, hid.symm, hst⟩
    | maintain now =>
      obtain ⟨s, -, he⟩ := List.mem_map.1 hmem
      cases he
    | shutdownAll =>
      obtain ⟨s, -, he⟩ := List.mem_map.1 hmem
      cases he
    | _ => exact absurd hmem List.not_mem_nil
  · rintro ⟨c, peer, buf, random, now, clock, header, frames, s, since, rfl, accepts, rfl, rfl, hst⟩
    obtain ⟨stats, hevents, -⟩ := accepts.outcome peer random now clock
    obtain ⟨-, gap, hgap⟩ := handlePacket_grace stats peer header frames now clock hst
    refine ⟨gap, ?_⟩
    show .Resume s.sessId gap ∈ (t.handleDatagram hmac4 peer buf random now clock).events
    rw [hevents, hgap]
    exact List.mem_cons_self

/-- The packet makes the session active again, and reports this once. -/
theorem Resumes.active {id : U64} (h : Resumes hmac4 t x c id) :
    (∃ s, (t.act hmac4 x).1.get c = some s ∧ s.sessId = id ∧ s.state = .Active) ∧
      ∃ gap, (t.act hmac4 x).2 = [.Resume id gap] := by
  obtain ⟨peer, buf, random, now, clock, header, frames, s, since, rfl, accepts, rfl, rfl, hst⟩ := h
  obtain ⟨stats, hevents, hshards⟩ := accepts.outcome peer random now clock
  obtain ⟨hsess, gap, hgap⟩ := handlePacket_grace stats peer header frames now clock hst
  refine ⟨⟨(handlePacket s stats peer header frames now clock).session, ?_, ?_, ?_⟩, gap,
    hevents.trans hgap⟩
  · show (t.handleDatagram hmac4 peer buf random now clock).table.get header.connId = _
    unfold SessionTable.get
    rw [hshards]
    exact t.get_set header.connId _
  · rw [hsess]
  · rw [hsess]

/-- Every session is in the shard of its connection. -/
def Homed (t : SessionTable cfg) : Prop :=
  ∀ (i : Fin (max cfg.shards 1)) (c : U32) (s : Session), (t.shards i)[c]? = some s →
    i = SessionTable.shard c

theorem Homed.act (h : Homed t) : Homed (t.act hmac4 x).1 := by
  intro i c s hs
  have hslot := act_slot hmac4 t x i c
  rw [hs] at hslot
  have hold {s₀ : Session} (h₀ : (t.shards i)[c]? = some s₀) : i = SessionTable.shard c :=
    h i c s₀ h₀
  generalize (t.shards i)[c]? = o at hslot hold
  generalize ho' : some s = o' at hslot
  cases hslot with
  | same => exact hold ho'.symm
  | opened => rfl
  | packet => rfl
  | maintain now =>
    obtain ⟨s₀, hs₀, -⟩ := Option.map_eq_some_iff.1 ho'.symm
    exact hold (Option.filter_eq_some_iff.1 hs₀).1
  | maintainReliable now =>
    obtain ⟨s₀, hs₀, -⟩ := Option.map_eq_some_iff.1 ho'.symm
    exact hold hs₀
  | packed => exact hold rfl
  | kicked => cases ho'
  | setBudget => exact hold rfl
  | checkBudget => exact hold rfl
  | shutdown => cases ho'

/-- `maintain` reports the closing of the sessions that it closes. -/
theorem closes_of_close {now : Instant} {id : U64} {reason : U8} (hhome : Homed t)
    (h : .Close id reason ∈ (t.act hmac4 (.maintain now)).2) :
    ∃ c, Closes t (.maintain now) c id := by
  obtain ⟨s, hs, he⟩ := List.mem_map.1 h
  cases he
  obtain ⟨hmem, hexp⟩ := List.mem_filter.1 hs
  obtain ⟨i, -, hval⟩ := List.mem_flatMap.1 hmem
  obtain ⟨c, hc⟩ := mem_values.1 hval
  have hi := hhome i c s hc
  subst hi
  exact ⟨c, now, s, rfl, hc, rfl, hexp⟩

end Step

/-! ## Runs -/

/-- The times at which datagrams are received and `maintain` is called. -/
def clockTimes (xs : List TableAction) : List Instant :=
  xs.filterMap fun
    | .datagram _ _ _ now _ => some now
    | .maintain now => some now
    | _ => none

/-- The table after some operations. -/
abbrev after (hmac4 : Hmac) (cfg : SessionTableConfig) (xs : List TableAction) : SessionTable cfg :=
  ((SessionTable.new : SessionTable cfg).run hmac4 xs).1

/-- The last packet accepted for the session of the connection, which has this id, came at
`last`. -/
def LastTouch (hmac4 : Hmac) (cfg : SessionTableConfig) (xs : List TableAction) (c : U32) (id : U64)
    (last : Instant) : Prop :=
  ∃ pre y mid, xs = pre ++ y :: mid ∧ Touches hmac4 (after hmac4 cfg pre) y c last ∧
    (∃ s, (after hmac4 cfg (pre ++ [y])).get c = some s ∧ s.sessId = id) ∧
    ∀ mid₁ z mid₂ now, mid = mid₁ ++ z :: mid₂ →
    ¬ Touches hmac4 (after hmac4 cfg (pre ++ y :: mid₁)) z c now

section Run

variable {xs : List TableAction}

theorem after_snoc (xs : List TableAction) (x : TableAction) :
    after hmac4 cfg (xs ++ [x]) = ((after hmac4 cfg xs).act hmac4 x).1 :=
  SessionTable.run_append_fst hmac4 _ xs [x]

theorem homed_after (xs : List TableAction) : Homed (after hmac4 cfg xs) := by
  induction xs using List.reverseRecOn with
  | nil =>
    intro i c s hs
    have hnone : ((SessionTable.new : SessionTable cfg).shards i)[c]? = none :=
      Std.ExtTreeMap.getElem?_empty
    have hsome : ((SessionTable.new : SessionTable cfg).shards i)[c]? = some s := hs
    rw [hnone] at hsome
    cases hsome
  | append_singleton xs x ih =>
    rw [after_snoc]
    exact ih.act

theorem clockTimes_snoc (xs : List TableAction) (x : TableAction) :
    clockTimes (xs ++ [x]) = clockTimes xs ++ clockTimes [x] := List.filterMap_append

/-- An operation that touches nothing. -/
theorem LastTouch.snoc {id : U64} {last : Instant} (h : LastTouch hmac4 cfg xs c id last)
    (hx : ∀ now, ¬ Touches hmac4 (after hmac4 cfg xs) x c now) :
    LastTouch hmac4 cfg (xs ++ [x]) c id last := by
  obtain ⟨pre, y, mid, rfl, htouch, hid, hmid⟩ := h
  refine ⟨pre, y, mid ++ [x], by rw [List.append_assoc]; rfl, htouch, hid, ?_⟩
  intro mid₁ z mid₂ now hsplit
  rcases List.eq_nil_or_concat mid₂ with rfl | ⟨rest, w, rfl⟩
  · obtain ⟨rfl, hz⟩ := List.append_inj' hsplit rfl
    cases hz
    exact hx now
  · rw [List.concat_eq_append, ← List.cons_append, ← List.append_assoc] at hsplit
    exact hmid mid₁ z rest now (List.append_inj' hsplit rfl).1

/-- What the times in the session of a connection mean. -/
structure Timed (hmac4 : Hmac) (cfg : SessionTableConfig) (xs : List TableAction) (c : U32)
    (s : Session) :
    Prop where
  touch : LastTouch hmac4 cfg xs c s.sessId s.lastRx
  received : s.lastRx ∈ clockTimes xs
  grace : ∀ since, s.state = .Grace since →
    since ∈ clockTimes xs ∧ s.lastRx + s.idleGraceFor cfg ≤ since

theorem touch_mem {now : Instant} (h : Touches hmac4 t x c now) : now ∈ clockTimes [x] := by
  obtain ⟨peer, buf, random, clock, rfl, -⟩ := h
  exact List.mem_singleton.2 rfl

/-- In every run the last receipt is the time of the last packet, and a grace period has begun after
the idle window. -/
theorem timed_run (hnow : (clockTimes xs).Pairwise (· ≤ ·)) {s : Session}
    (hs : (after hmac4 cfg xs).get c = some s) : Timed hmac4 cfg xs c s := by
  induction xs using List.reverseRecOn generalizing s with
  | nil =>
    have hnone : (SessionTable.new : SessionTable cfg).get c = none := Std.ExtTreeMap.getElem?_empty
    have hsome : (SessionTable.new : SessionTable cfg).get c = some s := hs
    rw [hnone] at hsome
    cases hsome
  | append_singleton xs x ih =>
    rw [clockTimes_snoc] at hnow
    obtain ⟨hbefore, -, hlater⟩ := List.pairwise_append.1 hnow
    have hs' := hs
    rw [after_snoc] at hs'
    by_cases htouch : ∃ now, Touches hmac4 (after hmac4 cfg xs) x c now
    · -- a packet: the timer starts again
      obtain ⟨now, htouch⟩ := htouch
      obtain ⟨s₀, id, hget, hlast, hactive, -⟩ := htouch.heard
      rw [hs'] at hget
      cases hget
      subst hlast
      refine ⟨⟨xs, x, [], rfl, htouch, ⟨s, hs, rfl⟩, ?_⟩, ?_, ?_⟩
      · intro mid₁ z mid₂ now hsplit
        exact absurd hsplit.symm (List.append_ne_nil_of_right_ne_nil _ (List.cons_ne_nil _ _))
      · rw [clockTimes_snoc]
        exact List.mem_append_right _ (touch_mem htouch)
      · intro since hgrace
        rw [hactive] at hgrace
        cases hgrace
    · push Not at htouch
      obtain ⟨s₀, hget, hsilent, hstate⟩ := act_untouched htouch hs'
      obtain ⟨htouch₀, hreceived, hgrace₀⟩ := ih hbefore hget
      refine ⟨?_, ?_, ?_⟩
      · rw [hsilent.sessId, hsilent.lastRx]
        exact htouch₀.snoc htouch
      · rw [clockTimes_snoc, hsilent.lastRx]
        exact List.mem_append_left _ hreceived
      · intro since hgrace
        rw [clockTimes_snoc, hsilent.lastRx, hsilent.idleGraceFor]
        rcases hstate with hstate | ⟨now, rfl, hidle, hstate⟩
        · obtain ⟨hmem, hwindow⟩ := hgrace₀ since (hstate ▸ hgrace)
          exact ⟨List.mem_append_left _ hmem, hwindow⟩
        · -- the grace period begins here
          rw [hstate] at hgrace
          cases hgrace
          have hmem : since ∈ clockTimes [.maintain since] := List.mem_singleton.2 rfl
          have hle : s₀.lastRx ≤ since := hlater _ hreceived _ hmem
          have hidle' : s₀.idleGraceFor cfg ≤ since - s₀.lastRx :=
            of_decide_eq_true (Bool.and_eq_true_iff.1 hidle).2
          exact ⟨List.mem_append_right _ hmem, add_le_of_le_tsub_left_of_le hle hidle'⟩

/-- The session of the connection is in the grace period. -/
def InGrace (t : SessionTable cfg) (c : U32) : Prop :=
  ∃ s since, t.get c = some s ∧ s.state = .Grace since

/-- Into the grace period only `maintain` leads. -/
theorem grace_begins {pre mid : List TableAction} (hpre : ¬ InGrace (after hmac4 cfg pre) c)
    (hmid : InGrace (after hmac4 cfg (pre ++ mid)) c) :
    ∃ mid₁ z mid₂, mid = mid₁ ++ z :: mid₂ ∧ Begins (after hmac4 cfg (pre ++ mid₁)) z c := by
  induction mid using List.reverseRecOn with
  | nil =>
    rw [List.append_nil] at hmid
    exact absurd hmid hpre
  | append_singleton mid x ih =>
    rw [← List.append_assoc, after_snoc] at hmid
    obtain ⟨s, since, hs, hgrace⟩ := hmid
    have hx (now : Instant) : ¬ Touches hmac4 (after hmac4 cfg (pre ++ mid)) x c now := by
      intro htouch
      obtain ⟨s₀, id, hget, -, hactive, -⟩ := htouch.heard
      rw [hs] at hget
      cases hget
      rw [hgrace] at hactive
      cases hactive
    obtain ⟨s₀, hget, -, hstate | ⟨now, rfl, hidle, -⟩⟩ := act_untouched hx hs
    · obtain ⟨mid₁, z, mid₂, rfl, hbegins⟩ := ih ⟨s₀, since, hget, hstate ▸ hgrace⟩
      exact ⟨mid₁, z, mid₂ ++ [x], by rw [List.append_assoc]; rfl, hbegins⟩
    · exact ⟨mid, .maintain now, [], rfl, now, s₀, rfl, hget, hidle⟩

end Run

/-- The operation ends the grace period of a connection. -/
def Ends (hmac4 : Hmac) (t : SessionTable cfg) (x : TableAction) (c : U32) : Prop :=
  ∃ id, Resumes hmac4 t x c id ∨ Closes t x c id

theorem Ends.before (h : Ends hmac4 t x c) : InGrace t c := by
  obtain ⟨id, ⟨peer, buf, random, now, clock, header, frames, s, since, rfl, accepts, rfl, -, hst⟩ |
    ⟨now, s, rfl, hget, -, hexp⟩⟩ := h
  · exact ⟨s, since, accepts.get, hst⟩
  · cases hst : s.state with
    | Active =>
      unfold Session.expires at hexp
      rw [hst] at hexp
      cases hexp
    | Grace since => exact ⟨s, since, hget, hst⟩

theorem Ends.after (h : Ends hmac4 t x c) : ¬ InGrace (t.act hmac4 x).1 c := by
  rintro ⟨s, since, hs, hgrace⟩
  obtain ⟨id, hresume | ⟨now, s₀, rfl, hget, -, hexp⟩⟩ := h
  · obtain ⟨⟨s', hs', -, hactive⟩, -⟩ := hresume.active
    rw [hs] at hs'
    cases hs'
    rw [hgrace] at hactive
    cases hactive
  · -- the session has been removed
    have hnone : (t.maintain now).1.get c = none := by
      unfold SessionTable.maintain SessionTable.get
      dsimp only
      have hslot : (t.shards (SessionTable.shard c))[c]? = some s₀ := hget
      rw [Std.ExtTreeMap.getElem?_map, Std.ExtTreeMap.getElem?_filter', hslot, Option.filter_some,
        hexp]
      rfl
    have hsome : (t.maintain now).1.get c = some s := hs
    rw [hnone] at hsome
    cases hsome

/-- **The timing of the grace period.** The times of the datagrams and of `maintain` do not
decrease. When `maintain` closes a session at `now`, the last packet accepted for it is at least its
idle window and its reconnect window old. A resumption is reported exactly when a packet is accepted
for a session in the grace period; it is reported once and the session is active again. Of two ends
of a grace period of one connection, resumption or closing, the second one has a grace period of its
own. -/
theorem grace_timing {xs : List TableAction} (hnow : (clockTimes xs).Pairwise (· ≤ ·)) :
    (∀ before now rest id reason, xs = before ++ .maintain now :: rest →
      .Close id reason ∈ ((after hmac4 cfg before).act hmac4 (.maintain now)).2 →
      ∃ c s last, (after hmac4 cfg before).get c = some s ∧ s.sessId = id ∧
        LastTouch hmac4 cfg before c id last ∧
        last + s.idleGraceFor cfg + s.reconnectGraceFor cfg ≤ now) ∧
    (∀ before x rest id, xs = before ++ x :: rest →
      ((∃ gap, .Resume id gap ∈ ((after hmac4 cfg before).act hmac4 x).2) ↔
        ∃ c, Resumes hmac4 (after hmac4 cfg before) x c id)) ∧
    (∀ before x rest c id, xs = before ++ x :: rest →
      Resumes hmac4 (after hmac4 cfg before) x c id →
      (∃ s, (after hmac4 cfg (before ++ [x])).get c = some s ∧ s.sessId = id ∧ s.state = .Active) ∧
      ∃ gap, ((after hmac4 cfg before).act hmac4 x).2 = [.Resume id gap]) ∧
    ∀ before x mid y rest c, xs = before ++ x :: (mid ++ y :: rest) →
      Ends hmac4 (after hmac4 cfg before) x c →
      Ends hmac4 (after hmac4 cfg (before ++ x :: mid)) y c →
      ∃ mid₁ z mid₂, mid = mid₁ ++ z :: mid₂ ∧
      Begins (after hmac4 cfg (before ++ x :: mid₁)) z c := by
  refine ⟨?_, fun before x rest id _ => resume_iff, ?_, ?_⟩
  · intro before now rest id reason hxs hclose
    obtain ⟨c, now', s, hx, hget, rfl, hexp⟩ := closes_of_close (homed_after before) hclose
    cases hx
    rw [hxs] at hnow
    have hsplit : clockTimes (before ++ .maintain now :: rest) =
        clockTimes before ++ now :: clockTimes rest := List.filterMap_append
    rw [hsplit] at hnow
    obtain ⟨hbefore, -, hlater⟩ := List.pairwise_append.1 hnow
    obtain ⟨htouch, -, hgrace⟩ := timed_run hbefore hget
    refine ⟨c, s, s.lastRx, hget, rfl, htouch, ?_⟩
    unfold Session.expires at hexp
    cases hst : s.state with
    | Active =>
      rw [hst] at hexp
      cases hexp
    | Grace since =>
      rw [hst] at hexp
      obtain ⟨hmem, hwindow⟩ := hgrace since hst
      have hle : since ≤ now := hlater since hmem now List.mem_cons_self
      have hwait : s.reconnectGraceFor cfg ≤ now - since := of_decide_eq_true hexp
      calc s.lastRx + s.idleGraceFor cfg + s.reconnectGraceFor cfg
          ≤ since + s.reconnectGraceFor cfg := Nat.add_le_add_right hwindow _
        _ ≤ now := add_le_of_le_tsub_left_of_le hle hwait
  · intro before x rest c id _ h
    rw [after_snoc]
    exact h.active
  · intro before x mid y rest c _ hfirst hsecond
    have hstart : ¬ InGrace (after hmac4 cfg (before ++ [x])) c := by
      rw [after_snoc]
      exact hfirst.after
    have hsplit (ys : List TableAction) : before ++ x :: ys = (before ++ [x]) ++ ys := by
      rw [List.append_assoc]
      rfl
    rw [hsplit] at hsecond
    obtain ⟨mid₁, z, mid₂, hmid, hbegins⟩ := grace_begins hstart hsecond.before
    rw [← hsplit] at hbegins
    exact ⟨mid₁, z, mid₂, hmid, hbegins⟩

/-- A client that completes the handshake and falls silent for so long. -/
def quiet : List TableAction := hello ++ [.maintain TIMEOUT_MAX]

/-- Nothing is known of its round-trip time, so both windows are the longest. -/
theorem grace_timing_quiet :
    ∃ c s last, (after noHmac plainConfig quiet).get c = some s ∧ s.sessId = 1 ∧
      LastTouch noHmac plainConfig quiet c 1 last ∧
      last + s.idleGraceFor plainConfig + s.reconnectGraceFor plainConfig ≤
        TIMEOUT_MAX + RECONNECT_MAX := by
  have htimes :
      (clockTimes (quiet ++ .maintain (TIMEOUT_MAX + RECONNECT_MAX) :: [])).Pairwise (· ≤ ·) := by
    decide +kernel
  have hclose : .Close 1 CLOSE_GRACE_TIMEOUT ∈
      ((plainRun quiet).1.act noHmac (.maintain (TIMEOUT_MAX + RECONNECT_MAX))).2 := by
    decide +kernel
  exact (grace_timing htimes).1 quiet _ [] 1 CLOSE_GRACE_TIMEOUT rfl hclose

end SoupEngine
