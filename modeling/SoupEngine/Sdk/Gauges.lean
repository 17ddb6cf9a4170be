import SoupEngine.Lib.Tally
import SoupEngine.Sdk.Stays

/-!
# The gauges of the server

`RoomsActive` goes up when `handleSessionOpen` has made a room, and down when `removeRoom` is done
with the lock. `PlayersOnline` goes up before `OnJoin` and down before `OnLeave`, in `stop` after
it. `gauges_exact`: under every interleaving the first is the number of rooms and of those that are
about to be counted out, and the second the number of players whom `stop` has not passed, except
that a player whom the room kicks after `stop` has passed them is counted out twice.
-/

namespace SoupEngine.Sdk

open TransitionSystem Tally

section Definitions

-- a constant, so that the definitions below name this proof
local instance lawfulBEqPlayerID : LawfulBEq PlayerID := inferInstance

/-- The players whom `stop` has not passed. -/
def RoomProc.online (r : RoomProc) : List PlayerID :=
  r.room.players.keys.filter fun p => decide (p ∉ r.place.passed.getD [])

/-- `PlayersOnline.Add`, with the call of the implementation that it goes with. -/
def RoomOp.online : RoomOp → ℤ
  | .onJoin _ => 1
  | .onLeave _ _ => -1
  | _ => 0

namespace Server

/-- `RoomsActive.Add(1)`. -/
def made (s : Server) : ServerAction → ℕ
  | .frame typ body _ v _ =>
    if s.routing.isNone = true ∧ s.dying = false ∧ typ = FrameSessionOpen then
      match s.opens body v with
      | none => 0
      | some _ => if v.Route.roomID ∈ s.rooms then 0 else 1
    else 0
  | _ => 0

/-- `removeRoom` takes the room out of the map. -/
def unmade (s : Server) : ServerAction → ℕ
  | .remove R =>
    match s.rooms[R]? with
    | none => 0
    | some r =>
      match r.place with
      | .stop done =>
        if s.dying = false ∧ (r.room.players.keys.all fun p => decide (p ∈ done)) = true
          then 1 else 0
      | _ => 0
  | _ => 0

/-- `PlayersOnline.Add`. -/
def online (s : Server) : ServerAction → ℤ
  | .handle R =>
    match s.rooms[R]? with
    | none => 0
    | some r =>
      match r.place.held with
      | none => 0
      | some e =>
        if s.dying = true ∧ takesLock r e = true then 0
        else ((r.room.handleEvent e.ev).2.map RoomOp.online).sum
  | .kick R p reason _ =>
    match s.rooms[R]? with
    | none => 0
    | some r =>
      if r.place.calling = true ∧ s.dying = false
        then ((r.room.kick p reason).2.map RoomOp.online).sum else 0
  | .leave R p _ =>
    match s.rooms[R]? with
    | none => 0
    | some r =>
      match r.place with
      | .stop done => if p ∈ r.room.players ∧ p ∉ done then -1 else 0
      | _ => 0
  | _ => 0

/-- A room kicks a player whom `stop` has passed. -/
def kicksPassed (s : Server) : ServerAction → ℕ
  | .kick R p _ _ =>
    match s.rooms[R]? with
    | none => 0
    | some r =>
      if r.place.calling = true ∧ s.dying = false ∧ p ∈ r.room.players ∧ p ∈ r.place.passed.getD []
        then 1 else 0
  | _ => 0

end Server

end Definitions

/-- The server with its gauges. -/
structure Metered where
  server : Server
  RoomsActive : ℤ
  PlayersOnline : ℤ
  /-- The calls of `removeRoom` between the lock and `RoomsActive.Add(-1)`. -/
  leaving : ℕ
  /-- How often a room has kicked a player whom `stop` had passed. -/
  kickedPassed : ℕ

inductive MeteredAction
  | server (a : ServerAction)
  /-- `RoomsActive.Add(-1)` of `removeRoom`. -/
  | countOut

namespace Metered

def start (s : Server) : Metered := ⟨s, 0, 0, 0, 0⟩

def step (m : Metered) : MeteredAction → Metered
  | .server a =>
    if m.server.crashed = true then m
    else
      { server := m.server.step a
        RoomsActive := m.RoomsActive + m.server.made a
        PlayersOnline := m.PlayersOnline + m.server.online a
        leaving := m.leaving + m.server.unmade a
        kickedPassed := m.kickedPassed + m.server.kicksPassed a }
  | .countOut => if m.leaving = 0 then m
    else { m with RoomsActive := m.RoomsActive - 1, leaving := m.leaving - 1 }

def Valid (m : Metered) : MeteredAction → Prop
  | .server a => m.server.Valid a
  | .countOut => True

instance (m : Metered) : (a : MeteredAction) → Decidable (m.Valid a)
  | .server a => inferInstanceAs (Decidable (m.server.Valid a))
  | .countOut => .isTrue trivial

end Metered

/-! ## The players of a room -/

namespace RoomProc

variable {r r' : RoomProc} {p : PlayerID}

theorem nodup_online (r : RoomProc) : r.online.Nodup := Std.ExtTreeMap.nodup_keys.filter _

theorem mem_online : p ∈ r.online ↔ p ∈ r.room.players ∧ p ∉ r.place.passed.getD [] := by
  unfold online
  rw [List.mem_filter, Std.ExtTreeMap.mem_keys, decide_eq_true_iff]

/-- The same players are online. -/
theorem length_online_congr (h : ∀ p, p ∈ r'.online ↔ p ∈ r.online) :
    r'.online.length = r.online.length :=
  ((List.perm_ext_iff_of_nodup r'.nodup_online r.nodup_online).2 h).length_eq

/-- One more is online. -/
theorem length_online_add (hp : p ∉ r.online) (h : ∀ q, q ∈ r'.online ↔ q = p ∨ q ∈ r.online) :
    r'.online.length = r.online.length + 1 := by
  have hperm : r'.online.Perm (p :: r.online) := by
    refine (List.perm_ext_iff_of_nodup r'.nodup_online (List.nodup_cons.2 ⟨hp, r.nodup_online⟩)).2
      fun q => ?_
    rw [h, List.mem_cons]
  exact hperm.length_eq

/-- What others see of a room says who is online. -/
theorem online_of_view (hview : r'.view = r.view ∨
    r.place.passed = none ∧ r'.view = { r.view with passed := some [] }) (p : PlayerID) :
    p ∈ r'.online ↔ p ∈ r.online := by
  rw [mem_online, mem_online]
  have hplayers (hbound : r'.bound = r.bound) : p ∈ r'.room.players ↔ p ∈ r.room.players := by
    rw [← not_iff_not, ← bound_eq_none, ← bound_eq_none, hbound]
  rcases hview with hview | ⟨hnone, hview⟩
  · have hpassed : r'.place.passed = r.place.passed := congrArg View.passed hview
    rw [hplayers (congrArg View.bound hview), hpassed]
  · have hpassed : r'.place.passed = some [] := congrArg View.passed hview
    rw [hplayers (congrArg View.bound hview), hpassed, hnone]
    rfl

theorem online_new (J B : ℕ) : (new J B).online = [] := rfl

theorem online_offer (r : RoomProc) (inboxCap : ℕ) (e : Post) :
    (r.offer inboxCap e).online = r.online := by
  unfold offer
  split_ifs <;> rfl

/-- Something that is counted for the players who are online. -/
def Counts (f : RoomProc → ℕ) : Prop :=
  ∀ r r' : RoomProc, (∀ p, p ∈ r'.online ↔ p ∈ r.online) → f r' = f r

theorem Counts.offer {f : RoomProc → ℕ} (h : Counts f) (r : RoomProc) (inboxCap : ℕ) (e : Post) :
    f (r.offer inboxCap e) = f r := h _ _ fun p => by rw [online_offer]

/-- Operations that no player comes or goes with. -/
theorem sum_online_eq_zero {ops : List RoomOp} (h : ∀ op ∈ ops, op.online = 0) :
    (ops.map RoomOp.online).sum = 0 := by
  apply List.sum_eq_zero
  intro n hn
  obtain ⟨op, hop, rfl⟩ := List.mem_map.1 hn
  exact h op hop

/-- An event that neither opens nor closes. -/
theorem sum_online_handleEvent {ev : InEvent} (hopen : ∀ sess p, ev ≠ .inOpen sess p)
    (hclose : ∀ p reason, ev ≠ .inClose p reason) (room : Room) :
    ((room.handleEvent ev).2.map RoomOp.online).sum = 0 := by
  refine sum_online_eq_zero fun op hop => ?_
  have hquiet := Room.quiet_of_mem_handleEvent hopen hclose room hop
  cases op with
  | put | onInput | onResume => rfl
  | onJoin | onLeave | removeSession | sendKick => exact hquiet.elim

/-- **An event** counts those who come and go. -/
theorem length_online_after {e : Post} (hheld : r.place.held = some e) :
    ((r.after e).online.length : ℤ) =
      r.online.length + ((r.room.handleEvent e.ev).2.map RoomOp.online).sum := by
  obtain ⟨-, hafter, hbefore⟩ := held_handled hheld
  have hmem (p : PlayerID) : p ∈ r.online ↔ p ∈ r.room.players := by
    rw [mem_online, hbefore]
    exact and_iff_left List.not_mem_nil
  have hmem' (p : PlayerID) : p ∈ (r.after e).online ↔ p ∈ (r.after e).room.players := by
    have hpassed : (r.after e).place.passed = none := hafter
    rw [mem_online, hpassed]
    exact and_iff_left List.not_mem_nil
  by_cases hopen : ∃ sess p, e.ev = .inOpen sess p
  · obtain ⟨sess, p, hev⟩ := hopen
    have hiff (q : PlayerID) : q ∈ (r.after e).online ↔ q = p ∨ q ∈ r.online := by
      rw [hmem', hmem, mem_after_inOpen hev]
    rw [hev]
    by_cases hp : p ∈ r.room.players
    · have hops : (r.room.handleEvent (.inOpen sess p)).2 = [] := by rw [Room.ops_inOpen, if_pos hp]
      rw [hops, List.map_nil, List.sum_nil, add_zero, length_online_congr fun q => ?_]
      rw [hiff q]
      exact or_iff_right_of_imp fun heq => heq ▸ (hmem p).2 hp
    · have hops : (r.room.handleEvent (.inOpen sess p)).2 = [.onJoin p] := by
        rw [Room.ops_inOpen, if_neg hp]
      rw [hops, length_online_add (fun hon => hp ((hmem p).1 hon)) hiff]
      rfl
  by_cases hclose : ∃ p reason, e.ev = .inClose p reason
  · obtain ⟨p, reason, hev⟩ := hclose
    have hiff (q : PlayerID) : q ∈ (r.after e).online ↔ q ≠ p ∧ q ∈ r.online := by
      rw [hmem', hmem, mem_after_inClose hev]
    rw [hev]
    cases hst : r.room.players[p]? with
    | none =>
      have hp : p ∉ r.room.players := fun hp => Room.mem_players_iff.1 hp hst
      have hops : (r.room.handleEvent (.inClose p reason)).2 = [] := by rw [Room.ops_inClose, hst]
      rw [hops, List.map_nil, List.sum_nil, add_zero, length_online_congr fun q => ?_]
      rw [hiff q]
      refine and_iff_right_of_imp fun hq => ?_
      rintro rfl
      exact hp ((hmem q).1 hq)
    | some st =>
      have hp : p ∈ r.room.players :=
        Room.mem_players_iff.2 (by rw [hst]; exact Option.some_ne_none _)
      have hops : (r.room.handleEvent (.inClose p reason)).2 =
          [.removeSession st.sess, .onLeave p (mapLeaveReason reason)] := by
            rw [Room.ops_inClose, hst]
      have hmore : r.online.length = (r.after e).online.length + 1 := by
        refine length_online_add (p := p) (fun hon => ((hiff p).1 hon).1 rfl) fun q => ?_
        rw [hiff q]
        by_cases hq : q = p
        · exact iff_of_true (by rw [hq]; exact (hmem p).2 hp) (.inl hq)
        · rw [and_iff_right hq, or_iff_right hq]
      rw [hops, hmore]
      show _ = ((_ + 1 : ℕ) : ℤ) + (0 + (-1 + 0))
      omega
  · push Not at hopen hclose
    rw [sum_online_handleEvent hopen hclose r.room, add_zero, length_online_congr fun q => ?_]
    rw [hmem', hmem, mem_after_quiet hopen hclose]

/-- **A kick** counts the player out, if `stop` has done so or not. -/
theorem length_online_kick (r : RoomProc) (p : PlayerID) (reason : U8) :
    (({ r with room := (r.room.kick p reason).1 } : RoomProc).online.length : ℤ) =
      r.online.length + ((r.room.kick p reason).2.map RoomOp.online).sum +
        if p ∈ r.room.players ∧ p ∈ r.place.passed.getD [] then 1 else 0 := by
  cases hst : r.room.players[p]? with
  | none =>
    have hp : p ∉ r.room.players := fun hp => Room.mem_players_iff.1 hp hst
    rw [Room.kick_of_none hst, if_neg fun h => hp h.1]
    rfl
  | some st =>
    have hp : p ∈ r.room.players :=
      Room.mem_players_iff.2 (by rw [hst]; exact Option.some_ne_none _)
    obtain ⟨hops, hplayers⟩ := Room.kick_of_some hst reason
    have hiff (q : PlayerID) : q ∈ ({ r with room := (r.room.kick p reason).1 } : RoomProc).online ↔
        q ≠ p ∧ q ∈ r.online := by
      rw [mem_online, mem_online, ← and_assoc]
      refine and_congr_left' ?_
      show q ∈ (r.room.kick p reason).1.players ↔ _
      rw [hplayers, Std.ExtTreeMap.mem_erase]
      refine and_congr_left' ?_
      rw [Ne, Std.LawfulEqCmp.compare_eq_iff_eq]
      exact not_congr eq_comm
    have hsum : (([.sendKick st.sess reason, .removeSession st.sess, .onLeave p .LeaveKicked] : List
        RoomOp).map RoomOp.online).sum = -1 := rfl
    rw [hops, hsum]
    by_cases hpassed : p ∈ r.place.passed.getD []
    · have hsame : ({ r with room := (r.room.kick p reason).1 } : RoomProc).online.length =
          r.online.length := by
        apply length_online_congr
        intro q
        rw [hiff q]
        refine and_iff_right_of_imp fun hq => ?_
        rintro rfl
        exact (mem_online.1 hq).2 hpassed
      rw [if_pos ⟨hp, hpassed⟩, hsame]
      omega
    · have hmore : r.online.length =
          ({ r with room := (r.room.kick p reason).1 } : RoomProc).online.length + 1 := by
        refine length_online_add (p := p) (fun hon => ((hiff p).1 hon).1 rfl) fun q => ?_
        rw [hiff q]
        by_cases hq : q = p
        · exact iff_of_true (by rw [hq]; exact mem_online.2 ⟨hp, hpassed⟩) (.inl hq)
        · rw [and_iff_right hq, or_iff_right hq]
      rw [if_neg fun h => hpassed h.2, hmore]
      omega

/-- **`stop` passes a player.** -/
theorem length_online_pass {done : List PlayerID} (hplace : r.place = .stop done)
    (hp : p ∈ r.room.players) (hdone : p ∉ done) :
    r.online.length = ({ r with place := .stop (p :: done) } : RoomProc).online.length + 1 := by
  have hmem (q : PlayerID) : q ∈ r.online ↔ q ∈ r.room.players ∧ q ∉ done := by
    rw [mem_online, hplace]
    rfl
  have hmem' (q : PlayerID) : q ∈ ({ r with place := .stop (p :: done) } : RoomProc).online ↔
      q ∈ r.room.players ∧ q ∉ p :: done := mem_online
  refine length_online_add (p := p) (fun hon => ((hmem' p).1 hon).2 List.mem_cons_self) fun q => ?_
  rw [hmem, hmem', List.mem_cons, not_or]
  by_cases hq : q = p
  · rw [hq]
    exact iff_of_true ⟨hp, hdone⟩ (.inl rfl)
  · rw [and_iff_right hq, or_iff_right hq]

end RoomProc

/-! ## The steps of the server -/

namespace Server

variable {s : Server} {R : RoomID} {f : RoomProc → ℕ} {g : RoomProc → RoomProc}

/-- Something happens in a room that does not count. -/
theorem total_onRoom (h : ∀ r, f (g r) = f r) : total f (s.onRoom R g).rooms = total f s.rooms := by
  unfold onRoom
  cases hr : s.rooms[R]? with
  | none => rfl
  | some r => exact total_replace hr (h r)

theorem rooms_sendKick (s : Server) (sess : U64) (queued : Bool) :
    (s.sendKick sess queued).rooms = s.rooms := by
  unfold sendKick
  split_ifs <;> rfl

theorem rooms_sendKickTo (s : Server) (i : ℕ) (sess : U64) (queued : Bool) :
    (s.sendKickTo i sess queued).rooms = s.rooms := by
  unfold sendKickTo
  split_ifs
  · exact s.rooms_sendKick sess queued
  · rfl

theorem rooms_perform (i : ℕ) (queued : Bool) (ops : List RoomOp) (s : Server) :
    (ops.foldl (perform i queued) s).rooms = s.rooms := by
  induction ops generalizing s with
  | nil => rfl
  | cons op ops ih =>
    rw [List.foldl_cons, ih]
    cases op with
    | sendKick sess reason => exact s.rooms_sendKickTo i sess queued
    | _ => rfl

theorem rooms_mapSession (s : Server) (sess : U64) (p : PlayerID) (R : RoomID) (r : RoomProc)
    (queued : Bool) :
    (s.mapSession sess p R r queued).rooms =
      s.rooms.insert R (r.offer s.inboxCap ⟨sess, .inOpen sess p, s.next⟩) := by
  unfold mapSession
  dsimp only
  split_ifs
  · rfl
  · exact rooms_sendKickTo _ _ _ _

theorem rooms_routeToRoom (s : Server) (sess : U64) (ev : PlayerID → InEvent) :
    (s.routeToRoom sess ev).rooms = s.rooms := by
  unfold routeToRoom
  cases s.sessions[sess]? with
  | none => rfl
  | some ref =>
    dsimp only
    split_ifs
    · split <;> rfl
    · rfl

theorem rooms_handleSessionOpen_none {body : Bytes} {v : Verdict} {queued : Bool}
    (h : s.opens body v = none) :
    (s.handleSessionOpen body v queued).rooms = s.rooms := by
  unfold opens at h
  unfold handleSessionOpen
  cases hparse : parseSessionOpen body with
  | error err => rfl
  | ok x =>
    obtain ⟨sess, addr, token⟩ := x
    rw [hparse] at h
    cases hauth : v.Authenticate with
    | none => exact s.rooms_sendKick _ _
    | some p =>
      rw [hauth] at h
      dsimp only at h ⊢
      split_ifs at h with hc
      · rcases hc with hreject | hdup
        · rw [if_pos hreject]
          exact s.rooms_sendKick _ _
        · split_ifs
          · exact s.rooms_sendKick _ _
          · rfl
      · obtain ⟨hreject, hdup⟩ := not_or.1 hc
        rw [if_neg hreject, if_neg hdup, Option.map_eq_none_iff.1 h]
        exact s.rooms_sendKick _ _

/-- The room of a session that is opened is there, or new. -/
theorem opens_cases {body : Bytes} {v : Verdict} {sess : U64} {p : PlayerID} {r : RoomProc}
    (h : s.opens body v = some (sess, p, r)) : s.rooms[v.Route.roomID]? = some r ∨
      s.rooms[v.Route.roomID]? = none ∧ s.rooms.size < s.MaxRooms ∧
        r = .new s.JitterBufferTicks s.BaselineRingSize := by
  have hroom : s.roomFor v = some r := by
    unfold opens at h
    split at h
    · split_ifs at h
      obtain ⟨r', hr', heq⟩ := Option.map_eq_some_iff.1 h
      rw [hr', (Prod.mk.inj (Prod.mk.inj heq).2).2]
    · cases h
  unfold roomFor at hroom
  cases hr : s.rooms[v.Route.roomID]? with
  | some r' =>
    rw [hr] at hroom
    exact .inl hroom
  | none =>
    rw [hr] at hroom
    dsimp only at hroom
    split_ifs at hroom with h1 h2 h3
    exact .inr ⟨rfl, not_le.1 h2, (Option.some.inj hroom).symm⟩

/-- **A frame** makes a room, or lets all rooms count as before. -/
theorem total_dispatch (hf : RoomProc.Counts f) (typ : U8) (body : Bytes) (raw : BufId)
    (v : Verdict) (queued : Bool) (hidle : s.routing.isNone = true ∧ s.dying = false) :
    total f (s.dispatch typ body raw v queued).rooms =
      total f s.rooms + s.made (.frame typ body raw v queued) * f
        (.new s.JitterBufferTicks s.BaselineRingSize) := by
  unfold dispatch made
  dsimp only
  by_cases hopen : typ = FrameSessionOpen
  · rw [if_pos hopen, if_pos ⟨hidle.1, hidle.2, hopen⟩]
    cases h : s.opens body v with
    | none => rw [rooms_handleSessionOpen_none h, zero_mul, add_zero]
    | some x =>
      obtain ⟨sess, p, r⟩ := x
      rw [handleSessionOpen_of_opens h, rooms_mapSession]
      dsimp only
      rcases opens_cases h with hr | ⟨hr, -, rfl⟩
      · have hmem : v.Route.roomID ∈ s.rooms := by
          rw [Std.ExtTreeMap.mem_iff_isSome_getElem?, hr]
          rfl
        rw [if_pos hmem, zero_mul, add_zero]
        exact total_replace hr (hf.offer _ _ _)
      · have hmem : v.Route.roomID ∉ s.rooms := by
          rw [Std.ExtTreeMap.mem_iff_isSome_getElem?, hr]
          exact Bool.false_ne_true
        have hinsert := total_insert f s.rooms v.Route.roomID
          ((RoomProc.new s.JitterBufferTicks s.BaselineRingSize).offer s.inboxCap
            ⟨sess, .inOpen sess p, s.next⟩)
        unfold share at hinsert
        rw [hr, hf.offer] at hinsert
        rw [if_neg hmem, one_mul]
        exact hinsert
  · have hnone : ¬ (s.routing.isNone = true ∧ s.dying = false ∧ typ = FrameSessionOpen) :=
      fun h => hopen h.2.2
    rw [if_neg hopen, if_neg hnone, zero_mul, add_zero]
    by_cases hover : typ = FrameOverload
    · rw [if_pos hover]
      split
      · rfl
      · exact total_map fun _ r => hf.offer r _ _
    · rw [if_neg hover]
      split
      · rfl
      · rw [rooms_routeToRoom]

/-- `removeRoom` takes a room without players out of the count. -/
theorem total_removeRoom {r : RoomProc} (hr : s.rooms[R]? = some r) :
    total f (s.removeRoom R).rooms + f r = total f s.rooms := by
  have herase := total_erase f s.rooms R
  unfold share at herase
  rw [hr] at herase
  exact herase

theorem total_deliver (hf : RoomProc.Counts f) {r : RoomProc} (hr : s.rooms[R]? = some r)
    (hdrained : r.drained = true) {order : List PlayerID} (ho : r.room.IsOrder order) :
    total f (s.deliver R r order).rooms = total f s.rooms := by
  unfold deliver
  cases hd : r.room.deliverReadyInputs order with
  | none => rfl
  | some out =>
    obtain ⟨room, ops⟩ := out
    obtain ⟨hsess, -⟩ := Room.sessAt_deliver ho hd
    refine total_replace hr (hf _ _ fun p => ?_)
    have hplace : r.place.passed = none := by
      unfold RoomProc.drained at hdrained
      split at hdrained
      · rename_i hplace _
        rw [hplace]
        rfl
      · rename_i hplace _
        rw [hplace]
        rfl
      · cases hdrained
    rw [RoomProc.mem_online, RoomProc.mem_online, hplace]
    refine and_congr_left' ?_
    rw [Room.mem_players_sessAt, Room.mem_players_sessAt]
    show room.sessAt p ≠ none ↔ _
    rw [hsess]

/-- **What does not count**: all the steps but those of a frame, of an event, of a kick and of the
end of a room. -/
theorem total_quiet (hf : RoomProc.Counts f) {a : ServerAction} (ha : s.Valid a)
    (hframe : ∀ typ body raw v queued, a ≠ .frame typ body raw v queued)
    (hhandle : ∀ R, a ≠ .handle R) (hkick : ∀ R p reason queued, a ≠ .kick R p reason queued)
    (hleave : ∀ R p queued, a ≠ .leave R p queued) (hremove : ∀ R, a ≠ .remove R) :
    total f (s.step a).rooms = total f s.rooms := by
  unfold step
  by_cases hcrashed : s.crashed = true
  · rw [if_pos hcrashed]
  rw [if_neg hcrashed]
  cases a with
  | frame typ body raw v queued => exact absurd rfl (hframe typ body raw v queued)
  | handle R => exact absurd rfl (hhandle R)
  | kick R p reason queued => exact absurd rfl (hkick R p reason queued)
  | leave R p queued => exact absurd rfl (hleave R p queued)
  | remove R => exact absurd rfl (hremove R)
  | send =>
    show total f s.send.rooms = _
    unfold send
    cases s.routing with
    | none => rfl
    | some x =>
      obtain ⟨R, e⟩ := x
      exact @total_onRoom { s with routing := none } R f _ fun r => hf.offer r _ _
  | dead => rfl
  | visit sess =>
    dsimp only
    split_ifs
    · unfold visit
      cases s.sessions[sess]? with
      | none => rfl
      | some ref => exact total_onRoom fun r => hf.offer r _ _
    · rfl
  | cleared =>
    dsimp only
    split_ifs <;> rfl
  | take R => exact total_onRoom fun r => hf _ _ (RoomProc.online_of_view (.inl r.view_take))
  | check R => exact total_onRoom fun r => hf _ _ (RoomProc.online_of_view r.view_check)
  | timer R => exact total_onRoom fun r => hf _ _ (RoomProc.online_of_view (.inl r.view_timer))
  | deliver R order =>
    dsimp only
    cases hr : s.rooms[R]? with
    | none => rfl
    | some r =>
      dsimp only
      split_ifs with hdrained
      · exact total_deliver hf hr hdrained (ha r hr)
      · rfl
  | tick R out more =>
    exact total_onRoom fun r => hf _ _ (RoomProc.online_of_view (r.view_tick out more))
  | finish R => exact total_onRoom fun r => hf _ _ (RoomProc.online_of_view (.inl r.view_finish))

theorem counts_one : RoomProc.Counts fun _ => 1 := fun _ _ _ => rfl

theorem counts_online : RoomProc.Counts fun r => r.online.length :=
  fun _ _ h => RoomProc.length_online_congr h

/-- **One step**, and the number of rooms. -/
theorem size_step (hcrashed : s.crashed = false) {a : ServerAction} (ha : s.Valid a) :
    (s.step a).rooms.size + s.unmade a = s.rooms.size + s.made a := by
  have hquiet := @total_quiet s _ counts_one a ha
  rw [total_one, total_one] at hquiet
  have hstep : s.crashed ≠ true := by
    rw [hcrashed]
    exact Bool.false_ne_true
  have hreplace {R : RoomID} {r : RoomProc} (hr : s.rooms[R]? = some r) (r' : RoomProc) :
      (s.rooms.insert R r').size = s.rooms.size := by
    rw [← total_one, ← total_one]
    exact total_replace hr rfl
  cases a with
  | frame typ body raw v queued =>
    have hdispatch := @total_dispatch s _ counts_one typ body raw v queued
    rw [total_one, total_one, mul_one] at hdispatch
    unfold step
    rw [if_neg hstep]
    dsimp only
    split_ifs with hidle
    · exact hdispatch hidle
    · have hnone : s.made (.frame typ body raw v queued) = 0 := if_neg fun h => hidle ⟨h.1, h.2.1⟩
      rw [hnone]
      rfl
  | remove R =>
    unfold step unmade
    rw [if_neg hstep]
    dsimp only
    cases hr : s.rooms[R]? with
    | none => rfl
    | some r =>
      dsimp only
      cases r.place with
      | stop done =>
        dsimp only
        split_ifs
        · have hremove := @total_removeRoom s R (fun _ => 1) r hr
          rw [total_one, total_one] at hremove
          exact hremove
        · rfl
      | _ => rfl
  | handle R =>
    unfold step
    rw [if_neg hstep]
    dsimp only
    cases hr : s.rooms[R]? with
    | none => rfl
    | some r =>
      dsimp only
      cases hheld : r.place.held with
      | none => rfl
      | some e =>
        dsimp only
        split_ifs
        · rfl
        · unfold handleEvent
          rw [rooms_perform]
          exact hreplace hr _
  | kick R p reason queued =>
    unfold step
    rw [if_neg hstep]
    dsimp only
    cases hr : s.rooms[R]? with
    | none => rfl
    | some r =>
      dsimp only
      split_ifs
      · unfold kick
        rw [rooms_perform]
        exact hreplace hr _
      · rfl
  | leave R p queued =>
    unfold step
    rw [if_neg hstep]
    dsimp only
    cases hr : s.rooms[R]? with
    | none => rfl
    | some r =>
      dsimp only
      split
      · unfold leave
        split
        · rfl
        · split_ifs
          · rfl
          · rw [rooms_sendKickTo]
            exact hreplace hr _
      · rfl
  | _ => exact hquiet (by simp) (by simp) (by simp) (by simp) (by simp)

/-- The players of all rooms when one of them is replaced. -/
theorem players_insert {R : RoomID} {r : RoomProc} (hr : s.rooms[R]? = some r) (r' : RoomProc) :
    total (fun r => r.online.length) (s.rooms.insert R r') + r.online.length =
      total (fun r => r.online.length) s.rooms + r'.online.length := by
  have h := total_insert (fun r => r.online.length) s.rooms R r'
  unfold share at h
  rw [hr] at h
  exact h

theorem players_same : (total (fun r => r.online.length) s.rooms : ℤ) =
    total (fun r => r.online.length) s.rooms + 0 + (0 : ℕ) := by omega

/-- A room is removed when `stop` has come to all its players. -/
theorem online_remove (hstep : s.crashed ≠ true) (R : RoomID) :
    total (fun r => r.online.length) (s.step (.remove R)).rooms =
      total (fun r => r.online.length) s.rooms := by
  unfold step
  rw [if_neg hstep]
  dsimp only
  cases hr : s.rooms[R]? with
  | none => rfl
  | some r =>
    dsimp only
    cases hplace : r.place with
    | stop done =>
      dsimp only
      split_ifs with hall
      · have hremove := @total_removeRoom s R (fun r => r.online.length) r hr
        have hempty : r.online = [] := by
          refine List.eq_nil_iff_forall_not_mem.2 fun p hp => ?_
          obtain ⟨hmem, hpassed⟩ := RoomProc.mem_online.1 hp
          rw [hplace] at hpassed
          have hkey : p ∈ r.room.players.keys := Std.ExtTreeMap.mem_keys.2 hmem
          exact hpassed (of_decide_eq_true (List.all_eq_true.1 hall.2 p hkey))
        rw [hempty, List.length_nil, add_zero] at hremove
        exact hremove
      · rfl
    | _ => rfl

theorem online_handle (hstep : s.crashed ≠ true) (R : RoomID) :
    (total (fun r => r.online.length) (s.step (.handle R)).rooms : ℤ) =
      total (fun r => r.online.length) s.rooms + s.online (.handle R) + s.kicksPassed
        (.handle R) := by
  unfold step online
  rw [if_neg hstep]
  dsimp only
  cases hr : s.rooms[R]? with
  | none => exact players_same
  | some r =>
    dsimp only
    cases hheld : r.place.held with
    | none => exact players_same
    | some e =>
      dsimp only
      split_ifs
      · exact players_same
      · have hafter := RoomProc.length_online_after hheld
        have hroom := players_insert hr (r.after e)
        unfold handleEvent
        rw [rooms_perform]
        show (total _ (s.rooms.insert R (r.after e)) : ℤ) = _ + _ + (0 : ℕ)
        omega

theorem online_kick (hstep : s.crashed ≠ true) (R : RoomID) (p : PlayerID) (reason : U8)
    (queued : Bool) :
    (total (fun r => r.online.length) (s.step (.kick R p reason queued)).rooms : ℤ) =
      total (fun r => r.online.length) s.rooms + s.online (.kick R p reason queued) +
        s.kicksPassed (.kick R p reason queued) := by
  unfold step online kicksPassed
  rw [if_neg hstep]
  dsimp only
  cases hr : s.rooms[R]? with
  | none => exact players_same
  | some r =>
    dsimp only
    by_cases hcalling : r.place.calling = true ∧ s.dying = false
    · have hkick := r.length_online_kick p reason
      have hroom := players_insert hr { r with room := (r.room.kick p reason).1 }
      have hboth : (if r.place.calling = true ∧ s.dying = false ∧ p ∈ r.room.players ∧
            p ∈ r.place.passed.getD [] then 1 else 0 : ℕ) =
          if p ∈ r.room.players ∧ p ∈ r.place.passed.getD [] then 1 else 0 :=
        if_congr ⟨fun h => h.2.2, fun h => ⟨hcalling.1, hcalling.2, h⟩⟩ rfl rfl
      rw [if_pos hcalling, if_pos hcalling, hboth]
      unfold kick
      rw [rooms_perform]
      dsimp only at hroom hkick ⊢
      split_ifs at hkick ⊢ <;> omega
    · rw [if_neg hcalling, if_neg hcalling, if_neg fun h => hcalling ⟨h.1, h.2.1⟩]
      exact players_same

theorem online_leave (hstep : s.crashed ≠ true) (R : RoomID) (p : PlayerID) (queued : Bool) :
    (total (fun r => r.online.length) (s.step (.leave R p queued)).rooms : ℤ) =
      total (fun r => r.online.length) s.rooms + s.online (.leave R p queued) +
        s.kicksPassed (.leave R p queued) := by
  unfold step online
  rw [if_neg hstep]
  dsimp only
  cases hr : s.rooms[R]? with
  | none => exact players_same
  | some r =>
    dsimp only
    cases hplace : r.place with
    | stop done =>
      dsimp only
      unfold leave
      cases hst : r.room.players[p]? with
      | none =>
        have hp : p ∉ r.room.players := fun hp => Room.mem_players_iff.1 hp hst
        rw [if_neg fun h => hp h.1]
        exact players_same
      | some st =>
        have hp : p ∈ r.room.players :=
          Room.mem_players_iff.2 (by rw [hst]; exact Option.some_ne_none _)
        dsimp only
        by_cases hdone : p ∈ done
        · rw [if_pos hdone, if_neg fun h => h.2 hdone]
          exact players_same
        · have hpass := RoomProc.length_online_pass hplace hp hdone
          have hroom := players_insert hr { r with place := .stop (p :: done) }
          rw [if_neg hdone, if_pos ⟨hp, hdone⟩, rooms_sendKickTo]
          show (total _ (s.rooms.insert R { r with place := .stop (p :: done) }) : ℤ) =
            _ + -1 + (0 : ℕ)
          omega
    | _ => exact players_same

/-- **One step**, and the number of players. -/
theorem online_step (hcrashed : s.crashed = false) {a : ServerAction} (ha : s.Valid a) :
    (total (fun r => r.online.length) (s.step a).rooms : ℤ) =
      total (fun r => r.online.length) s.rooms + s.online a + s.kicksPassed a := by
  have hquiet := @total_quiet s _ counts_online a ha
  have hstep : s.crashed ≠ true := by
    rw [hcrashed]
    exact Bool.false_ne_true
  cases a with
  | frame typ body raw v queued =>
    have hdispatch := @total_dispatch s _ counts_online typ body raw v queued
    rw [RoomProc.online_new, List.length_nil, mul_zero, add_zero] at hdispatch
    refine Eq.trans ?_ players_same
    unfold step
    rw [if_neg hstep]
    dsimp only
    split_ifs with hidle
    · rw [hdispatch hidle]
    · rfl
  | remove R => exact (congrArg Nat.cast (online_remove hstep R)).trans players_same
  | handle R => exact online_handle hstep R
  | kick R p reason queued => exact online_kick hstep R p reason queued
  | leave R p queued => exact online_leave hstep R p queued
  | _ =>
    refine Eq.trans ?_ players_same
    rw [hquiet (by simp) (by simp) (by simp) (by simp) (by simp)]

end Server

namespace Metered

/-- What the gauges show. -/
structure Exact (m : Metered) : Prop where
  rooms : m.RoomsActive = m.server.rooms.size + m.leaving
  players : m.PlayersOnline = total (fun r => r.online.length) m.server.rooms - m.kickedPassed

theorem exact_start (M C J B : ℕ) : (start (.start M C J B)).Exact := ⟨rfl, rfl⟩

theorem Exact.step {m : Metered} (h : m.Exact) {a : MeteredAction} (ha : m.Valid a) :
    (m.step a).Exact := by
  obtain ⟨hrooms, hplayers⟩ := h
  cases a with
  | server a =>
    unfold Metered.step
    dsimp only
    by_cases hcrashed : m.server.crashed = true
    · rw [if_pos hcrashed]
      exact ⟨hrooms, hplayers⟩
    · rw [if_neg hcrashed]
      have hsize := Server.size_step (Bool.eq_false_of_not_eq_true hcrashed) ha
      have honline := Server.online_step (Bool.eq_false_of_not_eq_true hcrashed) ha
      constructor
      · dsimp only
        rw [hrooms]
        push_cast
        omega
      · dsimp only
        rw [hplayers, honline]
        push_cast
        omega
  | countOut =>
    unfold Metered.step
    dsimp only
    split_ifs with hzero
    · exact ⟨hrooms, hplayers⟩
    · refine ⟨?_, hplayers⟩
      dsimp only
      rw [hrooms]
      omega

end Metered

/-- **The gauges are exact.** Under every interleaving of the reader, of the rooms and of
`onEngineDead`, `RoomsActive` is the number of rooms and of those that `removeRoom` has yet to count
out, and `PlayersOnline` the number of players in rooms whom `stop` has not passed, less one for
every kick of a player whom it had passed. -/
theorem gauges_exact (M C J B : ℕ) {m : Metered}
    (h : Reach Metered.step Metered.Valid (.start (.start M C J B)) m) :
    m.RoomsActive = m.server.rooms.size + m.leaving ∧
      m.PlayersOnline = total (fun r => r.online.length) m.server.rooms - m.kickedPassed := by
  have hexact := h.invariant (Metered.exact_start M C J B) fun s a hs ha => hs.step ha
  exact ⟨hexact.rooms, hexact.players⟩

/-- Three players come, the room ends, and when `stop` has passed the first one the room kicks that
player. -/
def farewellKicks : List MeteredAction :=
  ([Server.openFor 1 1 7] ++ Server.serve 7 ++ [Server.openFor 2 2 7] ++ Server.serve 7 ++
    [Server.openFor 3 3 7, .take 7, .handle 7, .finish 7, .check 7, .leave 7 1 true,
      .kick 7 1 0 true, .leave 7 2 true, .leave 7 3 true, .remove 7]).map .server ++ [.countOut]

theorem gauges_exact_farewell :
    let m := farewellKicks.foldl Metered.step (.start (.start 1024 256 2 32))
    (m.RoomsActive = 0 ∧ m.PlayersOnline = -1) ∧ m.RoomsActive = m.server.rooms.size + m.leaving ∧
      m.PlayersOnline = total (fun r => r.online.length) m.server.rooms - m.kickedPassed :=
  ⟨by decide +kernel, gauges_exact 1024 256 2 32 (Reach.foldl (by decide +kernel))⟩

end SoupEngine.Sdk
