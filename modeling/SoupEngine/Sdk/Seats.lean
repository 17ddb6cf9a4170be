import SoupEngine.Lib.Chronicle
import SoupEngine.Sdk.Change

/-!
# Seats

Which sessions the server has mapped and to where, which players are in which room, and which
sessions a `Kick` has been sent for is told by what the gatekeeper, `onEngineDead` and the rooms
have done one after the other: every step does at most one thing about it (`Server.seatEvent`), and
changes the seats by that alone (`seats_step`).
-/

namespace SoupEngine.Sdk

open Chronicle

/-- What is done about a session or a player; `queued` says that the outbox takes the `Kick`. -/
inductive SeatEvent
  /-- A `SessionOpen` is accepted. -/
  | opened (sess : U64) (R : RoomID) (p : PlayerID)
  /-- A `SessionOpen` is refused: by the gatekeeper, for want of a room, or because the room's inbox
  is full. -/
  | refused (sess : U64) (queued : Bool)
  /-- The loop of `onEngineDead` comes to the session. -/
  | cleared (sess : U64)
  /-- The room takes the player in. -/
  | joined (R : RoomID) (p : PlayerID)
  /-- The room handles the close of a player that it has. -/
  | left (R : RoomID) (p : PlayerID) (sess : U64)
  /-- `RoomCtx.Kick` of a player in the room. -/
  | kicked (R : RoomID) (p : PlayerID) (sess : U64) (queued : Bool)
  /-- `stop` passes the player. -/
  | passed (sess : U64) (queued : Bool)
  /-- `removeRoom`. -/
  | removed (R : RoomID)
  deriving DecidableEq

namespace SeatEvent

/-- A `Kick` is sent for the session. -/
def Kicks (sess : U64) : SeatEvent → Prop
  | refused σ queued | kicked _ _ σ queued | passed σ queued => σ = sess ∧ queued = true
  | _ => False

/-- The session is mapped to the room no more. -/
def Unseats (sess : U64) (R : RoomID) : SeatEvent → Prop
  | opened σ _ _ | cleared σ | left _ _ σ | kicked _ _ σ _ => σ = sess
  | removed S => S = R
  | _ => False

/-- The player is in the room no more. -/
def Takes (R : RoomID) (p : PlayerID) : SeatEvent → Prop
  | left S q _ | kicked S q _ _ => S = R ∧ q = p
  | removed S => S = R
  | _ => False

end SeatEvent

/-- A `Kick` has been sent for the session. -/
def TurnedAway (es : List SeatEvent) (sess : U64) : Prop := ∃ e ∈ es, e.Kicks sess

/-- The session has been accepted for a room, its player has been taken in, and neither has been
undone. -/
def Seated (es : List SeatEvent) (sess : U64) : Prop :=
  ∃ R p, Since (· = .opened sess R p) (SeatEvent.Unseats sess R) es ∧
    Since (· = .joined R p) (SeatEvent.Takes R p) es

/-- The sessions with their rooms and players, the players in the rooms, and the sessions that have
been kicked. -/
@[ext]
structure Seats where
  mapped : U64 → Option (RoomID × PlayerID)
  inside : RoomID → PlayerID → Bool
  kicked : List U64

namespace Seats

def empty : Seats := ⟨fun _ => none, fun _ _ => false, []⟩

def unmap (t : Seats) (sess : U64) : Seats :=
  { t with mapped := Function.update t.mapped sess none }

def sit (t : Seats) (R : RoomID) (p : PlayerID) (b : Bool) : Seats :=
  { t with inside := Function.update t.inside R (Function.update (t.inside R) p b) }

def kick (t : Seats) (sess : U64) (queued : Bool) : Seats :=
  { t with kicked := t.kicked ++ if queued = true then [sess] else [] }

def apply (t : Seats) : SeatEvent → Seats
  | .opened sess R p => { t with mapped := Function.update t.mapped sess (some (R, p)) }
  | .refused sess queued => t.kick sess queued
  | .cleared sess => t.unmap sess
  | .joined R p => t.sit R p true
  | .left R p sess => (t.unmap sess).sit R p false
  | .kicked R p sess queued => ((t.kick sess queued).unmap sess).sit R p false
  | .passed sess queued => t.kick sess queued
  | .removed R =>
    { t with
      mapped := fun sess => (t.mapped sess).filter fun x => decide (x.1 ≠ R)
      inside := Function.update t.inside R fun _ => false }

/-! ## Events one after the other -/

variable {t : Seats} {e : SeatEvent} {es : List SeatEvent} {sess : U64} {R : RoomID} {p : PlayerID}

theorem mem_kick {σ : U64} {queued : Bool} :
    sess ∈ (t.kick σ queued).kicked ↔ sess ∈ t.kicked ∨ σ = sess ∧ queued = true := by
  show sess ∈ t.kicked ++ (if queued = true then [σ] else []) ↔ _
  rw [List.mem_append]
  refine or_congr_right ?_
  split_ifs with hq
  · rw [List.mem_singleton, eq_comm]
    exact (and_iff_left hq).symm
  · exact iff_of_false List.not_mem_nil fun h => hq h.2

theorem mem_kicked_apply : sess ∈ (t.apply e).kicked ↔ sess ∈ t.kicked ∨ e.Kicks sess := by
  cases e with
  | refused σ queued => exact mem_kick
  | kicked S q σ queued => exact mem_kick
  | passed σ queued => exact mem_kick
  | opened | cleared | joined | left | removed => exact (or_iff_left id).symm

theorem mapped_unmap {σ : U64} {x : RoomID × PlayerID} :
    (t.unmap σ).mapped sess = some x ↔ t.mapped sess = some x ∧ ¬ σ = sess := by
  show Function.update t.mapped σ none sess = some x ↔ _
  by_cases h : σ = sess
  · rw [h, Function.update_self]
    exact iff_of_false (fun h => nomatch h) fun hne => hne.2 rfl
  · rw [Function.update_of_ne (Ne.symm h)]
    exact (and_iff_left h).symm

theorem mapped_apply : (t.apply e).mapped sess = some (R, p) ↔
    e = .opened sess R p ∨ t.mapped sess = some (R, p) ∧ ¬ e.Unseats sess R := by
  have hother (h : ¬ e = .opened sess R p) (hkeep : (t.apply e).mapped sess = some (R, p) ↔
      t.mapped sess = some (R, p) ∧ ¬ e.Unseats sess R) : _ := hkeep.trans (or_iff_right h).symm
  cases e with
  | opened σ S q =>
    show Function.update t.mapped σ (some (S, q)) sess = some (R, p) ↔ _
    by_cases h : σ = sess
    · rw [h, Function.update_self]
      constructor
      · intro heq
        obtain ⟨rfl, rfl⟩ := Prod.mk.inj (Option.some.inj heq)
        exact .inl rfl
      · rintro (heq | ⟨-, hne⟩)
        · obtain ⟨-, rfl, rfl⟩ := SeatEvent.opened.inj heq
          rfl
        · exact absurd rfl hne
    · rw [Function.update_of_ne (Ne.symm h), or_iff_right fun heq => h (SeatEvent.opened.inj heq).1]
      exact (and_iff_left h).symm
  | cleared σ => exact hother nofun mapped_unmap
  | left S q σ => exact hother nofun mapped_unmap
  | kicked S q σ queued => exact hother nofun mapped_unmap
  | removed S =>
    refine hother nofun ?_
    show (t.mapped sess).filter _ = some (R, p) ↔ _
    rw [Option.filter_eq_some_iff, decide_eq_true_eq]
    exact and_congr_right fun _ => not_congr eq_comm
  | refused | joined | passed => exact hother nofun (and_iff_left id).symm

theorem inside_sit {S : RoomID} {q : PlayerID} {b : Bool} : (t.sit S q b).inside R p = true ↔
    if S = R ∧ q = p then b = true else t.inside R p = true := by
  show Function.update t.inside S (Function.update (t.inside S) q b) R p = true ↔ _
  by_cases hS : S = R
  · subst hS
    rw [Function.update_self]
    by_cases hq : q = p
    · rw [hq, Function.update_self, if_pos ⟨rfl, rfl⟩]
    · rw [Function.update_of_ne (Ne.symm hq), if_neg fun h => hq h.2]
  · rw [Function.update_of_ne (Ne.symm hS), if_neg fun h => hS h.1]

theorem inside_sit_false {S : RoomID} {q : PlayerID} :
    (t.sit S q false).inside R p = true ↔ t.inside R p = true ∧ ¬ (S = R ∧ q = p) := by
  rw [inside_sit]
  split_ifs with h
  · exact iff_of_false id fun hne => hne.2 h
  · exact (and_iff_left h).symm

theorem inside_apply : (t.apply e).inside R p = true ↔
    e = .joined R p ∨ t.inside R p = true ∧ ¬ e.Takes R p := by
  have hother (h : ¬ e = .joined R p) (hkeep : (t.apply e).inside R p = true ↔
      t.inside R p = true ∧ ¬ e.Takes R p) : _ := hkeep.trans (or_iff_right h).symm
  cases e with
  | joined S q =>
    refine inside_sit.trans ?_
    split_ifs with h
    · exact iff_of_true rfl (.inl (by rw [h.1, h.2]))
    · refine (or_iff_right fun heq => h ?_).trans (and_iff_left id) |>.symm
      exact ⟨(SeatEvent.joined.inj heq).1, (SeatEvent.joined.inj heq).2⟩
  | left S q σ => exact hother nofun inside_sit_false
  | kicked S q σ queued => exact hother nofun inside_sit_false
  | removed S =>
    refine hother nofun ?_
    show Function.update t.inside S (fun _ => false) R p = true ↔ _
    by_cases h : S = R
    · rw [h, Function.update_self]
      exact iff_of_false Bool.false_ne_true fun hne => hne.2 rfl
    · rw [Function.update_of_ne (Ne.symm h)]
      exact (and_iff_left h).symm
  | opened | refused | cleared | passed => exact hother nofun (and_iff_left id).symm

/-- What the events make of nothing. -/
def fold (es : List SeatEvent) : Seats := es.foldl apply empty

theorem fold_concat (es : List SeatEvent) (e : SeatEvent) : fold (es ++ [e]) = (fold es).apply e :=
  List.foldl_concat apply empty e es

theorem mem_kicked_fold : sess ∈ (fold es).kicked ↔ TurnedAway es sess := by
  induction es using List.reverseRecOn with
  | nil => exact iff_of_false List.not_mem_nil fun ⟨_, he, _⟩ => List.not_mem_nil he
  | append_singleton es e ih =>
    rw [fold_concat, mem_kicked_apply, ih]
    unfold TurnedAway
    simp only [List.mem_append, List.mem_singleton, or_and_right, exists_or, exists_eq_left]

theorem mapped_fold : (fold es).mapped sess = some (R, p) ↔
    Since (· = .opened sess R p) (SeatEvent.Unseats sess R) es := by
  induction es using List.reverseRecOn with
  | nil => exact iff_of_false (fun h => nomatch h) not_since_nil
  | append_singleton es e ih => rw [fold_concat, mapped_apply, ih, since_concat]

theorem inside_fold : (fold es).inside R p = true ↔
    Since (· = .joined R p) (SeatEvent.Takes R p) es := by
  induction es using List.reverseRecOn with
  | nil => exact iff_of_false Bool.false_ne_true not_since_nil
  | append_singleton es e ih => rw [fold_concat, inside_apply, ih, since_concat]

end Seats

/-! ## The server -/

namespace Server

def seats (s : Server) : Seats where
  mapped sess := (s.sessions[sess]?).map fun ref => (ref.roomID, ref.player)
  inside R p := (s.rooms[R]?).any fun r => decide (p ∈ r.room.players)
  kicked := s.kicked

/-- What `handleSessionOpen` does about the session. -/
def openEvent (s : Server) (body : Bytes) (v : Verdict) (queued : Bool) : Option SeatEvent :=
  match parseSessionOpen body with
  | .error _ => none
  | .ok (sess, _, _) =>
    match v.Authenticate with
    | none => some (.refused sess queued)
    | some p =>
      if v.Route.Action = .RouteReject then some (.refused sess queued)
      else if sess ∈ s.sessions then none
      else
        match s.roomFor v with
        | none => some (.refused sess queued)
        | some r => some (if s.Full r then .refused sess queued else .opened sess v.Route.roomID p)

/-- What the room does about a player when it handles the event that it holds. -/
def handleEventOf (R : RoomID) (r : RoomProc) (e : Post) : Option SeatEvent :=
  match e.ev with
  | .inOpen _ p => if p ∈ r.room.players then none else some (.joined R p)
  | .inClose p _ => (r.room.players[p]?).map fun st => .left R p st.sess
  | _ => none

/-- What a step does about a session or a player. -/
def seatEvent (s : Server) (a : ServerAction) : Option SeatEvent :=
  if s.crashed = true then none
  else
    match a with
    | .frame typ body _ v queued =>
      if s.routing.isNone = true ∧ s.dying = false then
        if typ = FrameSessionOpen then s.openEvent body v queued else none
      else none
    | .visit sess => if s.dying = true then some (.cleared sess) else none
    | .handle R =>
      match s.rooms[R]? with
      | none => none
      | some r =>
        match r.place.held with
        | none => none
        | some e => if s.dying = true ∧ takesLock r e = true then none else handleEventOf R r e
    | .leave R p queued =>
      match s.rooms[R]? with
      | none => none
      | some r =>
        match r.place with
        | .stop done =>
          if done.contains p then none
          else (r.room.players[p]?).map fun st => .passed st.sess queued
        | _ => none
    | .remove R =>
      match s.rooms[R]? with
      | none => none
      | some r =>
        match r.place with
        | .stop done =>
          if s.dying = false ∧ r.room.players.keys.all done.contains = true then
            some (.removed R)
          else none
        | _ => none
    | .kick R p _ queued =>
      match s.rooms[R]? with
      | none => none
      | some r =>
        if r.place.calling = true ∧ s.dying = false then
          (r.room.players[p]?).map fun st => .kicked R p st.sess queued
        else none
    | _ => none

variable {s : Server} {R : RoomID} {r r' : RoomProc}

/-! ### Parts of a step -/

theorem inside_of_some (hr : s.rooms[R]? = some r) (p : PlayerID) :
    s.seats.inside R p = decide (p ∈ r.room.players) := by
  show (s.rooms[R]?).any _ = _
  rw [hr]
  rfl

theorem seats_insert (s : Server) (R : RoomID) (r' : RoomProc) :
    ({ s with rooms := s.rooms.insert R r' } : Server).seats =
      { s.seats with
        inside := Function.update s.seats.inside R fun p => decide (p ∈ r'.room.players) } := by
  ext1
  · rfl
  · funext S p
    show ((s.rooms.insert R r')[S]?).any _ = _
    rw [Map.getElem?_insert]
    dsimp only
    by_cases hS : R = S
    · rw [if_pos hS, hS, Function.update_self]
      rfl
    · rw [if_neg hS, Function.update_of_ne (Ne.symm hS)]
      rfl
  · rfl

/-- The same players are in the room. -/
theorem seats_insert_same (h : ∀ p, s.seats.inside R p = decide (p ∈ r'.room.players)) :
    ({ s with rooms := s.rooms.insert R r' } : Server).seats = s.seats := by
  rw [seats_insert, ← funext h, Function.update_eq_self]

theorem seats_insert_of_players (hr : s.rooms[R]? = some r)
    (h : ∀ p, p ∈ r'.room.players ↔ p ∈ r.room.players) :
    ({ s with rooms := s.rooms.insert R r' } : Server).seats = s.seats := by
  refine seats_insert_same fun p => ?_
  rw [inside_of_some hr, decide_eq_decide]
  exact (h p).symm

/-- One player less is in the room. -/
theorem seats_insert_without {p : PlayerID} (hr : s.rooms[R]? = some r)
    (h : ∀ q, q ∈ r'.room.players ↔ q ≠ p ∧ q ∈ r.room.players) :
    ({ s with rooms := s.rooms.insert R r' } : Server).seats = s.seats.sit R p false := by
  refine (seats_insert s R r').trans (congrArg (fun f => { s.seats with inside := f }) ?_)
  refine congrArg (Function.update s.seats.inside R) (funext fun q => ?_)
  rw [decide_eq_decide.2 (h q), Function.update_apply, inside_of_some hr]
  split_ifs with hq
  · exact decide_eq_false fun hne => hne.1 hq
  · exact decide_eq_decide.2 (and_iff_right hq)

theorem seats_onRoom (s : Server) (R : RoomID) {f : RoomProc → RoomProc}
    (hf : ∀ r : RoomProc, (f r).room.players = r.room.players) :
    (s.onRoom R f).seats = s.seats := by
  unfold onRoom
  cases hr : s.rooms[R]? with
  | none => rfl
  | some r => exact seats_insert_of_players hr fun p => by rw [hf]

theorem seats_removeSession (s : Server) (sess : U64) :
    (s.removeSession sess).seats = s.seats.unmap sess := by
  ext1
  · funext σ
    show ((s.sessions.erase sess)[σ]?).map _ = _
    have herase : (s.sessions.erase sess)[σ]? = _ :=
      congrFun (getElem?_erase_eq_update s.sessions sess) σ
    rw [herase]
    exact congrFun
      (map_update (fun σ => s.sessions[σ]?) (fun ref => (ref.roomID, ref.player)) sess none) σ
  · rfl
  · rfl

theorem seats_sendKick (s : Server) (sess : U64) (queued : Bool) :
    (s.sendKick sess queued).seats = s.seats.kick sess queued := by
  unfold sendKick Seats.kick
  split_ifs
  · rfl
  · rw [List.append_nil]

theorem seats_sendKickTo (s : Server) (i : ℕ) (sess : U64) (queued : Bool) :
    (s.sendKickTo i sess queued).seats = s.seats.kick sess queued := by
  rw [← seats_sendKick]
  unfold sendKickTo sendKick
  split_ifs
  · rfl
  · rfl

theorem players_offer (r : RoomProc) (inboxCap : ℕ) (e : Post) :
    (r.offer inboxCap e).room.players = r.room.players := by
  unfold RoomProc.offer
  split_ifs
  · rfl
  · rfl

/-! ### Steps of a room that move no player -/

theorem players_take (r : RoomProc) : r.take.room.players = r.room.players := by
  unfold RoomProc.take
  split
  · rfl
  · split <;> rfl

theorem players_check (r : RoomProc) : r.check.room.players = r.room.players := by
  unfold RoomProc.check
  split <;> rfl

theorem players_timer (r : RoomProc) : r.timer.room.players = r.room.players := by
  unfold RoomProc.timer
  split <;> rfl

theorem players_finish (r : RoomProc) : r.finish.room.players = r.room.players := by
  unfold RoomProc.finish
  split_ifs <;> rfl

/-! ### The reader -/

/-- The room of a `SessionOpen` has the players that it has; a new one has none. -/
theorem inside_roomFor {v : Verdict} (h : s.roomFor v = some r) (p : PlayerID) :
    s.seats.inside v.Route.roomID p = decide (p ∈ r.room.players) := by
  unfold roomFor at h
  cases hr : s.rooms[v.Route.roomID]? with
  | some r' =>
    rw [hr] at h
    obtain rfl := Option.some.inj h
    exact inside_of_some hr p
  | none =>
    rw [hr] at h
    dsimp only at h
    split_ifs at h
    obtain rfl := Option.some.inj h
    show (s.rooms[v.Route.roomID]?).any _ = _
    rw [hr]
    exact (decide_eq_false Std.ExtTreeMap.not_mem_empty).symm

theorem seats_handleSessionOpen (s : Server) (body : Bytes) (v : Verdict) (queued : Bool) :
    (s.handleSessionOpen body v queued).seats =
      (s.openEvent body v queued).toList.foldl Seats.apply s.seats := by
  unfold handleSessionOpen openEvent
  cases parseSessionOpen body with
  | error err => rfl
  | ok x =>
  obtain ⟨sess, addr, token⟩ := x
  cases v.Authenticate with
  | none => exact seats_sendKick _ _ _
  | some p =>
  dsimp only
  split_ifs with hreject hdup
  · exact seats_sendKick _ _ _
  · rfl
  cases hr : s.roomFor v with
  | none => exact seats_sendKick _ _ _
  | some r =>
  dsimp only
  have hinside (e : Post) :
      ({ s with rooms := s.rooms.insert v.Route.roomID (r.offer s.inboxCap e) } : Server).seats =
      s.seats := by
    refine seats_insert_same fun p => ?_
    rw [players_offer]
    exact inside_roomFor hr p
  unfold mapSession
  dsimp only
  by_cases hfull : s.Full r
  · rw [if_neg (not_lt.2 hfull), if_pos hfull, seats_sendKickTo]
    exact congrArg (Seats.kick · sess queued) (hinside _)
  · rw [if_pos (not_le.1 hfull), if_neg hfull]
    ext1
    · funext σ
      show ((s.sessions.insert sess _)[σ]?).map _ = _
      have hinsert : (s.sessions.insert sess _)[σ]? = _ :=
        congrFun (getElem?_insert_eq_update s.sessions sess ⟨v.Route.roomID, p, s.next⟩) σ
      rw [hinsert]
      exact congrFun
        (map_update (fun σ => s.sessions[σ]?) (fun ref => (ref.roomID, ref.player)) sess _) σ
    · exact (congrArg Seats.inside (hinside ⟨sess, .inOpen sess p, s.next⟩) :)
    · rfl

theorem seats_setOverload (s : Server) : s.setOverload.seats = s.seats := by
  ext1
  · rfl
  · funext R p
    show ((s.rooms.map fun _ r => r.offer s.inboxCap ⟨0, .inOverload, 0⟩)[R]?).any _ =
      (s.rooms[R]?).any _
    rw [Std.ExtTreeMap.getElem?_map]
    cases s.rooms[R]? with
    | none => rfl
    | some r =>
      show decide (p ∈ (r.offer s.inboxCap _).room.players) = decide (p ∈ r.room.players)
      rw [players_offer]
  · rfl

theorem seats_routeToRoom (s : Server) (sess : U64) (ev : PlayerID → InEvent) :
    (s.routeToRoom sess ev).seats = s.seats := by
  unfold routeToRoom
  cases s.sessions[sess]? with
  | none => rfl
  | some ref =>
    dsimp only
    split_ifs
    · split <;> rfl
    · rfl

theorem seats_dispatch (s : Server) (typ : U8) (body : Bytes) (raw : BufId) (v : Verdict)
    (queued : Bool) :
    (s.dispatch typ body raw v queued).seats =
      (if typ = FrameSessionOpen then s.openEvent body v queued
        else none).toList.foldl Seats.apply s.seats := by
  unfold dispatch
  split_ifs with hopen hover
  · exact s.seats_handleSessionOpen body v queued
  · split
    · rfl
    · exact s.seats_setOverload
  · split
    · rfl
    · exact s.seats_routeToRoom _ _

theorem seats_visit (s : Server) (sess : U64) : (s.visit sess).seats = s.seats.unmap sess := by
  unfold visit
  cases hmap : s.sessions[sess]? with
  | none =>
    have hnone : s.seats.mapped sess = none := congrArg (Option.map _) hmap
    unfold Seats.unmap
    rw [← hnone, Function.update_eq_self]
  | some ref =>
    refine (seats_removeSession _ sess).trans ?_
    rw [seats_onRoom s ref.roomID fun r => players_offer r _ _]

/-! ### The rooms -/

theorem handleEvent_seats {e : Post} (hr : s.rooms[R]? = some r) :
    (s.handleEvent R r e).seats = (handleEventOf R r e).toList.foldl Seats.apply s.seats := by
  by_cases hopen : ∃ sess p, e.ev = .inOpen sess p
  · obtain ⟨sess, p, hev⟩ := hopen
    have hevent : handleEventOf R r e = if p ∈ r.room.players then none
        else some (.joined R p) := by
      unfold handleEventOf
      rw [hev]
    rw [hevent]
    by_cases hp : p ∈ r.room.players
    · rw [handleEvent_swallows hev hp, if_pos hp]
      refine seats_insert_of_players hr fun q => ?_
      rw [RoomProc.mem_after_inOpen hev]
      exact or_iff_right_of_imp fun hq => hq ▸ hp
    · rw [handleEvent_joins hev hp, if_neg hp]
      refine (seats_insert s R (r.after e)).trans
        (congrArg (fun f => { s.seats with inside := f }) ?_)
      refine congrArg (Function.update s.seats.inside R) (funext fun q => ?_)
      rw [decide_eq_decide.2 (RoomProc.mem_after_inOpen hev r q), Function.update_apply,
        inside_of_some hr]
      split_ifs with hq
      · exact decide_eq_true (.inl hq)
      · exact decide_eq_decide.2 (or_iff_right hq)
  by_cases hclose : ∃ p reason, e.ev = .inClose p reason
  · obtain ⟨p, reason, hev⟩ := hclose
    have hevent : handleEventOf R r e = (r.room.players[p]?).map fun st => .left R p st.sess := by
      unfold handleEventOf
      rw [hev]
    rw [hevent]
    cases hp : r.room.players[p]? with
    | none =>
      rw [handleEvent_misses hev hp]
      refine seats_insert_of_players hr fun q => ?_
      rw [RoomProc.mem_after_inClose hev]
      refine and_iff_right_of_imp fun hq => ?_
      rintro rfl
      exact Room.mem_players_iff.1 hq hp
    | some st =>
      rw [handleEvent_leaves hev hp]
      refine (seats_removeSession _ st.sess).trans ?_
      rw [seats_insert_without hr fun q => RoomProc.mem_after_inClose hev r q]
      rfl
  · push Not at hopen hclose
    have hevent : handleEventOf R r e = none := by
      unfold handleEventOf
      split
      · exact absurd ‹_› (hopen _ _)
      · exact absurd ‹_› (hclose _ _)
      · rfl
    rw [hevent, handleEvent_quiet s R r hopen hclose]
    exact seats_insert_of_players hr fun q => RoomProc.mem_after_quiet hopen hclose r q

theorem kick_seats {p : PlayerID} (hr : s.rooms[R]? = some r) (reason : U8) (queued : Bool) :
    (s.kick R r p reason queued).seats =
      ((r.room.players[p]?).map fun st => SeatEvent.kicked R p st.sess queued).toList.foldl
        Seats.apply s.seats := by
  cases hp : r.room.players[p]? with
  | none =>
    rw [kick_eq_of_none hp]
    exact seats_insert_of_players hr fun q => Iff.rfl
  | some st =>
    have hplayers (q : PlayerID) : q ∈ (r.room.kick p reason).1.players ↔
        q ≠ p ∧ q ∈ r.room.players := by
      rw [(Room.kick_of_some hp reason).2, Std.ExtTreeMap.mem_erase, Ne,
        Std.LawfulEqCmp.compare_eq_iff_eq]
      exact and_congr_left' (not_congr eq_comm)
    rw [kick_eq hp]
    refine (seats_removeSession _ st.sess).trans ?_
    rw [seats_sendKickTo, seats_insert_without hr hplayers]
    rfl

theorem leave_seats {done : List PlayerID} {p : PlayerID} (hr : s.rooms[R]? = some r)
    (queued : Bool) :
    (s.leave R r done p queued).seats =
      (if done.contains p then none
        else (r.room.players[p]?).map fun st => SeatEvent.passed st.sess queued).toList.foldl
        Seats.apply s.seats := by
  unfold leave
  simp only [List.contains_iff_mem]
  cases r.room.players[p]? with
  | none => split_ifs <;> rfl
  | some st =>
    dsimp only
    split_ifs
    · rfl
    · rw [seats_sendKickTo]
      exact congrArg (Seats.kick · st.sess queued) (seats_insert_of_players hr fun q => Iff.rfl)

theorem removeRoom_seats (s : Server) (R : RoomID) :
    (s.removeRoom R).seats = s.seats.apply (.removed R) := by
  ext1
  · funext sess
    show ((s.sessions.filter fun _ ref => decide (ref.roomID ≠ R))[sess]?).map _ = _
    rw [Std.ExtTreeMap.getElem?_filter']
    show _ = ((s.sessions[sess]?).map _).filter _
    rw [Option.filter_map]
    rfl
  · funext S p
    show ((s.rooms.erase R)[S]?).any _ = Function.update s.seats.inside R (fun _ => false) S p
    have herase : (s.rooms.erase R)[S]? = _ := congrFun (getElem?_erase_eq_update s.rooms R) S
    rw [herase]
    by_cases hS : S = R
    · rw [hS, Function.update_self, Function.update_self]
      rfl
    · rw [Function.update_of_ne hS, Function.update_of_ne hS]
      rfl
  · rfl

theorem deliver_seats {order : List PlayerID} (hr : s.rooms[R]? = some r)
    (ho : r.room.IsOrder order) :
    (s.deliver R r order).seats = s.seats := by
  unfold deliver
  cases hd : r.room.deliverReadyInputs order with
  | none => rfl
  | some out =>
    obtain ⟨room, ops⟩ := out
    refine seats_insert_of_players hr fun p => ?_
    show p ∈ room.players ↔ _
    rw [Room.mem_players_sessAt, (Room.sessAt_deliver ho hd).1, Room.mem_players_sessAt]

/-- **A step** changes the seats by what it does about a session or a player. -/
theorem seats_step (s : Server) (a : ServerAction) (ha : s.Valid a) :
    (s.step a).seats = (s.seatEvent a).toList.foldl Seats.apply s.seats := by
  unfold step seatEvent
  by_cases hcrashed : s.crashed = true
  · rw [if_pos hcrashed, if_pos hcrashed]
    rfl
  rw [if_neg hcrashed, if_neg hcrashed]
  cases a with
  | frame typ body raw v queued =>
    dsimp only
    by_cases hidle : s.routing.isNone = true ∧ s.dying = false
    · rw [if_pos hidle, if_pos hidle]
      exact s.seats_dispatch typ body raw v queued
    · rw [if_neg hidle, if_neg hidle]
      rfl
  | send =>
    show s.send.seats = s.seats
    unfold send
    split
    · rfl
    · exact seats_onRoom _ _ fun r => players_offer r _ _
  | dead => rfl
  | visit sess =>
    dsimp only
    split_ifs
    · exact s.seats_visit sess
    · rfl
  | cleared =>
    dsimp only
    split_ifs <;> rfl
  | take R => exact s.seats_onRoom R players_take
  | handle R =>
    dsimp only
    cases hr : s.rooms[R]? with
    | none => rfl
    | some r =>
      dsimp only
      cases hheld : r.place.held with
      | none => rfl
      | some e =>
        dsimp only
        split_ifs
        · rfl
        · exact handleEvent_seats hr
  | check R => exact s.seats_onRoom R players_check
  | timer R => exact s.seats_onRoom R players_timer
  | deliver R order =>
    dsimp only
    cases hr : s.rooms[R]? with
    | none => rfl
    | some r =>
      dsimp only
      split_ifs
      · exact deliver_seats hr (ha r hr)
      · rfl
  | tick R out more =>
    refine s.seats_onRoom R fun r => ?_
    unfold RoomProc.tick
    split
    · dsimp only
      split_ifs <;> rfl
    · rfl
  | leave R p queued =>
    dsimp only
    cases hr : s.rooms[R]? with
    | none => rfl
    | some r =>
      dsimp only
      cases r.place with
      | stop done => exact leave_seats hr queued
      | select | drain | tick => rfl
  | remove R =>
    dsimp only
    cases hr : s.rooms[R]? with
    | none => rfl
    | some r =>
      dsimp only
      cases r.place with
      | stop done =>
        dsimp only
        rw [← funext fun p => List.contains_eq_mem p done]
        split_ifs
        · exact s.removeRoom_seats R
        · rfl
      | select | drain | tick => rfl
  | kick R p reason queued =>
    dsimp only
    cases hr : s.rooms[R]? with
    | none => rfl
    | some r =>
      dsimp only
      split_ifs
      · exact kick_seats hr reason queued
      · rfl
  | finish R => exact s.seats_onRoom R players_finish

end Server

end SoupEngine.Sdk
