import SoupEngine.Sdk.Gauges

/-!
# What the server holds

Whatever the clients and the engine send, and however the goroutines take turns, there are at most
`MaxRooms` rooms, an inbox holds at most `inboxCap` events, and of each player at most `4 *
JitterBufferTicks + 4` inputs and 2048 bytes of the last input are kept (`limits_hold`). What a step
does to the rooms is said once (`rooms_step`).
-/

namespace SoupEngine.Sdk

open TransitionSystem

/-! ## One step -/

/-- What may happen to a room. -/
inductive RoomMove (inboxCap : ℕ) (r : RoomProc) : RoomProc → Prop
  | offer (e : Post) : RoomMove inboxCap r (r.offer inboxCap e)
  | take : RoomMove inboxCap r r.take
  | event (e : Post) : RoomMove inboxCap r (r.after e)
  | check : RoomMove inboxCap r r.check
  | timer : RoomMove inboxCap r r.timer
  | deliver {order : List PlayerID} {room : Room} {ops : List RoomOp}
      (h : r.room.deliverReadyInputs order = some (room, ops)) :
    RoomMove inboxCap r { r with room, place := .tick }
  | tick (out more : Bool) : RoomMove inboxCap r (r.tick out more)
  | leave (p : PlayerID) (done : List PlayerID) :
      RoomMove inboxCap r { r with place := .stop (p :: done) }
  | kick (p : PlayerID) (reason : U8) :
      RoomMove inboxCap r { r with room := (r.room.kick p reason).1 }
  | finish : RoomMove inboxCap r r.finish

/-- What may happen to the rooms. -/
inductive RoomsMove (s : Server) : Map RoomID RoomProc → Prop
  | same : RoomsMove s s.rooms
  | move {R : RoomID} {r r' : RoomProc} (hr : s.rooms[R]? = some r) (h : RoomMove s.inboxCap r r') :
    RoomsMove s (s.rooms.insert R r')
  | make {R : RoomID} (e : Post) (hnone : s.rooms[R]? = none) (hsize : s.rooms.size < s.MaxRooms) :
    RoomsMove s (s.rooms.insert R
      ((RoomProc.new s.JitterBufferTicks s.BaselineRingSize).offer s.inboxCap e))
  | remove (R : RoomID) : RoomsMove s (s.rooms.erase R)
  | all (e : Post) : RoomsMove s (s.rooms.map fun _ r => r.offer s.inboxCap e)

namespace Server

variable {s : Server}

/-- The limits of the configuration. -/
def limits (s : Server) : ℕ × ℕ × ℕ × ℕ :=
  (s.MaxRooms, s.inboxCap, s.JitterBufferTicks, s.BaselineRingSize)

theorem limits_sendKick (s : Server) (sess : U64) (queued : Bool) :
    (s.sendKick sess queued).limits = s.limits := by
  unfold sendKick
  split_ifs <;> rfl

theorem limits_sendKickTo (s : Server) (i : ℕ) (sess : U64) (queued : Bool) :
    (s.sendKickTo i sess queued).limits = s.limits := by
  unfold sendKickTo
  split_ifs
  · exact s.limits_sendKick sess queued
  · rfl

theorem limits_perform (i : ℕ) (queued : Bool) (ops : List RoomOp) (s : Server) :
    (ops.foldl (perform i queued) s).limits = s.limits := by
  induction ops generalizing s with
  | nil => rfl
  | cons op ops ih =>
    rw [List.foldl_cons, ih]
    cases op with
    | sendKick sess reason => exact s.limits_sendKickTo i sess queued
    | _ => rfl

theorem limits_onRoom (s : Server) (R : RoomID) (f : RoomProc → RoomProc) :
    (s.onRoom R f).limits = s.limits := by
  unfold onRoom
  split <;> rfl

/-- Something happens in a room. -/
theorem move_onRoom (R : RoomID) {f : RoomProc → RoomProc} (hf : ∀ r, RoomMove s.inboxCap r (f r)) :
    (s.onRoom R f).limits = s.limits ∧ RoomsMove s (s.onRoom R f).rooms := by
  refine ⟨s.limits_onRoom R f, ?_⟩
  unfold onRoom
  cases hr : s.rooms[R]? with
  | none => exact .same
  | some r => exact .move hr (hf r)

theorem move_handleSessionOpen (body : Bytes) (v : Verdict) (queued : Bool) :
    (s.handleSessionOpen body v queued).limits = s.limits ∧
      RoomsMove s (s.handleSessionOpen body v queued).rooms := by
  cases h : s.opens body v with
  | none =>
    rw [rooms_handleSessionOpen_none h]
    refine ⟨?_, .same⟩
    unfold opens at h
    unfold handleSessionOpen
    cases hparse : parseSessionOpen body with
    | error e => rfl
    | ok x =>
      obtain ⟨sess, addr, token⟩ := x
      rw [hparse] at h
      dsimp only at h ⊢
      cases hauth : v.Authenticate with
      | none => exact s.limits_sendKick _ _
      | some p =>
        rw [hauth] at h
        dsimp only at h ⊢
        by_cases hreject : v.Route.Action = .RouteReject
        · rw [if_pos hreject]
          exact s.limits_sendKick _ _
        · rw [if_neg hreject]
          by_cases hmem : sess ∈ s.sessions
          · rw [if_pos hmem]
          · rw [if_neg (not_or.2 ⟨hreject, hmem⟩)] at h
            rw [if_neg hmem, Option.map_eq_none_iff.1 h]
            exact s.limits_sendKick _ _
  | some x =>
    obtain ⟨sess, p, r⟩ := x
    rw [handleSessionOpen_of_opens h]
    constructor
    · unfold mapSession
      dsimp only
      split_ifs
      · rfl
      · exact limits_sendKickTo _ _ _ _
    · rw [rooms_mapSession]
      rcases opens_cases h with hr | ⟨hnone, hsize, rfl⟩
      · exact .move hr (.offer _)
      · exact .make _ hnone hsize

theorem move_dispatch (typ : U8) (body : Bytes) (raw : BufId) (v : Verdict) (queued : Bool) :
    (s.dispatch typ body raw v queued).limits = s.limits ∧
      RoomsMove s (s.dispatch typ body raw v queued).rooms := by
  unfold dispatch
  split_ifs
  · exact move_handleSessionOpen body v queued
  · split
    · exact ⟨rfl, .same⟩
    · exact ⟨rfl, .all _⟩
  · split
    · exact ⟨rfl, .same⟩
    · unfold routeToRoom
      split
      · exact ⟨rfl, .same⟩
      · split_ifs
        · dsimp only
          split <;> exact ⟨rfl, .same⟩
        · exact ⟨rfl, .same⟩

/-- A room handles the event that it holds. -/
theorem move_handle {R : RoomID} {r : RoomProc} (hr : s.rooms[R]? = some r) (e : Post) :
    (s.handleEvent R r e).limits = s.limits ∧ RoomsMove s (s.handleEvent R r e).rooms := by
  have hrooms : (s.handleEvent R r e).rooms = s.rooms.insert R (r.after e) :=
    rooms_perform _ _ _ _
  refine ⟨limits_perform _ _ _ _, ?_⟩
  rw [hrooms]
  exact .move hr (.event e)

theorem move_kick {R : RoomID} {r : RoomProc} (hr : s.rooms[R]? = some r) (p : PlayerID)
    (reason : U8) (queued : Bool) :
    (s.kick R r p reason queued).limits = s.limits ∧
      RoomsMove s (s.kick R r p reason queued).rooms := by
  have hrooms : (s.kick R r p reason queued).rooms =
      s.rooms.insert R { r with room := (r.room.kick p reason).1 } := rooms_perform _ _ _ _
  refine ⟨limits_perform _ _ _ _, ?_⟩
  rw [hrooms]
  exact .move hr (.kick p reason)

/-- A room that stops lets a player go. -/
theorem move_leave {R : RoomID} {r : RoomProc} (hr : s.rooms[R]? = some r) (done : List PlayerID)
    (p : PlayerID) (queued : Bool) :
    (s.leave R r done p queued).limits = s.limits ∧
      RoomsMove s (s.leave R r done p queued).rooms := by
  unfold leave
  split
  · exact ⟨rfl, .same⟩
  · split_ifs
    · exact ⟨rfl, .same⟩
    · refine ⟨limits_sendKickTo _ _ _ _, ?_⟩
      rw [rooms_sendKickTo]
      exact .move hr (.leave p done)

theorem move_visit (sess : U64) :
    (s.visit sess).limits = s.limits ∧ RoomsMove s (s.visit sess).rooms := by
  unfold visit
  split
  · exact ⟨rfl, .same⟩
  · rename_i ref hr
    exact @move_onRoom s ref.roomID
      (RoomProc.offer · s.inboxCap ⟨sess, .inClose 0 LeaveDisconnect, ref.stay⟩) fun r =>
        .offer _

/-- **A step** leaves the limits, and does one thing to the rooms. -/
theorem rooms_step (s : Server) (a : ServerAction) :
    (s.step a).limits = s.limits ∧ RoomsMove s (s.step a).rooms := by
  have hsame : s.limits = s.limits ∧ RoomsMove s s.rooms := ⟨rfl, .same⟩
  unfold step
  by_cases hcrashed : s.crashed = true
  · rw [if_pos hcrashed]
    exact hsame
  rw [if_neg hcrashed]
  cases a with
  | frame typ body raw v queued =>
    dsimp only
    split_ifs
    · exact move_dispatch typ body raw v queued
    · exact hsame
  | send =>
    dsimp only
    unfold send
    split
    · exact hsame
    · rename_i R e hrouting
      refine ⟨limits_onRoom _ R _, ?_⟩
      unfold onRoom
      dsimp only
      cases hr : s.rooms[R]? with
      | none => exact .same
      | some r => exact .move hr (.offer e)
  | dead => exact hsame
  | visit sess =>
    dsimp only
    split_ifs
    · exact move_visit sess
    · exact hsame
  | cleared =>
    dsimp only
    split_ifs <;> exact hsame
  | take R => exact move_onRoom R fun r => .take
  | handle R =>
    dsimp only
    cases hr : s.rooms[R]? with
    | none => exact hsame
    | some r =>
      dsimp only
      split
      · exact hsame
      · rename_i e hheld
        split_ifs
        · exact hsame
        · exact move_handle hr e
  | check R => exact move_onRoom R fun r => .check
  | timer R => exact move_onRoom R fun r => .timer
  | deliver R order =>
    dsimp only
    cases hr : s.rooms[R]? with
    | none => exact hsame
    | some r =>
      dsimp only
      split_ifs
      · unfold deliver
        cases hroom : r.room.deliverReadyInputs order with
        | none => exact hsame
        | some out => exact ⟨rfl, .move hr (.deliver hroom)⟩
      · exact hsame
  | tick R out more => exact move_onRoom R fun r => .tick out more
  | leave R p queued =>
    dsimp only
    cases hr : s.rooms[R]? with
    | none => exact hsame
    | some r =>
      dsimp only
      split
      · rename_i done hplace
        exact move_leave hr done p queued
      · exact hsame
  | remove R =>
    dsimp only
    split
    · exact hsame
    · split
      · split_ifs
        · exact ⟨rfl, .remove R⟩
        · exact hsame
      · exact hsame
  | kick R p reason queued =>
    dsimp only
    cases hr : s.rooms[R]? with
    | none => exact hsame
    | some r =>
      dsimp only
      split_ifs
      · exact move_kick hr p reason queued
      · exact hsame
  | finish R => exact move_onRoom R fun r => .finish

end Server

/-! ## The players -/

/-- What is kept of a player. -/
structure PState.Limited (J : ℕ) (st : PState) : Prop where
  jcap : st.jcap = J * 4 + 4
  jbuf : st.jbuf.length ≤ J * 4 + 4
  lastPayload : st.lastPayload.length = lastPayloadCap
  lastPayloadLen : st.lastPayloadLen ≤ lastPayloadCap

namespace PState

variable {J : ℕ} {st : PState}

theorem Limited.insertJitter (h : st.Limited J) (e : JitterEntry) :
    (st.insertJitter e).1.Limited J := by
  unfold PState.insertJitter
  split_ifs with hold hdup hfull
  · exact h
  · exact h
  · refine { h with jbuf := ?_ }
    have hlen := h.jbuf
    have hcap := h.jcap
    dsimp only
    refine List.length_insertIdx_le_succ.trans ?_
    rw [List.length_tail]
    omega
  · refine { h with jbuf := ?_ }
    have hcap := h.jcap
    dsimp only
    refine List.length_insertIdx_le_succ.trans ?_
    omega

theorem length_copyInto (dst src : Bytes) : (copyInto dst src).1.length = dst.length := by
  unfold copyInto
  rw [List.length_append, List.length_take, List.length_drop]
  omega

theorem Limited.consume (h : st.Limited J) (head : JitterEntry) : (st.consume head).Limited J := by
  refine ⟨h.jcap, h.jbuf, ?_, ?_⟩
  · exact (length_copyInto _ _).trans h.lastPayload
  · show min st.lastPayload.length head.payload.length ≤ lastPayloadCap
    exact (Nat.min_le_left _ _).trans h.lastPayload.le

/-- What is delivered leaves the buffer. -/
theorem Limited.drainLoop (tick : Tick) {buf : List JitterEntry} (hbuf : buf.length ≤ J * 4 + 4)
    {st : PState} (h : st.Limited J) : (PState.drainLoop tick buf st).1.Limited J := by
  induction buf generalizing st with
  | nil => exact { h with jbuf := Nat.zero_le _ }
  | cons head rest ih =>
    unfold PState.drainLoop
    split_ifs
    · exact { h with jbuf := hbuf }
    · exact { h with jbuf := hbuf }
    · exact ih ((Nat.le_succ _).trans hbuf) (h.consume head)

theorem Limited.deliver (h : st.Limited J) (tick : Tick) (p : PlayerID) :
    (st.deliver tick p).1.Limited J :=
  Limited.drainLoop tick h.jbuf h

end PState

/-- What is kept of the players of a room. -/
structure Room.Limited (J : ℕ) (r : Room) : Prop where
  ticks : r.JitterBufferTicks = J
  players : ∀ (p : PlayerID) (st : PState), r.players[p]? = some st → st.Limited J

namespace Room

variable {J : ℕ} {r : Room}

/-- A player is replaced. -/
theorem Limited.insert (h : r.Limited J) {p : PlayerID} {st : PState} (hst : st.Limited J) :
    Limited J { r with players := r.players.insert p st } := by
  refine ⟨h.ticks, fun q st' hq => ?_⟩
  rw [Map.getElem?_insert] at hq
  split_ifs at hq
  · rw [← Option.some.inj hq]
    exact hst
  · exact h.players q st' hq

/-- Players leave. -/
theorem Limited.erase (h : r.Limited J) (p : PlayerID) :
    Limited J { r with players := r.players.erase p } := by
  refine ⟨h.ticks, fun q st hq => ?_⟩
  rw [Map.getElem?_erase] at hq
  split_ifs at hq
  exact h.players q st hq

theorem Limited.handleEvent (h : r.Limited J) (ev : InEvent) : (r.handleEvent ev).1.Limited J := by
  cases ev with
  | inOpen sess p =>
    unfold Room.handleEvent
    dsimp only
    split_ifs
    · exact h
    · have hjoined : (r.joined sess).Limited J := by
        refine ⟨?_, Nat.zero_le _, List.length_replicate, Nat.zero_le _⟩
        show r.JitterBufferTicks * 4 + 4 = J * 4 + 4
        rw [h.ticks]
      exact ⟨h.ticks, (@Limited.insert J r h p (r.joined sess) hjoined).players⟩
  | inClose p reason =>
    unfold Room.handleEvent
    dsimp only
    split
    · exact h
    · exact ⟨h.ticks, (h.erase p).players⟩
  | inResume p gap =>
    unfold Room.handleEvent
    dsimp only
    split
    · exact h
    · rename_i st hst
      exact h.insert { h.players p st hst with jbuf := Nat.zero_le _ }
  | inData p ch msg payload raw =>
    unfold Room.handleEvent
    dsimp only
    split_ifs
    · unfold Room.handleCh1Input
      split
      · exact h
      · rename_i st hst
        split_ifs
        · exact h
        · have hat : (r.atInput st payload).Limited J := { h.players p st hst with }
          exact h.insert (hat.insertJitter _)
    · exact h
    · exact h
  | inStats p rtt loss =>
    unfold Room.handleEvent
    dsimp only
    split
    · exact h
    · rename_i st hst
      exact h.insert { h.players p st hst with }
  | inOverload => exact ⟨h.ticks, h.players⟩

theorem Limited.kick (h : r.Limited J) (p : PlayerID) (reason : U8) :
    (r.kick p reason).1.Limited J := by
  unfold Room.kick
  split
  · exact h
  · exact ⟨h.ticks, (h.erase p).players⟩

theorem Limited.drainPlayers (h : r.Limited J) (order : List PlayerID) :
    (Room.drainPlayers order r).1.Limited J := by
  induction order generalizing r with
  | nil => exact h
  | cons p ps ih =>
    unfold Room.drainPlayers
    split
    · exact ih h
    · rename_i st hst
      exact ih (h.insert ((h.players p st hst).deliver r.tick p))

theorem Limited.deliverReadyInputs (h : r.Limited J) {order : List PlayerID} {room : Room}
    {ops : List RoomOp} (hroom : r.deliverReadyInputs order = some (room, ops)) :
    room.Limited J := by
  unfold Room.deliverReadyInputs at hroom
  obtain ⟨pend, -, heq⟩ := Option.map_eq_some_iff.1 hroom
  rw [← (Prod.mk.inj heq).1]
  exact h.drainPlayers order

end Room

/-! ## The rooms -/

/-- What is kept of a room. -/
structure RoomProc.Limited (inboxCap J : ℕ) (r : RoomProc) : Prop where
  inbox : r.inbox.length ≤ inboxCap
  room : r.room.Limited J

namespace RoomProc

variable {inboxCap J : ℕ} {r r' : RoomProc}

theorem limited_new (inboxCap J B : ℕ) : (new J B).Limited inboxCap J where
  inbox := Nat.zero_le _
  room := ⟨rfl, fun p st h => by
    have hnone : (Room.new J B).players[p]? = none := Std.ExtTreeMap.getElem?_empty
    have h' : (Room.new J B).players[p]? = some st := h
    rw [hnone] at h'
    cases h'⟩

theorem Limited.offer (h : r.Limited inboxCap J) (e : Post) :
    (r.offer inboxCap e).Limited inboxCap J := by
  unfold RoomProc.offer
  split_ifs with hroom
  · refine ⟨?_, h.room⟩
    dsimp only
    rw [List.length_append, List.length_singleton]
    exact hroom
  · exact h

/-- **No move** makes a room keep more. -/
theorem Limited.move (h : r.Limited inboxCap J) (hm : RoomMove inboxCap r r') :
    r'.Limited inboxCap J := by
  cases hm with
  | offer e => exact h.offer e
  | take =>
    unfold RoomProc.take
    split
    · exact h
    · rename_i e rest hinbox
      split
      · exact h
      · refine ⟨?_, h.room⟩
        have hlen := h.inbox
        rw [hinbox, List.length_cons] at hlen
        exact (Nat.le_succ _).trans hlen
  | event e => exact ⟨h.inbox, h.room.handleEvent e.ev⟩
  | check =>
    unfold RoomProc.check
    split
    · exact ⟨h.inbox, h.room⟩
    · exact h
  | timer =>
    unfold RoomProc.timer
    split
    · exact ⟨h.inbox, h.room⟩
    · exact h
  | deliver hroom => exact ⟨h.inbox, h.room.deliverReadyInputs hroom⟩
  | tick out more =>
    unfold RoomProc.tick
    split
    · dsimp only
      split_ifs
      · exact ⟨h.inbox, h.room.ticks, h.room.players⟩
      · exact ⟨h.inbox, h.room.ticks, h.room.players⟩
    · exact h
  | leave p done => exact ⟨h.inbox, h.room⟩
  | kick p reason => exact ⟨h.inbox, h.room.kick p reason⟩
  | finish =>
    unfold RoomProc.finish
    split_ifs
    · exact ⟨h.inbox, h.room.ticks, h.room.players⟩
    · exact h

end RoomProc

/-! ## The server -/

namespace Server

variable {s : Server}

/-- What the server keeps. -/
structure Limited (s : Server) : Prop where
  rooms : s.rooms.size ≤ s.MaxRooms
  room : ∀ (R : RoomID) (r : RoomProc), s.rooms[R]? = some r →
    r.Limited s.inboxCap s.JitterBufferTicks

theorem limited_start (M C J B : ℕ) : Limited (start M C J B) where
  rooms := Nat.zero_le _
  room R r h := by
    have hnone : (start M C J B).rooms[R]? = none := Std.ExtTreeMap.getElem?_empty
    rw [hnone] at h
    cases h

theorem Limited.step (h : Limited s) (a : ServerAction) : Limited (s.step a) := by
  obtain ⟨hlimits, hrooms⟩ := s.rooms_step a
  obtain ⟨hmax, hcap, hJ, -⟩ : (s.step a).MaxRooms = s.MaxRooms ∧ (s.step a).inboxCap = s.inboxCap ∧
      (s.step a).JitterBufferTicks = s.JitterBufferTicks ∧ True := by
    unfold limits at hlimits
    simp only [Prod.mk.injEq] at hlimits
    exact ⟨hlimits.1, hlimits.2.1, hlimits.2.2.1, trivial⟩
  refine ⟨?_, ?_⟩
  · rw [hmax]
    generalize (s.step a).rooms = rooms at hrooms
    cases hrooms with
    | same => exact h.rooms
    | @move R r r' hr hm =>
      have hmem : s.rooms.contains R = true := by
        rw [Std.ExtTreeMap.contains_eq_isSome_getElem?, hr]
        rfl
      rw [Std.ExtTreeMap.size_insert, if_pos hmem]
      exact h.rooms
    | make e hnone hsize => exact Std.ExtTreeMap.size_insert_le.trans hsize
    | remove R => exact Std.ExtTreeMap.size_erase_le.trans h.rooms
    | all e =>
      rw [Std.ExtTreeMap.size_map]
      exact h.rooms
  · rw [hcap, hJ]
    generalize (s.step a).rooms = rooms at hrooms
    intro R r hr
    cases hrooms with
    | same => exact h.room R r hr
    | @move R' r₀ r' hr₀ hm =>
      rw [Map.getElem?_insert] at hr
      split_ifs at hr
      · rw [← Option.some.inj hr]
        exact (h.room R' r₀ hr₀).move hm
      · exact h.room R r hr
    | make e hnone hsize =>
      rw [Map.getElem?_insert] at hr
      split_ifs at hr
      · rw [← Option.some.inj hr]
        exact (RoomProc.limited_new _ _ _).offer e
      · exact h.room R r hr
    | remove R' =>
      rw [Map.getElem?_erase] at hr
      split_ifs at hr
      exact h.room R r hr
    | all e =>
      rw [Std.ExtTreeMap.getElem?_map] at hr
      obtain ⟨r₀, hr₀, rfl⟩ := Option.map_eq_some_iff.1 hr
      exact (h.room R r₀ hr₀).offer e

/-- **The limits hold.** In every interleaving of `readLoop`, `onEngineDead` and the rooms there are
no more rooms than `MaxRooms`, no inbox holds more than `inboxCap` events, and of each player in a
room no more than `4 * JitterBufferTicks + 4` inputs wait in the jitter buffer and 2048 bytes of the
last one are kept. -/
theorem limits_hold {M C J B : ℕ} (h : Reach step (fun _ _ => True) (start M C J B) s) :
    s.rooms.size ≤ M ∧ ∀ (R : RoomID) (r : RoomProc), s.rooms[R]? = some r → r.inbox.length ≤ C ∧
      ∀ (p : PlayerID) (st : PState), r.room.players[p]? = some st →
        st.jbuf.length ≤ 4 * J + 4 ∧ st.lastPayload.length = 2048 ∧ st.lastPayloadLen ≤ 2048 := by
  have hlimited : s.Limited := h.invariant (limited_start M C J B) fun _ a hs _ => hs.step a
  have hlimits : s.limits = (start M C J B).limits := by
    refine @Reach.invariant _ _ step _ _ (fun t => t.limits = (start M C J B).limits) rfl ?_ s h
    exact fun t a ht _ => (t.rooms_step a).1.trans ht
  unfold limits at hlimits
  simp only [Prod.mk.injEq] at hlimits
  obtain ⟨hmax, hcap, hJ, -⟩ := hlimits
  refine ⟨hlimited.rooms.trans_eq hmax, fun R r hr => ?_⟩
  obtain ⟨hinbox, hroom⟩ := hlimited.room R r hr
  refine ⟨hinbox.trans_eq hcap, fun p st hst => ?_⟩
  have hplayer := hroom.players p st hst
  refine ⟨?_, hplayer.lastPayload, hplayer.lastPayloadLen⟩
  have hbuf := hplayer.jbuf
  rw [hJ, Nat.mul_comm] at hbuf
  exact hbuf

/-- A player sends an input, and the room puts it into the jitter buffer. -/
def inputOf (sess : U64) (R : RoomID) (seq : U16) : List ServerAction :=
  [.frame FrameDataUp (leBytes sess ++ [ChInput] ++ leBytes (0 : U16) ++
      (leBytes (0 : U32) ++ leBytes seq ++ leBytes (0 : U16))) 0 ⟨none, ⟨.RouteReject, 0⟩,
      false⟩ true, .send] ++ serve R

/-- There is one room, and a player sends more than the buffer holds. A second room is refused. -/
def crowdedRun : List ServerAction :=
  [openFor 1 1 7] ++ serve 7 ++ [openFor 2 2 8] ++ inputOf 1 7 1 ++ inputOf 1 7 2 ++
    inputOf 1 7 3 ++ inputOf 1 7 4 ++ inputOf 1 7 5 ++ inputOf 1 7 6

theorem limits_hold_crowded :
    (crowdedRun.foldl step (start 1 2 0 32)).rooms.size = 1 ∧
      ((crowdedRun.foldl step (start 1 2 0 32)).rooms[(7 : RoomID)]?.bind
        fun r => (r.room.players[(1 : PlayerID)]?).map fun st => st.jbuf.length) = some 4 ∧
      (crowdedRun.foldl step (start 1 2 0 32)).rooms.size ≤ 1 ∧
      ∀ (R : RoomID) (r : RoomProc), (crowdedRun.foldl step (start 1 2 0 32)).rooms[R]? = some r →
        r.inbox.length ≤ 2 ∧ ∀ (p : PlayerID) (st : PState), r.room.players[p]? = some st →
          st.jbuf.length ≤ 4 * 0 + 4 ∧ st.lastPayload.length = 2048 ∧ st.lastPayloadLen ≤ 2048 := by
  have hrun : Allowed step (fun _ _ => True) (start 1 2 0 32) crowdedRun ∧
      (crowdedRun.foldl step (start 1 2 0 32)).rooms.size = 1 ∧
      ((crowdedRun.foldl step (start 1 2 0 32)).rooms[(7 : RoomID)]?.bind
        fun r => (r.room.players[(1 : PlayerID)]?).map fun st => st.jbuf.length) = some 4 := by
    decide +kernel
  exact ⟨hrun.2.1, hrun.2.2, limits_hold (Reach.foldl hrun.1)⟩

end Server

end SoupEngine.Sdk
