import SoupEngine.Sdk.Server

/-!
# Who is where

What the server knows of sessions and players, apart from input and time: the players of the rooms
with their sessions and stays, the comings and goings that wait in the inboxes, the session table
and the journal.
-/

namespace SoupEngine.Sdk

/-- An event that makes a player come or go. -/
inductive Life
  | came (sess : U64) (stay : ℕ) (p : PlayerID)
  | went (sess : U64) (stay : ℕ) (p : PlayerID)
  deriving DecidableEq

def Post.life (e : Post) : Option Life :=
  match e.ev with
  | .inOpen sess p => some (.came sess e.stay p)
  | .inClose p _ => some (.went e.sess e.stay p)
  | _ => none

/-- What a room knows. -/
@[ext]
structure View where
  /-- The sessions of the players, and their stays. -/
  bound : PlayerID → Option (U64 × ℕ)
  /-- `sessOf`. -/
  owner : U64 → Option PlayerID
  lives : List Life
  /-- The players that `stop` has passed. -/
  passed : Option (List PlayerID)

namespace View

def append (v : View) (l : Option Life) : View := { v with lives := v.lives ++ l.toList }

/-- A player is gone. -/
def unbind (v : View) (p : PlayerID) (sess : U64) : View :=
  { v with bound := Function.update v.bound p none, owner := Function.update v.owner sess none }

/-- A player is there. -/
def bind (v : View) (p : PlayerID) (sess : U64) (i : ℕ) : View :=
  { v with
    bound := Function.update v.bound p (some (sess, i))
    owner := Function.update v.owner sess (some p) }

end View

namespace RoomProc

/-- The events that have not been handled. -/
def waiting (r : RoomProc) : List Post := r.place.held.toList ++ r.inbox

def bound (r : RoomProc) (p : PlayerID) : Option (U64 × ℕ) :=
  (r.room.players[p]?).map fun st => (st.sess, r.stayOf p)

def view (r : RoomProc) : View where
  bound := r.bound
  owner := fun sess => r.room.sessOf[sess]?
  lives := r.waiting.filterMap Post.life
  passed := r.place.passed

/-- What the room knows once it has handled the event that it holds, as far as others are
concerned. -/
def ahead (r : RoomProc) : View := { r.view with lives := r.inbox.filterMap Post.life }

end RoomProc

/-- What the server knows. -/
@[ext]
structure Registry where
  rooms : RoomID → Option View
  mapped : U64 → Option SessionRef
  /-- The life event that `routeToRoom` is about to send. -/
  routing : Option (RoomID × Life)
  stays : ℕ → Stay
  next : ℕ

namespace Registry

def setRoom (g : Registry) (R : RoomID) (v : View) : Registry :=
  { g with rooms := Function.update g.rooms R (some v) }

def map (g : Registry) (sess : U64) (ref : SessionRef) : Registry :=
  { g with mapped := Function.update g.mapped sess (some ref) }

def unmap (g : Registry) (sess : U64) : Registry :=
  { g with mapped := Function.update g.mapped sess none }

def record (g : Registry) (i : ℕ) (f : Stay → Stay) : Registry :=
  { g with stays := Function.update g.stays i (f (g.stays i)) }

def note (g : Registry) (i : ℕ) (ns : List Notice) : Registry :=
  g.record i fun x => { x with notices := x.notices ++ ns }

def close (g : Registry) (i : ℕ) : Registry := g.record i fun x => { x with closing := true }

/-- A stay begins. -/
def begin (g : Registry) (sess : U64) (R : RoomID) : Registry :=
  { g with
    stays := Function.update g.stays g.next ⟨sess, R, [], false, false⟩
    next := g.next + 1 }

def removeRoom (g : Registry) (R : RoomID) : Registry :=
  { g with
    rooms := Function.update g.rooms R none
    mapped := fun sess => (g.mapped sess).filter fun ref => decide (ref.roomID ≠ R)
    stays := fun i => if (g.stays i).roomID = R then { g.stays i with ended := true }
      else g.stays i }

end Registry

/-- The notice of a `Kick` that the outbox takes. -/
def kickNotice (queued : Bool) : List Notice := if queued = true then [.Kick] else []

namespace Server

def registry (s : Server) : Registry where
  rooms := fun R => (s.rooms[R]?).map RoomProc.view
  mapped := fun sess => s.sessions[sess]?
  routing := s.routing.bind fun x => x.2.life.map fun l => (x.1, l)
  stays := s.stays
  next := s.next

/-- A send on the inbox finds no room. -/
def Full (s : Server) (r : RoomProc) : Prop := s.inboxCap ≤ r.inbox.length

instance (s : Server) (r : RoomProc) : Decidable (s.Full r) :=
  inferInstanceAs (Decidable (s.inboxCap ≤ r.inbox.length))

end Server

/-! ## Maps as functions -/

section

variable {κ β : Type} [Ord κ] [Std.TransOrd κ] [Std.LawfulEqOrd κ] [DecidableEq κ]

theorem getElem?_insert_eq_update (m : Map κ β) (k : κ) (b : β) :
    (fun k' => (m.insert k b)[k']?) = Function.update (fun k' => m[k']?) k (some b) := by
  funext k'
  rw [Map.getElem?_insert, Function.update_apply]
  exact if_congr eq_comm rfl rfl

theorem getElem?_erase_eq_update (m : Map κ β) (k : κ) :
    (fun k' => (m.erase k)[k']?) = Function.update (fun k' => m[k']?) k none := by
  funext k'
  rw [Map.getElem?_erase, Function.update_apply]
  exact if_congr eq_comm rfl rfl

end

/-- A function of the values of a map. -/
theorem map_update {κ β γ : Type} [DecidableEq κ] (f : κ → Option β) (g : β → γ) (k : κ)
    (b : Option β) :
    (fun k' => (Function.update f k b k').map g) =
      Function.update (fun k' => (f k').map g) k (b.map g) := by
  funext k'
  by_cases h : k' = k
  · rw [h, Function.update_self, Function.update_self]
  · rw [Function.update_of_ne h, Function.update_of_ne h]

/-! ## The players of a room -/

/-- The operation concerns neither players nor sessions. -/
def RoomOp.Quiet : RoomOp → Prop
  | .put _ | .onInput .. | .onResume .. => True
  | _ => False

namespace Room

/-- An event that neither opens nor closes. -/
theorem quiet_of_mem_handleEvent {ev : InEvent} (hopen : ∀ sess p, ev ≠ .inOpen sess p)
    (hclose : ∀ p reason, ev ≠ .inClose p reason) (r : Room) {op : RoomOp}
    (hop : op ∈ (r.handleEvent ev).2) :
    op.Quiet := by
  have hput (bs : List BufId) (h : op ∈ bs.map RoomOp.put) : op.Quiet := by
    obtain ⟨b, -, rfl⟩ := List.mem_map.1 h
    trivial
  cases ev with
  | inOpen sess p => exact absurd rfl (hopen sess p)
  | inClose p reason => exact absurd rfl (hclose p reason)
  | inResume p gap =>
    simp only [handleEvent] at hop
    cases hst : r.players[p]? with
    | none =>
      rw [hst] at hop
      cases hop
    | some st =>
      rw [hst] at hop
      rw [List.mem_singleton.1 hop]
      trivial
  | inData p ch msg payload raw =>
    simp only [handleEvent] at hop
    split_ifs at hop
    · unfold handleCh1Input at hop
      cases hst : r.players[p]? with
      | none =>
        rw [hst] at hop
        exact hput [raw] hop
      | some st =>
        rw [hst] at hop
        dsimp only at hop
        split_ifs at hop
        · exact hput [raw] hop
        · exact hput _ hop
    · rcases List.mem_cons.1 hop with rfl | hop
      · trivial
      · exact hput [raw] hop
    · cases hop
  | inStats p rtt loss =>
    simp only [handleEvent] at hop
    cases hst : r.players[p]? with
    | none =>
      rw [hst] at hop
      cases hop
    | some st =>
      rw [hst] at hop
      cases hop
  | inOverload => cases hop

/-- An open of a player in the room does nothing, and any other is a join. -/
theorem ops_inOpen (r : Room) (sess : U64) (p : PlayerID) :
    (r.handleEvent (.inOpen sess p)).2 = if p ∈ r.players then [] else [.onJoin p] := by
  unfold handleEvent
  dsimp only
  split_ifs <;> rfl

theorem ops_inClose (r : Room) (p : PlayerID) (reason : U8) :
    (r.handleEvent (.inClose p reason)).2 =
    match r.players[p]? with
    | none => []
    | some st => [.removeSession st.sess, .onLeave p (mapLeaveReason reason)] := by
  unfold handleEvent
  dsimp only
  cases r.players[p]? <;> rfl

theorem kick_of_some {r : Room} {p : PlayerID} {st : PState} (h : r.players[p]? = some st)
    (reason : U8) :
    (r.kick p reason).2 =
      [.sendKick st.sess reason, .removeSession st.sess, .onLeave p .LeaveKicked] ∧
      (r.kick p reason).1.players = r.players.erase p := by
  unfold kick
  rw [h]
  exact ⟨rfl, rfl⟩

theorem kick_of_none {r : Room} {p : PlayerID} (h : r.players[p]? = none) (reason : U8) :
    r.kick p reason = (r, []) := by
  unfold kick
  rw [h]

/-- The session of a player. -/
def sessAt (r : Room) (p : PlayerID) : Option U64 := (r.players[p]?).map PState.sess

theorem mem_players_sessAt {r : Room} {p : PlayerID} : p ∈ r.players ↔ r.sessAt p ≠ none := by
  unfold sessAt
  rw [Ne, Option.map_eq_none_iff]
  exact mem_players_iff

theorem sess_insertJitter (st : PState) (e : JitterEntry) :
    (st.insertJitter e).1.sess = st.sess := by
  rcases st.insertJitter_cases e with hst | hst
  · rw [hst]
  · rw [hst]

/-- What an event does to the sessions of the players. -/
def sessAfter (r : Room) (q : PlayerID) : InEvent → Option U64
  | .inOpen sess p => if p = q then some ((r.sessAt q).getD sess) else r.sessAt q
  | .inClose p _ => if p = q then none else r.sessAt q
  | _ => r.sessAt q

theorem sessAt_handleEvent (r : Room) (ev : InEvent) (q : PlayerID) :
    (r.handleEvent ev).1.sessAt q = r.sessAfter q ev := by
  have hq := (r.handleEvent_spec ev).1 q
  unfold sessAt
  rw [hq]
  cases ev with
  | inOpen sess p =>
    unfold stateAfter sessAfter sessAt
    dsimp only
    split_ifs
    · cases r.players[q]? with
      | none => rfl
      | some st => rfl
    · rfl
  | inClose p reason =>
    unfold stateAfter sessAfter sessAt
    dsimp only
    split_ifs
    · rfl
    · rfl
  | inResume p gap =>
    unfold stateAfter sessAfter sessAt
    dsimp only
    split_ifs
    · rw [Option.map_map]
      rfl
    · rfl
  | inData p ch msg payload raw =>
    unfold stateAfter sessAfter sessAt
    dsimp only
    split_ifs
    · rw [Option.map_map]
      refine Option.map_congr fun st _ => ?_
      exact sess_insertJitter _ _
    · rfl
  | inStats p rtt loss =>
    unfold stateAfter sessAfter sessAt
    dsimp only
    split_ifs
    · rw [Option.map_map]
      rfl
    · rfl
  | inOverload => rfl

theorem sessOf_handleCh1Input (r : Room) (p : PlayerID) (payload : Bytes) (raw : BufId) :
    (r.handleCh1Input p payload raw).1.sessOf = r.sessOf := by
  unfold handleCh1Input
  cases r.players[p]? with
  | none => rfl
  | some st =>
    dsimp only
    split_ifs
    · rfl
    · rfl

/-- An event that neither opens nor closes leaves the sessions alone. -/
theorem sessOf_handleEvent {r : Room} {ev : InEvent} (hopen : ∀ sess p, ev ≠ .inOpen sess p)
    (hclose : ∀ p reason, ev ≠ .inClose p reason) : (r.handleEvent ev).1.sessOf = r.sessOf := by
  cases ev with
  | inOpen sess p => exact absurd rfl (hopen sess p)
  | inClose p reason => exact absurd rfl (hclose p reason)
  | inResume p gap =>
    simp only [handleEvent]
    cases r.players[p]? with
    | none => rfl
    | some st => rfl
  | inData p ch msg payload raw =>
    simp only [handleEvent]
    split_ifs
    · exact r.sessOf_handleCh1Input p payload raw
    · rfl
    · rfl
  | inStats p rtt loss =>
    simp only [handleEvent]
    cases r.players[p]? with
    | none => rfl
    | some st => rfl
  | inOverload => rfl

theorem sessAt_deliver {r r' : Room} {order : List PlayerID} {ops : List RoomOp}
    (ho : r.IsOrder order) (h : r.deliverReadyInputs order = some (r', ops)) :
    r'.sessAt = r.sessAt ∧ r'.sessOf = r.sessOf := by
  obtain ⟨-, rfl, -⟩ := deliverReadyInputs_eq_some ho h
  refine ⟨?_, ?_⟩
  · funext q
    unfold sessAt
    rw [players_drainPlayers ho q, Option.map_map]
    refine Option.map_congr fun st _ => ?_
    show (st.deliver r.tick q).1.sess = st.sess
    obtain ⟨_, _, _, _, _, hframe⟩ := st.deliver_frame r.tick q
    rw [hframe]
  · rw [(drainPlayers_spec ho.1 r).2.1]

end Room

/-! ## The views of the rooms -/

namespace RoomProc

theorem bound_eq (r : RoomProc) : r.bound = fun p => (r.room.sessAt p).map fun sess =>
    (sess, r.stayOf p) := by
  funext p
  unfold bound Room.sessAt
  rw [Option.map_map]
  rfl

theorem bound_eq_some {r : RoomProc} {p : PlayerID} {st : PState}
    (h : r.room.players[p]? = some st) :
    r.bound p = some (st.sess, r.stayOf p) := by
  unfold bound
  rw [h]
  rfl

theorem bound_eq_none {r : RoomProc} {p : PlayerID} : r.bound p = none ↔ p ∉ r.room.players := by
  unfold bound
  rw [Option.map_eq_none_iff, Room.mem_players_iff, not_not]

theorem view_offer (r : RoomProc) (inboxCap : ℕ) (e : Post) (h : r.inbox.length < inboxCap) :
    (r.offer inboxCap e).view = r.view.append e.life := by
  have hlives : (r.waiting ++ [e]).filterMap Post.life =
      r.waiting.filterMap Post.life ++ e.life.toList := by
    rw [List.filterMap_append]
    cases h : e.life with
    | none => rw [List.filterMap_cons_none h]; rfl
    | some l => rw [List.filterMap_cons_some h]; rfl
  unfold offer
  rw [if_pos h]
  unfold view waiting View.append at *
  dsimp only
  rw [← List.append_assoc, hlives]
  rfl

theorem view_offer_of_none (r : RoomProc) (inboxCap : ℕ) {e : Post} (h : e.life = none) :
    (r.offer inboxCap e).view = r.view := by
  by_cases hroom : r.inbox.length < inboxCap
  · rw [r.view_offer inboxCap e hroom, h]
    unfold View.append
    rw [Option.toList_none, List.append_nil]
  · unfold offer
    rw [if_neg hroom]

theorem held_of_receive {x y : Place} {e : Post} (h : x.receive e = some y) :
    x.held = none ∧ y.held = some e ∧ x.passed = none ∧ y.passed = none := by
  unfold Place.receive at h
  split at h
  · obtain rfl := Option.some.inj h
    exact ⟨rfl, rfl, rfl, rfl⟩
  · obtain rfl := Option.some.inj h
    exact ⟨rfl, rfl, rfl, rfl⟩
  · obtain rfl := Option.some.inj h
    exact ⟨rfl, rfl, rfl, rfl⟩
  · cases h

/-- Receiving an event tells the room nothing new. -/
theorem view_take (r : RoomProc) : r.take.view = r.view := by
  unfold take
  split
  · rfl
  · rename_i e rest hinbox
    split
    · rfl
    · rename_i place hplace
      obtain ⟨hx, hy, hpx, hpy⟩ := held_of_receive hplace
      unfold view waiting
      dsimp only
      rw [hx, hy, hpx, hpy, hinbox]
      rfl

theorem view_timer (r : RoomProc) : r.timer.view = r.view := by
  unfold timer
  split
  · rename_i hplace
    unfold view waiting
    dsimp only
    rw [hplace]
    rfl
  · rfl

theorem view_finish (r : RoomProc) : r.finish.view = r.view := by
  unfold finish
  split_ifs
  · rfl
  · rfl

/-- `run` goes on, or stops. -/
theorem view_next {r : RoomProc} (hheld : r.place.held = none) (hpassed : r.place.passed = none) :
    r.next.view = r.view ∨ r.next.view = { r.view with passed := some [] } := by
  unfold next view waiting
  dsimp only
  split_ifs
  · right
    rw [hheld]
    rfl
  · left
    rw [hheld, hpassed]
    rfl

theorem view_check (r : RoomProc) :
    r.check.view = r.view ∨ r.place.passed = none ∧
    r.check.view = { r.view with passed := some [] } := by
  unfold check
  split
  · rename_i hplace
    have hpassed : r.place.passed = none := by rw [hplace]; rfl
    rcases view_next (by rw [hplace]; rfl) hpassed with h | h
    · exact .inl h
    · exact .inr ⟨hpassed, h⟩
  · exact .inl rfl

theorem view_tick (r : RoomProc) (out more : Bool) :
    (r.tick out more).view = r.view ∨
      r.place.passed = none ∧ (r.tick out more).view = { r.view with passed := some [] } := by
  unfold tick
  split
  · rename_i hplace
    have hpassed : r.place.passed = none := by rw [hplace]; rfl
    have hheld : r.place.held = none := by rw [hplace]; rfl
    dsimp only
    split_ifs
    · left
      unfold view waiting
      dsimp only
      rw [hplace]
      rfl
    · set r' : RoomProc :=
        { r with room := { r.room with tick := r.room.tick + 1, stopReq := r.room.stopReq || out } }
      have hview : r'.view = r.view := rfl
      rcases view_next (r := r') hheld hpassed with h | h
      · exact .inl (h.trans hview)
      · exact .inr ⟨hpassed, h.trans (by rw [hview])⟩
  · exact .inl rfl

theorem held_handled {x : Place} {e : Post} (h : x.held = some e) :
    x.handled.held = none ∧ x.handled.passed = none ∧ x.passed = none := by
  unfold Place.held at h
  split at h
  · exact ⟨rfl, rfl, rfl⟩
  · exact ⟨rfl, rfl, rfl⟩
  · cases h

/-- What the room knows is the event that it holds, and what it will know. -/
theorem lives_view {r : RoomProc} {e : Post} (hheld : r.place.held = some e) :
    r.view.lives = e.life.toList ++ r.ahead.lives := by
  show r.waiting.filterMap Post.life = _
  unfold waiting
  rw [hheld, List.filterMap_append]
  cases h : e.life with
  | none => rw [Option.toList_some, List.filterMap_cons_none h]; rfl
  | some l => rw [Option.toList_some, List.filterMap_cons_some h]; rfl

theorem lives_inOpen {r : RoomProc} {e : Post} {sess : U64} {p : PlayerID}
    (hheld : r.place.held = some e) (hev : e.ev = .inOpen sess p) :
    r.view.lives = .came sess e.stay p :: r.ahead.lives := by
  rw [lives_view hheld]
  unfold Post.life
  rw [hev]
  rfl

theorem lives_inClose {r : RoomProc} {e : Post} {p : PlayerID} {reason : U8}
    (hheld : r.place.held = some e) (hev : e.ev = .inClose p reason) :
    r.view.lives = .went e.sess e.stay p :: r.ahead.lives := by
  rw [lives_view hheld]
  unfold Post.life
  rw [hev]
  rfl

/-- The room after the event that it holds. -/
def after (r : RoomProc) (e : Post) : RoomProc :=
  { r with room := (r.room.handleEvent e.ev).1, place := r.place.handled, stayOf := r.seat e }

section

variable {e : Post} {sess : U64} {p : PlayerID} {reason : U8}

theorem mem_after (r : RoomProc) (e : Post) (q : PlayerID) :
    q ∈ (r.after e).room.players ↔ r.room.sessAfter q e.ev ≠ none := by
  rw [← Room.sessAt_handleEvent]
  exact Room.mem_players_sessAt

theorem mem_after_inOpen (hev : e.ev = .inOpen sess p) (r : RoomProc) (q : PlayerID) :
    q ∈ (r.after e).room.players ↔ q = p ∨ q ∈ r.room.players := by
  rw [mem_after, hev]
  unfold Room.sessAfter
  dsimp only
  by_cases hq : p = q
  · rw [if_pos hq]
    exact iff_of_true (Option.some_ne_none _) (.inl hq.symm)
  · rw [if_neg hq, or_iff_right (Ne.symm hq)]
    exact Room.mem_players_sessAt.symm

theorem mem_after_inClose (hev : e.ev = .inClose p reason) (r : RoomProc) (q : PlayerID) :
    q ∈ (r.after e).room.players ↔ q ≠ p ∧ q ∈ r.room.players := by
  rw [mem_after, hev]
  unfold Room.sessAfter
  dsimp only
  by_cases hq : p = q
  · rw [if_pos hq]
    exact iff_of_false (fun hne => hne rfl) fun hne => hne.1 hq.symm
  · rw [if_neg hq, and_iff_right (Ne.symm hq)]
    exact Room.mem_players_sessAt.symm

theorem mem_after_quiet (hopen : ∀ sess p, e.ev ≠ .inOpen sess p)
    (hclose : ∀ p reason, e.ev ≠ .inClose p reason) (r : RoomProc) (q : PlayerID) :
    q ∈ (r.after e).room.players ↔ q ∈ r.room.players := by
  rw [mem_after, Room.mem_players_sessAt]
  unfold Room.sessAfter
  split
  · exact absurd ‹_› (hopen _ _)
  · exact absurd ‹_› (hclose _ _)
  · exact Iff.rfl

end

/-- The view after an event is given by the players and their sessions. -/
theorem view_after {r : RoomProc} {e : Post} (hheld : r.place.held = some e) {v : View}
    (hb : (r.after e).bound = v.bound)
    (ho : ∀ sess : U64, (r.room.handleEvent e.ev).1.sessOf[sess]? = v.owner sess)
    (hl : r.ahead.lives = v.lives) (hp : none = v.passed) : (r.after e).view = v := by
  obtain ⟨hheld', hpassed', -⟩ := held_handled hheld
  ext1
  · exact hb
  · exact funext ho
  · rw [← hl]
    show (r.place.handled.held.toList ++ r.inbox).filterMap Post.life = _
    rw [hheld']
    rfl
  · rw [← hp]
    exact hpassed'

section

variable {r : RoomProc} {e : Post} {p : PlayerID} {sess : U64} {reason : U8} {st : PState}

theorem passed_ahead (hheld : r.place.held = some e) : none = r.ahead.passed :=
  (held_handled hheld).2.2.symm

theorem view_joins (hheld : r.place.held = some e) (hev : e.ev = .inOpen sess p)
    (hp : p ∉ r.room.players) : (r.after e).view = r.ahead.bind p sess e.stay := by
  have hnone : r.room.sessAt p = none := by
    unfold Room.sessAt
    rw [not_not.1 (mt Room.mem_players_iff.2 hp)]
    rfl
  have hseat : r.seat e = Function.update r.stayOf p e.stay := by
    unfold seat
    rw [hev]
    exact if_neg hp
  refine view_after hheld ?_ ?_ rfl (passed_ahead hheld)
  · show (r.after e).bound = Function.update r.bound p (some (sess, e.stay))
    rw [bound_eq, bound_eq]
    funext q
    show ((r.room.handleEvent e.ev).1.sessAt q).map (fun x => (x, r.seat e q)) = _
    rw [Room.sessAt_handleEvent, hev, hseat]
    unfold Room.sessAfter
    dsimp only
    by_cases hq : q = p
    · rw [hq, if_pos rfl, hnone, Function.update_self, Function.update_self]
      rfl
    · rw [if_neg (Ne.symm hq), Function.update_of_ne hq, Function.update_of_ne hq]
  · intro σ
    show _ = Function.update (fun σ => r.room.sessOf[σ]?) sess (some p) σ
    rw [← getElem?_insert_eq_update, hev]
    unfold Room.handleEvent
    dsimp only
    rw [if_neg hp]

theorem view_swallows (hheld : r.place.held = some e) (hev : e.ev = .inOpen sess p)
    (hp : p ∈ r.room.players) : (r.after e).view = r.ahead := by
  have hhandle : r.room.handleEvent e.ev = (r.room, []) := by
    rw [hev]
    exact if_pos hp
  have hseat : r.seat e = r.stayOf := by
    unfold seat
    rw [hev]
    exact if_pos hp
  refine view_after hheld ?_ ?_ rfl (passed_ahead hheld)
  · unfold after
    rw [hhandle, hseat]
    rfl
  · intro σ
    rw [hhandle]
    rfl

theorem seat_inClose (hev : e.ev = .inClose p reason) : r.seat e = r.stayOf := by
  unfold seat
  rw [hev]

theorem view_leaves (hheld : r.place.held = some e) (hev : e.ev = .inClose p reason)
    (hp : r.room.players[p]? = some st) : (r.after e).view = r.ahead.unbind p st.sess := by
  refine view_after hheld ?_ ?_ rfl (passed_ahead hheld)
  · show (r.after e).bound = Function.update r.bound p none
    rw [bound_eq, bound_eq]
    funext q
    show ((r.room.handleEvent e.ev).1.sessAt q).map (fun x => (x, r.seat e q)) = _
    rw [Room.sessAt_handleEvent, seat_inClose hev, hev]
    unfold Room.sessAfter
    dsimp only
    by_cases hq : q = p
    · rw [hq, if_pos rfl, Function.update_self]
      rfl
    · rw [if_neg (Ne.symm hq), Function.update_of_ne hq]
  · intro σ
    show _ = Function.update (fun σ => r.room.sessOf[σ]?) st.sess none σ
    rw [← getElem?_erase_eq_update, hev]
    unfold Room.handleEvent
    dsimp only
    rw [hp]

theorem view_misses (hheld : r.place.held = some e) (hev : e.ev = .inClose p reason)
    (hp : r.room.players[p]? = none) : (r.after e).view = r.ahead := by
  have hhandle : r.room.handleEvent e.ev = (r.room, []) := by
    rw [hev]
    unfold Room.handleEvent
    dsimp only
    rw [hp]
  refine view_after hheld ?_ ?_ rfl (passed_ahead hheld)
  · unfold after
    rw [hhandle, seat_inClose hev]
    rfl
  · intro σ
    rw [hhandle]
    rfl

/-- Other events tell the room nothing. -/
theorem view_after_of_none (hheld : r.place.held = some e) (hlife : e.life = none) :
    (r.after e).view = r.view := by
  have hopen : ∀ sess p, e.ev ≠ .inOpen sess p := by
    intro sess p hev
    unfold Post.life at hlife
    rw [hev] at hlife
    cases hlife
  have hclose : ∀ p reason, e.ev ≠ .inClose p reason := by
    intro p reason hev
    unfold Post.life at hlife
    rw [hev] at hlife
    cases hlife
  have hsess : ∀ q, r.room.sessAfter q e.ev = r.room.sessAt q := by
    intro q
    unfold Room.sessAfter
    split
    · exact absurd ‹_› (hopen _ _)
    · exact absurd ‹_› (hclose _ _)
    · rfl
  have hseat : r.seat e = r.stayOf := by
    unfold seat
    split
    · exact absurd ‹_› (hopen _ _)
    · rfl
  refine view_after hheld ?_ ?_ ?_ (passed_ahead hheld)
  · show (r.after e).bound = r.bound
    rw [bound_eq, bound_eq]
    funext q
    show ((r.room.handleEvent e.ev).1.sessAt q).map (fun x => (x, r.seat e q)) = _
    rw [Room.sessAt_handleEvent, hsess, hseat]
  · intro σ
    rw [Room.sessOf_handleEvent hopen hclose]
    rfl
  · rw [lives_view hheld, hlife]
    rfl

/-- A player is kicked. -/
theorem view_kick (hp : r.room.players[p]? = some st) :
    ({ r with room := (r.room.kick p reason).1 } : RoomProc).view = r.view.unbind p st.sess := by
  have hkick : (r.room.kick p reason).1.players = r.room.players.erase p ∧
      (r.room.kick p reason).1.sessOf = r.room.sessOf.erase st.sess := by
    unfold Room.kick
    rw [hp]
    exact ⟨rfl, rfl⟩
  ext1
  · show (fun q => ((r.room.kick p reason).1.players[q]?).map fun x => (x.sess, r.stayOf q)) =
      Function.update r.bound p none
    funext q
    rw [hkick.1, Map.getElem?_erase]
    by_cases hq : q = p
    · rw [hq, if_pos rfl, Function.update_self]
      rfl
    · rw [if_neg (Ne.symm hq), Function.update_of_ne hq]
      rfl
  · show (fun σ => (r.room.kick p reason).1.sessOf[σ]?) = Function.update _ st.sess none
    rw [hkick.2]
    exact getElem?_erase_eq_update _ _
  · rfl
  · rfl

end

end RoomProc

/-! ## The registry of the server -/

namespace Registry

theorem setRoom_self {g : Registry} {R : RoomID} {v : View} (h : g.rooms R = some v) :
    g.setRoom R v = g := by
  unfold setRoom
  rw [← h, Function.update_eq_self]

theorem record_record (g : Registry) (i : ℕ) (f f' : Stay → Stay) :
    (g.record i f).record i f' = g.record i (f' ∘ f) := by
  unfold record
  dsimp only
  rw [Function.update_self, Function.update_idem]
  rfl

theorem note_nil (g : Registry) (i : ℕ) : g.note i [] = g := by
  unfold note record
  dsimp only
  simp only [List.append_nil, Function.update_eq_self]

theorem note_note (g : Registry) (i : ℕ) (ns ns' : List Notice) :
    (g.note i ns).note i ns' = g.note i (ns ++ ns') := by
  unfold note
  rw [record_record]
  congr 1
  funext x
  show _ = ({ x with notices := x.notices ++ (ns ++ ns') } : Stay)
  rw [← List.append_assoc]
  rfl

end Registry

namespace Server

variable {s : Server} {R : RoomID} {r : RoomProc}

theorem registry_rooms (h : s.rooms[R]? = some r) : s.registry.rooms R = some r.view := by
  show (s.rooms[R]?).map RoomProc.view = _
  rw [h]
  rfl

theorem registry_insert (s : Server) (R : RoomID) (r : RoomProc) :
    { s with rooms := s.rooms.insert R r }.registry = s.registry.setRoom R r.view := by
  ext1
  · show (fun k => ((s.rooms.insert R r)[k]?).map RoomProc.view) = _
    have h := getElem?_insert_eq_update s.rooms R r
    have h' : (fun k => ((s.rooms.insert R r)[k]?).map RoomProc.view) =
        fun k => (Function.update (fun k => s.rooms[k]?) R (some r) k).map RoomProc.view := by
      funext k
      rw [← h]
    rw [h', map_update]
    rfl
  · rfl
  · rfl
  · rfl
  · rfl

theorem registry_insert_of_view (h : s.rooms[R]? = some r) {r' : RoomProc}
    (hview : r'.view = r.view) :
    { s with rooms := s.rooms.insert R r' }.registry = s.registry := by
  rw [registry_insert, hview]
  exact Registry.setRoom_self (registry_rooms h)

/-- What changes no view changes nothing. -/
theorem registry_onRoom {f : RoomProc → RoomProc} (hf : ∀ r, (f r).view = r.view) :
    (s.onRoom R f).registry = s.registry := by
  unfold onRoom
  split
  · rfl
  · exact registry_insert_of_view ‹_› (hf _)

theorem registry_removeSession (s : Server) (sess : U64) :
    (s.removeSession sess).registry = s.registry.unmap sess := by
  ext1
  · rfl
  · exact getElem?_erase_eq_update _ _
  · rfl
  · rfl
  · rfl

theorem registry_sendKick (s : Server) (sess : U64) (queued : Bool) :
    (s.sendKick sess queued).registry = s.registry := by
  unfold sendKick
  split_ifs
  · rfl
  · rfl

theorem registry_sendKickTo (s : Server) (i : ℕ) (sess : U64) (queued : Bool) :
    (s.sendKickTo i sess queued).registry = s.registry.note i (kickNotice queued) := by
  unfold sendKickTo kickNotice
  split_ifs with hq
  · show (s.sendKick sess queued).registry.note i [.Kick] = _
    rw [registry_sendKick]
  · exact (Registry.note_nil _ _).symm

end Server

end SoupEngine.Sdk
