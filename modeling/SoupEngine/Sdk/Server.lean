import SoupEngine.Sdk.ReadPool

/-!
# The server and its rooms

The reader goroutine dispatches frames, `onEngineDead` clears the session table, and every room runs
in a goroutine of its own. They share the two maps under `roomsMu` and the inboxes of the rooms, and
are interleaved in any order. A step is what happens between two points at which another goroutine
can look at what is shared.

The gatekeeper, the implementations of the rooms, the clock and the writer take part as arguments of
the actions. The end of the process (`ctx.Done` and `closeAll`) is left out.
-/

namespace SoupEngine.Sdk

abbrev RoomID := U64

inductive RouteAction
  | RouteJoin
  | RouteCreate
  | RouteReject
  deriving DecidableEq

/-- What the SDK itself reads of a `RoomRoute`. -/
structure RoomRoute where
  Action : RouteAction
  roomID : RoomID

/-- What the gatekeeper answers for a session; `built` says that `newRoom` returns no error. -/
structure Verdict where
  Authenticate : Option PlayerID
  Route : RoomRoute
  built : Bool

/-- `sessionRef`. The accepted `SessionOpen` frames are numbered, and the number, which the code
does not keep, goes with everything that comes of the frame. -/
structure SessionRef where
  roomID : RoomID
  player : PlayerID
  stay : ℕ

/-- `inEvent`, with its session. -/
structure Post where
  sess : U64
  ev : InEvent
  stay : ℕ

/-- `LeaveDisconnect`, as a number. -/
def LeaveDisconnect : U8 := 3

/-- What the goroutine of a room does with the events of its inbox. -/
inductive Hand
  | idle
  /-- The event has been received and not yet been handled. -/
  | holding (e : Post)
  /-- `handleEvent` is done, except that the implementation of the room may still be running. -/
  | calling

/-- Where the goroutine of a room is. -/
inductive Place
  /-- In the `select` of `run`. -/
  | select (hand : Hand)
  /-- In `drainInbox`. -/
  | drain (hand : Hand)
  /-- In `doTick`, after `deliverReadyInputs` has taken what is due. -/
  | tick
  /-- In the loop of `stop`, which has passed these players. -/
  | stop (done : List PlayerID)

namespace Place

def held : Place → Option Post
  | .select (.holding e) | .drain (.holding e) => some e
  | _ => none

/-- The implementation of the room may be running. -/
def calling : Place → Bool
  | .select .calling | .drain .calling | .tick | .stop (_ :: _) => true
  | _ => false

/-- An event is received here. -/
def receive (e : Post) : Place → Option Place
  | .select .idle => some (.select (.holding e))
  | .drain .idle | .drain .calling => some (.drain (.holding e))
  | _ => none

/-- The event has been handled. -/
def handled : Place → Place
  | .select (.holding _) => .select .calling
  | .drain (.holding _) => .drain .calling
  | x => x

/-- The players that `stop` has passed. -/
def passed : Place → Option (List PlayerID)
  | .stop done => some done
  | _ => none

end Place

structure RoomProc where
  room : Room
  inbox : List Post
  place : Place
  /-- The stays of the players in the room. -/
  stayOf : PlayerID → ℕ

namespace RoomProc

/-- `newRoom` and `go nr.run`. -/
def new (JitterBufferTicks BaselineRingSize : ℕ) : RoomProc :=
  ⟨.new JitterBufferTicks BaselineRingSize, [], .select .idle, fun _ => 0⟩

/-- A send on the inbox that does not block. -/
def offer (r : RoomProc) (inboxCap : ℕ) (e : Post) : RoomProc :=
  if r.inbox.length < inboxCap then { r with inbox := r.inbox ++ [e] } else r

def take (r : RoomProc) : RoomProc :=
  match r.inbox with
  | [] => r
  | e :: rest =>
    match r.place.receive e with
    | none => r
    | some place => { r with inbox := rest, place }

/-- `run`, after an event or a tick. -/
def next (r : RoomProc) : RoomProc :=
  { r with place := if r.room.stopReq = true then .stop [] else .select .idle }

/-- `handleEvent` returns to the `select` of `run`. -/
def check (r : RoomProc) : RoomProc :=
  match r.place with
  | .select .calling => r.next
  | _ => r

/-- `timer.C`. -/
def timer (r : RoomProc) : RoomProc :=
  match r.place with
  | .select .idle => { r with place := .drain .idle }
  | _ => r

/-- `drainInbox` finds nothing. -/
def drained (r : RoomProc) : Bool :=
  match r.place, r.inbox with
  | .drain .idle, [] | .drain .calling, [] => true
  | _, _ => false

/-- The implementation returns from `Tick`, with `End` if `out`; `advance` makes one tick `more`. -/
def tick (r : RoomProc) (out more : Bool) : RoomProc :=
  match r.place with
  | .tick =>
    let r' := { r with
      room := { r.room with tick := r.room.tick + 1, stopReq := r.room.stopReq || out } }
    if more = true then { r' with place := .drain .idle } else r'.next
  | _ => r

/-- `RoomCtx.End`. -/
def finish (r : RoomProc) : RoomProc :=
  if r.place.calling = true then { r with room := { r.room with stopReq := true } } else r

/-- The stays of the players after an event. -/
def seat (r : RoomProc) (e : Post) : PlayerID → ℕ :=
  match e.ev with
  | .inOpen _ p => if p ∈ r.room.players then r.stayOf else Function.update r.stayOf p e.stay
  | _ => r.stayOf

end RoomProc

/-- What is done about the session of a stay. -/
inductive Notice
  | OnJoin
  | OnLeave
  | Kick
  deriving DecidableEq

/-- What becomes of an accepted `SessionOpen`. -/
structure Stay where
  sess : U64
  roomID : RoomID
  notices : List Notice
  /-- A `SessionClose` of the mapped session has been dispatched, or `onEngineDead` has come to
  it. -/
  closing : Bool
  /-- The room has been removed. -/
  ended : Bool

structure Server where
  MaxRooms : ℕ
  inboxCap : ℕ
  JitterBufferTicks : ℕ
  BaselineRingSize : ℕ
  rooms : Map RoomID RoomProc
  sessions : Map U64 SessionRef
  /-- What `routeToRoom` is about to send, once it has let go of the lock. -/
  routing : Option (RoomID × Post)
  /-- `onEngineDead` holds the lock. -/
  dying : Bool
  /-- The process has panicked. -/
  crashed : Bool
  /-- The sessions of the `Kick` frames that the outbox has taken. -/
  kicked : List U64
  stays : ℕ → Stay
  /-- The number of the next stay. -/
  next : ℕ

inductive ServerAction
  /-- The reader dispatches a frame; `queued` says that the outbox takes a `Kick`. -/
  | frame (typ : U8) (body : Bytes) (raw : BufId) (verdict : Verdict) (queued : Bool)
  /-- `routeToRoom` sends. -/
  | send
  /-- `onEngineDead` takes the lock. -/
  | dead
  /-- The loop of `onEngineDead` comes to a session. -/
  | visit (sess : U64)
  /-- `onEngineDead` returns. -/
  | cleared
  /-- A room receives an event. -/
  | take (R : RoomID)
  | handle (R : RoomID)
  | check (R : RoomID)
  | timer (R : RoomID)
  /-- `deliverReadyInputs`, after `drainInbox`. -/
  | deliver (R : RoomID) (order : List PlayerID)
  | tick (R : RoomID) (out more : Bool)
  /-- The loop of `stop` comes to a player. -/
  | leave (R : RoomID) (p : PlayerID) (queued : Bool)
  /-- `removeRoom`. -/
  | remove (R : RoomID)
  /-- `RoomCtx.Kick`. -/
  | kick (R : RoomID) (p : PlayerID) (reason : U8) (queued : Bool)
  /-- `RoomCtx.End`. -/
  | finish (R : RoomID)

namespace Server

def start (MaxRooms inboxCap JitterBufferTicks BaselineRingSize : ℕ) : Server where
  MaxRooms
  inboxCap
  JitterBufferTicks
  BaselineRingSize
  rooms := ∅
  sessions := ∅
  routing := none
  dying := false
  crashed := false
  kicked := []
  stays := fun _ => ⟨0, 0, [], false, false⟩
  next := 0

/-- The journal of a stay is added to. -/
def record (s : Server) (i : ℕ) (f : Stay → Stay) : Server :=
  { s with stays := Function.update s.stays i (f (s.stays i)) }

def note (s : Server) (i : ℕ) (n : Notice) : Server :=
  s.record i fun x => { x with notices := x.notices ++ [n] }

def sendKick (s : Server) (sess : U64) (queued : Bool) : Server :=
  if queued = true then { s with kicked := s.kicked ++ [sess] } else s

/-- `sendKick`, for the session of a stay. -/
def sendKickTo (s : Server) (i : ℕ) (sess : U64) (queued : Bool) : Server :=
  if queued = true then (s.sendKick sess queued).note i .Kick else s

def removeSession (s : Server) (sess : U64) : Server := { s with sessions := s.sessions.erase sess }

/-- Something happens in a room. -/
def onRoom (s : Server) (R : RoomID) (f : RoomProc → RoomProc) : Server :=
  match s.rooms[R]? with
  | none => s
  | some r => { s with rooms := s.rooms.insert R (f r) }

/-! ## The reader -/

/-- The room in `handleSessionOpen`: it exists, or is made. -/
def roomFor (s : Server) (v : Verdict) : Option RoomProc :=
  match s.rooms[v.Route.roomID]? with
  | some r => some r
  | none =>
    if v.Route.Action ≠ .RouteCreate then none
    else if s.MaxRooms ≤ s.rooms.size then none
    else if v.built = false then none
    else some (.new s.JitterBufferTicks s.BaselineRingSize)

/-- The end of `handleSessionOpen`. -/
def mapSession (s : Server) (sess : U64) (p : PlayerID) (R : RoomID) (r : RoomProc)
    (queued : Bool) : Server :=
  let s' : Server :=
    { s with
      stays := Function.update s.stays s.next ⟨sess, R, [], false, false⟩
      next := s.next + 1
      rooms := s.rooms.insert R (r.offer s.inboxCap ⟨sess, .inOpen sess p, s.next⟩) }
  if r.inbox.length < s.inboxCap then { s' with sessions := s.sessions.insert sess ⟨R, p, s.next⟩ }
  else s'.sendKickTo s.next sess queued

/-- The session, the player and the room of a `SessionOpen` that `handleSessionOpen` maps. -/
def opens (s : Server) (body : Bytes) (v : Verdict) : Option (U64 × PlayerID × RoomProc) :=
  match parseSessionOpen body, v.Authenticate with
  | .ok (sess, _, _), some p =>
    if v.Route.Action = .RouteReject ∨ sess ∈ s.sessions then none
    else (s.roomFor v).map fun r => (sess, p, r)
  | _, _ => none

def handleSessionOpen (s : Server) (body : Bytes) (v : Verdict) (queued : Bool) : Server :=
  match parseSessionOpen body with
  | .error _ => s
  | .ok (sess, _, _) =>
    match v.Authenticate with
    | none => s.sendKick sess queued
    | some p =>
      if v.Route.Action = .RouteReject then s.sendKick sess queued
      else if sess ∈ s.sessions then s
      else
        match s.roomFor v with
        | none => s.sendKick sess queued
        | some r => s.mapSession sess p v.Route.roomID r queued

/-- `routeToRoom`, as far as it holds the lock. -/
def routeToRoom (s : Server) (sess : U64) (ev : PlayerID → InEvent) : Server :=
  match s.sessions[sess]? with
  | none => s
  | some ref =>
    if ref.roomID ∈ s.rooms then
      let s' := { s with routing := some (ref.roomID, ⟨sess, ev ref.player, ref.stay⟩) }
      match ev ref.player with
      | .inClose _ _ => s'.record ref.stay fun x => { x with closing := true }
      | _ => s'
    else s

/-- `routeToRoom`, after it has let go of the lock. The inbox of a room that has been removed is
read no more. -/
def send (s : Server) : Server :=
  match s.routing with
  | none => s
  | some (R, e) => { s with routing := none }.onRoom R (RoomProc.offer · s.inboxCap e)

/-- `setOverload` for all rooms. -/
def setOverload (s : Server) : Server :=
  { s with rooms := s.rooms.map fun _ r => r.offer s.inboxCap ⟨0, .inOverload, 0⟩ }

/-- The frames that go to the room of their session. -/
def routed (typ : U8) (body : Bytes) (raw : BufId) : Option (U64 × (PlayerID → InEvent)) :=
  if typ = FrameSessionClose then
    match parseSessionClose body with
    | .error _ => none
    | .ok (sess, reason) => some (sess, fun p => .inClose p reason)
  else if typ = FrameSessionResume then
    match parseSessionResume body with
    | .error _ => none
    | .ok (sess, gap) => some (sess, fun p => .inResume p gap)
  else if typ = FrameDataUp then
    match parseData body with
    | .error _ => none
    | .ok (sess, ch, msg, payload) => some (sess, fun p => .inData p ch msg payload raw)
  else if typ = FrameSessionStats then
    match parseSessionStats body with
    | .error _ => none
    | .ok (sess, rtt, loss, _) => some (sess, fun p => .inStats p rtt loss)
  else none

def dispatch (s : Server) (typ : U8) (body : Bytes) (raw : BufId) (v : Verdict) (queued : Bool) :
    Server :=
  if typ = FrameSessionOpen then s.handleSessionOpen body v queued
  else if typ = FrameOverload then
    match parseOverload body with
    | .error _ => s
    | .ok _ => s.setOverload
  else
    match routed typ body raw with
    | none => s
    | some (sess, ev) => s.routeToRoom sess ev

/-! ## `onEngineDead` -/

/-- One round of the loop of `onEngineDead`: the event names the session, and no player. -/
def visit (s : Server) (sess : U64) : Server :=
  match s.sessions[sess]? with
  | none => s
  | some ref =>
    let e : Post := ⟨sess, .inClose 0 LeaveDisconnect, ref.stay⟩
    ((s.onRoom ref.roomID (RoomProc.offer · s.inboxCap e)).removeSession sess).record ref.stay
      fun x => { x with closing := true }

/-! ## The rooms -/

/-- What a room does to the outside, for the player of the stay `i`. -/
def perform (i : ℕ) (queued : Bool) (s : Server) : RoomOp → Server
  | .onJoin _ => s.note i .OnJoin
  | .onLeave _ _ => s.note i .OnLeave
  | .removeSession sess => s.removeSession sess
  | .sendKick sess _ => s.sendKickTo i sess queued
  | _ => s

/-- A room handles the event that it holds. -/
def handleEvent (s : Server) (R : RoomID) (r : RoomProc) (e : Post) : Server :=
  let i := match e.ev with
    | .inOpen _ _ => e.stay
    | .inClose p _ => r.stayOf p
    | _ => 0
  let r' : RoomProc :=
    { r with room := (r.room.handleEvent e.ev).1, place := r.place.handled, stayOf := r.seat e }
  (r.room.handleEvent e.ev).2.foldl (perform i false) { s with rooms := s.rooms.insert R r' }

/-- The event makes the room take the lock. -/
def takesLock (r : RoomProc) (e : Post) : Bool :=
  (r.room.handleEvent e.ev).2.any fun op => match op with
    | .removeSession _ => true
    | _ => false

def kick (s : Server) (R : RoomID) (r : RoomProc) (p : PlayerID) (reason : U8) (queued : Bool) :
    Server :=
  let r' : RoomProc := { r with room := (r.room.kick p reason).1 }
  (r.room.kick p reason).2.foldl (perform (r.stayOf p) queued)
    { s with rooms := s.rooms.insert R r' }

def deliver (s : Server) (R : RoomID) (r : RoomProc) (order : List PlayerID) : Server :=
  match r.room.deliverReadyInputs order with
  | none => { s with crashed := true }
  | some (room, _) => { s with rooms := s.rooms.insert R { r with room, place := .tick } }

/-- One round of the loop of `stop`. -/
def leave (s : Server) (R : RoomID) (r : RoomProc) (done : List PlayerID) (p : PlayerID)
    (queued : Bool) : Server :=
  match r.room.players[p]? with
  | none => s
  | some st =>
    if p ∈ done then s
    else
      ({ s with rooms := s.rooms.insert R { r with place := .stop (p :: done) } }.note
        (r.stayOf p) .OnLeave).sendKickTo (r.stayOf p) st.sess queued

def removeRoom (s : Server) (R : RoomID) : Server :=
  { s with
    rooms := s.rooms.erase R
    sessions := s.sessions.filter fun _ ref => decide (ref.roomID ≠ R)
    stays := fun i => if (s.stays i).roomID = R then { s.stays i with ended := true }
      else s.stays i }

def step (s : Server) (a : ServerAction) : Server :=
  if s.crashed = true then s
  else
    match a with
    | .frame typ body raw v queued =>
      if s.routing.isNone = true ∧ s.dying = false then s.dispatch typ body raw v queued else s
    | .send => s.send
    | .dead => { s with dying := true }
    | .visit sess => if s.dying = true then s.visit sess else s
    | .cleared => if s.sessions.isEmpty = true then { s with dying := false } else s
    | .take R => s.onRoom R RoomProc.take
    | .handle R =>
      match s.rooms[R]? with
      | none => s
      | some r =>
        match r.place.held with
        | none => s
        | some e => if s.dying = true ∧ takesLock r e = true then s else s.handleEvent R r e
    | .check R => s.onRoom R RoomProc.check
    | .timer R => s.onRoom R RoomProc.timer
    | .deliver R order =>
      match s.rooms[R]? with
      | none => s
      | some r => if r.drained = true then s.deliver R r order else s
    | .tick R out more => s.onRoom R (RoomProc.tick · out more)
    | .leave R p queued =>
      match s.rooms[R]? with
      | none => s
      | some r =>
        match r.place with
        | .stop done => s.leave R r done p queued
        | _ => s
    | .remove R =>
      match s.rooms[R]? with
      | none => s
      | some r =>
        match r.place with
        | .stop done =>
          if s.dying = false ∧ (r.room.players.keys.all fun p => decide (p ∈ done)) = true then
            s.removeRoom R
          else s
        | _ => s
    | .kick R p reason queued =>
      match s.rooms[R]? with
      | none => s
      | some r => if r.place.calling = true ∧ s.dying = false then s.kick R r p reason queued else s
    | .finish R => s.onRoom R RoomProc.finish

/-- A room walks its players. -/
def Valid (s : Server) : ServerAction → Prop
  | .deliver R order => ∀ r ∈ s.rooms[R]?, r.room.IsOrder order
  | _ => True

instance (s : Server) : (a : ServerAction) → Decidable (s.Valid a)
  | .deliver R order => inferInstanceAs (Decidable (∀ r ∈ s.rooms[R]?, r.room.IsOrder order))
  | .frame .. | .send | .dead | .visit _ | .cleared | .take _ | .handle _ | .check _ | .timer _ |
    .tick .. | .leave .. | .remove _ | .kick .. | .finish _ => .isTrue trivial

end Server

end SoupEngine.Sdk
