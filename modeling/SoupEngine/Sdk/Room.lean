import SoupEngine.Sdk.Jitter

/-!
# A room of the SDK

The room goroutine handles the events of its inbox one after the other and delivers input once a
tick. What it does to the outside comes as a list of operations, in order.
-/

namespace SoupEngine.Sdk

def ChInput : U8 := 1

inductive LeaveReason
  | LeaveTimeout
  | LeaveKicked
  | LeaveQuit
  | LeaveDisconnect
  deriving DecidableEq

def mapLeaveReason (reason : U8) : LeaveReason :=
  if reason = 1 then .LeaveTimeout else if reason = 2 then .LeaveKicked else .LeaveQuit

/-- The events of the inbox; `routeToRoom` has filled in the player. -/
inductive InEvent
  | inOpen (sess : U64) (player : PlayerID)
  | inClose (player : PlayerID) (reason : U8)
  | inResume (player : PlayerID) (gapMS : U32)
  | inData (player : PlayerID) (ch : U8) (msg : U16) (payload : Bytes) (raw : BufId)
  | inStats (player : PlayerID) (rtt loss : U16)
  | inOverload

/-- What a room does to the outside. -/
inductive RoomOp
  /-- `readPool.Put`. -/
  | put (b : BufId)
  | onInput (player : PlayerID) (seq : InputSeq) (payload : Bytes) (raw : Option BufId)
  | onJoin (player : PlayerID)
  | onLeave (player : PlayerID) (why : LeaveReason)
  | onResume (player : PlayerID) (gapMS : U32)
  /-- `Server.removeSession`. -/
  | removeSession (sess : U64)
  /-- `Server.sendKick`. -/
  | sendKick (sess : U64) (reason : U8)
  deriving DecidableEq

structure Room where
  JitterBufferTicks : ℕ
  BaselineRingSize : ℕ
  players : Map PlayerID PState
  sessOf : Map U64 PlayerID
  tick : Tick
  stopReq : Bool
  overload : Bool

namespace Room

/-- A new room. -/
def new (JitterBufferTicks BaselineRingSize : ℕ) : Room :=
  ⟨JitterBufferTicks, BaselineRingSize, ∅, ∅, 0, false, false⟩

/-- The state of a player who has just joined. -/
def joined (r : Room) (sess : U64) : PState where
  sess
  rtt := 0
  loss := 0
  lastSeq := 0
  hasInput := false
  jbuf := []
  jcap := r.JitterBufferTicks * 4 + 4
  jdepth := r.JitterBufferTicks
  lastPayload := List.replicate lastPayloadCap 0
  lastPayloadLen := 0
  lastRecvSnap := 0
  baselineRing := []
  baselineCap := r.BaselineRingSize
  bytesOut := 0
  degrade := 0
  forceKeyframe := false

/-- The state of a player when one of the player's inputs is put in the buffer. -/
def atInput (r : Room) (st : PState) (payload : Bytes) : PState :=
  { st with
    lastRecvSnap := (fromLe 16 (slice payload 6 8)).setWidth 32
    jdepth := jitterDepth r.JitterBufferTicks st.rtt }

/-- The input in a packet. -/
def inputEntry (r : Room) (st : PState) (payload : Bytes) (raw : BufId) : JitterEntry where
  clientTick := fromLe 32 (slice payload 0 4)
  seq := fromLe 16 (slice payload 4 6)
  payload := payload.drop inputHeaderLen
  raw := some raw
  due := r.tick + BitVec.ofNat 32 st.jdepth

def handleCh1Input (r : Room) (player : PlayerID) (payload : Bytes) (raw : BufId) :
    Room × List RoomOp :=
  match r.players[player]? with
  | none => (r, [.put raw])
  | some st =>
    if payload.length < inputHeaderLen then
      (r, [.put raw])
    else
      let st := r.atInput st payload
      let (st, puts, _) := st.insertJitter (r.inputEntry st payload raw)
      ({ r with players := r.players.insert player st }, puts.map .put)

/-- The state of a player who is back: the buffer is emptied and the numbers start over. -/
def resumed (st : PState) : PState :=
  { st with baselineRing := [], jbuf := [], lastSeq := 0, hasInput := false }

def handleEvent (r : Room) : InEvent → Room × List RoomOp
  | .inOpen sess player =>
    if player ∈ r.players then (r, [])
    else
      ({ r with
        players := r.players.insert player (r.joined sess)
        sessOf := r.sessOf.insert sess player }, [.onJoin player])
  | .inClose player reason =>
    match r.players[player]? with
    | none => (r, [])
    | some st =>
      let players := r.players.erase player
      ({ r with
        players
        sessOf := r.sessOf.erase st.sess
        stopReq := r.stopReq || players.isEmpty },
        [.removeSession st.sess, .onLeave player (mapLeaveReason reason)])
  | .inResume player gapMS =>
    match r.players[player]? with
    | none => (r, [])
    | some st =>
      ({ r with players := r.players.insert player (resumed st) }, [.onResume player gapMS])
  | .inData player ch msg payload raw =>
    if ch = ChInput then r.handleCh1Input player payload raw
    else if player ∈ r.players then (r, [.onInput player msg payload (some raw), .put raw])
    else (r, [])
  | .inStats player rtt loss =>
    match r.players[player]? with
    | none => (r, [])
    | some st =>
      let st := { st with rtt, loss }
      ({ r with players := r.players.insert player st }, [])
  | .inOverload => ({ r with overload := true }, [])

/-- `RoomCtx.Kick`, which the implementation of the room may call whenever it runs. -/
def kick (r : Room) (p : PlayerID) (reason : U8) : Room × List RoomOp :=
  match r.players[p]? with
  | none => (r, [])
  | some st =>
    let players := r.players.erase p
    ({ r with
      players
      sessOf := r.sessOf.erase st.sess
      stopReq := r.stopReq || players.isEmpty },
      [.sendKick st.sess reason, .removeSession st.sess, .onLeave p .LeaveKicked])

/-- The loop of `deliverReadyInputs` over the players, in the order in which Go walks the map. -/
def drainPlayers : List PlayerID → Room → Room × List PendingDeliver × List BufId
  | [], r => (r, [], [])
  | p :: ps, r =>
    match r.players[p]? with
    | none => drainPlayers ps r
    | some st =>
      let (st', pend, puts) := st.deliver r.tick p
      let (r', pend', puts') := drainPlayers ps { r with players := r.players.insert p st' }
      (r', pend ++ pend', puts ++ puts')

def onInputOf (d : PendingDeliver) : RoomOp := .onInput d.player d.seq d.payload d.raw

/-- Deliver what is due, or panic in the sort. -/
def deliverReadyInputs (r : Room) (order : List PlayerID) : Option (Room × List RoomOp) :=
  let (r', pend, puts) := r.drainPlayers order
  (sortPending pend).map fun pend => (r', puts.map .put ++ pend.map onInputOf)

/-- The map of players is walked in this order. -/
def IsOrder (r : Room) (order : List PlayerID) : Prop :=
  order.Nodup ∧ ∀ p, p ∈ order ↔ p ∈ r.players

end Room

end SoupEngine.Sdk
