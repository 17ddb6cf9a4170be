import SoupEngine.Lib.Staging
import SoupEngine.Sdk.Buffer
import SoupEngine.Sdk.Snapshot

/-!
# The order of the output of a room

`Commit` puts a frame in `outFrames`, which `flushOutbox` hands to the outbox at the end of a tick,
of a resume and of `stop`; the Kick frames of `RoomCtx.Kick` and of `stop` go to the outbox at once.
The outbox takes or drops each of them. `output_in_order_iff`: so the frames for every session are
in the order of their issue exactly if no Kick frame that the outbox takes is sent while it is going
to take a staged one for the session.
-/

namespace SoupEngine.Sdk

open TransitionSystem Staging

/-- A call of a method of `RoomCtx`. Buffers are numbered. -/
inductive CtxCall
  | BeginSend (b : ℕ) (p : PlayerID)
  | BeginMulticast (b : ℕ) (players : List PlayerID)
  /-- The map of players is walked in this order. -/
  | BeginBroadcast (b : ℕ) (order : List PlayerID)
  | Commit (b : ℕ)
  | Abort (b : ℕ)
  | Kick (p : PlayerID) (reason : U8)
  | RequestKeyframe (p : PlayerID)
  | End

/-- What of a `Buffer` the order of the output depends on. -/
structure Draft where
  sessions : List U64
  closed : Bool
  invalid : Bool

/-- Where the goroutine of a room is. -/
inductive Phase
  /-- In the `select` of `run`. -/
  | select
  /-- `OnJoin`, `OnLeave`, `OnInput` or `OnResume` is called by `handleEvent`, in `drainInbox` if
  `drain`. -/
  | callback (drain : Bool)
  /-- `EncodeFullState` is called with this buffer. -/
  | full (drain : Bool) (b : ℕ)
  | drain
  /-- In the calls of `OnInput` and of `Tick`. -/
  | tick
  /-- In `scheduleSnapshots`, before these players. -/
  | snapshot (rest : List PlayerID)
  /-- `EncodeSnapshot` is called with this buffer. -/
  | encode (p : PlayerID) (b : ℕ) (rest : List PlayerID)
  /-- Before `flushOutbox` of `doTick`. -/
  | flush
  | stopping
  /-- In the loop of `stop`, before these players. -/
  | stop (rest : List PlayerID)
  /-- `OnLeave` is called in `stop`, for the player of this session. -/
  | leaving (sess : U64) (rest : List PlayerID)
  | over

/-- The implementation of the room is running. -/
def Phase.calling : Phase → Bool
  | .callback _ | .full .. | .tick | .encode .. | .leaving .. => true
  | _ => false

/-- The operation calls the implementation of the room. -/
def RoomOp.isCall : RoomOp → Bool
  | .onInput .. | .onJoin _ | .onLeave .. | .onResume .. => true
  | _ => false

/-- What the operation sends. -/
def RoomOp.frame : RoomOp → Option (Op U64)
  | .sendKick sess _ => some (.direct [sess])
  | _ => none

/-- The goroutine of a room, with the buffers that have been begun. -/
structure Desk where
  room : Room
  drafts : ℕ → Option Draft
  phase : Phase

inductive DeskAction
  /-- An event is received. The buffer is the one of the full state. -/
  | event (ev : InEvent) (b : ℕ)
  | timer
  | deliver (order : List PlayerID)
  | call (c : CtxCall)
  /-- The implementation of the room returns. It has written so many bytes of a snapshot. -/
  | ret (written : ℕ)
  /-- `Tick` returns, with `End` if `out`. -/
  | tick (out : Bool) (order : List PlayerID)
  | snapshot (b : ℕ)
  | settle
  /-- `flushOutbox` of `doTick`; `advance` makes one tick `more`. -/
  | flush (more : Bool)
  | stop (order : List PlayerID)
  | leave

namespace Desk

def new (JitterBufferTicks BaselineRingSize : ℕ) : Desk :=
  ⟨.new JitterBufferTicks BaselineRingSize, fun _ => none, .select⟩

/-- `Begin*`. -/
def draft (d : Desk) (b : ℕ) (sessions : List U64) (invalid : Bool) : Desk :=
  { d with drafts := Function.update d.drafts b (some ⟨sessions, false, invalid⟩) }

/-- `Commit`. -/
def commit (d : Desk) (b : ℕ) : Desk × List (Op U64) :=
  match d.drafts b with
  | none => (d, [])
  | some x =>
    if x.closed = true then (d, [])
    else
      ({ d with drafts := Function.update d.drafts b (some { x with closed := true }) },
        if x.invalid = true then [] else [.stage x.sessions])

def abort (d : Desk) (b : ℕ) : Desk :=
  { d with
    drafts := Function.update d.drafts b ((d.drafts b).map fun x => { x with closed := true }) }

/-- A call, with the frames that it stages or sends. -/
def call (d : Desk) : CtxCall → Desk × List (Op U64)
  | .BeginSend b p => (d.draft b (d.room.sessions [p]) (decide (p ∉ d.room.players)), [])
  | .BeginMulticast b players =>
    (d.draft b (d.room.sessions players) (players.all fun p => decide (p ∉ d.room.players)), [])
  | .BeginBroadcast b order => (d.draft b (d.room.sessions order) d.room.players.isEmpty, [])
  | .Commit b => d.commit b
  | .Abort b => (d.abort b, [])
  | .Kick p reason =>
    ({ d with room := (d.room.kick p reason).1 }, (d.room.kick p reason).2.filterMap RoomOp.frame)
  | .RequestKeyframe p => ({ d with room := d.room.requestKeyframe p }, [])
  | .End => ({ d with room := { d.room with stopReq := true } }, [])

/-- `handleEvent`, to the first call of the implementation. -/
def handleEvent (d : Desk) (drain : Bool) (ev : InEvent) (b : ℕ) : Desk :=
  let r := d.room.handleEvent ev
  match ev with
  | .inResume p _ =>
    if p ∈ d.room.players then
      let d := d.draft b (d.room.sessions [p]) false
      { d with room := r.1, phase := .full drain b }
    else d
  | _ => { d with room := r.1, phase := if r.2.any RoomOp.isCall then .callback drain else d.phase }

/-- The end of an event or of `advance`, in `run`. -/
def turn (d : Desk) : Desk :=
  { d with phase := if d.room.stopReq = true then .stopping else .select }

/-- The implementation returns. -/
def ret (d : Desk) (written : ℕ) : Desk × List (Op U64) :=
  match d.phase with
  | .callback drain => (if drain = true then { d with phase := .drain } else d.turn, [])
  | .full drain b =>
    let r := d.commit b
    ({ r.1 with phase := .callback drain }, r.2 ++ [.flush])
  | .encode p b rest =>
    let r := d.commit b
    let players := d.room.players.modify p fun st => st.sent d.room.tick written
    ({ r.1 with room := { d.room with players }, phase := .snapshot rest }, r.2)
  | .leaving sess rest => ({ d with phase := .stop rest }, [.direct [sess]])
  | _ => (d, [])

variable (cfg : SnapshotConfig)

/-- The end of `Tick`, and the beginning of `scheduleSnapshots`. A division by zero panics. -/
def ticked (d : Desk) (out : Bool) (order : List PlayerID) : Desk :=
  let room := { d.room with stopReq := d.room.stopReq || out }
  let every := room.snapshotEvery cfg
  let phase : Phase :=
    if every ≤ 0 then .flush
    else if uint32 every = 0 then .over
    else if room.tick % uint32 every ≠ 0 then .flush
    else if 0 < cfg.KeyframeIntervalTicks ∧ uint32 cfg.KeyframeIntervalTicks = 0 then .over
    else .snapshot order
  { d with room, phase }

/-- The end of `scheduleSnapshots`. -/
def settled (d : Desk) : Desk :=
  if cfg.TickHz ≤ 0 then { d with phase := .flush }
  else if uint32 cfg.TickHz = 0 then { d with phase := .over }
  else if d.room.tick % uint32 cfg.TickHz = 0 then
    { d with room := d.room.settleDegrade cfg, phase := .flush }
  else { d with phase := .flush }

/-- One step, with the frames that it stages, sends or hands to the outbox. -/
def act (d : Desk) : DeskAction → Desk × List (Op U64)
  | .event ev b =>
    match d.phase with
    | .select => (d.handleEvent false ev b, [])
    | .drain => (d.handleEvent true ev b, [])
    | _ => (d, [])
  | .timer =>
    match d.phase with
    | .select => ({ d with phase := .drain }, [])
    | _ => (d, [])
  | .deliver order =>
    match d.phase with
    | .drain =>
      match d.room.deliverReadyInputs order with
      | none => ({ d with phase := .over }, [])
      | some (room, _) => ({ d with room, phase := .tick }, [])
    | _ => (d, [])
  | .call c => if d.phase.calling = true then d.call c else (d, [])
  | .ret written => d.ret written
  | .tick out order =>
    match d.phase with
    | .tick => (d.ticked cfg out order, [])
    | _ => (d, [])
  | .snapshot b =>
    match d.phase with
    | .snapshot (p :: rest) =>
      if p ∈ d.room.players then
        let d := d.draft b (d.room.sessions [p]) false
        ({ d with phase := .encode p b rest }, [])
      else ({ d with phase := .snapshot rest }, [])
    | _ => (d, [])
  | .settle =>
    match d.phase with
    | .snapshot [] => (d.settled cfg, [])
    | _ => (d, [])
  | .flush more =>
    match d.phase with
    | .flush =>
      let d := { d with room := { d.room with tick := d.room.tick + 1 } }
      (if more = true then { d with phase := .drain } else d.turn, [.flush])
    | _ => (d, [])
  | .stop order =>
    match d.phase with
    | .stopping => ({ d with phase := .stop order }, [])
    | _ => (d, [])
  | .leave =>
    match d.phase with
    | .stop [] => ({ d with phase := .over }, [.flush])
    | .stop (p :: rest) =>
      match d.room.players[p]? with
      | none => ({ d with phase := .stop rest }, [])
      | some st => ({ d with phase := .leaving st.sess rest }, [])
    | _ => (d, [])

end Desk

/-! ## The room and the outbox -/

/-- A room with `outFrames` and the outbox. -/
structure Office where
  desk : Desk
  /-- `staged` is `outFrames`, and `queue` is what the outbox has taken. -/
  out : Stage U64

namespace Office

def new (JitterBufferTicks BaselineRingSize : ℕ) : Office :=
  ⟨.new JitterBufferTicks BaselineRingSize, start⟩

variable (cfg : SnapshotConfig) (takes : ℕ → Bool)

/-- `takes` says which frames the outbox takes. -/
def step (s : Office) (a : DeskAction) : Office :=
  ⟨(s.desk.act cfg a).1, (s.desk.act cfg a).2.foldl (Staging.step takes) s.out⟩

/-- No staged frame that the outbox is going to take is for the session. -/
def Unstaged (s : Office) (sess : U64) : Prop := ∀ e ∈ taken takes s.out.staged, sess ∉ e.keys

/-- No Kick frame that the outbox takes is sent while a staged frame for the session waits: by
`RoomCtx.Kick`, or by `stop` behind a call of `OnLeave`. -/
def Patient (s : Office) : DeskAction → Prop
  | .call (.Kick p _) =>
    s.desk.phase.calling = true → takes s.out.next = true →
      ∀ st : PState, s.desk.room.players[p]? = some st → s.Unstaged takes st.sess
  | .ret _ =>
    takes s.out.next = true → ∀ sess rest, s.desk.phase = .leaving sess rest → s.Unstaged takes sess
  | _ => True

variable {cfg} {takes} {s : Office}

theorem behind_direct {sess : U64} :
    Behind takes s.out (.direct [sess]) ↔ (takes s.out.next = true → s.Unstaged takes sess) := by
  refine imp_congr_right fun _ => forall₂_congr fun e _ => ?_
  constructor
  · intro h
    exact h sess (List.mem_singleton_self sess)
  · intro h k hk
    rw [List.mem_singleton.1 hk]
    exact h

theorem call_kick_none {d : Desk} {p : PlayerID} (reason : U8) (h : d.room.players[p]? = none) :
    (d.call (.Kick p reason)).2 = [] := by
  unfold Desk.call Room.kick
  dsimp only
  rw [h]
  rfl

theorem call_kick_some {d : Desk} {p : PlayerID} (reason : U8) {st : PState}
    (h : d.room.players[p]? = some st) : (d.call (.Kick p reason)).2 = [.direct [st.sess]] := by
  unfold Desk.call Room.kick
  dsimp only
  rw [h]
  rfl

/-- What a commit stages goes past nothing. -/
theorem behind_commit (d : Desk) (b : ℕ) {op : Op U64} (hop : op ∈ (d.commit b).2) (x : Stage U64) :
    Behind takes x op := by
  unfold Desk.commit at hop
  split at hop
  · exact absurd hop List.not_mem_nil
  · split_ifs at hop
    · exact absurd hop List.not_mem_nil
    · exact absurd hop List.not_mem_nil
    · rw [List.mem_singleton.1 hop]
      trivial

/-- `RoomCtx.Kick` goes past no staged frame exactly if it is patient. -/
theorem patient_kick_iff (p : PlayerID) (reason : U8) :
    s.Patient takes (.call (.Kick p reason)) ↔
      Allowed (Staging.step takes) (Behind takes) s.out
        (s.desk.act cfg (.call (.Kick p reason))).2 := by
  unfold Desk.act
  dsimp only [Patient]
  split_ifs with hcalling
  · cases hp : s.desk.room.players[p]? with
    | none =>
      rw [call_kick_none reason hp]
      exact iff_of_true (fun _ _ st h => nomatch h) trivial
    | some st =>
      rw [call_kick_some reason hp]
      refine Iff.trans ?_ (and_iff_left trivial).symm
      rw [behind_direct]
      constructor
      · intro h htake
        exact h hcalling htake st rfl
      · rintro h - htake st' hst'
        rw [← Option.some.inj hst']
        exact h htake
  · exact iff_of_true (fun h => absurd h hcalling) trivial

/-- A call of the implementation returns; behind `OnLeave` a Kick frame may be sent. -/
theorem patient_ret_iff (written : ℕ) :
    s.Patient takes (.ret written) ↔
      Allowed (Staging.step takes) (Behind takes) s.out (s.desk.act cfg (.ret written)).2 := by
  unfold Desk.act Desk.ret
  cases hphase : s.desk.phase with
  | leaving sess rest =>
    refine Iff.trans ?_ (and_iff_left trivial).symm
    rw [behind_direct]
    constructor
    · intro h htake
      exact h htake sess rest hphase
    · intro h htake sess' rest' heq
      rw [hphase] at heq
      cases heq
      exact h htake
  | full drain b =>
    refine iff_of_true (fun _ sess rest h => ?_) ?_
    · rw [hphase] at h
      cases h
    · refine allowed_of_forall (fun op hop x => ?_) s.out
      rcases List.mem_append.1 hop with hop | hop
      · exact behind_commit s.desk b hop x
      · rw [List.mem_singleton.1 hop]
        trivial
  | encode p b rest =>
    refine iff_of_true (fun _ sess rest h => ?_) ?_
    · rw [hphase] at h
      cases h
    · exact allowed_of_forall (fun op hop => behind_commit s.desk b hop) s.out
  | _ =>
    refine iff_of_true (fun _ sess rest h => ?_) trivial
    rw [hphase] at h
    cases h

/-- A step goes past no staged frame exactly if it is patient. -/
theorem patient_iff (a : DeskAction) :
    s.Patient takes a ↔ Allowed (Staging.step takes) (Behind takes) s.out (s.desk.act cfg a).2 := by
  cases a with
  | call c =>
    cases c with
    | Kick p reason => exact patient_kick_iff p reason
    | Commit b =>
      unfold Desk.act
      refine iff_of_true trivial ?_
      split_ifs
      · exact allowed_of_forall (fun op hop => behind_commit s.desk b hop) s.out
      · trivial
    | _ =>
      unfold Desk.act
      refine iff_of_true trivial ?_
      split_ifs <;> trivial
  | ret written => exact patient_ret_iff written
  | flush more =>
    refine iff_of_true trivial ?_
    unfold Desk.act
    dsimp only
    split
    · exact ⟨trivial, trivial⟩
    · trivial
  | leave =>
    refine iff_of_true trivial ?_
    unfold Desk.act
    dsimp only
    split
    · exact ⟨trivial, trivial⟩
    · split <;> trivial
    · trivial
  | event ev b =>
    refine iff_of_true trivial ?_
    unfold Desk.act
    dsimp only
    split <;> trivial
  | timer =>
    refine iff_of_true trivial ?_
    unfold Desk.act
    dsimp only
    split <;> trivial
  | deliver order =>
    refine iff_of_true trivial ?_
    unfold Desk.act
    dsimp only
    split
    · split <;> trivial
    · trivial
  | tick out order =>
    refine iff_of_true trivial ?_
    unfold Desk.act
    dsimp only
    split <;> trivial
  | snapshot b =>
    refine iff_of_true trivial ?_
    unfold Desk.act
    dsimp only
    split
    · split_ifs <;> trivial
    · trivial
  | settle =>
    refine iff_of_true trivial ?_
    unfold Desk.act
    dsimp only
    split <;> trivial
  | stop order =>
    refine iff_of_true trivial ?_
    unfold Desk.act
    dsimp only
    split <;> trivial

/-- All along a run of a room the frames for every session get to the outbox in the order of their
issue if and only if every step is patient. -/
theorem output_in_order_iff (cfg : SnapshotConfig) (JitterBufferTicks BaselineRingSize : ℕ)
    (takes : ℕ → Bool) (xs : List DeskAction) :
    (∀ n, InOrder takes
      ((xs.take n).foldl (step cfg takes) (new JitterBufferTicks BaselineRingSize)).out) ↔
      Allowed (step cfg takes) (Patient takes) (new JitterBufferTicks BaselineRingSize) xs := by
  apply forall_take_iff_allowed (P := fun s : Office => InOrder takes s.out)
    (I := fun s => InOrder takes s.out) (K := fun s => Numbered s.out)
  · exact inOrder_start
  · exact numbered_start
  · exact fun _ h => h
  · exact fun s a hn => hn.foldl _
  · exact fun s a hn h ha => (inOrder_iff hn h).2 ((patient_iff a).1 ha)
  · exact fun s a hn h hnext => (patient_iff a).2 ((inOrder_iff hn h).1 hnext)

/-- 20 ticks a second, with a snapshot each. -/
def snapshots20 : SnapshotConfig := ⟨20, 20, 100, 0⟩

/-- Player 1 joins with session 7. In the first `Tick` a message to the player is committed, and
then the player is kicked. -/
def farewellRun : List DeskAction :=
  [.event (.inOpen 7 1) 0, .ret 0, .timer, .deliver [1], .call (.BeginSend 0 1), .call (.Commit 0),
    .call (.Kick 1 0), .tick false [], .settle, .flush false]

def farewell : Office := farewellRun.foldl (step snapshots20 fun _ => true) (new 2 32)

/-- Player 1 joins and the room ends. A message to the player is committed in `OnLeave`. -/
def goodbyeRun : List DeskAction :=
  [.event (.inOpen 7 1) 0, .call .End, .ret 0, .stop [1], .leave, .call (.BeginSend 0 1),
    .call (.Commit 0), .ret 0, .leave]

def goodbye : Office := goodbyeRun.foldl (step snapshots20 fun _ => true) (new 2 32)

/-- In both runs the outbox gets the Kick frame before the message. -/
theorem kick_overtakes : ¬ InOrder (fun _ => true) farewell.out ∧
    ¬ InOrder (fun _ => true) goodbye.out := by
  constructor
  · intro h
    exact absurd (h 7) (by decide +kernel)
  · intro h
    exact absurd (h 7) (by decide +kernel)

/-- The frames do not get to the outbox in order in every run. -/
theorem output_out_of_order :
    ¬ ∀ (cfg : SnapshotConfig) (J B : ℕ) (takes : ℕ → Bool) (xs : List DeskAction),
      InOrder takes (xs.foldl (step cfg takes) (new J B)).out :=
  fun h => kick_overtakes.1 (h snapshots20 2 32 (fun _ => true) farewellRun)

end Office

end SoupEngine.Sdk
