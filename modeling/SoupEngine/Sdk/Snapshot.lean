import SoupEngine.Sdk.Run

/-!
# Snapshots

After `Tick` a room schedules snapshots. For every player it keeps the ticks of the last snapshots
in a ring, and the snapshot tick that the player's input reports; a report that is in the ring
becomes the baseline of the next snapshot.

Beside the room a run keeps marks, for every player, of what the baselines are about.
-/

namespace SoupEngine.Sdk

/-- What of the configuration the snapshots use. An `int` has 64 bits. -/
structure SnapshotConfig where
  TickHz : Int64
  SnapshotHz : Int64
  KeyframeIntervalTicks : Int64
  BudgetKbpsPerClient : Int64

structure Baseline where
  Tick : Tick
  Valid : Bool
  deriving DecidableEq

/-- A snapshot that is committed: its header, and the baseline that `EncodeSnapshot` is called
with. -/
structure Snapshot where
  player : PlayerID
  tick : Tick
  lastSeq : InputSeq
  baseline : Baseline
  deriving DecidableEq

/-- `uint32` of an `int`. -/
def uint32 (x : Int64) : U32 := x.toBitVec.setWidth 32

def snapshotHeaderLen : ℕ := 6

namespace PState

def baselineHas (st : PState) (t : Tick) : Bool := decide (t ∈ st.baselineRing)

def pushBaseline (st : PState) (t : Tick) : PState :=
  let ring := st.baselineRing ++ [t]
  { st with baselineRing := if st.baselineCap < ring.length then ring.tail else ring }

/-- The baseline of the next snapshot. -/
def baseline (st : PState) (forceKey : Bool) : Baseline :=
  if forceKey = true ∨ st.forceKeyframe = true then ⟨0, false⟩
  else if st.baselineHas st.lastRecvSnap = true then ⟨st.lastRecvSnap, true⟩
  else ⟨0, false⟩

/-- A snapshot for which `EncodeSnapshot` has written so many bytes is sent to the player. -/
def sent (st : PState) (t : Tick) (written : ℕ) : PState :=
  let st := { st with forceKeyframe := false }.pushBaseline t
  { st with bytesOut := st.bytesOut + BitVec.ofNat 32 (snapshotHeaderLen + written) }

/-- One round of `settleDegrade`. -/
def settle (budget : U32) (st : PState) : PState :=
  let kbps := st.bytesOut * 8 / 1024
  let degrade :=
    if 0 < budget then
      if budget < kbps ∧ st.degrade < 2 then st.degrade + 1
      else if kbps ≤ budget / 2 ∧ 0 < st.degrade then st.degrade - 1
      else st.degrade
    else st.degrade
  { st with bytesOut := 0, degrade }

end PState

namespace Room

variable (cfg : SnapshotConfig)

/-- `hz /= 2`, so many times. -/
def halve : ℕ → Int64 → Int64
  | 0, hz => hz
  | n + 1, hz => halve n (hz / 2)

def maxDeg (r : Room) : ℕ := (r.players.toList.map fun e => e.2.degrade).foldl max 0

def snapshotHz (r : Room) : Int64 :=
  if cfg.SnapshotHz ≤ 0 then 0
  else
    let hz := if r.overload = true then cfg.SnapshotHz / 2 else cfg.SnapshotHz
    let hz := halve r.maxDeg hz
    if hz < 1 then 1 else hz

def snapshotEvery (r : Room) : Int64 :=
  let hz := cfg.TickHz
  let shz := r.snapshotHz cfg
  if shz ≤ 0 ∨ hz ≤ 0 then 1
  else if hz ≤ shz then 1
  else (hz + shz - 1) / shz

def settleDegrade (r : Room) : Room :=
  { r with players := r.players.map fun _ st => st.settle (uint32 cfg.BudgetKbpsPerClient) }

/-- The snapshots of a tick, in the order in which Go walks the map. -/
def snapshots (r : Room) (forceKey : Bool) (order : List PlayerID) : List Snapshot :=
  order.filterMap fun p => (r.players[p]?).map fun st =>
    ⟨p, r.tick, st.lastSeq, st.baseline forceKey⟩

/-- A full snapshot is due for everyone. -/
def forceKey (r : Room) : Bool :=
  decide (0 < cfg.KeyframeIntervalTicks ∧ r.tick % uint32 cfg.KeyframeIntervalTicks = 0)

/-- `scheduleSnapshots`: what is committed, and the room unless a division by zero panics. -/
def scheduleSnapshots (r : Room) (order : List PlayerID) (written : PlayerID → ℕ) :
    List Snapshot × Option Room :=
  let every := r.snapshotEvery cfg
  if every ≤ 0 then ([], some r)
  else if uint32 every = 0 then ([], none)
  else if r.tick % uint32 every ≠ 0 then ([], some r)
  else if 0 < cfg.KeyframeIntervalTicks ∧ uint32 cfg.KeyframeIntervalTicks = 0 then ([], none)
  else
    let out := r.snapshots (r.forceKey cfg) order
    let r := { r with players := r.players.map fun p st => st.sent r.tick (written p) }
    if cfg.TickHz ≤ 0 then (out, some r)
    else if uint32 cfg.TickHz = 0 then (out, none)
    else if r.tick % uint32 cfg.TickHz = 0 then (out, some (r.settleDegrade cfg))
    else (out, some r)

/-- `RoomCtx.RequestKeyframe`. -/
def requestKeyframe (r : Room) (p : PlayerID) : Room :=
  match r.players[p]? with
  | none => r
  | some st => { r with players := r.players.insert p { st with forceKeyframe := true } }

/-- Snapshots are scheduled in this tick. -/
def Due (r : Room) : Prop :=
  ¬ r.snapshotEvery cfg ≤ 0 ∧ uint32 (r.snapshotEvery cfg) ≠ 0 ∧
    r.tick % uint32 (r.snapshotEvery cfg) = 0 ∧
    ¬ (0 < cfg.KeyframeIntervalTicks ∧ uint32 cfg.KeyframeIntervalTicks = 0)

variable {cfg} {r : Room} {order : List PlayerID} {written : PlayerID → ℕ}

/-- Nobody is degraded. -/
theorem maxDeg_eq_zero (h : ∀ (p : PlayerID) (st : PState), r.players[p]? = some st →
    st.degrade = 0) :
    r.maxDeg = 0 := by
  have hzero : ∀ l : List ℕ, (∀ x ∈ l, x = 0) → l.foldl max 0 = 0 := by
    intro l hl
    induction l with
    | nil => rfl
    | cons x xs ih =>
      rw [List.foldl_cons, hl x List.mem_cons_self]
      exact ih fun y hy => hl y (List.mem_cons_of_mem _ hy)
  refine hzero _ fun x hx => ?_
  obtain ⟨⟨p, st⟩, he, rfl⟩ := List.mem_map.1 hx
  exact h p st (Std.ExtTreeMap.mem_toList_iff_getElem?_eq_some.1 he)

/-- A walk comes to a player once. -/
theorem filter_snapshots (hn : order.Nodup) (k : Bool) {q : PlayerID} {st : PState} (hq : q ∈ order)
    (hst : r.players[q]? = some st) :
    ((r.snapshots k order).filter fun x => x.player = q) =
      [⟨q, r.tick, st.lastSeq, st.baseline k⟩] := by
  have hpass (p : PlayerID) (ps : List PlayerID) (hpq : p ≠ q) :
      ((r.snapshots k (p :: ps)).filter fun x => x.player = q) =
        (r.snapshots k ps).filter fun x => x.player = q := by
    unfold snapshots
    cases hp : r.players[p]? with
    | none => simp [hp]
    | some st' => simp [hp, hpq]
  induction order with
  | nil => exact absurd hq List.not_mem_nil
  | cons p ps ih =>
    by_cases hpq : p = q
    · subst hpq
      have hrest : ((r.snapshots k ps).filter fun x => x.player = p) = [] := by
        refine List.filter_eq_nil_iff.2 fun x hx hp => ?_
        obtain ⟨p', hp', heq⟩ := List.mem_filterMap.1 hx
        obtain ⟨st', -, rfl⟩ := Option.map_eq_some_iff.1 heq
        exact (List.nodup_cons.1 hn).1 (of_decide_eq_true hp ▸ hp')
      unfold snapshots at hrest ⊢
      rw [List.filterMap_cons, hst]
      simp only [Option.map_some, List.filter_cons, decide_true, if_true]
      rw [hrest]
    · rw [hpass p ps hpq]
      exact ih (List.nodup_cons.1 hn).2 ((List.mem_cons.1 hq).resolve_left fun h => hpq h.symm)

theorem scheduleSnapshots_idle (h : ¬ r.Due cfg) :
    (r.scheduleSnapshots cfg order written).1 = [] ∧
      ∀ r' ∈ (r.scheduleSnapshots cfg order written).2, r' = r := by
  unfold Due at h
  unfold scheduleSnapshots
  dsimp only
  split_ifs with h1 h2 h3 h4
  · exact ⟨rfl, fun r' hr => (Option.some.inj hr).symm⟩
  · exact ⟨rfl, fun r' hr => nomatch hr⟩
  · exact ⟨rfl, fun r' hr => (Option.some.inj hr).symm⟩
  · exact ⟨rfl, fun r' hr => nomatch hr⟩
  all_goals exact absurd ⟨h1, h2, not_not.1 h3, h4⟩ h

theorem scheduleSnapshots_due (h : r.Due cfg) :
    (r.scheduleSnapshots cfg order written).1 = r.snapshots (r.forceKey cfg) order ∧
      ∀ r' ∈ (r.scheduleSnapshots cfg order written).2, r' = { r with players := r'.players } ∧
        ∃ f : PState → PState, (f = id ∨ f = PState.settle (uint32 cfg.BudgetKbpsPerClient)) ∧
          ∀ q : PlayerID, r'.players[q]? = (r.players[q]?).map fun st =>
            f (st.sent r.tick (written q)) := by
  obtain ⟨h1, h2, h3, h4⟩ := h
  unfold scheduleSnapshots
  dsimp only
  rw [if_neg h1, if_neg h2, if_neg (not_not.2 h3), if_neg h4]
  have hsent (q : PlayerID) : (r.players.map fun p st => st.sent r.tick (written p))[q]? =
      (r.players[q]?).map fun st => st.sent r.tick (written q) := Std.ExtTreeMap.getElem?_map
  split_ifs
  · refine ⟨rfl, fun r' hr => ?_⟩
    obtain rfl := Option.some.inj hr
    exact ⟨rfl, id, Or.inl rfl, hsent⟩
  · exact ⟨rfl, fun r' hr => nomatch hr⟩
  · refine ⟨rfl, fun r' hr => ?_⟩
    obtain rfl := Option.some.inj hr
    refine ⟨rfl, _, Or.inr rfl, fun q => ?_⟩
    unfold settleDegrade
    rw [Std.ExtTreeMap.getElem?_map, hsent, Option.map_map]
    rfl
  · refine ⟨rfl, fun r' hr => ?_⟩
    obtain rfl := Option.some.inj hr
    exact ⟨rfl, id, Or.inl rfl, hsent⟩

end Room

/-! ## Runs -/

/-- What happens to a player, as far as the baselines are concerned. -/
inductive Mark
  | join
  | resume
  /-- An input packet reports the tick of the last snapshot received. -/
  | input (lastRecvSnapshotTick : U16)
  | snapshot (t : Tick)

structure Show where
  room : Room
  /-- The process has panicked. -/
  crashed : Bool
  /-- The marks of every player, the last one first. -/
  marks : PlayerID → List Mark

inductive ShowAction
  | event (ev : InEvent)
  | kick (p : PlayerID) (reason : U8)
  | requestKeyframe (p : PlayerID)
  /-- `deliverReadyInputs`. -/
  | deliver (order : List PlayerID)
  /-- The end of `doTick`, after `Tick`. -/
  | schedule (order : List PlayerID) (written : PlayerID → ℕ)

namespace Show

variable (cfg : SnapshotConfig)

def start (JitterBufferTicks BaselineRingSize : ℕ) : Show :=
  ⟨.new JitterBufferTicks BaselineRingSize, false, fun _ => []⟩

/-- The mark that an event leaves with a player. -/
def markOf (r : Room) (q : PlayerID) : InEvent → List Mark
  | .inOpen _ p => if p = q ∧ p ∉ r.players then [.join] else []
  | .inResume p _ => if p = q ∧ p ∈ r.players then [.resume] else []
  | .inData p ch _ payload _ =>
    if p = q ∧ p ∈ r.players ∧ ch = ChInput ∧ inputHeaderLen ≤ payload.length then
      [.input (fromLe 16 (slice payload 6 8))]
    else []
  | _ => []

/-- One step, with the snapshots that are committed. What walks the players comes to each of them
once. -/
def act (s : Show) (a : ShowAction) : Show × List Snapshot :=
  if s.crashed = true then (s, [])
  else
    match a with
    | .event ev =>
      ({ s with
        room := (s.room.handleEvent ev).1
        marks := fun q => markOf s.room q ev ++ s.marks q }, [])
    | .kick p reason => ({ s with room := (s.room.kick p reason).1 }, [])
    | .requestKeyframe p => ({ s with room := s.room.requestKeyframe p }, [])
    | .deliver order =>
      if s.room.IsOrder order then
        match s.room.deliverReadyInputs order with
        | none => ({ s with crashed := true }, [])
        | some (room, _) => ({ s with room }, [])
      else (s, [])
    | .schedule order written =>
      if s.room.IsOrder order then
        let out := s.room.scheduleSnapshots cfg order written
        match out.2 with
        | none => ({ s with crashed := true }, out.1)
        | some room =>
          let marksOf := fun q => (out.1.filter fun x => x.player = q).map fun x => .snapshot x.tick
          ({ s with
            room := { room with tick := room.tick + 1 }
            marks := fun q => marksOf q ++ s.marks q }, out.1)
      else (s, [])

def run (s : Show) (xs : List ShowAction) : Show := xs.foldl (fun s a => (s.act cfg a).1) s

/-- The step schedules snapshots. -/
def Schedules (s : Show) : ShowAction → Prop
  | .schedule order _ => s.crashed = false ∧ s.room.IsOrder order ∧ s.room.Due cfg
  | _ => False

variable {cfg}

/-- **What is committed**: a snapshot for every player in a step that schedules them. -/
theorem mem_act {s : Show} {a : ShowAction} {x : Snapshot} :
    x ∈ (s.act cfg a).2 ↔ s.Schedules cfg a ∧ ∃ st, s.room.players[x.player]? = some st ∧
      x = ⟨x.player, s.room.tick, st.lastSeq, st.baseline (s.room.forceKey cfg)⟩ := by
  unfold act Schedules
  by_cases hc : s.crashed = true
  · rw [if_pos hc]
    refine iff_of_false List.not_mem_nil ?_
    cases a with
    | schedule order written => exact fun h => absurd hc (by rw [h.1.1]; exact Bool.false_ne_true)
    | _ => exact fun h => h.1
  rw [if_neg hc]
  cases a with
  | event | kick | requestKeyframe => exact iff_of_false List.not_mem_nil fun h => h.1
  | deliver order =>
    refine iff_of_false ?_ fun h => h.1
    dsimp only
    split_ifs
    · split
      · exact List.not_mem_nil
      · exact List.not_mem_nil
    · exact List.not_mem_nil
  | schedule order written =>
    dsimp only
    split_ifs with ho
    · have hout {m : Show × List Snapshot}
          (h : m.2 = (s.room.scheduleSnapshots cfg order written).1) :
          x ∈ m.2 ↔ x ∈ (s.room.scheduleSnapshots cfg order written).1 := by rw [h]
      rw [hout (by split <;> rfl)]
      by_cases hdue : s.room.Due cfg
      · rw [(Room.scheduleSnapshots_due hdue).1]
        unfold Room.snapshots
        rw [List.mem_filterMap]
        constructor
        · rintro ⟨p, -, hp⟩
          obtain ⟨st, hst, rfl⟩ := Option.map_eq_some_iff.1 hp
          exact ⟨⟨Bool.not_eq_true _ ▸ hc, ho, hdue⟩, st, hst, rfl⟩
        · rintro ⟨-, st, hst, hx⟩
          refine ⟨x.player, (ho.2 _).2 ?_, ?_⟩
          · rw [Room.mem_players_iff, hst]
            exact Option.some_ne_none _
          · rw [hst]
            exact congrArg some hx.symm
      · rw [(Room.scheduleSnapshots_idle hdue).1]
        exact iff_of_false List.not_mem_nil fun h => hdue h.1.2.2
    · exact iff_of_false List.not_mem_nil fun h => ho h.1.2.1

end Show

end SoupEngine.Sdk
