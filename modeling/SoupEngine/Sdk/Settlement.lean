import SoupEngine.Sdk.Baselines
import SoupEngine.Sdk.SnapshotRate
import SoupEngine.Lib.Cycle

/-!
# The settlement of bandwidth

`scheduleSnapshots` settles the bandwidth of the players at its end, in the ticks that are multiples
of `TickHz`; but it returns at once in a tick that is no multiple of `snapshotEvery`. So bandwidth
is settled when both periods meet (`Room.Meets`). It is settled once in every `TickHz` ticks, and
the bytes that are settled are those of the last `TickHz` ticks, exactly if that happens in every
`TickHz`-th tick (`everySecond_iff`). At a constant frequency this says that `snapshotEvery` divides
`TickHz` (`onceInEvery_iff_dvd`).
-/

namespace SoupEngine.Sdk

open TransitionSystem Cycle

/-- `TickHz` ticks are a second. -/
def SnapshotConfig.second (cfg : SnapshotConfig) : ℕ := cfg.TickHz.toNatClampNeg

namespace Room

variable (cfg : SnapshotConfig)

/-- Snapshots are scheduled in this tick, and it is a multiple of `TickHz`. -/
def Meets (r : Room) : Prop := r.Due cfg ∧ r.tick % uint32 cfg.TickHz = 0

instance (r : Room) : Decidable (r.Meets cfg) := inferInstanceAs (Decidable (_ ∧ _))

/-- Every player has been sent a snapshot. -/
def sentAll (r : Room) (written : PlayerID → ℕ) : Room :=
  { r with players := r.players.map fun p st => st.sent r.tick (written p) }

variable {cfg} {r r' : Room} {order : List PlayerID} {written : PlayerID → ℕ}

/-- **`settleDegrade` runs** when the periods meet. -/
theorem scheduleSnapshots_meets (hhz : 0 < cfg.TickHz)
    (h : r' ∈ (r.scheduleSnapshots cfg order written).2) :
    r' =
      if r.Meets cfg then (r.sentAll written).settleDegrade cfg
      else if r.Due cfg then r.sentAll written
      else r := by
  by_cases hdue : r.Due cfg
  · have hmeets : r.Meets cfg ↔ r.tick % uint32 cfg.TickHz = 0 := and_iff_right hdue
    obtain ⟨h1, h2, h3, h4⟩ := id hdue
    have hpos : ¬ cfg.TickHz ≤ 0 := by
      rw [Int64.le_iff_toInt_le]
      rw [Int64.lt_iff_toInt_lt] at hhz
      omega
    unfold scheduleSnapshots at h
    dsimp only at h
    rw [if_neg h1, if_neg h2, if_neg (not_not.2 h3), if_neg h4, if_neg hpos] at h
    simp only [hmeets, if_pos hdue]
    by_cases hzero : uint32 cfg.TickHz = 0
    · rw [if_pos hzero] at h
      cases h
    · rw [if_neg hzero] at h
      split_ifs at h ⊢ with htick
      · exact (Option.some.inj h).symm
      · exact (Option.some.inj h).symm
  · rw [if_neg fun hm : r.Meets cfg => hdue hm.1, if_neg hdue]
    exact (scheduleSnapshots_idle hdue).2 r' h

/-- The state of a player after the schedule. -/
theorem players_schedule (hhz : 0 < cfg.TickHz) (h : r' ∈ (r.scheduleSnapshots cfg order written).2)
    (q : PlayerID) :
    r'.players[q]? = (r.players[q]?).map fun st =>
      if r.Meets cfg then (st.sent r.tick (written q)).settle (uint32 cfg.BudgetKbpsPerClient)
      else if r.Due cfg then st.sent r.tick (written q)
      else st := by
  have hsent : (r.sentAll written).players[q]? =
      (r.players[q]?).map fun st => st.sent r.tick (written q) := Std.ExtTreeMap.getElem?_map
  rw [scheduleSnapshots_meets hhz h]
  by_cases hm : r.Meets cfg
  · simp only [if_pos hm]
    unfold settleDegrade
    rw [Std.ExtTreeMap.getElem?_map, hsent, Option.map_map]
    rfl
  · simp only [if_neg hm]
    by_cases hdue : r.Due cfg
    · simp only [if_pos hdue]
      exact hsent
    · simp only [if_neg hdue]
      exact Option.map_id'.symm

theorem tick_schedule (h : r' ∈ (r.scheduleSnapshots cfg order written).2) : r'.tick = r.tick := by
  by_cases hdue : r.Due cfg
  · exact (congrArg Room.tick ((scheduleSnapshots_due hdue).2 r' h).1).trans rfl
  · rw [(scheduleSnapshots_idle hdue).2 r' h]

end Room

/-! ## Runs -/

/-- The bytes of a player are converted to kbps. -/
structure Conversion where
  /-- The number of ticks up to this one. -/
  ticks : ℕ
  bytesOut : U32
  /-- The bytes of the snapshots of the last `TickHz` ticks in which the player was there. -/
  lastSecond : U32
  deriving DecidableEq

/-- A run of a room, and what is metered. -/
structure Meter where
  scene : Show
  /-- The number of ticks so far. -/
  ticks : ℕ
  /-- The ticks in which `settleDegrade` ran, the last one first. -/
  settles : List ℕ
  /-- The bytes of the snapshots of a player in each tick since the player is there, the last one
  first. -/
  traffic : PlayerID → List U32
  conversions : List Conversion

namespace Meter

variable (cfg : SnapshotConfig)

def start (JitterBufferTicks BaselineRingSize : ℕ) : Meter :=
  ⟨.start JitterBufferTicks BaselineRingSize, 0, [], fun _ => [], []⟩

/-- The bytes of the snapshot of a player in this tick. -/
def bytes (r : Room) (written : PlayerID → ℕ) (p : PlayerID) : U32 :=
  if r.Due cfg then BitVec.ofNat 32 (snapshotHeaderLen + written p) else 0

/-- The player that enters the room with an event. -/
def joins (r : Room) : InEvent → Option PlayerID
  | .inOpen _ p => if p ∈ r.players then none else some p
  | _ => none

/-- The step ends a tick, and does not panic. -/
def Completes (s : Meter) (a : ShowAction) : Prop :=
  s.scene.Ticks a ∧ (s.scene.act cfg a).1.crashed = false

instance (s : Meter) (a : ShowAction) : Decidable (s.Completes cfg a) :=
  inferInstanceAs (Decidable (_ ∧ _))

/-- A tick is metered. -/
def tick (s : Meter) (order : List PlayerID) (written : PlayerID → ℕ) : Meter :=
  let r := s.scene.room
  let traffic := fun p => bytes cfg r written p :: s.traffic p
  let conversion := fun p (st : PState) =>
    ⟨s.ticks + 1, (st.sent r.tick (written p)).bytesOut, ((traffic p).take cfg.second).sum⟩
  { s with
    ticks := s.ticks + 1
    settles := if r.Meets cfg then s.ticks :: s.settles else s.settles
    traffic
    conversions :=
      if r.Meets cfg then s.conversions ++ order.filterMap fun p =>
        (r.players[p]?).map (conversion p)
      else s.conversions }

def step (s : Meter) (a : ShowAction) : Meter :=
  let scene := (s.scene.act cfg a).1
  match a with
  | .event ev =>
    { s with scene, traffic := fun q => if joins s.scene.room ev = some q then [] else s.traffic q }
  | .schedule order written =>
    if s.Completes cfg (.schedule order written) then { s.tick cfg order written with scene }
    else { s with scene }
  | _ => { s with scene }

/-- Bandwidth is settled exactly once in any `TickHz` ticks in a row, and what is converted is the
traffic of the last `TickHz` ticks. -/
structure EverySecond (s : Meter) : Prop where
  once : OnceInEvery cfg.second s.ticks (· ∈ s.settles)
  exact : ∀ c ∈ s.conversions, cfg.second ≤ c.ticks → c.bytesOut = c.lastSecond

/-- The periods meet in this tick exactly if it is one of every `TickHz`-th. -/
def OnBeat (n : ℕ) (s : Meter) (a : ShowAction) : Prop :=
  s.Completes cfg a → (s.scene.room.Meets cfg ↔ s.ticks % cfg.second = n)

instance (n : ℕ) (s : Meter) (a : ShowAction) : Decidable (s.OnBeat cfg n a) :=
  inferInstanceAs (Decidable (_ → _))

/-- The number of ticks since the last settlement. -/
def since (s : Meter) : ℕ := s.settles.head?.elim s.ticks fun m => s.ticks - (m + 1)

variable {cfg} {s : Meter} {a : ShowAction}

/-- A step that completes no tick. -/
theorem step_of_not_completes (h : ¬ s.Completes cfg a) :
    (s.step cfg a).ticks = s.ticks ∧ (s.step cfg a).settles = s.settles ∧
      (s.step cfg a).conversions = s.conversions := by
  cases a with
  | schedule order written =>
    unfold step
    dsimp only
    rw [if_neg h]
    exact ⟨rfl, rfl, rfl⟩
  | _ => exact ⟨rfl, rfl, rfl⟩

/-- A step that completes one. -/
theorem step_of_completes (h : s.Completes cfg a) : ∃ order written, a = .schedule order written ∧
    s.step cfg a = { s.tick cfg order written with scene := (s.scene.act cfg a).1 } ∧
    ∃ r' ∈ (s.scene.room.scheduleSnapshots cfg order written).2,
      (s.scene.act cfg a).1.room = { r' with tick := r'.tick + 1 } := by
  cases a with
  | schedule order written =>
    refine ⟨order, written, rfl, ?_, ?_⟩
    · unfold step
      dsimp only
      rw [if_pos h]
    · obtain ⟨⟨halive, ho⟩, hcrashed⟩ := h
      unfold Show.act at hcrashed ⊢
      rw [if_neg (by rw [halive]; exact Bool.false_ne_true)] at hcrashed ⊢
      dsimp only at hcrashed ⊢
      rw [if_pos ho] at hcrashed ⊢
      cases hroom : (s.scene.room.scheduleSnapshots cfg order written).2 with
      | none =>
        rw [hroom] at hcrashed
        cases hcrashed
      | some r' => exact ⟨r', rfl, rfl⟩
  | _ => exact absurd h.1 id

theorem scene_step (s : Meter) (a : ShowAction) : (s.step cfg a).scene = (s.scene.act cfg a).1 := by
  cases a with
  | schedule order written =>
    unfold step
    dsimp only
    split_ifs
    · rfl
    · rfl
  | _ => rfl

/-- A schedule that panics leaves the room as it is. -/
theorem room_of_panics (h : ¬ s.Completes cfg a) (hticks : s.scene.Ticks a) :
    (s.scene.act cfg a).1.room = s.scene.room := by
  cases a with
  | schedule order written =>
    unfold Completes at h
    unfold Show.act at h ⊢
    rw [if_neg (by rw [hticks.1]; exact Bool.false_ne_true)] at h ⊢
    dsimp only at h ⊢
    rw [if_pos hticks.2] at h ⊢
    cases hroom : (s.scene.room.scheduleSnapshots cfg order written).2 with
    | none => rfl
    | some r' =>
      rw [hroom] at h
      exact absurd ⟨hticks, hticks.1⟩ h
  | _ => exact absurd hticks id

theorem tick_of_not_completes (h : ¬ s.Completes cfg a) :
    (s.scene.act cfg a).1.room.tick = s.scene.room.tick := by
  by_cases hticks : s.scene.Ticks a
  · rw [room_of_panics h hticks]
  · exact (Show.act_of_not_ticks hticks).2

/-- An event brings a player in, or leaves the bytes of the player alone. -/
theorem bytesOut_stateAfter {r : Room} {q : PlayerID} {ev : InEvent} {st' : PState}
    (h : r.stateAfter q ev = some st') :
    (st'.bytesOut = 0 ∧ joins r ev = some q) ∨
      ∃ st, r.players[q]? = some st ∧ st'.bytesOut = st.bytesOut ∧ joins r ev ≠ some q := by
  cases ev with
  | inOpen sess p =>
    unfold Room.stateAfter at h
    unfold joins
    by_cases hq : p = q
    · subst hq
      dsimp only at h
      rw [if_pos rfl] at h
      cases hst : r.players[p]? with
      | none =>
        rw [hst] at h
        obtain rfl := Option.some.inj h
        have hp : p ∉ r.players := fun hp => Room.mem_players_iff.1 hp hst
        exact .inl ⟨rfl, if_neg hp⟩
      | some st =>
        rw [hst] at h
        obtain rfl := Option.some.inj h
        have hp : p ∈ r.players := Room.mem_players_iff.2 (by rw [hst]; exact Option.some_ne_none _)
        refine .inr ⟨st, rfl, rfl, ?_⟩
        dsimp only
        rw [if_pos hp]
        exact (Option.some_ne_none p).symm
    · dsimp only at h
      rw [if_neg hq] at h
      refine .inr ⟨st', h, rfl, ?_⟩
      dsimp only
      split_ifs
      · exact (Option.some_ne_none q).symm
      · exact fun heq => hq (Option.some.inj heq)
  | inClose p reason =>
    unfold Room.stateAfter at h
    dsimp only at h
    split_ifs at h
    exact .inr ⟨st', h, rfl, (Option.some_ne_none q).symm⟩
  | inResume p gap =>
    unfold Room.stateAfter at h
    dsimp only at h
    split_ifs at h
    · obtain ⟨st, hst, rfl⟩ := Option.map_eq_some_iff.1 h
      exact .inr ⟨st, hst, rfl, (Option.some_ne_none q).symm⟩
    · exact .inr ⟨st', h, rfl, (Option.some_ne_none q).symm⟩
  | inData p ch msg payload raw =>
    unfold Room.stateAfter at h
    dsimp only at h
    split_ifs at h
    · obtain ⟨st, hst, rfl⟩ := Option.map_eq_some_iff.1 h
      refine .inr ⟨st, hst, ?_, (Option.some_ne_none q).symm⟩
      rcases (r.atInput st payload).insertJitter_cases
        (r.inputEntry (r.atInput st payload) payload raw) with h | h
      · rw [h]
        rfl
      · rw [h]
        rfl
    · exact .inr ⟨st', h, rfl, (Option.some_ne_none q).symm⟩
  | inStats p rtt loss =>
    unfold Room.stateAfter at h
    dsimp only at h
    split_ifs at h
    · obtain ⟨st, hst, rfl⟩ := Option.map_eq_some_iff.1 h
      exact .inr ⟨st, hst, rfl, (Option.some_ne_none q).symm⟩
    · exact .inr ⟨st', h, rfl, (Option.some_ne_none q).symm⟩
  | inOverload => exact .inr ⟨st', h, rfl, (Option.some_ne_none q).symm⟩

/-- An event brings a player in, or leaves the bytes of the player alone. -/
theorem players_of_event {ev : InEvent} {q : PlayerID} {st' : PState}
    (hst' : (s.scene.act cfg (.event ev)).1.room.players[q]? = some st') :
    (st'.bytesOut = 0 ∧ (s.step cfg (.event ev)).traffic q = []) ∨
      ∃ st, s.scene.room.players[q]? = some st ∧ st'.bytesOut = st.bytesOut ∧
        (s.step cfg (.event ev)).traffic q = s.traffic q := by
  have htraffic : (s.step cfg (.event ev)).traffic q =
      if joins s.scene.room ev = some q then [] else s.traffic q := rfl
  unfold Show.act at hst'
  by_cases hc : s.scene.crashed = true
  · rw [if_pos hc] at hst'
    refine .inr ⟨st', hst', rfl, ?_⟩
    rw [htraffic, if_neg]
    -- who is there does not join
    intro hj
    unfold joins at hj
    split at hj
    · split_ifs at hj with hp
      obtain rfl := Option.some.inj hj
      exact hp (Room.mem_players_iff.2 (by rw [hst']; exact Option.some_ne_none _))
    · cases hj
  · rw [if_neg hc] at hst'
    have hafter := (s.scene.room.handleEvent_spec ev).1 q
    rw [show (s.scene.room.handleEvent ev).1.players[q]? = some st' from hst'] at hafter
    rcases bytesOut_stateAfter hafter.symm with ⟨hzero, hj⟩ | ⟨st, hst, hsame, hj⟩
    · exact .inl ⟨hzero, by rw [htraffic, if_pos hj]⟩
    · exact .inr ⟨st, hst, hsame, by rw [htraffic, if_neg hj]⟩

theorem players_of_deliver {order : List PlayerID} {q : PlayerID} {st' : PState}
    (hst' : (s.scene.act cfg (.deliver order)).1.room.players[q]? = some st') :
    ∃ st, s.scene.room.players[q]? = some st ∧ st'.bytesOut = st.bytesOut ∧
      (s.step cfg (.deliver order)).traffic q = s.traffic q := by
  unfold Show.act at hst'
  split_ifs at hst' with hc
  · exact ⟨st', hst', rfl, rfl⟩
  · dsimp only at hst'
    split_ifs at hst' with ho
    · cases hdeliver : s.scene.room.deliverReadyInputs order with
      | none =>
        rw [hdeliver] at hst'
        exact ⟨st', hst', rfl, rfl⟩
      | some res =>
        rw [hdeliver] at hst'
        have hq := (Room.deliver_spec ho hdeliver).1 q
        rw [show res.1.players[q]? = some st' from hst'] at hq
        obtain ⟨st, hst, rfl⟩ := Option.map_eq_some_iff.1 hq.symm
        obtain ⟨jbuf, lastPayload, len, lastSeq, hasInput, heq⟩ :=
          st.deliver_frame s.scene.room.tick q
        refine ⟨st, hst, ?_, rfl⟩
        rw [heq]
    · exact ⟨st', hst', rfl, rfl⟩

/-- A step that completes no tick brings a player in, or leaves the bytes of the player alone. -/
theorem players_of_not_completes (h : ¬ s.Completes cfg a) {q : PlayerID} {st' : PState}
    (hst' : (s.step cfg a).scene.room.players[q]? = some st') :
    (st'.bytesOut = 0 ∧ (s.step cfg a).traffic q = []) ∨
      ∃ st, s.scene.room.players[q]? = some st ∧ st'.bytesOut = st.bytesOut ∧
        (s.step cfg a).traffic q = s.traffic q := by
  rw [scene_step] at hst'
  cases a with
  | event ev => exact players_of_event hst'
  | kick p reason =>
    right
    unfold Show.act at hst'
    split_ifs at hst'
    · exact ⟨st', hst', rfl, rfl⟩
    · have hq := (s.scene.room.kick_spec p reason).1 q
      rw [show (s.scene.room.kick p reason).1.players[q]? = some st' from hst'] at hq
      split_ifs at hq
      exact ⟨st', hq.symm, rfl, rfl⟩
  | requestKeyframe p =>
    right
    unfold Show.act Room.requestKeyframe at hst'
    split_ifs at hst'
    · exact ⟨st', hst', rfl, rfl⟩
    · dsimp only at hst'
      cases hst : s.scene.room.players[p]? with
      | none =>
        rw [hst] at hst'
        exact ⟨st', hst', rfl, rfl⟩
      | some st =>
        rw [hst] at hst'
        have hq := Map.getElem?_insert s.scene.room.players p q { st with forceKeyframe := true }
        rw [show (s.scene.room.players.insert p _)[q]? = some st' from hst'] at hq
        split_ifs at hq with hpq
        · obtain rfl := Option.some.inj hq
          subst hpq
          exact ⟨st, hst, rfl, rfl⟩
        · exact ⟨st', hq.symm, rfl, rfl⟩
  | deliver order => exact .inr (players_of_deliver hst')
  | schedule order written =>
    right
    have htraffic : (s.step cfg (.schedule order written)).traffic q = s.traffic q := by
      unfold step
      dsimp only
      rw [if_neg h]
    by_cases hticks : s.scene.Ticks (.schedule order written)
    · rw [room_of_panics h hticks] at hst'
      exact ⟨st', hst', rfl, htraffic⟩
    · unfold Show.act at hst'
      split_ifs at hst' with hc
      · exact ⟨st', hst', rfl, htraffic⟩
      · dsimp only at hst'
        rw [if_neg fun ho => hticks ⟨Bool.not_eq_true _ ▸ hc, ho⟩] at hst'
        exact ⟨st', hst', rfl, htraffic⟩

/-! ## The meter is right -/

/-- What is metered agrees with the room. -/
structure Right (s : Meter) : Prop where
  counted : s.scene.room.tick.toNat = s.ticks % 2 ^ 32
  below : ∀ m ∈ s.settles, m < s.ticks
  sorted : s.settles.Pairwise fun m m' => m' < m
  bytes : ∀ (p : PlayerID) (st : PState), s.scene.room.players[p]? = some st →
    st.bytesOut = ((s.traffic p).take s.since).sum
  past : ∀ c ∈ s.conversions, c.ticks ≤ s.ticks

theorem right_start (J B : ℕ) : (start J B).Right where
  counted := rfl
  below := fun m hm => absurd hm List.not_mem_nil
  sorted := List.Pairwise.nil
  bytes := fun p st hst => by
    have hnone : (start J B).scene.room.players[p]? = none := Std.ExtTreeMap.getElem?_empty
    rw [hnone] at hst
    cases hst
  past := fun c hc => absurd hc List.not_mem_nil

theorem right_of_not_completes (hs : s.Right) (h : ¬ s.Completes cfg a) : (s.step cfg a).Right := by
  obtain ⟨hticks, hsettles, hconv⟩ := step_of_not_completes h
  refine ⟨?_, ?_, ?_, fun p st' hst' => ?_, ?_⟩
  · rw [scene_step, tick_of_not_completes h, hticks]
    exact hs.counted
  · rw [hsettles, hticks]
    exact hs.below
  · rw [hsettles]
    exact hs.sorted
  · have hsince : (s.step cfg a).since = s.since := by
      unfold since
      rw [hsettles, hticks]
    rw [hsince]
    rcases players_of_not_completes h hst' with ⟨hzero, htraffic⟩ | ⟨st, hst, hsame, htraffic⟩
    · rw [hzero, htraffic, List.take_nil]
      rfl
    · rw [hsame, htraffic]
      exact hs.bytes p st hst
  · rw [hconv, hticks]
    exact hs.past

/-- In a tick the bytes of a player grow by those of the snapshot. -/
theorem bytesOut_sent {r : Room} {st : PState} {written : PlayerID → ℕ} {p : PlayerID} :
    (if r.Due cfg then st.sent r.tick (written p) else st).bytesOut =
      st.bytesOut + bytes cfg r written p := by
  unfold bytes
  split_ifs
  · rfl
  · exact (BitVec.add_zero _).symm

/-- The last settlement is in the past. -/
theorem since_succ (hs : s.Right) :
    s.settles.head?.elim (s.ticks + 1) (fun m => s.ticks + 1 - (m + 1)) = s.since + 1 := by
  unfold since
  cases hm : s.settles.head? with
  | none => rfl
  | some m =>
    have := hs.below m (List.mem_of_mem_head? hm)
    show s.ticks + 1 - (m + 1) = s.ticks - (m + 1) + 1
    omega

theorem right_of_completes (hhz : 0 < cfg.TickHz) (hs : s.Right) (h : s.Completes cfg a) :
    (s.step cfg a).Right := by
  obtain ⟨order, written, rfl, hstep, r', hr', hroom⟩ := step_of_completes h
  rw [hstep]
  refine ⟨?_, ?_, ?_, fun p st' hst' => ?_, ?_⟩
  · show (s.scene.act cfg (.schedule order written)).1.room.tick.toNat = (s.ticks + 1) % 2 ^ 32
    rw [hroom]
    show (r'.tick + 1).toNat = _
    rw [Room.tick_schedule hr', BitVec.toNat_add, hs.counted]
    exact Nat.mod_add_mod _ _ _
  · show ∀ m ∈ (if s.scene.room.Meets cfg then s.ticks :: s.settles else s.settles), m < s.ticks + 1
    intro m hm
    split_ifs at hm
    · rcases List.mem_cons.1 hm with rfl | hm
      · exact Nat.lt_succ_self _
      · exact Nat.lt_succ_of_lt (hs.below m hm)
    · exact Nat.lt_succ_of_lt (hs.below m hm)
  · show (if s.scene.room.Meets cfg then s.ticks :: s.settles else s.settles).Pairwise fun m m' =>
      m' < m
    split_ifs
    · exact List.pairwise_cons.2 ⟨hs.below, hs.sorted⟩
    · exact hs.sorted
  · have hplayers := Room.players_schedule hhz hr' p
    have hlater : (s.scene.act cfg (.schedule order written)).1.room.players[p]? = some st' := hst'
    rw [hroom] at hlater
    rw [show r'.players[p]? = some st' from hlater] at hplayers
    obtain ⟨st, hst, rfl⟩ := Option.map_eq_some_iff.1 hplayers.symm
    by_cases hm : s.scene.room.Meets cfg
    · -- after a settlement the count begins anew
      rw [if_pos hm]
      have hsince : ({ s.tick cfg order written with
          scene := (s.scene.act cfg (.schedule order written)).1 } : Meter).since = 0 := by
        unfold since tick
        dsimp only
        rw [if_pos hm]
        exact Nat.sub_self _
      rw [hsince]
      rfl
    · rw [if_neg hm, bytesOut_sent, hs.bytes p st hst]
      have hsince : ({ s.tick cfg order written with
          scene := (s.scene.act cfg (.schedule order written)).1 } :
              Meter).since = s.since + 1 := by
        rw [← since_succ hs]
        unfold since tick
        dsimp only
        rw [if_neg hm]
      rw [hsince]
      show _ = (bytes cfg s.scene.room written p + ((s.traffic p).take s.since).sum : U32)
      exact BitVec.add_comm _ _
  · show ∀ c ∈ (if s.scene.room.Meets cfg then _ else s.conversions), c.ticks ≤ s.ticks + 1
    intro c hc
    split_ifs at hc
    · rcases List.mem_append.1 hc with hc | hc
      · exact Nat.le_succ_of_le (hs.past c hc)
      · obtain ⟨p, -, hp⟩ := List.mem_filterMap.1 hc
        obtain ⟨st, -, rfl⟩ := Option.map_eq_some_iff.1 hp
        exact le_rfl
    · exact Nat.le_succ_of_le (hs.past c hc)

theorem right_run (hhz : 0 < cfg.TickHz) (J B : ℕ) (as : List ShowAction) :
    (as.foldl (step cfg) (start J B)).Right := by
  induction as using List.reverseRecOn with
  | nil => exact right_start J B
  | append_singleton as a ih =>
    rw [List.foldl_append]
    by_cases h : (as.foldl (step cfg) (start J B)).Completes cfg a
    · exact right_of_completes hhz ih h
    · exact right_of_not_completes ih h

/-! ## On the beat -/

/-- A tick adds itself to the settlements, or nothing. -/
theorem settles_of_completes (hs : s.Right) (h : s.Completes cfg a) :
    (s.step cfg a).ticks = s.ticks + 1 ∧
      (∀ m < s.ticks, (m ∈ (s.step cfg a).settles ↔ m ∈ s.settles)) ∧
      (s.ticks ∈ (s.step cfg a).settles ↔ s.scene.room.Meets cfg) := by
  obtain ⟨order, written, rfl, hstep, -⟩ := step_of_completes h
  have hsettles : (s.step cfg (.schedule order written)).settles =
      if s.scene.room.Meets cfg then s.ticks :: s.settles else s.settles := by
    rw [hstep]
    rfl
  refine ⟨?_, fun m hm => ?_, ?_⟩
  · rw [hstep]
    rfl
  · rw [hsettles]
    split_ifs
    · rw [List.mem_cons, or_iff_right (Nat.ne_of_lt hm)]
    · exact Iff.rfl
  · rw [hsettles]
    split_ifs with hm
    · exact iff_of_true List.mem_cons_self hm
    · exact iff_of_false (fun hmem => (hs.below _ hmem).false) hm

/-- The periods have met in every tick with this remainder, and in no others. -/
theorem allowed_onBeat_iff (hhz : 0 < cfg.TickHz) (J B n : ℕ) (as : List ShowAction) :
    Allowed (step cfg) (OnBeat cfg n) (start J B) as ↔
      ∀ m < (as.foldl (step cfg) (start J B)).ticks,
        (m ∈ (as.foldl (step cfg) (start J B)).settles ↔ m % cfg.second = n) := by
  induction as using List.reverseRecOn with
  | nil => exact iff_of_true trivial fun m hm => absurd hm (Nat.not_lt_zero m)
  | append_singleton as a ih =>
    have hs := right_run hhz J B as
    rw [allowed_concat, ih, List.foldl_append]
    generalize as.foldl (step cfg) (start J B) = s at hs
    show _ ↔ ∀ m < (s.step cfg a).ticks, (m ∈ (s.step cfg a).settles ↔ m % cfg.second = n)
    by_cases h : s.Completes cfg a
    · obtain ⟨hticks, hold, hnew⟩ := settles_of_completes hs h
      rw [hticks, Nat.forall_lt_succ_right, hnew]
      refine and_congr ?_ ⟨fun hok => hok h, fun hm _ => hm⟩
      exact forall₂_congr fun m hm => by rw [hold m hm]
    · obtain ⟨hticks, hsettles, -⟩ := step_of_not_completes h
      rw [hticks, hsettles]
      exact and_iff_left fun hc => absurd hc h

/-- Between two settlements there are `TickHz` ticks. -/
theorem since_eq (hs : s.Right) {n : ℕ} (hn : n < cfg.second)
    (hbeat : ∀ m < s.ticks, (m ∈ s.settles ↔ m % cfg.second = n)) (hnow : s.ticks % cfg.second = n)
    (hfull : cfg.second ≤ s.ticks + 1) : s.since + 1 = cfg.second := by
  unfold since
  cases hm : s.settles.head? with
  | none =>
    have hnil : s.settles = [] := List.head?_eq_none_iff.1 hm
    show s.ticks + 1 = cfg.second
    by_contra hne
    have hback : (s.ticks - cfg.second) % cfg.second = n := by
      rw [← Nat.mod_eq_sub_mod (by omega)]
      exact hnow
    have := (hbeat (s.ticks - cfg.second) (by omega)).2 hback
    rw [hnil] at this
    cases this
  | some m =>
    have hmem : m ∈ s.settles := List.mem_of_mem_head? hm
    have hlt := hs.below m hmem
    have hmn : m % cfg.second = n := (hbeat m hlt).1 hmem
    have hticks : cfg.second ≤ s.ticks := by
      by_contra hlow
      have hsame : m = s.ticks := eq_of_mod_eq (n := 0) (hmn.trans hnow.symm) (by omega) (by omega)
      omega
    have hback : (s.ticks - cfg.second) % cfg.second = n := by
      rw [← Nat.mod_eq_sub_mod hticks]
      exact hnow
    have hle : s.ticks - cfg.second ≤ m := by
      obtain ⟨ms, hms⟩ := List.head?_eq_some_iff.1 hm
      have hin := (hbeat (s.ticks - cfg.second) (by omega)).2 hback
      have hsorted := hs.sorted
      rw [hms] at hin hsorted
      rcases List.mem_cons.1 hin with heq | hin
      · exact heq.le
      · exact ((List.pairwise_cons.1 hsorted).1 _ hin).le
    have hlast : m = s.ticks - cfg.second :=
      eq_of_mod_eq (n := s.ticks - cfg.second) (hmn.trans hback.symm) (by omega) (by omega)
    show s.ticks - (m + 1) + 1 = cfg.second
    omega

/-- On the beat what is converted is the traffic of a second. -/
theorem exact_of_onBeat (hhz : 0 < cfg.TickHz) (J B : ℕ) {n : ℕ} (hn : n < cfg.second)
    {as : List ShowAction} (h : Allowed (step cfg) (OnBeat cfg n) (start J B) as) :
    ∀ c ∈ (as.foldl (step cfg) (start J B)).conversions, cfg.second ≤ c.ticks →
    c.bytesOut = c.lastSecond := by
  induction as using List.reverseRecOn with
  | nil => exact fun c hc => absurd hc List.not_mem_nil
  | append_singleton as a ih =>
    obtain ⟨has, ha⟩ := allowed_concat.1 h
    have hs := right_run hhz J B as
    have hbeat := (allowed_onBeat_iff hhz J B n as).1 has
    replace ih := ih has
    rw [List.foldl_append]
    generalize as.foldl (step cfg) (start J B) = s at hs hbeat ih ha
    show ∀ c ∈ (s.step cfg a).conversions, _
    by_cases hc : s.Completes cfg a
    · obtain ⟨order, written, rfl, hstep, -⟩ := step_of_completes hc
      rw [hstep]
      intro c hmem hfull
      unfold tick at hmem
      dsimp only at hmem
      split_ifs at hmem with hm
      · rcases List.mem_append.1 hmem with hmem | hmem
        · exact ih c hmem hfull
        · obtain ⟨p, -, hp⟩ := List.mem_filterMap.1 hmem
          obtain ⟨st, hst, rfl⟩ := Option.map_eq_some_iff.1 hp
          have hsince := since_eq hs hn hbeat ((ha hc).1 hm) hfull
          have hsent := @bytesOut_sent cfg s.scene.room st written p
          rw [if_pos hm.1, hs.bytes p st hst] at hsent
          show (st.sent s.scene.room.tick (written p)).bytesOut =
            ((bytes cfg s.scene.room written p :: s.traffic p).take cfg.second).sum
          rw [hsent, ← hsince, List.take_succ_cons, List.sum_cons]
          exact BitVec.add_comm _ _
      · exact ih c hmem hfull
    · rw [(step_of_not_completes hc).2.2]
      exact ih

theorem second_pos (hhz : 0 < cfg.TickHz) : 0 < cfg.second := by
  rw [Int64.lt_iff_toInt_lt, Int64.toInt_zero] at hhz
  unfold SnapshotConfig.second
  rw [← Int64.toNat_toInt]
  omega

/-- Bandwidth is settled every second exactly if there are fewer than `TickHz` ticks, or it is
settled in those with one remainder. -/
theorem everySecond_iff_mod (hhz : 0 < cfg.TickHz) (J B : ℕ) (as : List ShowAction) :
    (as.foldl (step cfg) (start J B)).EverySecond cfg ↔
      (as.foldl (step cfg) (start J B)).ticks < cfg.second ∨
        ∃ n < cfg.second, ∀ m < (as.foldl (step cfg) (start J B)).ticks,
          (m ∈ (as.foldl (step cfg) (start J B)).settles ↔ m % cfg.second = n) := by
  have hs := right_run hhz J B as
  constructor
  · intro h
    exact (onceInEvery_iff (second_pos hhz)).1 h.once
  · intro h
    refine ⟨(onceInEvery_iff (second_pos hhz)).2 h, ?_⟩
    rcases h with hfew | ⟨n, hn, hbeat⟩
    · intro c hc hfull
      have := hs.past c hc
      omega
    · exact exact_of_onBeat hhz J B hn ((allowed_onBeat_iff hhz J B n as).2 hbeat)

/-- **The settlement.** Bandwidth is settled every second exactly if there are fewer than `TickHz`
ticks, or the periods meet in every `TickHz`-th tick and in no other. -/
theorem everySecond_iff (hhz : 0 < cfg.TickHz) (J B : ℕ) (as : List ShowAction) :
    (as.foldl (step cfg) (start J B)).EverySecond cfg ↔
      (as.foldl (step cfg) (start J B)).ticks < cfg.second ∨
        ∃ n < cfg.second, Allowed (step cfg) (OnBeat cfg n) (start J B) as := by
  rw [everySecond_iff_mod hhz]
  refine or_congr_right (exists_congr fun n => and_congr_right fun _ => ?_)
  exact (allowed_onBeat_iff hhz J B n as).symm

/-- Player 1 is alone in the room for so many ticks. -/
def alone (n : ℕ) : List ShowAction :=
  .event (.inOpen 1 1) :: (List.replicate n [.deliver [1], .schedule [1] fun _ => 100]).flatten

/-- Snapshots are sent in every tick. -/
theorem everySecond_default :
    ((alone 41).foldl (step ⟨20, 20, 100, 24⟩) (start 2 32)).EverySecond ⟨20, 20, 100, 24⟩ :=
  (everySecond_iff (by decide) 2 32 (alone 41)).2 (.inr ⟨0, by decide, by decide +kernel⟩)

/-- Snapshots are sent in every third tick, and bandwidth is settled every 60 ticks. -/
theorem everySecond_fails :
    ((alone 61).foldl (step ⟨20, 7, 100, 24⟩) (start 2 32)).settles = [60, 0] ∧
      ((alone 61).foldl (step ⟨20, 7, 100, 24⟩) (start 2 32)).conversions =
        [⟨1, 106, 106⟩, ⟨61, 2120, 742⟩] ∧
      ¬ ((alone 61).foldl (step ⟨20, 7, 100, 24⟩) (start 2 32)).EverySecond ⟨20, 7, 100, 24⟩ := by
  have hconv : ((alone 61).foldl (step ⟨20, 7, 100, 24⟩) (start 2 32)).conversions =
      [⟨1, 106, 106⟩, ⟨61, 2120, 742⟩] := by decide +kernel
  refine ⟨by decide +kernel, hconv, fun h => ?_⟩
  have hexact := h.exact ⟨61, 2120, 742⟩ (by rw [hconv]; decide) (by decide)
  exact absurd hexact (by decide)

/-! ## At a constant frequency -/

/-- `snapshotHz` is the same in all ticks. -/
def Steady (cfg : SnapshotConfig) (rate : Int64) (s : Meter) (a : ShowAction) : Prop :=
  s.Completes cfg a → s.scene.room.snapshotHz cfg = rate

/-- Bandwidth is settled in the common multiples of the two periods. -/
theorem mem_settles_iff {rate : Int64} (hhz : 0 < cfg.TickHz) (hsmall : cfg.TickHz.toInt < 2 ^ 32)
    (hbeats : Beats cfg rate) (J B : ℕ) {as : List ShowAction}
    (hsteady : Allowed (step cfg) (Steady cfg rate) (start J B) as)
    (hwrap : (as.foldl (step cfg) (start J B)).ticks ≤ 2 ^ 32) :
    ∀ m < (as.foldl (step cfg) (start J B)).ticks, (m ∈ (as.foldl (step cfg) (start J B)).settles ↔
      (uint32 (period cfg rate)).toNat ∣ m ∧ cfg.second ∣ m) := by
  have hsecond : (uint32 cfg.TickHz).toNat = cfg.second := by
    rw [Int64.lt_iff_toInt_lt, Int64.toInt_zero] at hhz
    rw [toNat_uint32 hhz.le hsmall]
    exact Int64.toNat_toInt _
  induction as using List.reverseRecOn with
  | nil => exact fun m hm => absurd hm (Nat.not_lt_zero m)
  | append_singleton as a ih =>
    obtain ⟨has, ha⟩ := allowed_concat.1 hsteady
    have hs := right_run hhz J B as
    rw [List.foldl_append] at hwrap ⊢
    generalize as.foldl (step cfg) (start J B) = s at hs ih ha hwrap
    change (s.step cfg a).ticks ≤ 2 ^ 32 at hwrap
    show ∀ m < (s.step cfg a).ticks, (m ∈ (s.step cfg a).settles ↔ _)
    by_cases hc : s.Completes cfg a
    · obtain ⟨hticks, hold, hnew⟩ := settles_of_completes hs hc
      rw [hticks] at hwrap ⊢
      have htick : s.scene.room.tick.toNat = s.ticks := by
        rw [hs.counted]
        exact Nat.mod_eq_of_lt (by omega)
      have hmeets : s.scene.room.Meets cfg ↔
          (uint32 (period cfg rate)).toNat ∣ s.ticks ∧ cfg.second ∣ s.ticks := by
        unfold Room.Meets
        rw [due_iff, ha hc, and_iff_right hbeats, ← BitVec.toNat_inj, BitVec.toNat_umod, htick,
          hsecond]
        exact and_congr (Nat.dvd_iff_mod_eq_zero).symm (Nat.dvd_iff_mod_eq_zero).symm
      rw [Nat.forall_lt_succ_right]
      refine ⟨fun m hm => ?_, ?_⟩
      · rw [← ih has (by omega) m hm]
        exact hold m hm
      · rw [← hmeets]
        exact hnew
    · obtain ⟨hticks, hsettles, -⟩ := step_of_not_completes hc
      rw [hticks] at hwrap ⊢
      rw [hsettles]
      exact ih has hwrap

/-- **A constant frequency.** After more than `TickHz` ticks, and before the ticks wrap, bandwidth
has been settled every second exactly if the snapshot period divides `TickHz`. -/
theorem everySecond_iff_dvd {rate : Int64} (hhz : 0 < cfg.TickHz)
    (hsmall : cfg.TickHz.toInt < 2 ^ 32) (hbeats : Beats cfg rate) (J B : ℕ) {as : List ShowAction}
    (hsteady : Allowed (step cfg) (Steady cfg rate) (start J B) as)
    (hwrap : (as.foldl (step cfg) (start J B)).ticks ≤ 2 ^ 32)
    (hmore : cfg.second < (as.foldl (step cfg) (start J B)).ticks) :
    (as.foldl (step cfg) (start J B)).EverySecond cfg ↔
      (uint32 (period cfg rate)).toNat ∣ cfg.second := by
  have hpos := second_pos hhz
  have hmem := mem_settles_iff hhz hsmall hbeats J B hsteady hwrap
  rw [everySecond_iff_mod hhz, or_iff_right (Nat.not_lt.2 hmore.le)]
  constructor
  · rintro ⟨n, hn, hbeat⟩
    have hzero : n = 0 := by
      have := (hbeat 0 (by omega)).1 ((hmem 0 (by omega)).2 ⟨Nat.dvd_zero _, Nat.dvd_zero _⟩)
      rwa [Nat.zero_mod, eq_comm] at this
    have hnext := (hbeat cfg.second hmore).2 (by rw [Nat.mod_self, hzero])
    exact ((hmem cfg.second hmore).1 hnext).1
  · intro hdvd
    refine ⟨0, hpos, fun m hm => ?_⟩
    rw [hmem m hm, ← Nat.dvd_iff_mod_eq_zero]
    exact ⟨fun h => h.2, fun h => ⟨hdvd.trans h, h⟩⟩

end Meter

end SoupEngine.Sdk
