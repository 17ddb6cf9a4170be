import SoupEngine.Sdk.Snapshot

/-!
# Baselines

In every run the ring of a player holds the ticks of the last snapshots since the player joined or
came back, and the stored report is the last one, or 0 (`Remembers`). So a baseline is one of the
last snapshots (`baseline_scheduled`), but `baseline_sound_iff`: the player has asked for it only if
a player without any report has no snapshot of tick 0 in the ring, and `baseline_available_iff`: the
report, which has 16 bits, finds its tick in the ring exactly if the tick has no more.
-/

namespace SoupEngine.Sdk

/-! ## The marks of a player -/

namespace Mark

def isJoin : Mark → Bool
  | .join => true
  | _ => false

/-- The player starts over. -/
def isFresh : Mark → Bool
  | .join | .resume => true
  | _ => false

def tick : Mark → Option Tick
  | .snapshot t => some t
  | _ => none

def report : Mark → Option U16
  | .input u => some u
  | _ => none

/-- The ticks of the snapshots since the player joined or came back, the last one first. -/
def scheduled (ms : List Mark) : List Tick := (ms.takeWhile fun m => !m.isFresh).filterMap tick

/-- The reports since the player joined or came back, the last one first. -/
def reports (ms : List Mark) : List U16 := (ms.takeWhile fun m => !m.isFresh).filterMap report

/-- The report of the last input packet since the player joined. -/
def latest (ms : List Mark) : Option U16 :=
  ((ms.takeWhile fun m => !m.isJoin).filterMap report).head?

/-- The last report since the player came back is the last one of all. -/
theorem latest_of_reports {ms : List Mark} (h : reports ms ≠ []) :
    latest ms = (reports ms).head? := by
  unfold reports latest at *
  induction ms with
  | nil => exact absurd rfl h
  | cons m ms ih =>
    cases m with
    | join => exact absurd rfl h
    | resume => exact absurd rfl h
    | input u => rfl
    | snapshot t => exact ih h

end Mark

open Mark

/-! ## What a room keeps of them -/

/-- The state of a player agrees with the marks. -/
structure Remembers (B : ℕ) (st : PState) (ms : List Mark) : Prop where
  cap : st.baselineCap = B
  ring : st.baselineRing.reverse = (scheduled ms).take B
  last : st.lastRecvSnap = ((latest ms).getD 0).setWidth 32

namespace Remembers

variable {B : ℕ} {st st' : PState} {ms : List Mark}

theorem congr (h : Remembers B st ms) (hcap : st'.baselineCap = st.baselineCap)
    (hring : st'.baselineRing = st.baselineRing) (hlast : st'.lastRecvSnap = st.lastRecvSnap) :
    Remembers B st' ms :=
  ⟨hcap.trans h.cap, by rw [hring, h.ring], hlast.trans h.last⟩

theorem joined {r : Room} (hB : r.BaselineRingSize = B) (sess : U64) (ms : List Mark) :
    Remembers B (r.joined sess) (.join :: ms) :=
  ⟨hB, List.take_nil.symm, rfl⟩

theorem resumed (h : Remembers B st ms) : Remembers B (Room.resumed st) (.resume :: ms) :=
  ⟨h.cap, List.take_nil.symm, h.last⟩

theorem input (h : Remembers B st ms) {u : U16} (hcap : st'.baselineCap = st.baselineCap)
    (hring : st'.baselineRing = st.baselineRing) (hlast : st'.lastRecvSnap = u.setWidth 32) :
    Remembers B st' (.input u :: ms) :=
  ⟨hcap.trans h.cap, by rw [hring, h.ring]; rfl, hlast⟩

/-- A snapshot pushes the oldest one out of a full ring. -/
theorem sent (h : Remembers B st ms) (t : Tick) (written : ℕ) :
    Remembers B (st.sent t written) (.snapshot t :: ms) := by
  refine ⟨h.cap, ?_, h.last⟩
  show (if st.baselineCap < (st.baselineRing ++ [t]).length then (st.baselineRing ++ [t]).tail
    else st.baselineRing ++ [t]).reverse = (t :: scheduled ms).take B
  have hlen : st.baselineRing.length = min B (scheduled ms).length := by
    rw [← List.length_reverse, h.ring, List.length_take]
  have hrev : (st.baselineRing ++ [t]).reverse = t :: (scheduled ms).take B := by
    rw [List.reverse_append, h.ring]
    rfl
  rw [h.cap, List.length_append, List.length_singleton]
  split_ifs with hfull
  · -- the ring is full, and the oldest tick is the last one of its reverse
    calc (st.baselineRing ++ [t]).tail.reverse = (t :: (scheduled ms).take B).dropLast := by
          rw [← List.dropLast_reverse, hrev]
      _ = (t :: (scheduled ms).take B).take (min B (scheduled ms).length) := by
          rw [List.dropLast_eq_take, List.length_cons, List.length_take, Nat.add_sub_cancel]
      _ = ((t :: scheduled ms).take (B + 1)).take (min B (scheduled ms).length) := by
          rw [List.take_succ_cons]
      _ = (t :: scheduled ms).take B := by
          rw [List.take_take]
          congr 1
          omega
  · obtain ⟨k, rfl⟩ : ∃ k, B = k + 1 := ⟨B - 1, by omega⟩
    rw [hrev, List.take_succ_cons, List.take_of_length_le (by omega),
      List.take_of_length_le (by omega)]

end Remembers

/-- In a run the room agrees with the marks. -/
structure Show.Kept (B : ℕ) (s : Show) : Prop where
  size : s.room.BaselineRingSize = B
  player : ∀ (p : PlayerID) (st : PState), s.room.players[p]? = some st → Remembers B st (s.marks p)

namespace Room

/-- An input changes the players alone. -/
theorem handleCh1Input_frame (r : Room) (p : PlayerID) (payload : Bytes) (raw : BufId) :
    (r.handleCh1Input p payload raw).1 =
      { r with players := (r.handleCh1Input p payload raw).1.players } := by
  unfold handleCh1Input
  cases r.players[p]? with
  | none => rfl
  | some st =>
    dsimp only
    split_ifs <;> rfl

theorem size_handleEvent (r : Room) (ev : InEvent) :
    (r.handleEvent ev).1.BaselineRingSize = r.BaselineRingSize := by
  cases ev with
  | inOpen sess p =>
    unfold handleEvent
    dsimp only
    split_ifs <;> rfl
  | inClose p reason =>
    unfold handleEvent
    dsimp only
    split <;> rfl
  | inResume p gap =>
    unfold handleEvent
    dsimp only
    split <;> rfl
  | inData p ch msg payload raw =>
    unfold handleEvent
    dsimp only
    split_ifs
    · exact (congrArg BaselineRingSize (r.handleCh1Input_frame p payload raw)).trans rfl
    · rfl
    · rfl
  | inStats p rtt loss =>
    unfold handleEvent
    dsimp only
    split <;> rfl
  | inOverload => rfl

theorem size_kick (r : Room) (p : PlayerID) (reason : U8) :
    (r.kick p reason).1.BaselineRingSize = r.BaselineRingSize := by
  unfold kick
  split <;> rfl

end Room

namespace Show

variable {cfg : SnapshotConfig} {B : ℕ} {s : Show}

open Room

/-- An event keeps the agreement, for every player. -/
theorem Kept.event (h : s.Kept B) (ev : InEvent) {q : PlayerID} {st' : PState}
    (hst' : s.room.stateAfter q ev = some st') :
    Remembers B st' (markOf s.room q ev ++ s.marks q) := by
  cases ev with
  | inOpen sess p =>
    unfold stateAfter markOf at *
    dsimp only at *
    split_ifs at hst' with hpq
    · subst hpq
      cases hst : s.room.players[p]? with
      | none =>
        rw [hst] at hst'
        obtain rfl := Option.some.inj hst'
        rw [if_pos ⟨rfl, fun hmem => mem_players_iff.1 hmem hst⟩]
        exact .joined h.size sess _
      | some st =>
        rw [hst] at hst'
        obtain rfl := Option.some.inj hst'
        rw [if_neg fun hnot => hnot.2
          (mem_players_iff.2 (by rw [hst]; exact Option.some_ne_none _))]
        exact h.player p _ hst
    · rw [if_neg fun hnot => hpq hnot.1]
      exact h.player q st' hst'
  | inClose p reason =>
    unfold stateAfter at hst'
    dsimp only at hst'
    split_ifs at hst'
    exact h.player q st' hst'
  | inResume p gap =>
    unfold stateAfter markOf at *
    dsimp only at *
    split_ifs at hst' with hpq
    · subst hpq
      obtain ⟨st, hst, rfl⟩ := Option.map_eq_some_iff.1 hst'
      rw [if_pos ⟨rfl, mem_players_iff.2 (by rw [hst]; exact Option.some_ne_none _)⟩]
      exact (h.player p st hst).resumed
    · rw [if_neg fun hnot => hpq hnot.1]
      exact h.player q st' hst'
  | inData p ch msg payload raw =>
    unfold stateAfter markOf at *
    dsimp only at *
    split_ifs at hst' with hin
    · obtain ⟨rfl, hch, hlen⟩ := hin
      obtain ⟨st, hst, rfl⟩ := Option.map_eq_some_iff.1 hst'
      rw [if_pos ⟨rfl, mem_players_iff.2 (by rw [hst]; exact Option.some_ne_none _), hch, hlen⟩]
      have hkept := (s.room.atInput st payload).insertJitter_cases
        (s.room.inputEntry (s.room.atInput st payload) payload raw)
      refine (h.player p st hst).input ?_ ?_ ?_
      · rcases hkept with hkept | hkept <;> rw [hkept] <;> rfl
      · rcases hkept with hkept | hkept <;> rw [hkept] <;> rfl
      · rcases hkept with hkept | hkept <;> rw [hkept] <;> rfl
    · rw [if_neg fun hnot => hin ⟨hnot.1, hnot.2.2⟩]
      exact h.player q st' hst'
  | inStats p rtt loss =>
    unfold stateAfter at hst'
    dsimp only at hst'
    split_ifs at hst'
    · obtain ⟨st, hst, rfl⟩ := Option.map_eq_some_iff.1 hst'
      exact (h.player q st hst).congr rfl rfl rfl
    · exact h.player q st' hst'
  | inOverload => exact h.player q st' hst'

/-- **One step** keeps the agreement. -/
theorem Kept.act (h : s.Kept B) (a : ShowAction) : (s.act cfg a).1.Kept B := by
  by_cases hc : s.crashed = true
  · unfold Show.act
    rw [if_pos hc]
    exact h
  cases a with
  | event ev =>
    unfold Show.act
    rw [if_neg hc]
    refine ⟨(s.room.size_handleEvent ev).trans h.size, fun q st' hst' => h.event ev ?_⟩
    rw [← (s.room.handleEvent_spec ev).1 q]
    exact hst'
  | kick p reason =>
    unfold Show.act
    rw [if_neg hc]
    refine ⟨(s.room.size_kick p reason).trans h.size, fun q st' hst' => ?_⟩
    have hq := (s.room.kick_spec p reason).1 q
    rw [show (s.room.kick p reason).1.players[q]? = some st' from hst'] at hq
    split_ifs at hq
    exact h.player q st' hq.symm
  | requestKeyframe p =>
    unfold Show.act requestKeyframe
    rw [if_neg hc]
    dsimp only
    cases hst : s.room.players[p]? with
    | none => exact h
    | some st =>
      refine ⟨h.size, fun q st' hst' => ?_⟩
      have hq := Map.getElem?_insert s.room.players p q { st with forceKeyframe := true }
      rw [show (s.room.players.insert p _)[q]? = some st' from hst'] at hq
      split_ifs at hq with hpq
      · obtain rfl := Option.some.inj hq
        subst hpq
        exact (h.player p st hst).congr rfl rfl rfl
      · exact h.player q st' hq.symm
  | deliver order =>
    unfold Show.act
    rw [if_neg hc]
    dsimp only
    split_ifs with ho
    · cases hdeliver : s.room.deliverReadyInputs order with
      | none => exact ⟨h.size, h.player⟩
      | some res =>
        obtain ⟨r', ops⟩ := res
        obtain ⟨-, rfl, -⟩ := deliverReadyInputs_eq_some ho hdeliver
        have hsame := (drainPlayers_spec ho.1 s.room).2.1
        refine ⟨(congrArg BaselineRingSize hsame).trans h.size, fun q st' hst' => ?_⟩
        have hq := players_drainPlayers ho q
        rw [show (s.room.drainPlayers order).1.players[q]? = some st' from hst'] at hq
        obtain ⟨st, hst, rfl⟩ := Option.map_eq_some_iff.1 hq.symm
        obtain ⟨jbuf, lastPayload, len, lastSeq, hasInput, hst'⟩ := st.deliver_frame s.room.tick q
        rw [hst']
        exact (h.player q st hst).congr rfl rfl rfl
    · exact h
  | schedule order written =>
    unfold Show.act
    rw [if_neg hc]
    dsimp only
    split_ifs with ho
    · cases hroom : (s.room.scheduleSnapshots cfg order written).2 with
      | none => exact ⟨h.size, h.player⟩
      | some r' =>
        by_cases hdue : s.room.Due cfg
        · obtain ⟨hout, hsched⟩ := scheduleSnapshots_due hdue
          obtain ⟨hsame, f, hf, hplayers⟩ := hsched r' hroom
          refine ⟨(congrArg BaselineRingSize hsame).trans h.size, fun q st' hst' => ?_⟩
          have hq := hplayers q
          rw [show r'.players[q]? = some st' from hst'] at hq
          obtain ⟨st, hst, rfl⟩ := Option.map_eq_some_iff.1 hq.symm
          have hmem : q ∈ order :=
            (ho.2 q).2 (mem_players_iff.2 (by rw [hst]; exact Option.some_ne_none _))
          dsimp only
          rw [hout, filter_snapshots ho.1 _ hmem hst]
          have hsent := (h.player q st hst).sent s.room.tick (written q)
          rcases hf with rfl | rfl
          · exact hsent
          · exact hsent.congr rfl rfl rfl
        · obtain ⟨hout, hsched⟩ := scheduleSnapshots_idle hdue
          obtain rfl := hsched r' hroom
          dsimp only
          rw [hout]
          exact ⟨h.size, h.player⟩
    · exact h

theorem Kept.run (cfg : SnapshotConfig) (J B : ℕ) (xs : List ShowAction) :
    ((start J B).run cfg xs).Kept B := by
  induction xs using List.reverseRecOn with
  | nil => exact ⟨rfl, fun p st hst => nomatch Std.ExtTreeMap.getElem?_empty.symm.trans hst⟩
  | append_singleton xs x ih =>
    unfold Show.run
    rw [List.foldl_append]
    exact ih.act x

/-! ## Soundness -/

variable (cfg B s)

/-- Every baseline of the step is one of the last `B` snapshots since the player joined or came
back, and the player has reported it since. -/
def Sound (a : ShowAction) : Prop :=
  ∀ x ∈ (s.act cfg a).2, x.baseline.Valid = true →
    x.baseline.Tick ∈ (scheduled (s.marks x.player)).take B ∧
      ∃ u ∈ reports (s.marks x.player), u.setWidth 32 = x.baseline.Tick

/-- If the step schedules snapshots, then every player has reported a tick since joining or coming
back, or gets a full snapshot anyway, or the stored report is not in the ring. -/
def Asked (a : ShowAction) : Prop :=
  s.Schedules cfg a → ∀ (p : PlayerID) (st : PState), s.room.players[p]? = some st →
    reports (s.marks p) ≠ [] ∨ s.room.forceKey cfg = true ∨ st.forceKeyframe = true ∨
      st.baselineHas st.lastRecvSnap = false

variable {cfg B s}

/-- When a baseline is valid. -/
theorem baseline_valid {st : PState} {k : Bool} (h : (st.baseline k).Valid = true) :
    st.baseline k = ⟨st.lastRecvSnap, true⟩ ∧ st.lastRecvSnap ∈ st.baselineRing := by
  unfold PState.baseline at *
  split_ifs at h ⊢ with hforce hhas
  exact ⟨rfl, of_decide_eq_true hhas⟩

theorem baseline_of_mem {st : PState} {k : Bool} (hk : k = false)
    (hforce : st.forceKeyframe = false) (hmem : st.baselineHas st.lastRecvSnap = true) :
    st.baseline k = ⟨st.lastRecvSnap, true⟩ := by
  unfold PState.baseline
  rw [if_neg (by simp [hk, hforce]), if_pos hmem]

/-- The ring part, which holds in every step. -/
theorem baseline_scheduled (h : s.Kept B) {a : ShowAction} {x : Snapshot} (hx : x ∈ (s.act cfg a).2)
    (hvalid : x.baseline.Valid = true) :
    x.baseline.Tick ∈ (scheduled (s.marks x.player)).take B := by
  obtain ⟨-, st, hst, heq⟩ := mem_act.1 hx
  have hbase : x.baseline = st.baseline (s.room.forceKey cfg) := congrArg Snapshot.baseline heq
  rw [hbase] at hvalid ⊢
  obtain ⟨hb, hmem⟩ := baseline_valid hvalid
  rw [hb, ← (h.player x.player st hst).ring]
  exact List.mem_reverse.2 hmem

/-- **One step.** -/
theorem sound_iff (h : s.Kept B) (a : ShowAction) : s.Sound cfg B a ↔ s.Asked cfg a := by
  constructor
  · intro hsound hsched p st hst
    by_contra hnot
    push Not at hnot
    obtain ⟨hnone, hkey, hforce, hmem⟩ := hnot
    have hbase := baseline_of_mem (eq_false_of_ne_true hkey) (eq_false_of_ne_true hforce)
      (eq_true_of_ne_false hmem)
    have hx : ⟨p, s.room.tick, st.lastSeq, st.baseline (s.room.forceKey cfg)⟩ ∈ (s.act cfg a).2 :=
      mem_act.2 ⟨hsched, st, hst, rfl⟩
    obtain ⟨-, u, hu, -⟩ := hsound _ hx (congrArg Baseline.Valid hbase)
    rw [hnone] at hu
    exact absurd hu List.not_mem_nil
  · intro hasked x hx hvalid
    refine ⟨baseline_scheduled h hx hvalid, ?_⟩
    obtain ⟨hsched, st, hst, heq⟩ := mem_act.1 hx
    have hbase : x.baseline = st.baseline (s.room.forceKey cfg) := congrArg Snapshot.baseline heq
    rw [hbase] at hvalid ⊢
    obtain ⟨hb, hmem⟩ := baseline_valid hvalid
    have hreports : reports (s.marks x.player) ≠ [] := by
      rcases hasked hsched x.player st hst with hr | hkey | hforce | hring
      · exact hr
      · rw [PState.baseline, if_pos (Or.inl hkey)] at hvalid
        cases hvalid
      · rw [PState.baseline, if_pos (Or.inr hforce)] at hvalid
        cases hvalid
      · exact absurd (decide_eq_true hmem)
          (by rw [← PState.baselineHas, hring]; exact Bool.false_ne_true)
    have hlast := (h.player x.player st hst).last
    rw [latest_of_reports hreports] at hlast
    obtain ⟨u, us, hus⟩ := List.exists_cons_of_ne_nil hreports
    rw [hus] at hlast ⊢
    refine ⟨u, List.mem_cons_self, ?_⟩
    rw [hb, hlast]
    rfl

/-- **Baselines are sound.** In every run of a room, every baseline is the tick of one of the last
snapshots since the player joined or came back, and has been reported since, if and only if in every
step that schedules snapshots every player has sent a report since, or is due for a full snapshot,
or has a stored report that is not in the ring. -/
theorem baseline_sound_iff (cfg : SnapshotConfig) (JitterBufferTicks BaselineRingSize : ℕ)
    (xs : List ShowAction) :
    (∀ before x rest, xs = before ++ x :: rest →
        Sound cfg BaselineRingSize ((start JitterBufferTicks BaselineRingSize).run cfg before) x) ↔
      ∀ before x rest, xs = before ++ x :: rest →
        Asked cfg ((start JitterBufferTicks BaselineRingSize).run cfg before) x := by
  constructor
  · intro h before x rest hxs
    exact (sound_iff (.run cfg _ _ before) x).1 (h before x rest hxs)
  · intro h before x rest hxs
    exact (sound_iff (.run cfg _ _ before) x).2 (h before x rest hxs)

/-- `defaultConfig`. -/
def defaultSnapshots : SnapshotConfig := ⟨20, 10, 100, 24⟩

/-- A tick of a room in which player 1 is alone. -/
def aloneTick : List ShowAction := [.deliver [1], .schedule [1] fun _ => 0]

/-- Player 1 joins and sends nothing in the first two ticks. -/
def silentRun : List ShowAction := .event (.inOpen 1 1) :: aloneTick ++ aloneTick ++ [.deliver [1]]

/-- In the third tick the player gets the snapshot of tick 0 as a baseline. -/
theorem baseline_unasked :
    ¬ ∀ before x rest, silentRun ++ [.schedule [1] fun _ => 0] = before ++ x :: rest →
      Sound defaultSnapshots 32 ((start 2 32).run defaultSnapshots before) x := by
  have hsent : (((start 2 32).run defaultSnapshots silentRun).act defaultSnapshots
      (.schedule [1] fun _ => 0)).2 = [⟨1, 2, 0, ⟨0, true⟩⟩] := by decide +kernel
  have hnone : reports (((start 2 32).run defaultSnapshots silentRun).marks 1) = [] := by
    decide +kernel
  intro h
  obtain ⟨-, u, hu, -⟩ := h silentRun _ [] rfl ⟨1, 2, 0, ⟨0, true⟩⟩
    (by rw [hsent]; exact List.mem_singleton.2 rfl) rfl
  rw [hnone] at hu
  exact absurd hu List.not_mem_nil

/-! ## Availability -/

variable (s)

/-- The last input packet of the player echoes the low 16 bits of a tick that is in the ring, and
nothing forces a full snapshot. -/
structure Echoes (cfg : SnapshotConfig) (p : PlayerID) (st : PState) (t : Tick) : Prop where
  player : s.room.players[p]? = some st
  echo : latest (s.marks p) = some (t.setWidth 16)
  ring : t ∈ st.baselineRing
  noInterval : s.room.forceKey cfg = false
  noRequest : st.forceKeyframe = false

variable (cfg)

/-- A player who echoes a tick of the ring gets it as the baseline of the next snapshot. -/
def Available (a : ShowAction) : Prop :=
  ∀ x ∈ (s.act cfg a).2, ∀ (st : PState) (t : Tick), s.Echoes cfg x.player st t →
    x.baseline = ⟨t, true⟩

/-- If the step schedules snapshots, then the ticks of the ring that are echoed have 16 bits. -/
def Early (a : ShowAction) : Prop :=
  s.Schedules cfg a → ∀ (p : PlayerID) (st : PState) (t : Tick), s.Echoes cfg p st t →
    t.toNat < 2 ^ 16

variable {cfg s}

/-- The stored report is the echoed tick exactly if the tick has 16 bits. -/
theorem setWidth_eq_iff (t : Tick) : (t.setWidth 16).setWidth 32 = t ↔ t.toNat < 2 ^ 16 := by
  rw [← BitVec.toNat_inj, BitVec.toNat_setWidth, BitVec.toNat_setWidth]
  omega

/-- The stored report of a player who echoes a tick. -/
theorem Echoes.last (h : s.Kept B) {p : PlayerID} {st : PState} {t : Tick}
    (he : s.Echoes cfg p st t) :
    st.lastRecvSnap = (t.setWidth 16).setWidth 32 := by
  rw [(h.player p st he.player).last, he.echo]
  rfl

/-- **One step.** -/
theorem available_iff (h : s.Kept B) (a : ShowAction) : s.Available cfg a ↔ s.Early cfg a := by
  constructor
  · intro havailable hsched p st t he
    have hx : ⟨p, s.room.tick, st.lastSeq, st.baseline (s.room.forceKey cfg)⟩ ∈ (s.act cfg a).2 :=
      mem_act.2 ⟨hsched, st, he.player, rfl⟩
    have hbase : st.baseline (s.room.forceKey cfg) = ⟨t, true⟩ := havailable _ hx st t he
    obtain ⟨hb, -⟩ := baseline_valid (congrArg Baseline.Valid hbase)
    rw [hbase, he.last h] at hb
    exact (setWidth_eq_iff t).1 (congrArg Baseline.Tick hb).symm
  · intro hearly x hx st t he
    obtain ⟨hsched, st', hst', heq⟩ := mem_act.1 hx
    obtain rfl : st' = st := Option.some.inj (hst'.symm.trans he.player)
    have hbase : x.baseline = st'.baseline (s.room.forceKey cfg) := congrArg Snapshot.baseline heq
    have hlast : st'.lastRecvSnap = t :=
      (he.last h).trans ((setWidth_eq_iff t).2 (hearly hsched x.player st' t he))
    rw [hbase, baseline_of_mem he.noInterval he.noRequest, hlast]
    rw [hlast]
    exact decide_eq_true he.ring

/-- **Baselines are available.** In every run of a room, every player whose last input packet echoes
a tick of the ring gets it as the next baseline if and only if the echoed ticks have 16 bits
whenever snapshots are scheduled. -/
theorem baseline_available_iff (cfg : SnapshotConfig) (JitterBufferTicks BaselineRingSize : ℕ)
    (xs : List ShowAction) :
    (∀ before x rest, xs = before ++ x :: rest →
        Available cfg ((start JitterBufferTicks BaselineRingSize).run cfg before) x) ↔
      ∀ before x rest, xs = before ++ x :: rest →
        Early cfg ((start JitterBufferTicks BaselineRingSize).run cfg before) x := by
  constructor
  · intro h before x rest hxs
    exact (available_iff (.run cfg _ _ before) x).1 (h before x rest hxs)
  · intro h before x rest hxs
    exact (available_iff (.run cfg _ _ before) x).2 (h before x rest hxs)

/-! ## A long run -/

/-- A snapshot in every tick. -/
def fullRate : SnapshotConfig := ⟨20, 20, 100, 24⟩

/-- Player 1 is alone, sends nothing and is not degraded; `n` ticks have been made. -/
structure Lone (n : ℕ) (s : Show) : Prop where
  alive : s.crashed = false
  tick : s.room.tick = BitVec.ofNat 32 n
  overload : s.room.overload = false
  order : s.room.IsOrder [1]
  player : ∀ (p : PlayerID) (st : PState), s.room.players[p]? = some st →
    st.jbuf = [] ∧ st.lastPayloadLen = 0 ∧ st.degrade = 0 ∧ st.forceKeyframe = false ∧
      st.bytesOut.toNat ≤ 6 * ((n + 19) % 20)

/-- Snapshots are due in every tick, as long as nothing degrades them. -/
theorem due_fullRate {r : Room} (hover : r.overload = false)
    (hdeg : ∀ (p : PlayerID) (st : PState), r.players[p]? = some st → st.degrade = 0) :
    r.Due fullRate := by
  have hevery : r.snapshotEvery fullRate = 1 := by
    unfold snapshotEvery snapshotHz
    rw [hover, maxDeg_eq_zero hdeg]
    decide
  unfold Due
  rw [hevery]
  refine ⟨by decide, by decide, ?_, by decide⟩
  show r.tick % 1 = 0
  exact BitVec.umod_one

theorem Lone.due {n : ℕ} (h : Lone n s) : s.room.Due fullRate :=
  due_fullRate h.overload fun p st hst => (h.player p st hst).2.2.1

/-- When nothing is due the delivery leaves the room alone. -/
theorem deliver_nothing {r : Room} {order : List PlayerID} (ho : r.IsOrder order)
    (hnone : ∀ (p : PlayerID) (st : PState), r.players[p]? = some st →
      (st.deliver r.tick p).2.1 = []) :
    ∃ r' ops, r.deliverReadyInputs order = some (r', ops) := by
  have hpending : r.pending order = [] := by
    refine List.flatMap_eq_nil_iff.2 fun p _ => ?_
    unfold readyOf
    cases hst : r.players[p]? with
    | none => rfl
    | some st => exact hnone p st hst
  have hleast : r.LeastFirst order := by
    unfold LeastFirst
    rw [hpending]
    exact fun a ha => nomatch ha
  obtain ⟨pend, -, hdeliver⟩ := (r.deliverReadyInputs_spec ho).1 hleast
  exact ⟨_, _, hdeliver⟩

theorem deliver_of_empty {st : PState} (h : st.jbuf = [] ∧ st.lastPayloadLen = 0) (t : Tick)
    (p : PlayerID) :
    st.deliver t p = ({ st with jbuf := [] }, [], []) := by
  unfold PState.deliver PState.repeated
  rw [h.1]
  simp [PState.drainLoop, h.2]

theorem Lone.deliver {n : ℕ} (h : Lone n s) : Lone n (s.act fullRate (.deliver [1])).1 := by
  obtain ⟨r', ops, hdeliver⟩ := deliver_nothing h.order fun p st hst => by
    rw [deliver_of_empty ⟨(h.player p st hst).1, (h.player p st hst).2.1⟩]
  have hact : (s.act fullRate (.deliver [1])).1 = { s with room := r' } := by
    unfold Show.act
    rw [if_neg (by rw [h.alive]; exact Bool.false_ne_true)]
    dsimp only
    rw [if_pos h.order, hdeliver]
  obtain ⟨-, rfl, -⟩ := deliverReadyInputs_eq_some h.order hdeliver
  have hsame := (drainPlayers_spec h.order.1 s.room).2.1
  have hplayers := fun q => players_drainPlayers h.order q
  rw [hact]
  refine ⟨h.alive, (congrArg Room.tick hsame).trans h.tick,
    (congrArg Room.overload hsame).trans h.overload,
    ⟨h.order.1, fun p => ?_⟩, fun p st' hst' => ?_⟩
  · rw [mem_players_iff, hplayers, h.order.2 p, mem_players_iff, Ne, Ne, Option.map_eq_none_iff]
  · rw [hplayers] at hst'
    obtain ⟨st, hst, rfl⟩ := Option.map_eq_some_iff.1 hst'
    obtain ⟨hjbuf, hlen, hdeg, hforce, hbytes⟩ := h.player p st hst
    rw [deliver_of_empty ⟨hjbuf, hlen⟩]
    exact ⟨rfl, hlen, hdeg, hforce, hbytes⟩

theorem settle_degrade {st : PState} (hdeg : st.degrade = 0) (hbytes : st.bytesOut.toNat ≤ 120) :
    (st.settle (uint32 24)).degrade = 0 := by
  have hkbps : ¬ uint32 24 < st.bytesOut * 8 / 1024 := by
    rw [BitVec.lt_def, BitVec.toNat_udiv, BitVec.toNat_mul]
    show ¬ 24 < st.bytesOut.toNat * 8 % 2 ^ 32 / 1024
    omega
  unfold PState.settle
  dsimp only
  rw [if_pos (show 0 < uint32 24 by decide), if_neg fun hover => hkbps hover.1, hdeg,
    if_neg fun hback => absurd hback.2 (lt_irrefl 0)]

/-- What becomes of a lone player. -/
theorem Lone.sent {n : ℕ} (h : Lone n s) (hn : n < 2 ^ 32) :
    ∃ r', (s.room.scheduleSnapshots fullRate [1] fun _ => 0).2 = some r' ∧
      r'.overload = s.room.overload ∧
      r'.tick = s.room.tick ∧ (∀ q : PlayerID, r'.players[q]? = none ↔ s.room.players[q]? = none) ∧
      ∀ (p : PlayerID) (st' : PState), r'.players[p]? = some st' →
        st'.jbuf = [] ∧ st'.lastPayloadLen = 0 ∧ st'.degrade = 0 ∧ st'.forceKeyframe = false ∧
          st'.bytesOut.toNat ≤ 6 * ((n + 20) % 20) := by
  obtain ⟨h1, h2, h3, h4⟩ := h.due
  have htick : s.room.tick % uint32 fullRate.TickHz = 0 ↔ n % 20 = 0 := by
    rw [h.tick, ← BitVec.toNat_inj, BitVec.toNat_umod, BitVec.toNat_ofNat, Nat.mod_eq_of_lt hn]
    rfl
  have hsent (q : PlayerID) : (s.room.players.map fun _ st => st.sent s.room.tick 0)[q]? =
      (s.room.players[q]?).map fun st => st.sent s.room.tick 0 := Std.ExtTreeMap.getElem?_map
  have hbytes {p : PlayerID} {st : PState} (hst : s.room.players[p]? = some st) :
      (st.sent s.room.tick 0).bytesOut.toNat ≤ 6 * ((n + 19) % 20 + 1) := by
    obtain ⟨-, -, -, -, hle⟩ := h.player p st hst
    show (st.bytesOut + BitVec.ofNat 32 (snapshotHeaderLen + 0)).toNat ≤ _
    rw [BitVec.toNat_add, BitVec.toNat_ofNat]
    unfold snapshotHeaderLen
    omega
  unfold scheduleSnapshots
  dsimp only
  rw [if_neg h1, if_neg h2, if_neg (not_not.2 h3), if_neg h4,
    if_neg (show ¬ fullRate.TickHz ≤ 0 by decide),
    if_neg (show ¬ uint32 fullRate.TickHz = 0 by decide)]
  by_cases hn20 : n % 20 = 0
  · rw [if_pos (htick.2 hn20)]
    have hsettled (q : PlayerID) : (settleDegrade fullRate { s.room with
        players := s.room.players.map fun _ st => st.sent s.room.tick 0 }).players[q]? =
        (s.room.players[q]?).map fun st => (st.sent s.room.tick 0).settle (uint32 24) := by
      unfold settleDegrade
      rw [Std.ExtTreeMap.getElem?_map, hsent, Option.map_map]
      rfl
    refine ⟨_, rfl, rfl, rfl, fun q => ?_, fun p st' hst' => ?_⟩
    · rw [hsettled, Option.map_eq_none_iff]
    · rw [hsettled] at hst'
      obtain ⟨st, hst, rfl⟩ := Option.map_eq_some_iff.1 hst'
      obtain ⟨hjbuf, hlen, hdeg, -, -⟩ := h.player p st hst
      have hb := hbytes hst
      exact ⟨hjbuf, hlen, settle_degrade hdeg (by omega), rfl, Nat.zero_le _⟩
  · rw [if_neg fun ht => hn20 (htick.1 ht)]
    refine ⟨_, rfl, rfl, rfl, fun q => ?_, fun p st' hst' => ?_⟩
    · rw [hsent, Option.map_eq_none_iff]
    · rw [hsent] at hst'
      obtain ⟨st, hst, rfl⟩ := Option.map_eq_some_iff.1 hst'
      obtain ⟨hjbuf, hlen, hdeg, -, -⟩ := h.player p st hst
      have hb := hbytes hst
      exact ⟨hjbuf, hlen, hdeg, rfl, by omega⟩

theorem Lone.schedule {n : ℕ} (h : Lone n s) (hn : n < 2 ^ 32) :
    Lone (n + 1) (s.act fullRate (.schedule [1] fun _ => 0)).1 := by
  obtain ⟨r', hr', hover, htick, hnone, hplayer⟩ := h.sent hn
  unfold Show.act
  rw [if_neg (by rw [h.alive]; exact Bool.false_ne_true)]
  dsimp only
  rw [if_pos h.order, hr']
  refine ⟨h.alive, ?_, hover.trans h.overload, ⟨h.order.1, fun p => ?_⟩, hplayer⟩
  · show r'.tick + 1 = _
    rw [htick, h.tick]
    exact (BitVec.ofNat_add ..).symm
  · rw [h.order.2 p, mem_players_iff, mem_players_iff, Ne, Ne, not_congr (hnone p).symm]

/-- So many ticks of a room in which player 1 is alone. -/
def aloneTicks (n : ℕ) : List ShowAction := (List.replicate n aloneTick).flatten

theorem run_append (s : Show) (xs ys : List ShowAction) :
    s.run cfg (xs ++ ys) = (s.run cfg xs).run cfg ys := List.foldl_append

/-- Player 1 joins and is alone for so long. -/
theorem lone_run {n : ℕ} (hn : n ≤ 2 ^ 32) :
    Lone n ((start 2 32).run fullRate (.event (.inOpen 1 1) :: aloneTicks n)) := by
  induction n with
  | zero =>
    refine ⟨by decide +kernel, by decide +kernel, by decide +kernel, by decide +kernel,
      fun p st hst => ?_⟩
    have hq := (Room.handleEvent_spec (.new 2 32) (.inOpen 1 1)).1 p
    rw [show ((Room.new 2 32).handleEvent (.inOpen 1 1)).1.players[p]? = some st from hst] at hq
    unfold stateAfter at hq
    dsimp only at hq
    have hempty : (Room.new 2 32).players[p]? = none := Std.ExtTreeMap.getElem?_empty
    rw [hempty] at hq
    split_ifs at hq
    obtain rfl := Option.some.inj hq
    exact ⟨rfl, rfl, rfl, rfl, Nat.zero_le _⟩
  | succ n ih =>
    have hsplit : aloneTicks (n + 1) = aloneTicks n ++ aloneTick := by
      unfold aloneTicks
      rw [List.replicate_succ', List.flatten_append, List.flatten_singleton]
    rw [hsplit, ← List.cons_append, run_append]
    exact ((ih (by omega)).deliver).schedule (by omega)

/-- An input packet that reports tick 0. -/
def echoed : InEvent := .inData 1 ChInput 0 (List.replicate 8 0) 0

/-- Player 1 sends it, and the next tick has begun. -/
def echo : List ShowAction := [.event echoed, .deliver [1]]

/-- Alone for `2 ^ 16 + 1` ticks, player 1 echoes the tick `2 ^ 16`. -/
def echoRun : List ShowAction := (.event (.inOpen 1 1) :: aloneTicks (2 ^ 16 + 1)) ++ echo

theorem marks_schedule {n : ℕ} (h : Lone n s) (hn : n < 2 ^ 32) :
    (s.act fullRate (.schedule [1] fun _ => 0)).1.marks 1 = .snapshot s.room.tick :: s.marks 1 := by
  obtain ⟨st, hst⟩ :=
    Option.ne_none_iff_exists'.1 (mem_players_iff.1 ((h.order.2 1).1 List.mem_cons_self))
  obtain ⟨r', hr', -⟩ := h.sent hn
  unfold Show.act
  rw [if_neg (by rw [h.alive]; exact Bool.false_ne_true)]
  dsimp only
  rw [if_pos h.order, hr']
  dsimp only
  rw [(scheduleSnapshots_due h.due).1, filter_snapshots h.order.1 _ List.mem_cons_self hst]
  rfl

/-- An input that has just come in is not due yet. -/
theorem deliver_inserted {st : PState} {e : JitterEntry} {t : Tick} (hjbuf : st.jbuf = [])
    (hlen : st.lastPayloadLen = 0) (hdue : t < e.due) (p : PlayerID) :
    ((st.insertJitter e).1.deliver t p).2.1 = [] := by
  rcases st.insertJitter_cases e with heq | heq
  · rw [heq, deliver_of_empty ⟨hjbuf, hlen⟩]
  · have hone : (st.insertJitter e).1 = { st with jbuf := [e] } := by
      rw [heq, hjbuf]
      simp
    rw [hone]
    unfold PState.deliver PState.repeated
    simp [PState.drainLoop, hdue]

theorem lt_add_jitterDepth {t : Tick} (h : t.toNat + 5 < 2 ^ 32) (base : ℕ) (rtt : U16) :
    t < t + BitVec.ofNat 32 (jitterDepth base rtt) := by
  have hdepth : 2 ≤ jitterDepth base rtt ∧ jitterDepth base rtt ≤ 5 := by
    unfold jitterDepth
    dsimp only
    split_ifs <;> omega
  rw [BitVec.lt_def, BitVec.toNat_add, BitVec.toNat_ofNat]
  omega

/-- After a lone player's input packet, and the next delivery, snapshots are due. -/
theorem Lone.echoed {n : ℕ} (h : Lone n s) (hn : n + 5 < 2 ^ 32) :
    (s.run fullRate echo).Schedules fullRate (.schedule [1] fun _ => 0) ∧
      (s.run fullRate echo).room.tick = BitVec.ofNat 32 n ∧
      (s.run fullRate echo).marks 1 = .input 0 :: s.marks 1 ∧
      ∃ st, (s.run fullRate echo).room.players[(1 : PlayerID)]? = some st ∧
      st.forceKeyframe = false := by
  obtain ⟨hplayers, htick, -⟩ := s.room.handleEvent_spec Show.echoed
  set r₁ := (s.room.handleEvent Show.echoed).1 with hr₁
  have hmem (p : PlayerID) : p ∈ r₁.players ↔ p ∈ s.room.players := by
    rw [mem_players_iff, mem_players_iff, hplayers]
    unfold stateAfter Show.echoed
    dsimp only
    split_ifs
    · rw [Ne, Ne, Option.map_eq_none_iff]
    · rfl
  have horder : r₁.IsOrder [1] := ⟨h.order.1, fun p => (h.order.2 p).trans (hmem p).symm⟩
  -- the only player has one input in the buffer, or none
  have hone {p : PlayerID} {st' : PState} (hst' : r₁.players[p]? = some st') :
      ∃ st, s.room.players[p]? = some st ∧ p = 1 ∧
        st' = ((s.room.atInput st (List.replicate 8 0)).insertJitter
          (s.room.inputEntry (s.room.atInput st (List.replicate 8 0))
            (List.replicate 8 0) 0)).1 := by
    have hp : p = 1 := List.mem_singleton.1 ((horder.2 p).2 (mem_players_iff.2
      (by rw [hst']; exact Option.some_ne_none _)))
    rw [hplayers] at hst'
    unfold stateAfter Show.echoed at hst'
    dsimp only at hst'
    rw [if_pos ⟨hp.symm, rfl, le_rfl⟩] at hst'
    obtain ⟨st, hst, rfl⟩ := Option.map_eq_some_iff.1 hst'
    exact ⟨st, hst, hp, rfl⟩
  obtain ⟨r₂, ops, hdeliver⟩ := deliver_nothing horder fun p st' hst' => by
    obtain ⟨st, hst, -, rfl⟩ := hone hst'
    obtain ⟨hjbuf, hlen, -⟩ := h.player p st hst
    have hjbuf' : (s.room.atInput st (List.replicate 8 0)).jbuf = [] := hjbuf
    refine deliver_inserted hjbuf' hlen ?_ p
    rw [htick]
    refine lt_add_jitterDepth ?_ _ _
    rw [h.tick, BitVec.toNat_ofNat]
    omega
  have hrun : s.run fullRate echo =
      { s with room := r₂, marks := fun q => markOf s.room q Show.echoed ++ s.marks q } := by
    show ((s.act fullRate (.event Show.echoed)).1.act fullRate (.deliver [1])).1 = _
    unfold Show.act
    simp only [h.alive, Bool.false_eq_true, if_false]
    rw [if_pos horder, hdeliver]
  obtain ⟨-, rfl, -⟩ := deliverReadyInputs_eq_some horder hdeliver
  have hsame := (drainPlayers_spec horder.1 r₁).2.1
  have hover : r₁.overload = s.room.overload :=
    (congrArg Room.overload (s.room.handleCh1Input_frame 1 (List.replicate 8 0) 0)).trans rfl
  have hfinal {p : PlayerID} {st' : PState}
      (hst' : (r₁.drainPlayers [1]).1.players[p]? = some st') :
      st'.degrade = 0 ∧ st'.forceKeyframe = false := by
    rw [players_drainPlayers horder p] at hst'
    obtain ⟨st₁, hst₁, rfl⟩ := Option.map_eq_some_iff.1 hst'
    obtain ⟨st, hst, -, rfl⟩ := hone hst₁
    obtain ⟨-, -, hdeg, hforce, -⟩ := h.player p st hst
    obtain ⟨jbuf, lastPayload, len, lastSeq, hasInput, heq⟩ := PState.deliver_frame
      ((s.room.atInput st (List.replicate 8 0)).insertJitter
          (s.room.inputEntry (s.room.atInput st (List.replicate 8 0)) (List.replicate 8 0) 0)).1
            r₁.tick p
    rw [heq]
    rcases PState.insertJitter_cases (s.room.atInput st (List.replicate 8 0))
      (s.room.inputEntry (s.room.atInput st (List.replicate 8 0)) (List.replicate 8 0) 0) with
        hj | hj
    · rw [hj]
      exact ⟨hdeg, hforce⟩
    · rw [hj]
      exact ⟨hdeg, hforce⟩
  rw [hrun]
  have hthere : (1 : PlayerID) ∈ s.room.players := (h.order.2 1).1 List.mem_cons_self
  refine ⟨⟨h.alive, ⟨horder.1, fun p => ?_⟩, due_fullRate ?_ fun p st' hst' => (hfinal hst').1⟩,
    ?_, ?_, ?_⟩
  · show p ∈ [1] ↔ p ∈ (r₁.drainPlayers [1]).1.players
    rw [horder.2 p, mem_players_iff, mem_players_iff, players_drainPlayers horder p, Ne, Ne,
      Option.map_eq_none_iff]
  · exact (congrArg Room.overload hsame).trans (hover.trans h.overload)
  · exact (congrArg Room.tick hsame).trans (htick.trans h.tick)
  · show markOf s.room 1 Show.echoed ++ s.marks 1 = _
    unfold markOf Show.echoed
    dsimp only
    rw [if_pos ⟨rfl, hthere, rfl, le_rfl⟩]
    rfl
  · obtain ⟨st, hst⟩ := Option.ne_none_iff_exists'.1 (mem_players_iff.1 ((hmem 1).2 hthere))
    have hst' := players_drainPlayers horder (1 : PlayerID)
    rw [hst] at hst'
    exact ⟨_, hst', (hfinal hst').2⟩

/-- The run up to the delivery after the echo. -/
def echoAfter (n : ℕ) : Show :=
  (start 2 32).run fullRate ((.event (.inOpen 1 1) :: aloneTicks (n + 1)) ++ echo)

theorem aloneTicks_succ (n : ℕ) : aloneTicks (n + 1) = aloneTicks n ++ aloneTick := by
  unfold aloneTicks
  rw [List.replicate_succ', List.flatten_append, List.flatten_singleton]

/-- The last snapshot before the echo is that of tick `n`. -/
theorem marks_alone {n : ℕ} (hn : n < 2 ^ 32) :
    ∃ ms, ((start 2 32).run fullRate (.event (.inOpen 1 1) :: aloneTicks (n + 1))).marks 1 =
      .snapshot (BitVec.ofNat 32 n) :: ms := by
  have hlone := (lone_run (Nat.le_of_lt hn)).deliver
  have hmarks := marks_schedule hlone hn
  rw [hlone.tick] at hmarks
  rw [aloneTicks_succ, ← List.cons_append, run_append]
  exact ⟨_, hmarks⟩

/-- If the low 16 bits of tick `n` are 0, then tick `n` is echoed. -/
theorem echoes_after {n : ℕ} (hn : n + 6 < 2 ^ 32)
    (hlow : (BitVec.ofNat 32 n).setWidth 16 = (0 : U16))
    (hkey : BitVec.ofNat 32 (n + 1) % uint32 100 ≠ 0) :
    (echoAfter n).Schedules fullRate (.schedule [1] fun _ => 0) ∧
      ∃ st, (echoAfter n).Echoes fullRate 1 st (BitVec.ofNat 32 n) := by
  have hkept : (echoAfter n).Kept 32 := .run fullRate 2 32 _
  obtain ⟨ms, hms⟩ := marks_alone (n := n) (by omega)
  obtain ⟨hsched, htick, hmarks, st, hst, hforce⟩ :=
    (lone_run (n := n + 1) (by omega)).echoed (by omega)
  rw [← run_append] at hsched htick hmarks hst
  rw [hms] at hmarks
  have hring : BitVec.ofNat 32 n ∈ st.baselineRing := by
    rw [← List.mem_reverse, (hkept.player 1 st hst).ring]
    unfold echoAfter
    rw [hmarks]
    exact List.mem_cons_self
  refine ⟨hsched, st, hst, ?_, hring, ?_, hforce⟩
  · rw [hlow]
    exact congrArg latest hmarks
  · refine decide_eq_false fun h => hkey ?_
    rw [← htick]
    exact h.2

/-- The tick `2 ^ 16` that player 1 echoes is in the ring, and does not become the baseline. -/
theorem baseline_unavailable :
    ¬ ∀ before x rest, echoRun ++ [.schedule [1] fun _ => 0] = before ++ x :: rest →
      Available fullRate ((start 2 32).run fullRate before) x := by
  intro h
  obtain ⟨hsched, st, hechoes⟩ := echoes_after (n := 2 ^ 16) (by omega) (by decide) (by decide)
  have hkept : (echoAfter (2 ^ 16)).Kept 32 := .run fullRate 2 32 _
  exact absurd ((available_iff hkept _).1 (h echoRun _ [] rfl) hsched 1 st _ hechoes) (by decide)

end Show

end SoupEngine.Sdk
