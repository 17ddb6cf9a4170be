import Mathlib.Data.Nat.Count
import SoupEngine.Sdk.Snapshot

/-!
# The rate of snapshots

In `TickHz` ticks in a row a player gets as many snapshots as there are multiples of `snapshotEvery`
among the ticks. `snapshot_rate`: these are at most `snapshotHz` exactly if snapshots are not
disabled, when they are sent in every tick, and the ticks do not wrap in a bad place
(`Window.within`).
-/

namespace SoupEngine.Sdk

/-! ## Beats -/

/-- The number of multiples of `e` among `n` ticks from `t` on. Ticks have 32 bits. -/
def beats (e t n : ℕ) : ℕ := Nat.count (fun k => (t + k) % 2 ^ 32 % e = 0) n

@[simp] theorem beats_zero (e t : ℕ) : beats e t 0 = 0 := Nat.count_zero _

theorem beats_succ (e t n : ℕ) :
    beats e t (n + 1) = beats e (t + 1) n + if t % 2 ^ 32 % e = 0 then 1 else 0 := by
  unfold beats
  rw [Nat.count_succ']
  simp only [Nat.add_assoc, Nat.add_comm 1, Nat.add_zero]

theorem beats_one (t n : ℕ) : beats 1 t n = n := by
  unfold beats
  rw [Nat.count_iff_forall]
  exact fun k _ => Nat.mod_one _

/-- Where the ticks wrap makes no difference to the beats, their number is that of an interval. -/
theorem beats_interval {e t n : ℕ} (he : 0 < e)
    (hwrap : ∀ k < n, (t + k) % 2 ^ 32 % e = (t + k) % e) :
    (t + n + (e - 1)) / e = (t + (e - 1)) / e + beats e t n := by
  unfold beats
  induction n with
  | zero => rfl
  | succ n ih =>
    rw [Nat.count_succ, ← Nat.add_assoc ((t + (e - 1)) / e), ← ih fun k hk => hwrap k (by omega),
      hwrap n (by omega)]
    obtain ⟨q, r, hr, hm⟩ : ∃ q r, r < e ∧ t + n = e * q + r :=
      ⟨(t + n) / e, (t + n) % e, Nat.mod_lt _ he, (Nat.div_add_mod _ _).symm⟩
    have hnext : (t + (n + 1) + (e - 1)) / e = q + 1 := by
      rw [show t + (n + 1) + (e - 1) = e * (q + 1) + r by rw [Nat.mul_succ]; omega,
        Nat.mul_add_div he, Nat.div_eq_of_lt hr]
    have hlast : (t + n + (e - 1)) / e = q + if r = 0 then 0 else 1 := by
      rw [hm, Nat.add_assoc, Nat.mul_add_div he]
      by_cases h0 : r = 0
      · rw [if_pos h0, Nat.div_eq_of_lt (by omega)]
      · rw [if_neg h0, show r + (e - 1) = e + (r - 1) by omega, Nat.add_div_left _ he,
          Nat.div_eq_of_lt (show r - 1 < e by omega)]
    rw [hnext, hlast, hm, Nat.mul_add_mod, Nat.mod_eq_of_lt hr]
    split_ifs <;> rfl

/-- So many ticks have at most so many beats. -/
theorem beats_le_of_le_mul {e t n h : ℕ} (he : 0 < e) (hn : n ≤ e * h)
    (hwrap : ∀ k < n, (t + k) % 2 ^ 32 % e = (t + k) % e) : beats e t n ≤ h := by
  have hinterval := beats_interval he hwrap
  have hle : (t + n + (e - 1)) / e ≤ (t + (e - 1) + e * h) / e := Nat.div_le_div_right (by omega)
  rw [Nat.add_mul_div_left _ _ he] at hle
  omega

/-! ## The ticks of a run -/

namespace Show

variable (cfg : SnapshotConfig)

/-- The steps of a run, each with the state that it starts from. -/
def trace : Show → List ShowAction → List (Show × ShowAction)
  | _, [] => []
  | s, a :: as => (s, a) :: trace (s.act cfg a).1 as

/-- The step ends a tick. -/
def Ticks (s : Show) : ShowAction → Prop
  | .schedule order _ => s.crashed = false ∧ s.room.IsOrder order
  | _ => False

instance (s : Show) : (a : ShowAction) → Decidable (s.Ticks a)
  | .schedule order _ => inferInstanceAs (Decidable (s.crashed = false ∧ s.room.IsOrder order))
  | .event _ | .kick _ _ | .requestKeyframe _ | .deliver _ => .isFalse id

instance (r : Room) : Decidable (r.Due cfg) :=
  inferInstanceAs (Decidable (¬ r.snapshotEvery cfg ≤ 0 ∧ uint32 (r.snapshotEvery cfg) ≠ 0 ∧
    r.tick % uint32 (r.snapshotEvery cfg) = 0 ∧
    ¬ (0 < cfg.KeyframeIntervalTicks ∧ uint32 cfg.KeyframeIntervalTicks = 0)))

/-- The number of ticks. -/
def ticks (s : Show) (as : List ShowAction) : ℕ :=
  (trace cfg s as).countP fun e => decide (e.1.Ticks e.2)

/-- The number of snapshots for a player. -/
def sentTo (p : PlayerID) (s : Show) (as : List ShowAction) : ℕ :=
  ((trace cfg s as).map fun e => (e.1.act cfg e.2).2.countP fun x => decide (x.player = p)).sum

/-- `snapshotHz` is the same in all ticks. -/
def Held (rate : Int64) (s : Show) (as : List ShowAction) : Prop :=
  ∀ e ∈ trace cfg s as, e.1.Ticks e.2 → e.1.room.snapshotHz cfg = rate

/-- The player is there in all ticks. -/
def Stays (p : PlayerID) (s : Show) (as : List ShowAction) : Prop :=
  ∀ e ∈ trace cfg s as, e.1.Ticks e.2 → p ∈ e.1.room.players

end Show

/-- `snapshotEvery`, for this `snapshotHz`. -/
def period (cfg : SnapshotConfig) (rate : Int64) : Int64 :=
  if rate ≤ 0 ∨ cfg.TickHz ≤ 0 then 1
  else if cfg.TickHz ≤ rate then 1
  else (cfg.TickHz + rate - 1) / rate

theorem toNat_uint32 {x : Int64} (h0 : 0 ≤ x.toInt) (h : x.toInt < 2 ^ 32) :
    (uint32 x).toNat = x.toInt.toNat := by
  have hcond := BitVec.toInt_eq_toNat_cond x.toBitVec
  have hlt := x.toBitVec.isLt
  rw [Int64.toInt_toBitVec] at hcond
  unfold uint32
  rw [BitVec.toNat_setWidth]
  split_ifs at hcond <;> omega

/-- Without overflow, `snapshotHz` periods are at least `TickHz` ticks. -/
theorem period_spec {cfg : SnapshotConfig} {rate : Int64} (hrate : 0 < rate)
    (hhz : cfg.TickHz.toInt < 2 ^ 32) :
    0 < (uint32 (period cfg rate)).toNat ∧
      cfg.TickHz.toNatClampNeg ≤ (uint32 (period cfg rate)).toNat * rate.toNatClampNeg := by
  rw [← Int64.toNat_toInt, ← Int64.toNat_toInt]
  rw [Int64.lt_iff_toInt_lt, Int64.toInt_zero] at hrate
  unfold period
  split_ifs with h1 h2
  · rw [Int64.le_iff_toInt_le, Int64.le_iff_toInt_le, Int64.toInt_zero] at h1
    refine ⟨by decide, ?_⟩
    omega
  · rw [Int64.le_iff_toInt_le] at h2
    refine ⟨by decide, ?_⟩
    show _ ≤ 1 * _
    omega
  · rw [Int64.le_iff_toInt_le, Int64.le_iff_toInt_le, Int64.toInt_zero] at h1
    rw [Int64.le_iff_toInt_le] at h2
    obtain ⟨hz, hhz0⟩ := Int.eq_ofNat_of_zero_le (show 0 ≤ cfg.TickHz.toInt by omega)
    obtain ⟨r, hr⟩ := Int.eq_ofNat_of_zero_le (show 0 ≤ rate.toInt by omega)
    have hadd : (cfg.TickHz + rate).toInt = ((hz + r : ℕ) : ℤ) := by
      rw [Int64.toInt_add, hhz0, hr, Int.bmod_eq_of_le] <;> omega
    have hsum : (cfg.TickHz + rate - 1).toInt = ((hz + r - 1 : ℕ) : ℤ) := by
      rw [Int64.toInt_sub, hadd, Int64.toInt_one, Int.bmod_eq_of_le] <;> omega
    have hquot : ((cfg.TickHz + rate - 1) / rate).toInt = (((hz + r - 1) / r : ℕ) : ℤ) := by
      rw [Int64.toInt_div_of_ne_right, hsum, hr, Int.ofNat_tdiv]
      intro hneg
      rw [hneg] at hrate
      exact absurd hrate (by decide)
    have hpos : 0 < r := by omega
    have hle : (hz + r - 1) / r ≤ hz := by
      refine Nat.div_le_of_le_mul ?_
      obtain ⟨k, rfl⟩ : ∃ k, r = k + 1 := ⟨r - 1, by omega⟩
      have hk : k ≤ k * hz := Nat.le_mul_of_pos_right k (by omega)
      rw [Nat.succ_mul]
      omega
    have hmul : hz ≤ (hz + r - 1) / r * r := by
      have hdiv := Nat.div_add_mod (hz + r - 1) r
      have hmod := Nat.mod_lt (hz + r - 1) hpos
      rw [Nat.mul_comm]
      omega
    have hsmall : (((hz + r - 1) / r : ℕ) : ℤ) < 2 ^ 32 := by omega
    rw [toNat_uint32 (by rw [hquot]; exact Int.natCast_nonneg _) (by rw [hquot]; exact hsmall),
      hquot, hhz0, hr, Int.toNat_natCast, Int.toNat_natCast, Int.toNat_natCast]
    exact ⟨Nat.div_pos (by omega) hpos, hmul⟩

/-- Snapshots are scheduled on the multiples of `period`, and nothing panics before. -/
def Beats (cfg : SnapshotConfig) (rate : Int64) : Prop :=
  ¬ period cfg rate ≤ 0 ∧ uint32 (period cfg rate) ≠ 0 ∧
    ¬ (0 < cfg.KeyframeIntervalTicks ∧ uint32 cfg.KeyframeIntervalTicks = 0)

theorem due_iff {cfg : SnapshotConfig} {r : Room} :
    r.Due cfg ↔ Beats cfg (r.snapshotHz cfg) ∧
      r.tick.toNat % (uint32 (period cfg (r.snapshotHz cfg))).toNat = 0 := by
  have hevery : r.snapshotEvery cfg = period cfg (r.snapshotHz cfg) := rfl
  unfold Room.Due Beats
  rw [hevery, ← BitVec.toNat_inj, BitVec.toNat_umod]
  show _ ∧ _ ∧ _ % _ = 0 ∧ _ ↔ _
  tauto

namespace Show

variable {cfg : SnapshotConfig} {s : Show} {a : ShowAction} {p : PlayerID}

/-! ## One step -/

theorem schedules_iff : s.Schedules cfg a ↔ s.Ticks a ∧ s.room.Due cfg := by
  cases a with
  | schedule order written => exact and_assoc.symm
  | _ => exact iff_of_false id fun h => h.1

/-- A step that ends no tick. -/
theorem act_of_not_ticks (h : ¬ s.Ticks a) :
    (s.act cfg a).2 = [] ∧ (s.act cfg a).1.room.tick = s.room.tick := by
  refine ⟨List.eq_nil_iff_forall_not_mem.2 fun x hx => h (schedules_iff.1 (mem_act.1 hx).1).1, ?_⟩
  unfold act
  by_cases hc : s.crashed = true
  · rw [if_pos hc]
  rw [if_neg hc]
  cases a with
  | event ev => exact (s.room.handleEvent_spec ev).2.1
  | kick p reason => exact (s.room.kick_spec p reason).2.1
  | requestKeyframe p =>
    show (s.room.requestKeyframe p).tick = _
    unfold Room.requestKeyframe
    split <;> rfl
  | deliver order =>
    dsimp only
    split_ifs with ho
    · cases hdeliver : s.room.deliverReadyInputs order with
      | none => rfl
      | some res => exact (Room.deliver_spec ho hdeliver).2.1
    · rfl
  | schedule order written =>
    have ho : ¬ s.room.IsOrder order := fun ho => h ⟨Bool.not_eq_true _ ▸ hc, ho⟩
    dsimp only
    rw [if_neg ho]

/-- A step that ends a tick. -/
theorem act_of_ticks (h : s.Ticks a) :
    (s.act cfg a).1.crashed = true ∨ (s.act cfg a).1.room.tick = s.room.tick + 1 := by
  cases a with
  | schedule order written =>
    unfold act
    rw [if_neg (by rw [h.1]; exact Bool.false_ne_true)]
    dsimp only
    rw [if_pos h.2]
    cases hroom : (s.room.scheduleSnapshots cfg order written).2 with
    | none => exact Or.inl rfl
    | some r' =>
      right
      show r'.tick + 1 = _
      by_cases hdue : s.room.Due cfg
      · rw [(congrArg Room.tick ((Room.scheduleSnapshots_due hdue).2 r' hroom).1).trans rfl]
      · rw [(Room.scheduleSnapshots_idle hdue).2 r' hroom]
  | _ => exact absurd h id

/-- The snapshots for a player. -/
theorem countP_act :
    ((s.act cfg a).2.countP fun x => decide (x.player = p)) =
      if s.Ticks a ∧ s.room.Due cfg ∧ p ∈ s.room.players then 1 else 0 := by
  split_ifs with h
  · obtain ⟨hticks, hdue, hp⟩ := h
    cases a with
    | schedule order written =>
      obtain ⟨st, hst⟩ := Option.ne_none_iff_exists'.1 (Room.mem_players_iff.1 hp)
      have hout : (s.act cfg (.schedule order written)).2 =
          s.room.snapshots (s.room.forceKey cfg) order := by
        unfold act
        rw [if_neg (by rw [hticks.1]; exact Bool.false_ne_true)]
        dsimp only
        rw [if_pos hticks.2, ← (Room.scheduleSnapshots_due hdue).1]
        split <;> rfl
      rw [hout, List.countP_eq_length_filter,
        Room.filter_snapshots hticks.2.1 _ ((hticks.2.2 p).2 hp) hst]
      rfl
    | _ => exact absurd hticks id
  · rw [List.countP_eq_zero]
    intro x hx hp
    obtain ⟨hsched, st, hst, -⟩ := mem_act.1 hx
    obtain ⟨hticks, hdue⟩ := schedules_iff.1 hsched
    refine h ⟨hticks, hdue, Room.mem_players_iff.2 ?_⟩
    rw [← of_decide_eq_true hp, hst]
    exact Option.some_ne_none _

/-! ## A window -/

theorem not_ticks_of_crashed (hc : s.crashed = true) : ¬ s.Ticks a := by
  cases a with
  | schedule order written => exact fun h => absurd hc (by rw [h.1]; exact Bool.false_ne_true)
  | _ => exact id

/-- After a panic there are no more ticks. -/
theorem ticks_of_crashed (hc : s.crashed = true) (as : List ShowAction) : ticks cfg s as = 0 := by
  unfold ticks
  induction as with
  | nil => rfl
  | cons a as ih =>
    have hstep : (s.act cfg a).1 = s := by
      unfold act
      rw [if_pos hc]
    rw [trace, List.countP_cons, hstep, ih, if_neg (by simpa using not_ticks_of_crashed hc)]

theorem ticks_cons (s : Show) (a : ShowAction) (as : List ShowAction) :
    ticks cfg s (a :: as) = ticks cfg (s.act cfg a).1 as + if s.Ticks a then 1 else 0 := by
  unfold ticks
  rw [trace, List.countP_cons]
  simp only [decide_eq_true_eq]

theorem sentTo_cons (p : PlayerID) (s : Show) (a : ShowAction) (as : List ShowAction) :
    sentTo cfg p s (a :: as) =
      (if s.Ticks a ∧ s.room.Due cfg ∧ p ∈ s.room.players then 1 else 0) +
        sentTo cfg p (s.act cfg a).1 as := by
  unfold sentTo
  rw [trace, List.map_cons, List.sum_cons, countP_act]

theorem sentTo_le_ticks (p : PlayerID) (s : Show) (as : List ShowAction) :
    sentTo cfg p s as ≤ ticks cfg s as := by
  induction as generalizing s with
  | nil => exact le_rfl
  | cons a as ih =>
    rw [ticks_cons, sentTo_cons, Nat.add_comm]
    refine Nat.add_le_add (ih _) ?_
    split_ifs with h h'
    · exact le_rfl
    · exact absurd h.1 h'
    · exact Nat.zero_le _
    · exact le_rfl

/-- **A window.** While `snapshotHz` stays the same a player gets at most one snapshot on every
beat, and exactly one if the player is there. -/
theorem sentTo_beats {rate : Int64} (hbeats : Beats cfg rate) {as : List ShowAction}
    (hheld : Held cfg rate s as) {t : ℕ} (ht : t % 2 ^ 32 = s.room.tick.toNat) :
    sentTo cfg p s as ≤ beats (uint32 (period cfg rate)).toNat t (ticks cfg s as) ∧
      (Stays cfg p s as →
        sentTo cfg p s as = beats (uint32 (period cfg rate)).toNat t (ticks cfg s as)) := by
  induction as generalizing s t with
  | nil => exact ⟨Nat.zero_le _, fun _ => rfl⟩
  | cons a as ih =>
    have hrest : Held cfg rate (s.act cfg a).1 as := fun e he => hheld e (List.mem_cons_of_mem _ he)
    have hstay (h : Stays cfg p s (a :: as)) : Stays cfg p (s.act cfg a).1 as :=
      fun e he => h e (List.mem_cons_of_mem _ he)
    rw [ticks_cons, sentTo_cons]
    by_cases hticks : s.Ticks a
    · have hrate := hheld (s, a) List.mem_cons_self hticks
      have hdue : s.room.Due cfg ↔ t % 2 ^ 32 % (uint32 (period cfg rate)).toNat = 0 := by
        rw [due_iff, show s.room.snapshotHz cfg = rate from hrate, ht]
        exact and_iff_right hbeats
      have hone : (if s.Ticks a ∧ s.room.Due cfg ∧ p ∈ s.room.players then 1 else 0) ≤
          (if t % 2 ^ 32 % (uint32 (period cfg rate)).toNat = 0 then 1 else 0) := by
        split_ifs with h h'
        · exact le_rfl
        · exact absurd (hdue.1 h.2.1) h'
        · exact Nat.zero_le _
        · exact le_rfl
      have hthere (h : Stays cfg p s (a :: as)) :
          (if s.Ticks a ∧ s.room.Due cfg ∧ p ∈ s.room.players then 1 else 0) =
            (if t % 2 ^ 32 % (uint32 (period cfg rate)).toNat = 0 then 1 else 0) := by
        refine if_congr ?_ rfl rfl
        rw [← hdue]
        exact ⟨fun h => h.2.1, fun hd => ⟨hticks, hd, h (s, a) List.mem_cons_self hticks⟩⟩
      rw [if_pos hticks, beats_succ]
      have hnext : (s.act cfg a).1.crashed = true ∨ (s.act cfg a).1.room.tick = s.room.tick + 1 :=
        act_of_ticks hticks
      rcases hnext with hcrash | htick
      · -- nothing comes after a panic
        have hnone : ticks cfg (s.act cfg a).1 as = 0 := ticks_of_crashed hcrash as
        have hsent : sentTo cfg p (s.act cfg a).1 as ≤ ticks cfg (s.act cfg a).1 as :=
          sentTo_le_ticks p _ as
        rw [hnone] at hsent ⊢
        rw [Nat.le_zero.1 hsent, beats_zero, Nat.add_zero, Nat.zero_add]
        exact ⟨hone, hthere⟩
      · have ht' : (t + 1) % 2 ^ 32 = (s.act cfg a).1.room.tick.toNat := by
          rw [htick, BitVec.toNat_add, ← ht]
          simp
        obtain ⟨hle, heq⟩ := ih hrest ht'
        rw [Nat.add_comm]
        exact ⟨Nat.add_le_add hle hone, fun h => by rw [heq (hstay h), hthere h]⟩
    · obtain ⟨hle, heq⟩ :=
        ih hrest (ht.trans (congrArg BitVec.toNat (act_of_not_ticks hticks).2.symm))
      rw [if_neg hticks, if_neg fun h => hticks h.1, Nat.zero_add, Nat.add_zero]
      exact ⟨hle, fun h => heq (hstay h)⟩

/-- Without beats there are no snapshots. -/
theorem sentTo_eq_zero {rate : Int64} (hbeats : ¬ Beats cfg rate) {as : List ShowAction}
    (hheld : Held cfg rate s as) : sentTo cfg p s as = 0 := by
  induction as generalizing s with
  | nil => rfl
  | cons a as ih =>
    rw [sentTo_cons, ih fun e he => hheld e (List.mem_cons_of_mem _ he), if_neg]
    rintro ⟨hticks, hdue, -⟩
    have hrate : s.room.snapshotHz cfg = rate := hheld (s, a) List.mem_cons_self hticks
    rw [due_iff, hrate] at hdue
    exact hbeats hdue.1

end Show

/-! ## Windows of a run -/

open Show

/-- `TickHz` ticks in a row of some run, with the same `snapshotHz`. -/
structure Window (cfg : SnapshotConfig) where
  JitterBufferTicks : ℕ
  BaselineRingSize : ℕ
  before : List ShowAction
  steps : List ShowAction
  rate : Int64
  full : ticks cfg ((start JitterBufferTicks BaselineRingSize).run cfg before) steps =
    cfg.TickHz.toNatClampNeg
  held : Held cfg rate ((start JitterBufferTicks BaselineRingSize).run cfg before) steps

namespace Window

variable {cfg : SnapshotConfig} (w : Window cfg)

/-- The state in which the window begins. -/
def opening : Show := (start w.JitterBufferTicks w.BaselineRingSize).run cfg w.before

def snapshots (p : PlayerID) : ℕ := sentTo cfg p w.opening w.steps

/-- The beats in the window are at most `snapshotHz`. -/
def Within : Prop :=
  Beats cfg w.rate →
    beats (uint32 (period cfg w.rate)).toNat w.opening.room.tick.toNat cfg.TickHz.toNatClampNeg ≤
      w.rate.toNatClampNeg

/-- **The rate.** If the beats of a window are at most `snapshotHz`, then so are the snapshots of
every player, and for a player who is there throughout only if. -/
theorem snapshot_rate (cfg : SnapshotConfig) (w : Window cfg) :
    (w.Within → ∀ p, w.snapshots p ≤ w.rate.toNatClampNeg) ∧
      ∀ p, Stays cfg p w.opening w.steps → (w.snapshots p ≤ w.rate.toNatClampNeg ↔ w.Within) := by
  have htick : w.opening.room.tick.toNat % 2 ^ 32 = w.opening.room.tick.toNat :=
    Nat.mod_eq_of_lt w.opening.room.tick.isLt
  have hfull : ticks cfg w.opening w.steps = cfg.TickHz.toNatClampNeg := w.full
  by_cases hbeats : Beats cfg w.rate
  · have hspec (p : PlayerID) := sentTo_beats (p := p) hbeats w.held htick
    rw [← opening, hfull] at hspec
    refine ⟨fun h p => (hspec p).1.trans (h hbeats), fun p hp => ?_⟩
    unfold snapshots Within
    rw [(hspec p).2 hp]
    exact ⟨fun h _ => h, fun h => h hbeats⟩
  · have hnone (p : PlayerID) : w.snapshots p = 0 := sentTo_eq_zero hbeats w.held
    refine ⟨fun _ p => by rw [hnone]; exact Nat.zero_le _,
      fun p _ => iff_of_true ?_ fun h => absurd h hbeats⟩
    rw [hnone]
    exact Nat.zero_le _

/-- **Where the rate holds.** The beats are at most `snapshotHz` if snapshots are not disabled, and
the window does not wrap, or the ticks wrap at a beat. -/
theorem within (hrate : 0 < w.rate) (hhz : cfg.TickHz.toInt < 2 ^ 32)
    (hwrap : w.opening.room.tick.toNat + cfg.TickHz.toNatClampNeg ≤ 2 ^ 32 ∨
      (uint32 (period cfg w.rate)).toNat ∣ 2 ^ 32) : w.Within := by
  intro hbeats
  obtain ⟨hpos, hle⟩ := period_spec hrate hhz
  refine beats_le_of_le_mul hpos hle fun k hk => ?_
  rcases hwrap with hwrap | hdvd
  · rw [Nat.mod_eq_of_lt (show w.opening.room.tick.toNat + k < 2 ^ 32 by omega)]
  · exact Nat.mod_mod_of_dvd _ hdvd

/-- Disabled, snapshots are sent in every tick. -/
theorem not_within_disabled (hrate : w.rate = 0) (hhz : 0 < cfg.TickHz)
    (hkey : ¬ (0 < cfg.KeyframeIntervalTicks ∧ uint32 cfg.KeyframeIntervalTicks = 0)) :
    ¬ w.Within := by
  have hperiod : period cfg w.rate = 1 := by
    unfold period
    rw [hrate, if_pos (Or.inl (by decide))]
  have hbeats : Beats cfg w.rate := by
    unfold Beats
    rw [hperiod]
    exact ⟨by decide, by decide, hkey⟩
  have hone : (uint32 (period cfg w.rate)).toNat = 1 := by
    rw [hperiod]
    decide
  have hpos : 0 < cfg.TickHz.toNatClampNeg := by
    rw [Int64.lt_iff_toInt_lt, Int64.toInt_zero] at hhz
    rw [← Int64.toNat_toInt]
    omega
  intro h
  have hle := h hbeats
  rw [hone, beats_one, hrate] at hle
  exact absurd hle (Nat.not_le.2 hpos)

/-- Snapshots are disabled. -/
def disabled : SnapshotConfig := ⟨20, 0, 100, 24⟩

/-- The first second of a room in which player 1 is alone. -/
def disabledWindow : Window disabled where
  JitterBufferTicks := 2
  BaselineRingSize := 32
  before := [.event (.inOpen 1 1)]
  steps := (List.replicate 20 [.deliver [1], .schedule [1] fun _ => 0]).flatten
  rate := 0
  full := by decide +kernel
  held := by
    unfold Held
    decide +kernel

/-- Player 1 gets a snapshot in every tick. -/
theorem disabled_sends : ¬ ∀ p, disabledWindow.snapshots p ≤ disabledWindow.rate.toNatClampNeg := by
  have hsent : disabledWindow.snapshots 1 = 20 := by decide +kernel
  intro h
  exact absurd (h 1) (by rw [hsent]; decide)

end Window

end SoupEngine.Sdk
