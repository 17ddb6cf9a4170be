import Mathlib.Algebra.Order.Ring.Star
import Mathlib.Data.Rat.Star
import SoupEngine.Session.Table

/-!
# Windows and latency

Both windows of a session are to be its smoothed round-trip time, in whole milliseconds, times a
factor, within bounds. The estimate is narrowed to 16 bits on the way, and 0 is taken for "no sample
yet", which has the upper bound; so a session with less than a millisecond of latency has the
longest windows (`windows_iff`).
-/

namespace SoupEngine

/-! ## The estimate -/

namespace RttEstimator

/-- The smoothed round-trip time in whole milliseconds. -/
def whole (r : RttEstimator) : ℕ := ⌊r.srttMs⌋.toNat

theorem whole_mono {r r' : RttEstimator} (h : r.srttMs ≤ r'.srttMs) : r.whole ≤ r'.whole :=
  Int.toNat_le_toNat (Int.floor_mono h)

/-- `srtt_ms` saturates. -/
theorem toNat_srttMillis (r : RttEstimator) : r.srttMillis.toNat = min r.whole 0xFFFF := by
  have hmin : (min r.srttMs 0xFFFF).floor = min ⌊r.srttMs⌋ 0xFFFF := by
    have hmono : ⌊min r.srttMs 0xFFFF⌋ = min ⌊r.srttMs⌋ ⌊(0xFFFF : ℚ)⌋ := Int.floor_mono.map_min
    rw [show ⌊(0xFFFF : ℚ)⌋ = 0xFFFF from Int.floor_ofNat _] at hmono
    exact hmono
  unfold srttMillis whole
  rw [hmin, BitVec.toNat_ofNat]
  omega

theorem srttMillis_eq_zero {r : RttEstimator} : r.srttMillis = 0 ↔ r.whole = 0 := by
  rw [← BitVec.toNat_inj, toNat_srttMillis]
  show min r.whole 0xFFFF = 0 ↔ _
  omega

end RttEstimator

/-- A session with its round-trip samples, in milliseconds. -/
structure Sampled where
  session : Session
  samples : List ℚ
  some_sample : samples ≠ []
  pos : ∀ x ∈ samples, 0 < x
  rtt_eq : session.rtt = samples.foldl RttEstimator.update .new

namespace Sampled

variable (s : Sampled)

/-- The smoothed round-trip time. -/
def srtt : ℚ := s.session.rtt.srttMs

end Sampled

/-! ## One window -/

/-- `Duration::clamp`. -/
def clamp (lo hi d : Duration) : Duration := min (max d lo) hi

theorem clamp_mono {lo hi a b : Duration} (h : a ≤ b) : clamp lo hi a ≤ clamp lo hi b :=
  min_le_min_right hi (max_le_max_right lo h)

/-- The window of a session of so many whole milliseconds. -/
def window (lo hi : Duration) (factor whole : ℕ) : Duration :=
  clamp lo hi (Duration.fromMillis whole * factor)

theorem window_mono (lo hi : Duration) (factor : ℕ) {m n : ℕ} (h : m ≤ n) :
    window lo hi factor m ≤ window lo hi factor n := by
  refine clamp_mono (Nat.mul_le_mul_right factor ?_)
  unfold Duration.fromMillis
  omega

/-- The bounds are one, or the estimate is neither taken for no sample nor narrowed so that it
matters. -/
def Faithful (lo hi : Duration) (factor whole : ℕ) : Prop :=
  lo = hi ∨ whole ≠ 0 ∧
    (whole ≤ 0xFFFF ∨ hi ≤ Duration.fromMillis 0xFFFF * factor ∨
      Duration.fromMillis whole * factor ≤ lo)

/-- Two values are clamped to one if the bounds are one, or both values are beyond the same
bound. -/
theorem clamp_eq_iff {lo hi a b : ℕ} (hle : lo ≤ hi) (hab : a < b) :
    clamp lo hi a = clamp lo hi b ↔ lo = hi ∨ hi ≤ a ∨ b ≤ lo := by
  show (min (max a lo) hi : ℕ) = min (max b lo) hi ↔ _
  constructor
  · intro h
    by_contra hno
    omega
  · intro h
    omega

theorem hi_eq_clamp_iff {lo hi : ℕ} (hle : lo ≤ hi) : hi = clamp lo hi 0 ↔ lo = hi := by
  unfold clamp
  rw [max_eq_right (Nat.zero_le lo), min_eq_left hle]
  exact eq_comm

/-- The window as it is computed from the narrowed estimate. -/
theorem adaptive_eq_iff {lo hi : Duration} (hle : lo ≤ hi) {factor : ℕ} (hfactor : 0 < factor)
    (n : ℕ) :
    (if n = 0 then hi else window lo hi factor (min n 0xFFFF)) = window lo hi factor n ↔
      Faithful lo hi factor n := by
  unfold Faithful window
  rcases Nat.eq_zero_or_pos n with rfl | hpos
  · have hzero : Duration.fromMillis 0 * factor = 0 := by
      unfold Duration.fromMillis
      rw [Nat.zero_mul]
    rw [if_pos rfl, hzero, hi_eq_clamp_iff hle]
    exact (or_iff_left fun h => h.1 rfl).symm
  rw [if_neg hpos.ne', and_iff_right hpos.ne']
  rcases Nat.lt_or_ge 0xFFFF n with hlarge | hsmall
  · have hgrow : Duration.fromMillis 0xFFFF * factor < Duration.fromMillis n * factor := by
      refine Nat.mul_lt_mul_of_pos_right ?_ hfactor
      exact Nat.mul_lt_mul_of_pos_right hlarge (by decide)
    rw [min_eq_right hlarge.le, clamp_eq_iff hle hgrow, or_iff_right (not_le.2 hlarge)]
  · rw [min_eq_left hsmall]
    exact iff_of_true rfl (Or.inr (Or.inl hsmall))

/-- The narrowed estimate is 0 when the estimate is, and is cut off at 65535. -/
theorem adaptive_eq (r : RttEstimator) (lo hi : Duration) (factor : ℕ) :
    (if r.srttMillis = 0 then hi
      else min (max (Duration.fromMillis r.srttMillis.toNat * factor) lo) hi) =
      if r.whole = 0 then hi else window lo hi factor (min r.whole 0xFFFF) := by
  by_cases hzero : r.whole = 0
  · rw [if_pos hzero, if_pos (RttEstimator.srttMillis_eq_zero.2 hzero)]
  · rw [if_neg hzero, if_neg fun h => hzero (RttEstimator.srttMillis_eq_zero.1 h),
      r.toNat_srttMillis]
    rfl

/-! ## Both windows -/

variable (cfg : SessionTableConfig)

/-- Both windows are the round-trip time in whole milliseconds times their factors, within their
bounds. -/
def Proportional (s : Sampled) : Prop :=
  s.session.idleGraceFor cfg = window cfg.timeoutMin cfg.timeoutMax 30 ⌊s.srtt⌋.toNat ∧
    s.session.reconnectGraceFor cfg = window cfg.reconnectMin cfg.reconnectMax 120 ⌊s.srtt⌋.toNat

/-- What it takes of the configuration and the round-trip time. -/
def Apt (s : Sampled) : Prop :=
  if cfg.dynamicTimeouts then
    Faithful cfg.timeoutMin cfg.timeoutMax 30 ⌊s.srtt⌋.toNat ∧
      Faithful cfg.reconnectMin cfg.reconnectMax 120 ⌊s.srtt⌋.toNat
  else
    cfg.idleGrace = window cfg.timeoutMin cfg.timeoutMax 30 ⌊s.srtt⌋.toNat ∧
      cfg.reconnectGrace = window cfg.reconnectMin cfg.reconnectMax 120 ⌊s.srtt⌋.toNat

variable {cfg}

theorem proportional_iff (htimeout : cfg.timeoutMin ≤ cfg.timeoutMax)
    (hreconnect : cfg.reconnectMin ≤ cfg.reconnectMax) (s : Sampled) :
    Proportional cfg s ↔ Apt cfg s := by
  have hwhole : ⌊s.srtt⌋.toNat = s.session.rtt.whole := rfl
  unfold Proportional Apt Session.idleGraceFor Session.reconnectGraceFor
  rw [hwhole]
  by_cases hdynamic : cfg.dynamicTimeouts = true
  · rw [hdynamic, if_pos rfl, ← adaptive_eq_iff htimeout (by decide),
      ← adaptive_eq_iff hreconnect (by decide), Bool.not_true, if_neg Bool.false_ne_true,
      if_neg Bool.false_ne_true, adaptive_eq, adaptive_eq]
  · rw [Bool.not_eq_true] at hdynamic
    rw [hdynamic, Bool.not_false, if_pos rfl, if_pos rfl, if_neg Bool.false_ne_true]

/-- Windows that are proportional grow with latency. -/
theorem Proportional.mono {s₁ s₂ : Sampled} (h₁ : Proportional cfg s₁) (h₂ : Proportional cfg s₂)
    (hle : s₁.srtt ≤ s₂.srtt) :
    s₁.session.idleGraceFor cfg ≤ s₂.session.idleGraceFor cfg ∧
      s₁.session.reconnectGraceFor cfg ≤ s₂.session.reconnectGraceFor cfg := by
  have hwhole : ⌊s₁.srtt⌋.toNat ≤ ⌊s₂.srtt⌋.toNat := RttEstimator.whole_mono hle
  rw [h₁.1, h₁.2, h₂.1, h₂.2]
  exact ⟨window_mono _ _ 30 hwhole, window_mono _ _ 120 hwhole⟩

/-- **Windows and latency.** The windows of two sessions are proportional to their latencies, and so
grow with them, exactly if the configuration and the round-trip times allow it. -/
theorem windows_iff (htimeout : cfg.timeoutMin ≤ cfg.timeoutMax)
    (hreconnect : cfg.reconnectMin ≤ cfg.reconnectMax) (s₁ s₂ : Sampled) :
    ((s₁.srtt ≤ s₂.srtt →
        s₁.session.idleGraceFor cfg ≤ s₂.session.idleGraceFor cfg ∧
          s₁.session.reconnectGraceFor cfg ≤ s₂.session.reconnectGraceFor cfg) ∧
      Proportional cfg s₁ ∧ Proportional cfg s₂) ↔ Apt cfg s₁ ∧ Apt cfg s₂ := by
  rw [← proportional_iff htimeout hreconnect s₁, ← proportional_iff htimeout hreconnect s₂]
  exact and_iff_right_of_imp fun h => h.1.mono h.2

/-- A session after one sample. -/
def sampledOnce (x : ℚ) (hx : 0 < x) : Sampled where
  session := { Session.create 1 1 (.V4 0 0) 0 [] 0 with rtt := RttEstimator.new.update x }
  samples := [x]
  some_sample := List.cons_ne_nil x []
  pos y hy := by
    rw [List.mem_singleton.1 hy]
    exact hx
  rtt_eq := rfl

theorem srtt_sampledOnce (x : ℚ) (hx : 0 < x) : (sampledOnce x hx).srtt = x := by
  show (RttEstimator.new.update x).srttMs = x
  unfold RttEstimator.update
  rw [if_neg (not_le.2 hx)]
  rfl

/-- 100 and 150 ms of latency. -/
theorem windows_apart :
    (SessionTableConfig.default.timeoutMin ≤ SessionTableConfig.default.timeoutMax ∧
      SessionTableConfig.default.reconnectMin ≤ SessionTableConfig.default.reconnectMax) ∧
    (sampledOnce 100 (by norm_num)).session.idleGraceFor .default ≤
      (sampledOnce 150 (by norm_num)).session.idleGraceFor .default := by
  have hapt (n : ℕ) [n.AtLeastTwo] (hn : n ≤ 0xFFFF) (hpos : 0 < (OfNat.ofNat n : ℚ)) :
      Apt .default (sampledOnce (OfNat.ofNat n) hpos) := by
    have hwhole : ⌊(sampledOnce (OfNat.ofNat n) hpos).srtt⌋.toNat = n := by
      rw [srtt_sampledOnce, Int.floor_ofNat]
      rfl
    have h2 : 2 ≤ n := Nat.AtLeastTwo.prop
    unfold Apt Faithful
    rw [hwhole]
    exact ⟨Or.inr ⟨by omega, Or.inl hn⟩, Or.inr ⟨by omega, Or.inl hn⟩⟩
  refine ⟨⟨by decide, by decide⟩, ?_⟩
  refine (((@windows_iff .default (by decide) (by decide) _ _).2
    ⟨hapt 100 (by decide) (by norm_num), hapt 150 (by decide) (by norm_num)⟩).1 ?_).1
  rw [srtt_sampledOnce, srtt_sampledOnce]
  norm_num

/-- With half a millisecond of latency the windows are longer than with 20 ms. -/
theorem windows_shrink : ¬ ∀ (cfg : SessionTableConfig) (s₁ s₂ : Sampled),
    cfg.timeoutMin ≤ cfg.timeoutMax → cfg.reconnectMin ≤ cfg.reconnectMax → s₁.srtt ≤ s₂.srtt →
      s₁.session.idleGraceFor cfg ≤ s₂.session.idleGraceFor cfg ∧
        s₁.session.reconnectGraceFor cfg ≤ s₂.session.reconnectGraceFor cfg := by
  intro h
  have hle := (h .default (sampledOnce (1 / 2) (by norm_num)) (sampledOnce 20 (by norm_num))
    (by decide) (by decide) (by rw [srtt_sampledOnce, srtt_sampledOnce]; norm_num)).1
  exact absurd hle (by decide +kernel)

end SoupEngine
