import Mathlib.Data.Int.Log
import Mathlib.Data.Rat.Floor
import Mathlib.Tactic

/-!
# Rounding to a binary format

A binary format with `p` bits of precision (53 for `f64`) as the set of the rationals that it holds:
the result of an operation is the exact one, rounded to the nearest number of the format, ties to
the even one. The exponent is not bounded, so this is the arithmetic of results that neither
overflow nor are subnormal. Only nonnegative numbers are rounded here.
-/

namespace Binary

/-- The nearest integer, of two the even one. -/
def nearestEven (x : ℚ) : ℤ :=
  if x - ⌊x⌋ < 1 / 2 then ⌊x⌋
  else if 1 / 2 < x - ⌊x⌋ then ⌊x⌋ + 1
  else if ⌊x⌋ % 2 = 0 then ⌊x⌋ else ⌊x⌋ + 1

theorem nearestEven_cases (x : ℚ) :
    (nearestEven x = ⌊x⌋ ∧ x - ⌊x⌋ ≤ 1 / 2) ∨ (nearestEven x = ⌊x⌋ + 1 ∧ 1 / 2 ≤ x - ⌊x⌋) := by
  unfold nearestEven
  split_ifs with hlo hhi heven
  · exact Or.inl ⟨rfl, hlo.le⟩
  · exact Or.inr ⟨rfl, hhi.le⟩
  · exact Or.inl ⟨rfl, not_lt.1 hhi⟩
  · exact Or.inr ⟨rfl, not_lt.1 hlo⟩

theorem abs_nearestEven_sub_le (x : ℚ) : |(nearestEven x : ℚ) - x| ≤ 1 / 2 := by
  have hfloor := Int.floor_le x
  have hceil := Int.lt_floor_add_one x
  rcases nearestEven_cases x with ⟨heq, hx⟩ | ⟨heq, hx⟩
  · rw [heq, abs_le]
    constructor <;> linarith
  · rw [heq, Int.cast_add, Int.cast_one, abs_le]
    constructor <;> linarith

/-- A number that is nearer than one half to an integer is rounded to it. -/
theorem nearestEven_of_lt {m : ℤ} {x : ℚ} (hlo : (m : ℚ) ≤ x) (hhi : x < m + 1 / 2) :
    nearestEven x = m := by
  have hfloor : ⌊x⌋ = m := Int.floor_eq_iff.2 ⟨hlo, by linarith⟩
  unfold nearestEven
  rw [hfloor, if_pos (by linarith)]

@[simp] theorem nearestEven_intCast (m : ℤ) : nearestEven m = m :=
  nearestEven_of_lt le_rfl (by linarith)

theorem nearestEven_mono : Monotone nearestEven := by
  intro x y hxy
  have hfloor : ⌊x⌋ ≤ ⌊y⌋ := Int.floor_le_floor hxy
  rcases hfloor.lt_or_eq with hlt | heq
  · -- the first is rounded up at most to the integer part of the second
    have hx : nearestEven x ≤ ⌊x⌋ + 1 := by
      rcases nearestEven_cases x with ⟨h, -⟩ | ⟨h, -⟩ <;> omega
    have hy : ⌊y⌋ ≤ nearestEven y := by
      rcases nearestEven_cases y with ⟨h, -⟩ | ⟨h, -⟩ <;> omega
    omega
  · unfold nearestEven
    rw [← heq]
    split_ifs <;> first | omega | (exfalso; linarith)

section

variable (p : ℕ)

/-- The distance of the numbers of the format around `x`. -/
def ulp (x : ℚ) : ℚ := 2 ^ (Int.log 2 x + 1 - p)

/-- The number of the format nearest to `x`. -/
def nearest (x : ℚ) : ℚ := if x ≤ 0 then 0 else nearestEven (x / ulp p x) * ulp p x

variable {p} {x y : ℚ}

theorem ulp_pos (x : ℚ) : 0 < ulp p x := zpow_pos two_pos _

theorem nearest_of_pos (hx : 0 < x) : nearest p x = nearestEven (x / ulp p x) * ulp p x :=
  if_neg (not_le.2 hx)

@[simp] theorem nearest_zero : nearest p 0 = 0 := if_pos le_rfl

/-- The last bit is worth at most `2 ^ (1 - p)` of the number. -/
theorem ulp_le (hx : 0 < x) : ulp p x ≤ x * 2 ^ (1 - p : ℤ) := by
  have hlog : (2 : ℚ) ^ Int.log 2 x ≤ x := by exact_mod_cast Int.zpow_log_le_self (by norm_num) hx
  calc ulp p x = 2 ^ Int.log 2 x * 2 ^ (1 - p : ℤ) := by
        unfold ulp
        rw [← zpow_add₀ two_ne_zero]
        congr 1
        ring
    _ ≤ x * 2 ^ (1 - p : ℤ) := mul_le_mul_of_nonneg_right hlog (zpow_pos two_pos _).le

/-- The relative error of a rounding. -/
theorem abs_nearest_sub_le (hx : 0 ≤ x) : |nearest p x - x| ≤ x * 2 ^ (-p : ℤ) := by
  rcases hx.eq_or_lt with rfl | hpos
  · simp
  have hulp := ulp_pos (p := p) x
  have hscaled : x / ulp p x * ulp p x = x := div_mul_cancel₀ x hulp.ne'
  have hhalf : x * 2 ^ (1 - p : ℤ) = 2 * (x * 2 ^ (-p : ℤ)) := by
    rw [sub_eq_add_neg, zpow_add₀ two_ne_zero]
    ring
  calc |nearest p x - x| = |((nearestEven (x / ulp p x) : ℚ) - x / ulp p x) * ulp p x| := by
        rw [nearest_of_pos hpos, sub_mul, hscaled]
    _ = |(nearestEven (x / ulp p x) : ℚ) - x / ulp p x| * ulp p x := by
      rw [abs_mul, abs_of_pos hulp]
    _ ≤ 1 / 2 * ulp p x := mul_le_mul_of_nonneg_right (abs_nearestEven_sub_le _) hulp.le
    _ ≤ x * 2 ^ (-p : ℤ) := by linarith [ulp_le (p := p) hpos]

/-- What is near to `y` is still near to it after a rounding. -/
theorem abs_nearest_sub_le_of_near {δ : ℚ} (hx : 0 ≤ x) (h : |x - y| ≤ y * δ) :
    |nearest p x - y| ≤ y * (δ + (1 + δ) * 2 ^ (-p : ℤ)) := by
  have hle : x ≤ y * (1 + δ) := by linarith [(abs_le.1 h).2]
  have hpow : (0 : ℚ) ≤ 2 ^ (-p : ℤ) := (zpow_pos two_pos _).le
  calc |nearest p x - y| ≤ |nearest p x - x| + |x - y| := abs_sub_le _ _ _
    _ ≤ x * 2 ^ (-p : ℤ) + y * δ := add_le_add (abs_nearest_sub_le hx) h
    _ ≤ y * (1 + δ) * 2 ^ (-p : ℤ) + y * δ :=
      add_le_add_left (mul_le_mul_of_nonneg_right hle hpow) _
    _ = y * (δ + (1 + δ) * 2 ^ (-p : ℤ)) := by ring

theorem nearest_nonneg (x : ℚ) : 0 ≤ nearest p x := by
  unfold nearest
  split_ifs with hx
  · exact le_rfl
  · have hscaled : 0 ≤ x / ulp p x := (div_pos (not_le.1 hx) (ulp_pos x)).le
    have hround : 0 ≤ nearestEven (x / ulp p x) := by
      rw [← nearestEven_intCast 0]
      apply nearestEven_mono
      rwa [Int.cast_zero]
    exact mul_nonneg (Int.cast_nonneg hround) (ulp_pos x).le

/-! ## Numbers of the format -/

/-- A multiple of the last bit, with less than half of it on top, is rounded to the multiple. -/
theorem nearest_of_grid {m : ℤ} (hx : 0 < x) (hlo : m * ulp p x ≤ x)
    (hhi : x < m * ulp p x + ulp p x / 2) :
    nearest p x = m * ulp p x := by
  have hulp := ulp_pos (p := p) x
  rw [nearest_of_pos hx, nearestEven_of_lt]
  · rwa [le_div_iff₀ hulp]
  · rw [div_lt_iff₀ hulp]
    linarith

/-- A power of two is a number of the format. -/
theorem zpow_eq_mul_ulp (hp : 0 < p) {e : ℤ} (he : Int.log 2 x ≤ e) :
    ∃ m : ℤ, (2 : ℚ) ^ (e + 1) = m * ulp p x := by
  obtain ⟨k, hk⟩ := Int.eq_ofNat_of_zero_le (show 0 ≤ e + 1 - (Int.log 2 x + 1 - p) by omega)
  refine ⟨2 ^ k, ?_⟩
  unfold ulp
  push_cast
  rw [← zpow_natCast, ← zpow_add₀ two_ne_zero]
  congr 1
  omega

/-- Rounding does not go over the next power of two. -/
theorem nearest_le_zpow (hp : 0 < p) (hx : 0 < x) : nearest p x ≤ 2 ^ (Int.log 2 x + 1) := by
  have hulp := ulp_pos (p := p) x
  obtain ⟨m, hm⟩ := zpow_eq_mul_ulp hp (le_refl (Int.log 2 x))
  have hlt : x < 2 ^ (Int.log 2 x + 1) := by
    exact_mod_cast Int.lt_zpow_succ_log_self (by norm_num) x
  have hle : nearestEven (x / ulp p x) ≤ m := by
    rw [← nearestEven_intCast m]
    refine nearestEven_mono ?_
    rw [div_le_iff₀ hulp, ← hm]
    exact hlt.le
  rw [nearest_of_pos hx, hm]
  exact mul_le_mul_of_nonneg_right (Int.cast_le.2 hle) hulp.le

/-- Rounding does not go below the power of two before the number. -/
theorem zpow_le_nearest (hp : 0 < p) (hx : 0 < x) : 2 ^ Int.log 2 x ≤ nearest p x := by
  have hulp := ulp_pos (p := p) x
  have hlog : (2 : ℚ) ^ Int.log 2 x ≤ x := by exact_mod_cast Int.zpow_log_le_self (by norm_num) hx
  have hpow : (2 : ℚ) ^ Int.log 2 x = ((2 ^ (p - 1) : ℤ) : ℚ) * ulp p x := by
    unfold ulp
    push_cast
    rw [← zpow_natCast, ← zpow_add₀ two_ne_zero]
    congr 1
    omega
  have hle : (2 ^ (p - 1) : ℤ) ≤ nearestEven (x / ulp p x) := by
    rw [← nearestEven_intCast (2 ^ (p - 1))]
    refine nearestEven_mono ?_
    rw [le_div_iff₀ hulp, ← hpow]
    exact hlog
  rw [nearest_of_pos hx, hpow]
  exact mul_le_mul_of_nonneg_right (Int.cast_le.2 hle) hulp.le

theorem nearest_mono (hp : 0 < p) : Monotone (nearest p) := by
  intro x y hxy
  rcases le_or_gt x 0 with hx | hx
  · calc nearest p x = 0 := if_pos hx
      _ ≤ nearest p y := nearest_nonneg y
  have hy : 0 < y := hx.trans_le hxy
  rcases (Int.log_mono_right (b := 2) hx hxy).lt_or_eq with hlt | heq
  · calc nearest p x ≤ 2 ^ (Int.log 2 x + 1) := nearest_le_zpow hp hx
      _ ≤ 2 ^ Int.log 2 y := zpow_le_zpow_right₀ one_le_two hlt
      _ ≤ nearest p y := zpow_le_nearest hp hy
  · have hulp : ulp p x = ulp p y := by
      unfold ulp
      rw [heq]
    rw [nearest_of_pos hx, nearest_of_pos hy, hulp]
    refine mul_le_mul_of_nonneg_right (Int.cast_le.2 (nearestEven_mono ?_)) (ulp_pos y).le
    exact div_le_div_of_nonneg_right hxy (ulp_pos y).le

theorem log_eq {e : ℤ} (hx : 0 < x) (hlo : (2 : ℚ) ^ e ≤ x) (hhi : x < 2 ^ (e + 1)) :
    Int.log 2 x = e := by
  have hle : e ≤ Int.log 2 x := (Int.zpow_le_iff_le_log (by norm_num) hx).1 (by exact_mod_cast hlo)
  have hlt : Int.log 2 x < e + 1 :=
    (Int.lt_zpow_iff_log_lt (by norm_num) hx).1 (by exact_mod_cast hhi)
  omega

/-- A natural number of at most `p` bits is a number of the format. -/
theorem nearest_natCast (hp : 0 < p) {n : ℕ} (hn : n ≤ 2 ^ p) : nearest p n = n := by
  rcases n.eq_zero_or_pos with rfl | hpos
  · simp
  have hcast : (0 : ℚ) < n := Nat.cast_pos.2 hpos
  obtain ⟨m, hm⟩ : ∃ m : ℤ, (n : ℚ) = m * ulp p (n : ℚ) := by
    rcases hn.lt_or_eq with hlt | rfl
    · have hlog : Nat.log 2 n < p := Nat.log_lt_of_lt_pow hpos.ne' hlt
      refine ⟨n * 2 ^ (p - (Nat.log 2 n + 1)), ?_⟩
      unfold ulp
      rw [Int.log_natCast]
      push_cast
      have hexp : ((p - (Nat.log 2 n + 1) : ℕ) : ℤ) + (Nat.log 2 n + 1 - p) = 0 := by omega
      calc (n : ℚ) = n * 2 ^ (((p - (Nat.log 2 n + 1) : ℕ) : ℤ) + (Nat.log 2 n + 1 - p)) := by
            rw [hexp, zpow_zero, mul_one]
        _ = n * 2 ^ (p - (Nat.log 2 n + 1)) * 2 ^ ((Nat.log 2 n : ℤ) + 1 - p) := by
            rw [zpow_add₀ two_ne_zero, zpow_natCast, mul_assoc]
    · refine ⟨2 ^ (p - 1), ?_⟩
      unfold ulp
      rw [Int.log_natCast, Nat.log_pow one_lt_two]
      push_cast
      rw [← zpow_natCast, ← zpow_natCast, ← zpow_add₀ two_ne_zero]
      congr 1
      omega
  have hulp := ulp_pos (p := p) (n : ℚ)
  calc nearest p n = m * ulp p (n : ℚ) := nearest_of_grid hcast hm.ge (by linarith)
    _ = n := hm.symm

/-- What is less than half of the last bit is lost when it is added to a rounded number. -/
theorem nearest_add_of_lt (hp : 0 < p) {t : ℚ} (hx : 0 < x) (h0 : 0 ≤ t) (ht : t < ulp p x / 2) :
    nearest p (nearest p x + t) = nearest p x := by
  have hulp := ulp_pos (p := p) x
  have hlo := zpow_le_nearest hp hx
  have hpos : 0 < nearest p x := (zpow_pos two_pos _).trans_le hlo
  obtain ⟨M, hM⟩ := zpow_eq_mul_ulp hp (le_refl (Int.log 2 x))
  rcases (nearest_le_zpow hp hx).lt_or_eq with hlt | heq
  · -- the sum stays below the next power of two, so that the last bit is the same
    have hsucc : nearest p x + ulp p x ≤ 2 ^ (Int.log 2 x + 1) := by
      rw [nearest_of_pos hx, hM] at hlt ⊢
      have hm : nearestEven (x / ulp p x) < M := Int.cast_lt.1 (lt_of_mul_lt_mul_right hlt hulp.le)
      have hm' : ((nearestEven (x / ulp p x) : ℚ) + 1) ≤ M := by exact_mod_cast hm
      calc (nearestEven (x / ulp p x) : ℚ) * ulp p x + ulp p x
          = ((nearestEven (x / ulp p x) : ℚ) + 1) * ulp p x := by ring
        _ ≤ M * ulp p x := mul_le_mul_of_nonneg_right hm' hulp.le
    have hlog : Int.log 2 (nearest p x + t) = Int.log 2 x :=
      log_eq (by linarith) (by linarith) (by linarith)
    have hsame : ulp p (nearest p x + t) = ulp p x := by
      unfold ulp
      rw [hlog]
    have hgrid := nearest_of_pos (p := p) hx
    refine (nearest_of_grid (m := nearestEven (x / ulp p x)) (by linarith) ?_ ?_).trans ?_
    · rw [hsame, ← hgrid]
      linarith
    · rw [hsame, ← hgrid]
      linarith
    · rw [hsame, ← hgrid]
  · -- rounding has reached the next power of two, where the last bit is twice as large
    have hle : ulp p x ≤ 2 ^ (Int.log 2 x + 1) := by
      unfold ulp
      exact zpow_le_zpow_right₀ one_le_two (by omega)
    have htwo : (2 : ℚ) ^ (Int.log 2 x + 1 + 1) = 2 * 2 ^ (Int.log 2 x + 1) := by
      rw [zpow_add_one₀ two_ne_zero, mul_comm]
    have hlog : Int.log 2 (nearest p x + t) = Int.log 2 x + 1 := by
      refine log_eq (by linarith) (by linarith) ?_
      rw [htwo]
      linarith
    have hsame : ulp p (nearest p x + t) = 2 * ulp p x := by
      unfold ulp
      rw [hlog, ← zpow_one_add₀ two_ne_zero]
      congr 1
      ring
    have hgrid : nearest p x = ((2 ^ (p - 1) : ℤ) : ℚ) * (2 * ulp p x) := by
      rw [heq]
      unfold ulp
      push_cast
      rw [← zpow_one_add₀ two_ne_zero, ← zpow_natCast, ← zpow_add₀ two_ne_zero]
      congr 1
      omega
    refine (nearest_of_grid (m := 2 ^ (p - 1)) (by linarith) ?_ ?_).trans ?_
    · rw [hsame, ← hgrid]
      linarith
    · rw [hsame, ← hgrid]
      linarith
    · rw [hsame, ← hgrid]

theorem nearest_nearest (hp : 0 < p) (x : ℚ) : nearest p (nearest p x) = nearest p x := by
  rcases le_or_gt x 0 with hx | hx
  · rw [show nearest p x = 0 from if_pos hx, nearest_zero]
  · have hsame := nearest_add_of_lt hp hx le_rfl (half_pos (ulp_pos (p := p) x))
    rwa [add_zero] at hsame

end

end Binary
