import SoupEngine.Basic
import SoupEngine.Lib.Binary

/-!
# Milliseconds in `f64`

A time span becomes a number of milliseconds in `f64`, and each of the four operations on the way
rounds. A longer span never gives a smaller number, so that a span gives at least `R` milliseconds
exactly if it is no shorter than some shortest one (`le_asMillisF64_iff`); below `2 ^ 50`
nanoseconds this is `R` itself or one nanosecond more (`shortest_cases`).
-/

namespace SoupEngine

open Binary

/-- An operation on `f64` rounds its exact result. -/
abbrev f64 (x : ℚ) : ℚ := nearest 53 x

/-- `Duration::as_secs_f64`. -/
def Duration.asSecsF64 (d : Duration) : ℚ :=
  f64 (f64 (d / 1000000000 : ℕ) + f64 ((d % 1000000000 : ℕ) / 1000000000))

/-- `as_secs_f64() * 1000.0`. -/
def Duration.asMillisF64 (d : Duration) : ℚ := f64 (Duration.asSecsF64 d * 1000)

namespace Duration

theorem f64_mono : Monotone f64 := nearest_mono (by norm_num)

/-! ## A longer span -/

/-- The part of a second that is left is less than a second, after rounding too. -/
theorem f64_nanos_lt {n : ℕ} (hn : n < 1000000000) : f64 ((n : ℚ) / 1000000000) < 1 := by
  have hle : f64 ((n : ℚ) / 1000000000) ≤ f64 ((999999999 : ℕ) / 1000000000) := by
    apply f64_mono
    exact div_le_div_of_nonneg_right (Nat.cast_le.2 (Nat.le_of_lt_succ hn)) (by norm_num)
  have hlt : f64 ((999999999 : ℕ) / 1000000000) < 1 := by decide +kernel
  exact hle.trans_lt hlt

/-- Part of a second does not reach the next one. -/
theorem f64_add_le (s : ℕ) {t : ℚ} (h0 : 0 ≤ t) (h1 : t < 1) :
    f64 (f64 s + t) ≤ f64 (s + 1 : ℕ) := by
  rcases Nat.lt_or_ge s (2 ^ 53) with hs | hs
  · -- the seconds are exact
    have hexact : f64 s = s := nearest_natCast (by norm_num) hs.le
    rw [hexact]
    apply f64_mono
    push_cast
    linarith
  · -- the part is less than half of the last bit
    have hpos : (0 : ℚ) < s := Nat.cast_pos.2 (by omega)
    have hlog : (53 : ℤ) ≤ Int.log 2 (s : ℚ) := by
      rw [Int.log_natCast]
      exact_mod_cast Nat.le_log_of_pow_le one_lt_two hs
    have hulp : 2 ≤ ulp 53 (s : ℚ) := by
      unfold ulp
      calc (2 : ℚ) = 2 ^ (1 : ℤ) := (zpow_one 2).symm
        _ ≤ 2 ^ (Int.log 2 (s : ℚ) + 1 - (53 : ℕ)) := zpow_le_zpow_right₀ one_le_two (by omega)
    rw [show f64 (f64 s + t) = f64 s from nearest_add_of_lt (by norm_num) hpos h0 (by linarith)]
    apply f64_mono
    exact Nat.cast_le.2 (Nat.le_succ s)

theorem asSecsF64_mono : Monotone asSecsF64 := by
  intro (d : ℕ) (e : ℕ) (hde : d ≤ e)
  have hmod := Nat.mod_lt d (show 0 < 1000000000 by norm_num)
  have h0 : 0 ≤ f64 ((d % 1000000000 : ℕ) / 1000000000) := nearest_nonneg _
  have h0' : 0 ≤ f64 ((e % 1000000000 : ℕ) / 1000000000) := nearest_nonneg _
  rcases (Nat.div_le_div_right hde : d / 1000000000 ≤ e / 1000000000).lt_or_eq with hlt | heq
  · calc asSecsF64 d ≤ f64 (d / 1000000000 + 1 : ℕ) := f64_add_le _ h0 (f64_nanos_lt hmod)
      _ ≤ f64 (e / 1000000000 : ℕ) := f64_mono (Nat.cast_le.2 hlt)
      _ = f64 (f64 (e / 1000000000 : ℕ)) := (nearest_nearest (by norm_num) _).symm
      _ ≤ asSecsF64 e := f64_mono (by linarith)
  · have hle : d % 1000000000 ≤ e % 1000000000 := by omega
    unfold asSecsF64
    rw [heq]
    apply f64_mono
    have hpart : f64 ((d % 1000000000 : ℕ) / 1000000000) ≤
        f64 ((e % 1000000000 : ℕ) / 1000000000) :=
      f64_mono (div_le_div_of_nonneg_right (Nat.cast_le.2 hle) (by norm_num))
    linarith

/-- **A longer span never gives a smaller number.** -/
theorem asMillisF64_mono : Monotone asMillisF64 := by
  intro d e hde
  exact f64_mono (mul_le_mul_of_nonneg_right (asSecsF64_mono hde) (by norm_num))

/-! ## The shortest span -/

/-- The four roundings together. -/
theorem abs_asMillisF64_sub_le (d : ℕ) :
    |asMillisF64 d - d / 1000000| ≤ d / 1000000 * 2 ^ (-51 : ℤ) := by
  have hsecs : (0 : ℚ) ≤ (d / 1000000000 : ℕ) := Nat.cast_nonneg _
  have hnanos : (0 : ℚ) ≤ (d % 1000000000 : ℕ) / 1000000000 :=
    div_nonneg (Nat.cast_nonneg _) (by norm_num)
  have hsplit : (d : ℚ) / 1000000000 =
      (d / 1000000000 : ℕ) + (d % 1000000000 : ℕ) / 1000000000 := by
    have hdiv : (d : ℚ) = 1000000000 * (d / 1000000000 : ℕ) + (d % 1000000000 : ℕ) := by
      exact_mod_cast (Nat.div_add_mod d 1000000000).symm
    linarith
  have hsum : |f64 (d / 1000000000 : ℕ) + f64
      ((d % 1000000000 : ℕ) / 1000000000) - d / 1000000000| ≤
      d / 1000000000 * 2 ^ (-53 : ℤ) := by
    rw [hsplit, add_sub_add_comm, add_mul]
    calc |f64 (d / 1000000000 : ℕ) - (d / 1000000000 : ℕ) +
          (f64 ((d % 1000000000 : ℕ) / 1000000000) - (d % 1000000000 : ℕ) / 1000000000)|
        ≤ |f64 (d / 1000000000 : ℕ) - (d / 1000000000 : ℕ)| +
          |f64 ((d % 1000000000 : ℕ) / 1000000000) - (d % 1000000000 : ℕ) / 1000000000| :=
          abs_add_le _ _
      _ ≤ _ := add_le_add (abs_nearest_sub_le hsecs) (abs_nearest_sub_le hnanos)
  have hadd :=
    abs_nearest_sub_le_of_near (p := 53) (add_nonneg (nearest_nonneg _) (nearest_nonneg _)) hsum
  have hscaled : |asSecsF64 d * 1000 - d / 1000000| ≤
      d / 1000000 * (2 ^ (-53 : ℤ) + (1 + 2 ^ (-53 : ℤ)) * 2 ^ (-53 : ℤ)) := by
    rw [show asSecsF64 d * 1000 - d / 1000000 = (asSecsF64 d - d / 1000000000) * 1000 by ring,
      abs_mul, abs_of_pos (by norm_num : (0 : ℚ) < 1000)]
    have hle := mul_le_mul_of_nonneg_right hadd (by norm_num : (0 : ℚ) ≤ 1000)
    refine hle.trans_eq ?_
    push_cast
    ring
  have hlast :=
    abs_nearest_sub_le_of_near (p := 53) (mul_nonneg (nearest_nonneg _) (by norm_num)) hscaled
  refine hlast.trans (mul_le_mul_of_nonneg_left ?_ (div_nonneg (Nat.cast_nonneg d) (by norm_num)))
  norm_num

theorem exists_le_asMillisF64 (R : ℕ) : ∃ d, (R : ℚ) / 1000000 ≤ asMillisF64 d := by
  refine ⟨2 * R, ?_⟩
  have hnear := (abs_le.1 (abs_asMillisF64_sub_le (2 * R))).1
  have hR : (0 : ℚ) ≤ R := Nat.cast_nonneg R
  push_cast at hnear
  norm_num at hnear
  linarith

/-- The shortest span of at least `R` milliseconds in `f64`. -/
def shortest (R : ℕ) : ℕ := Nat.find (exists_le_asMillisF64 R)

/-- **A span gives at least `R` milliseconds** if and only if it is no shorter than the shortest
one. -/
theorem le_asMillisF64_iff {R d : Duration} : (R : ℚ) / 1000000 ≤ asMillisF64 d ↔
    shortest R ≤ d := by
  constructor
  · exact fun h => Nat.find_min' (exists_le_asMillisF64 R) h
  · exact fun h => (Nat.find_spec (exists_le_asMillisF64 R)).trans (asMillisF64_mono h)

/-- For less than thirteen days this is `R`, or one nanosecond more. -/
theorem shortest_cases {R : ℕ} (hR : R < 2 ^ 50) : shortest R = R ∨ shortest R = R + 1 := by
  have hcast : (R : ℚ) < 1125899906842624 := by exact_mod_cast hR
  have hle : shortest R ≤ R + 1 := by
    rw [← le_asMillisF64_iff]
    have hnear := (abs_le.1 (abs_asMillisF64_sub_le (R + 1))).1
    push_cast at hnear
    norm_num at hnear
    linarith
  have hge : R ≤ shortest R := by
    by_contra hlt
    obtain ⟨n, rfl⟩ : ∃ n, R = n + 1 := ⟨R - 1, by omega⟩
    have hn : (n + 1 : ℕ) / 1000000 ≤ asMillisF64 n := le_asMillisF64_iff.2 (by omega)
    have hnear := (abs_le.1 (abs_asMillisF64_sub_le n)).2
    push_cast at hn hcast
    norm_num at hnear
    linarith
  omega

end Duration

end SoupEngine
