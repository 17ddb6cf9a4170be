import Mathlib.Tactic

/-!
# Bit masks

Building a mask bit by bit with `|||` and testing single bits with `&&&`, reduced to `getLsbD`.
-/

namespace BitMask

variable {w : ℕ}

/-- Set bit `k` of an empty mask for every `k < n` with `p k`, in increasing order of `k`. -/
def setWhere (w n : ℕ) (p : ℕ → Bool) : BitVec w :=
  (List.range n).foldl (fun bits k => if p k then bits ||| (1#w <<< k) else bits) 0

theorem setWhere_succ (n : ℕ) (p : ℕ → Bool) :
    setWhere w (n + 1) p =
      if p n then setWhere w n p ||| (1#w <<< n) else setWhere w n p := by
  unfold setWhere
  rw [List.range_succ, List.foldl_append]
  rfl

theorem getLsbD_one_shiftLeft (n k : ℕ) :
    (1#w <<< n).getLsbD k = (decide (n < w) && decide (n = k)) := by
  rw [← BitVec.twoPow_eq, BitVec.getLsbD_twoPow]

/-- The bits of a mask built by `setWhere` are those asked for. -/
theorem getLsbD_setWhere (n : ℕ) (p : ℕ → Bool) (k : ℕ) :
    (setWhere w n p).getLsbD k = (decide (k < n) && decide (k < w) && p k) := by
  induction n with
  | zero => simp [setWhere]
  | succ n ih =>
    rw [setWhere_succ]
    by_cases hkn : k = n
    · subst hkn
      by_cases hp : p k = true
      · rw [if_pos hp, BitVec.getLsbD_or, ih, getLsbD_one_shiftLeft]
        simp [hp]
      · rw [if_neg hp, ih]
        simp [Bool.not_eq_true _ ▸ hp]
    · have hlt : (k < n + 1) = (k < n) := by
        apply propext; omega
      split_ifs
      · rw [BitVec.getLsbD_or, ih, getLsbD_one_shiftLeft]
        simp [hlt, Ne.symm hkn]
      · rw [ih]
        simp [hlt]

/-- Masking with a single bit tests that bit. -/
theorem and_one_shiftLeft_ne_zero (x : BitVec w) (k : ℕ) :
    x &&& (1#w <<< k) ≠ 0 ↔ x.getLsbD k = true := by
  rw [← BitVec.twoPow_eq, BitVec.and_twoPow]
  by_cases hx : x.getLsbD k = true
  · have hk : k < w := BitVec.lt_of_getLsbD hx
    have hne : BitVec.twoPow w k ≠ 0#w := by
      intro h
      have := congrArg (·.getLsbD k) h
      simp [hk] at this
    rw [if_pos hx]
    exact iff_of_true hne hx
  · rw [if_neg hx]
    exact iff_of_false (fun h => h rfl) hx

end BitMask
