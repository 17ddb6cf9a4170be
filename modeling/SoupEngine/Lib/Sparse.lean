import Mathlib.Tactic
import Mathlib.Data.Nat.Count

/-!
# Counting isolated numbers

A predicate that never holds at two consecutive numbers holds at most at every second number of an
interval (`count_add_le`). When the numbers at which it holds are themselves numbered modulo `2 ^
w`, two of them with the same label are the same or at least `2 ^ w` of them apart (`count_gap`).
-/

namespace Sparse

variable {p : ℕ → Prop} [DecidablePred p]

/-- No two consecutive numbers. -/
def Isolated (p : ℕ → Prop) : Prop := ∀ k, p k → ¬ p (k + 1)

theorem count_add_le (h : Isolated p) (i m : ℕ) :
    Nat.count p (i + m) ≤ Nat.count p i + (m + 1) / 2 := by
  induction m using Nat.twoStepInduction with
  | zero => exact Nat.le_add_right _ _
  | one =>
    rw [Nat.count_succ]
    split_ifs <;> omega
  | more m ih _ =>
    rw [show i + (m + 2) = i + m + 1 + 1 by omega, Nat.count_succ, Nat.count_succ]
    have hne := h (i + m)
    by_cases h0 : p (i + m)
    · rw [if_pos h0, if_neg (hne h0)]
      omega
    · rw [if_neg h0]
      split_ifs <;> omega

/-- A set that contains the numbers of an interval at which the predicate holds. -/
theorem count_le_add_card {i j : ℕ} {S : Finset ℕ} (h : ∀ k, i ≤ k → k < j → p k → k ∈ S) :
    Nat.count p j ≤ Nat.count p i + S.card := by
  have hsub : {x ∈ Finset.range j | p x} ⊆ {x ∈ Finset.range i | p x} ∪ S := by
    intro k hk
    rw [Finset.mem_filter, Finset.mem_range] at hk
    rw [Finset.mem_union, Finset.mem_filter, Finset.mem_range]
    by_cases hki : k < i
    · exact Or.inl ⟨hki, hk.2⟩
    · exact Or.inr (h k (not_lt.1 hki) hk.1 hk.2)
  calc Nat.count p j = {x ∈ Finset.range j | p x}.card := Nat.count_eq_card_filter_range p j
    _ ≤ ({x ∈ Finset.range i | p x} ∪ S).card := Finset.card_le_card hsub
    _ ≤ {x ∈ Finset.range i | p x}.card + S.card := Finset.card_union_le _ _
    _ = Nat.count p i + S.card := by rw [Nat.count_eq_card_filter_range]

/-- A later number with the same label is a whole turn of labels later. -/
theorem count_gap {w i j : ℕ} (hi : p i) (hij : i < j)
    (hmod : Nat.count p i % 2 ^ w = Nat.count p j % 2 ^ w) :
    Nat.count p i + 2 ^ w ≤ Nat.count p j := by
  have hlt : Nat.count p i < Nat.count p j := Nat.count_strict_mono hi hij
  by_contra hc
  have hdvd := (Nat.modEq_iff_dvd' (le_of_lt hlt)).1 hmod
  have := Nat.eq_zero_of_dvd_of_lt hdvd (by omega)
  omega

theorem count_mod_inj {w i j : ℕ} (hi : p i) (hj : p j)
    (hmod : Nat.count p i % 2 ^ w = Nat.count p j % 2 ^ w) (hij : i < j + 2 ^ w)
    (hji : j < i + 2 ^ w) : i = j := by
  have hle : ∀ i m, Nat.count p (i + m) ≤ Nat.count p i + m := by
    intro i m
    rw [Nat.count_add]
    exact Nat.add_le_add_left (Nat.count_le _) _
  rcases Nat.lt_trichotomy i j with hlt | heq | hlt
  · have h1 := count_gap hi hlt hmod
    have h2 := hle i (j - i)
    rw [Nat.add_sub_cancel' hlt.le] at h2
    omega
  · exact heq
  · have h1 := count_gap hj hlt hmod.symm
    have h2 := hle j (i - j)
    rw [Nat.add_sub_cancel' hlt.le] at h2
    omega

end Sparse
