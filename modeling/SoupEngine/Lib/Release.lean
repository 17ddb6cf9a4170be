import Mathlib.Tactic
import Mathlib.Data.Finset.Basic
import Mathlib.Data.Finset.Card
import Mathlib.Data.Nat.Find

/-!
# In-order release

Items `0, 1, 2, …` become available in any order; item `i` may be released once every item up to it
is available. For the finite set `D` of available items, `front D` is the first one missing, so the
items released are those below it.
-/

namespace Release

theorem exists_not_mem (D : Finset ℕ) : ∃ i, i ∉ D := Infinite.exists_notMem_finset D

/-- The first item that is not available. -/
def front (D : Finset ℕ) : ℕ := Nat.find (exists_not_mem D)

theorem front_not_mem (D : Finset ℕ) : front D ∉ D := Nat.find_spec (exists_not_mem D)

theorem mem_of_lt_front {D : Finset ℕ} {i : ℕ} (h : i < front D) : i ∈ D :=
  not_not.1 (Nat.find_min (exists_not_mem D) h)

/-- A number with everything below it available is at most the front. -/
theorem le_front {D : Finset ℕ} {k : ℕ} (h : ∀ i < k, i ∈ D) : k ≤ front D := by
  by_contra hc
  exact front_not_mem D (h _ (not_le.1 hc))

theorem front_le {D : Finset ℕ} {k : ℕ} (h : k ∉ D) : front D ≤ k := Nat.find_min' _ h

theorem front_eq {D : Finset ℕ} {k : ℕ} (h : ∀ i < k, i ∈ D) (hk : k ∉ D) : front D = k :=
  le_antisymm (front_le hk) (le_front h)

@[simp] theorem front_empty : front ∅ = 0 := front_eq (by simp) (by simp)

@[simp] theorem front_range (k : ℕ) : front (Finset.range k) = k :=
  front_eq (fun i hi => Finset.mem_range.2 hi) (by simp)

/-- More available items release no less. -/
theorem front_mono {D D' : Finset ℕ} (h : D ⊆ D') : front D ≤ front D' :=
  le_front fun _ hi => h (mem_of_lt_front hi)

end Release
