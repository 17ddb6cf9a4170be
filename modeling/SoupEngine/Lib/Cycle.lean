import Mathlib.Tactic

/-!
# Once in every cycle

Something happens in some of the first `N` ticks of a clock. It happens exactly once in any `k`
ticks in a row exactly if the ticks are fewer than `k`, or it happens in those that leave one
remainder modulo `k` (`onceInEvery_iff`).
-/

namespace Cycle

variable {k N r : ℕ} {p : ℕ → Prop}

/-- It happens in exactly one of any `k` ticks in a row. -/
def OnceInEvery (k N : ℕ) (p : ℕ → Prop) : Prop :=
  ∀ n, n + k ≤ N → ∃! m, (n ≤ m ∧ m < n + k) ∧ p m

/-- Ticks with the same remainder are a cycle apart. -/
theorem eq_of_mod_eq {m m' n : ℕ} (h : m % k = m' % k) (hm : n ≤ m ∧ m < n + k)
    (hm' : n ≤ m' ∧ m' < n + k) :
    m = m' := by
  rcases le_total m m' with hle | hle
  · have hdvd : k ∣ m' - m := Nat.dvd_of_mod_eq_zero (Nat.sub_mod_eq_zero_of_mod_eq h.symm)
    have := Nat.eq_zero_of_dvd_of_lt hdvd (by omega)
    omega
  · have hdvd : k ∣ m - m' := Nat.dvd_of_mod_eq_zero (Nat.sub_mod_eq_zero_of_mod_eq h)
    have := Nat.eq_zero_of_dvd_of_lt hdvd (by omega)
    omega

theorem existsUnique_mod (hr : r < k) (n : ℕ) : ∃! m, (n ≤ m ∧ m < n + k) ∧ m % k = r := by
  have hn := Nat.div_add_mod n k
  have hs := Nat.mod_lt n (Nat.zero_lt_of_lt hr)
  refine existsUnique_of_exists_of_unique ?_ fun m m' h h' =>
    eq_of_mod_eq (h.2.trans h'.2.symm) h.1 h'.1
  by_cases hle : n % k ≤ r
  · exact ⟨k * (n / k) + r, ⟨by omega, by omega⟩, by rw [Nat.mul_add_mod, Nat.mod_eq_of_lt hr]⟩
  · have hnext : k * (n / k + 1) = k * (n / k) + k := Nat.mul_succ _ _
    exact ⟨k * (n / k + 1) + r, ⟨by omega, by omega⟩, by rw [Nat.mul_add_mod, Nat.mod_eq_of_lt hr]⟩

/-- What happens now happens again after a cycle, and has happened a cycle ago. -/
theorem OnceInEvery.add_iff (h : OnceInEvery k N p) {n : ℕ} (hk : 0 < k) (hn : n + k < N) :
    p (n + k) ↔ p n := by
  obtain ⟨m, ⟨hm, hpm⟩, huniq⟩ := h n hn.le
  obtain ⟨m', ⟨hm', hpm'⟩, huniq'⟩ := h (n + 1) (by omega)
  constructor
  · intro hp
    have hlast : n + k = m' := huniq' (n + k) ⟨by omega, hp⟩
    have hfirst : m = n := by
      by_contra hne
      have := huniq' m ⟨by omega, hpm⟩
      omega
    rwa [hfirst] at hpm
  · intro hp
    have hfirst : n = m := huniq n ⟨by omega, hp⟩
    have hlast : m' = n + k := by
      by_contra hne
      have := huniq m' ⟨by omega, hpm'⟩
      omega
    rwa [hlast] at hpm'

/-- **Cycles.** -/
theorem onceInEvery_iff (hk : 0 < k) :
    OnceInEvery k N p ↔ N < k ∨ ∃ r < k, ∀ m < N, (p m ↔ m % k = r) := by
  constructor
  · intro h
    by_cases hN : N < k
    · exact .inl hN
    obtain ⟨r, ⟨hr, hpr⟩, huniq⟩ := h 0 (by omega)
    refine .inr ⟨r, by omega, fun m => ?_⟩
    -- from cycle to cycle
    induction m using Nat.strong_induction_on with
    | _ m ih =>
      intro hm
      by_cases hmk : m < k
      · rw [Nat.mod_eq_of_lt hmk]
        exact ⟨fun hp => huniq m ⟨by omega, hp⟩, fun heq => heq ▸ hpr⟩
      · obtain ⟨n, rfl⟩ : ∃ n, m = n + k := ⟨m - k, by omega⟩
        rw [h.add_iff hk hm, Nat.add_mod_right]
        exact ih n (by omega) (by omega)
  · rintro (hN | ⟨r, hr, hp⟩) n hn
    · omega
    · obtain ⟨m, ⟨hm, hmr⟩, huniq⟩ := existsUnique_mod hr n
      refine ⟨m, ⟨hm, (hp m (by omega)).2 hmr⟩, fun m' hm' => ?_⟩
      exact huniq m' ⟨hm'.1, (hp m' (by omega)).1 hm'.2⟩

end Cycle
