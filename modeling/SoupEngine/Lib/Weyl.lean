import Mathlib.Data.BitVec
import Mathlib.Data.Set.Card
import Mathlib.Tactic

/-!
# Generators that count

A generator adds a constant to its state and mixes the bits of the sum. If the constant is a unit
and the mixing loses nothing, every word occurs exactly once among as many successive values as
there are words (`existsUnique_value`), and so every property of words holds as often among them as
among the words (`ncard_value`).
-/

namespace Weyl

variable {w : ℕ}

/-- A shift to the right, and the difference. -/
def xorshift (k : ℕ) (z : BitVec w) : BitVec w := z ^^^ (z >>> k)

/-- The highest bit that two words differ in stays. -/
theorem xorshift_injective {k : ℕ} (hk : 0 < k) :
    Function.Injective (xorshift k : BitVec w → BitVec w) := by
  intro y z h
  have hself : y ^^^ z = (y ^^^ z) >>> k := by
    have h' : (y ^^^ (y >>> k)) ^^^ (z ^^^ (z >>> k)) = 0#w := by
      rw [show y ^^^ (y >>> k) = z ^^^ (z >>> k) from h]
      exact BitVec.xor_self
    rw [BitVec.ushiftRight_xor_distrib]
    have hdiff : (y ^^^ z) ^^^ ((y >>> k) ^^^ (z >>> k)) = 0#w := by
      rw [← h']
      ac_rfl
    exact BitVec.xor_eq_zero_iff.1 hdiff
  have hzero : (y ^^^ z).toNat = 0 := by
    have hnat := congrArg BitVec.toNat hself
    rw [BitVec.toNat_ushiftRight, Nat.shiftRight_eq_div_pow] at hnat
    by_contra hne
    have hlt := Nat.div_lt_self (Nat.pos_of_ne_zero hne) (Nat.one_lt_two_pow hk.ne')
    omega
  exact BitVec.xor_eq_zero_iff.1 (BitVec.eq_of_toNat_eq hzero)

/-- A factor with an inverse loses nothing. -/
theorem mul_injective {c d : BitVec w} (h : c * d = 1) : Function.Injective fun z : BitVec w =>
    z * c := by
  intro y z hyz
  have hyz' : y * c * d = z * c * d := congrArg (· * d) hyz
  rwa [mul_assoc, mul_assoc, h, mul_one, mul_one] at hyz'

/-- The `n`-th value. -/
def value (γ : BitVec w) (mix : BitVec w → BitVec w) (s : BitVec w) (n : ℕ) : BitVec w :=
  mix (s + BitVec.ofNat w (n + 1) * γ)

variable {γ δ : BitVec w} {mix : BitVec w → BitVec w}

theorem value_injective (hγ : γ * δ = 1) (hmix : Function.Injective mix) (s : BitVec w) {n m : ℕ}
    (hn : n < 2 ^ w) (hm : m < 2 ^ w) (h : value γ mix s n = value γ mix s m) : n = m := by
  have hstep : BitVec.ofNat w (n + 1) = BitVec.ofNat w (m + 1) :=
    mul_injective hγ (add_left_cancel (hmix h))
  have hsame : BitVec.ofNat w n = BitVec.ofNat w m := by
    rw [BitVec.ofNat_add, BitVec.ofNat_add] at hstep
    exact add_right_cancel hstep
  have hnat := congrArg BitVec.toNat hsame
  rwa [BitVec.toNat_ofNat, BitVec.toNat_ofNat, Nat.mod_eq_of_lt hn, Nat.mod_eq_of_lt hm] at hnat

theorem value_surjective (hγ : γ * δ = 1) (hmix : Function.Injective mix) (s v : BitVec w) :
    ∃ n < 2 ^ w, value γ mix s n = v := by
  have hfinite : Finite (BitVec w) := Finite.of_equiv _ BitVec.equivFin.toEquiv.symm
  obtain ⟨x, rfl⟩ := Finite.injective_iff_surjective.1 hmix v
  refine ⟨((x - s) * δ - 1).toNat, BitVec.isLt _, congrArg mix ?_⟩
  have hcount : BitVec.ofNat w (((x - s) * δ - 1).toNat + 1) = (x - s) * δ := by
    have hone : BitVec.ofNat w 1 = 1 := rfl
    rw [BitVec.ofNat_add, BitVec.ofNat_toNat, BitVec.setWidth_eq, hone, sub_add_cancel]
  calc s + BitVec.ofNat w (((x - s) * δ - 1).toNat + 1) * γ = s + (x - s) * δ * γ := by rw [hcount]
    _ = s + (x - s) * (γ * δ) := by rw [mul_assoc, mul_comm δ]
    _ = x := by rw [hγ, mul_one, add_sub_cancel]

/-- **The full period.** Every word is a value exactly once. -/
theorem existsUnique_value (hγ : γ * δ = 1) (hmix : Function.Injective mix) (s v : BitVec w) :
    ∃! n, n < 2 ^ w ∧ value γ mix s n = v := by
  obtain ⟨n, hn, hv⟩ := value_surjective hγ hmix s v
  refine ⟨n, ⟨hn, hv⟩, ?_⟩
  rintro m ⟨hm, hmv⟩
  exact value_injective hγ hmix s hm hn (hmv.trans hv.symm)

/-- **Fair.** A property holds as often among the values as among the words. -/
theorem ncard_value (hγ : γ * δ = 1) (hmix : Function.Injective mix) (s : BitVec w)
    (p : BitVec w → Prop) :
    Set.ncard {n | n < 2 ^ w ∧ p (value γ mix s n)} =
      Set.ncard {x | x < 2 ^ w ∧ p (BitVec.ofNat w x)} := by
  apply Set.ncard_congr fun n _ => (value γ mix s n).toNat
  · rintro n ⟨hn, hp⟩
    refine ⟨BitVec.isLt _, ?_⟩
    rwa [BitVec.ofNat_toNat, BitVec.setWidth_eq]
  · rintro n m ⟨hn, -⟩ ⟨hm, -⟩ h
    exact value_injective hγ hmix s hn hm (BitVec.eq_of_toNat_eq h)
  · rintro x ⟨hx, hp⟩
    obtain ⟨n, hn, hv⟩ := value_surjective hγ hmix s (BitVec.ofNat w x)
    refine ⟨n, ⟨hn, ?_⟩, ?_⟩
    · rwa [hv]
    · rw [hv, BitVec.toNat_ofNat, Nat.mod_eq_of_lt hx]

/-- After the period the states come again. -/
theorem state_period (s : BitVec w) : s + BitVec.ofNat w (2 ^ w) * γ = s := by
  have hzero : BitVec.ofNat w (2 ^ w) = 0 := by
    apply BitVec.eq_of_toNat_eq
    rw [BitVec.toNat_ofNat, Nat.mod_self]
    rfl
  rw [hzero, zero_mul, add_zero]

end Weyl
