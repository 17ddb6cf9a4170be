import Mathlib.Tactic
import Mathlib.Data.Int.ModEq

/-!
# Serial numbers

An unbounded stream of items is labelled with `w`-bit numbers: item `i` travels as `num w i`, the
residue of `i` modulo `2 ^ w`. The comparisons of such labels are made on the wrapped difference
read as a signed number (`dist`). They agree with the comparison of the items themselves as long as
the two items are less than half of the label space apart (`dist_num`), and two items carry the same
label only when they are a whole label space apart (`num_inj`).
-/

namespace SerialNumber

/-- The label of item `i`. -/
def num (w i : ℕ) : BitVec w := BitVec.ofNat w i

/-- The signed reading of the wrapped difference of two labels. -/
def dist {w : ℕ} (a b : BitVec w) : ℤ := (a - b).toInt

section Labels

variable {w : ℕ}

@[simp] theorem toNat_num (i : ℕ) : (num w i).toNat = i % 2 ^ w := BitVec.toNat_ofNat i w

theorem num_add (i j : ℕ) : num w i + num w j = num w (i + j) := (BitVec.ofNat_add i j).symm

theorem num_succ (i : ℕ) : num w i + 1 = num w (i + 1) := num_add i 1

theorem num_toNat (a : BitVec w) : num w a.toNat = a := by simp [num]

theorem num_eq_iff {i j : ℕ} : num w i = num w j ↔ i % 2 ^ w = j % 2 ^ w := by
  rw [← BitVec.toNat_inj, toNat_num, toNat_num]

/-- Items less than a label space apart are told apart by their labels. -/
theorem num_inj {i j : ℕ} (hij : i < j + 2 ^ w) (hji : j < i + 2 ^ w) :
    num w i = num w j ↔ i = j := by
  rw [num_eq_iff]
  constructor
  · intro h
    rcases le_total i j with hle | hle
    · have := (Nat.modEq_iff_dvd' hle).1 h
      have := Nat.eq_zero_of_dvd_of_lt this (by omega)
      omega
    · have := (Nat.modEq_iff_dvd' hle).1 h.symm
      have := Nat.eq_zero_of_dvd_of_lt this (by omega)
      omega
  · rintro rfl
    rfl

theorem num_add_two_pow (i : ℕ) : num w (i + 2 ^ w) = num w i := by
  rw [num_eq_iff, Nat.add_mod_right]

end Labels

section Distance

variable {w : ℕ}

theorem num_sub_num (i j : ℕ) : num w i - num w j = BitVec.ofInt w ((i : ℤ) - j) := by
  rw [Int.sub_eq_add_neg, BitVec.ofInt_add, BitVec.ofInt_neg, BitVec.ofInt_natCast,
    BitVec.ofInt_natCast, ← BitVec.sub_eq_add_neg]
  rfl

/-- The wrapped difference of two labels, as an unsigned number. -/
theorem toNat_num_sub {i j : ℕ} (hji : j ≤ i) (hij : i < j + 2 ^ w) :
    (num w i - num w j).toNat = i - j := by
  have h : num w i = num w (i - j) + num w j := by rw [num_add, Nat.sub_add_cancel hji]
  rw [h, BitVec.add_sub_cancel, toNat_num, Nat.mod_eq_of_lt (by omega)]

/-- **Unwrapping.** Within half of the label space the distance of two labels is that of the
items. -/
theorem dist_num {i j : ℕ} (hlo : (j : ℤ) ≤ i + 2 ^ (w - 1)) (hhi : (i : ℤ) < j + 2 ^ (w - 1))
    (hw : 0 < w) : dist (num w i) (num w j) = (i : ℤ) - j := by
  obtain ⟨v, rfl⟩ : ∃ v, w = v + 1 := ⟨w - 1, by omega⟩
  unfold dist
  rw [num_sub_num, BitVec.toInt_ofInt]
  rw [Nat.add_sub_cancel] at hlo hhi
  have hpow : ((2 ^ (v + 1) : ℕ) : ℤ) = 2 * 2 ^ v := by push_cast; ring
  apply Int.bmod_eq_of_le_mul_two
  · rw [hpow]; linarith
  · rw [hpow]; linarith

end Distance

end SerialNumber
