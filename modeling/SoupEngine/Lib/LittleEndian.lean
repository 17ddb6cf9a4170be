import Mathlib.Tactic

/-!
# Little-endian byte strings

`toBytes n x` is the `n`-byte little-endian form of `x`, `ofBytes` reads such a form back.
-/

namespace LittleEndian

/-- The `n` low bytes of `x`, least significant first. -/
def toBytes : ℕ → ℕ → List (BitVec 8)
  | 0, _ => []
  | n + 1, x => BitVec.ofNat 8 x :: toBytes n (x / 256)

/-- The number a little-endian byte string stands for. -/
def ofBytes : List (BitVec 8) → ℕ
  | [] => 0
  | b :: bs => b.toNat + 256 * ofBytes bs

@[simp] theorem length_toBytes (n x : ℕ) : (toBytes n x).length = n := by
  induction n generalizing x with
  | zero => rfl
  | succ n ih => simp [toBytes, ih]

theorem ofBytes_toBytes (n x : ℕ) : ofBytes (toBytes n x) = x % 256 ^ n := by
  induction n generalizing x with
  | zero => simp [toBytes, ofBytes, Nat.mod_one]
  | succ n ih =>
    calc ofBytes (toBytes (n + 1) x) = x % 256 + 256 * (x / 256 % 256 ^ n) := by
          rw [toBytes, ofBytes, ih, BitVec.toNat_ofNat]
      _ = x % 256 ^ (n + 1) := by rw [pow_succ', Nat.mod_mul]

/-- Reading a form back recovers every number that fits in it. -/
theorem ofBytes_toBytes_of_lt {n x : ℕ} (h : x < 256 ^ n) : ofBytes (toBytes n x) = x := by
  rw [ofBytes_toBytes, Nat.mod_eq_of_lt h]

/-- The form in more bytes is that of the low part, and behind it that of the high part. -/
theorem toBytes_add (m n x : ℕ) : toBytes (m + n) x = toBytes m x ++ toBytes n (x / 256 ^ m) := by
  induction m generalizing x with
  | zero => simp [toBytes]
  | succ m ih =>
    rw [Nat.succ_add, toBytes, toBytes, ih, Nat.div_div_eq_div_mul, ← pow_succ']
    rfl

/-- A form is all zeros exactly if the part that it keeps is 0. -/
theorem toBytes_eq_zero_iff {n x : ℕ} : (∀ b ∈ toBytes n x, b = 0) ↔ x % 256 ^ n = 0 := by
  induction n generalizing x with
  | zero => simp [toBytes, Nat.mod_one]
  | succ n ih =>
    have hhead : BitVec.ofNat 8 x = 0 ↔ x % 256 = 0 := by
      rw [← BitVec.toNat_inj, BitVec.toNat_ofNat]
      rfl
    rw [toBytes, List.forall_mem_cons, ih, hhead, pow_succ', Nat.mod_mul]
    omega

theorem ofBytes_lt (bs : List (BitVec 8)) : ofBytes bs < 256 ^ bs.length := by
  induction bs with
  | nil => simp [ofBytes]
  | cons b bs ih =>
    have hb := b.isLt
    rw [ofBytes, List.length_cons, pow_succ']
    omega

theorem toBytes_ofBytes (bs : List (BitVec 8)) : toBytes bs.length (ofBytes bs) = bs := by
  induction bs with
  | nil => rfl
  | cons b bs ih =>
    have hb := b.isLt
    rw [List.length_cons, toBytes, ofBytes]
    congr 1
    · apply BitVec.eq_of_toNat_eq
      rw [BitVec.toNat_ofNat]
      omega
    · rw [show (b.toNat + 256 * ofBytes bs) / 256 = ofBytes bs by omega, ih]

/-- The form of a `w`-bit word in `n` bytes reads back as the word. -/
theorem ofNat_ofBytes_toBytes {w n : ℕ} (x : BitVec w) (h : 2 ^ w ≤ 256 ^ n) :
    BitVec.ofNat w (ofBytes (toBytes n x.toNat)) = x := by
  rw [ofBytes_toBytes_of_lt (lt_of_lt_of_le x.isLt h), BitVec.ofNat_toNat, BitVec.setWidth_eq]

end LittleEndian
