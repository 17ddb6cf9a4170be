import SoupEngine.Basic
import SoupEngine.Lib.Weyl
import Mathlib.Data.Int.CardIntervalMod

/-!
# The random numbers of a room

`DetRand` is a splitmix64 generator. What it gives depends on the seed and on the number of draws
alone, and an `Intn` of at most 1 draws nothing. From every state on, `2 ^ 64` draws give every word
once, so that the values of `Uint32` and `Intn` are as evenly spread as they can be
(`rand_full_period`).
-/

namespace SoupEngine.Sdk

open Weyl

@[ext]
structure DetRand where
  state : U64
  deriving DecidableEq

def NewDetRand (seed : U64) : DetRand := ⟨seed⟩

inductive RandCall
  | Uint64
  | Uint32
  /-- An `int` has 64 bits. -/
  | Intn (n : U64)

namespace DetRand

def Uint64 (r : DetRand) : U64 × DetRand :=
  let state := r.state + 0x9E3779B97F4A7C15
  let z := state
  let z := (z ^^^ (z >>> 30)) * 0xBF58476D1CE4E5B9
  let z := (z ^^^ (z >>> 27)) * 0x94D049BB133111EB
  (z ^^^ (z >>> 31), ⟨state⟩)

def Uint32 (r : DetRand) : U32 × DetRand :=
  let (x, r) := r.Uint64
  ((x >>> 32).setWidth 32, r)

def Intn (r : DetRand) (n : U64) : U64 × DetRand :=
  if n.toInt ≤ 1 then (0, r)
  else
    let (x, r) := r.Uint64
    (x % n, r)

/-- The generator after a call. -/
def call (r : DetRand) : RandCall → DetRand
  | .Uint64 => r.Uint64.2
  | .Uint32 => r.Uint32.2
  | .Intn n => (r.Intn n).2

/-- The generator after so many draws. -/
def skip (r : DetRand) (n : ℕ) : DetRand := (List.replicate n RandCall.Uint64).foldl call r

/-- The mixing of the bits. -/
def mix (z : U64) : U64 :=
  xorshift 31 (xorshift 27 (xorshift 30 z * 0xBF58476D1CE4E5B9) * 0x94D049BB133111EB)

end DetRand

/-- The number of draws in a call. -/
def RandCall.draws : RandCall → ℕ
  | .Intn n => if n.toInt ≤ 1 then 0 else 1
  | _ => 1

/-! ## The states -/

namespace DetRand

variable {r : DetRand}

theorem Uint64_eq (r : DetRand) :
    r.Uint64 = (mix (r.state + 0x9E3779B97F4A7C15), ⟨r.state + 0x9E3779B97F4A7C15⟩) := rfl

theorem mix_injective : Function.Injective mix := by
  have h₁ : Function.Injective fun z : U64 => z * 0xBF58476D1CE4E5B9 :=
    @mul_injective 64 0xBF58476D1CE4E5B9 0x96DE1B173F119089 (by decide)
  have h₂ : Function.Injective fun z : U64 => z * 0x94D049BB133111EB :=
    @mul_injective 64 0x94D049BB133111EB 0x319642B2D24D8EC3 (by decide)
  have hshift {k : ℕ} (hk : 0 < k) : Function.Injective (xorshift k : U64 → U64) :=
    xorshift_injective hk
  exact (hshift (by decide)).comp
    (h₂.comp ((hshift (by decide)).comp (h₁.comp (hshift (by decide)))))

theorem state_call (r : DetRand) (c : RandCall) :
    (r.call c).state = r.state + BitVec.ofNat 64 c.draws * 0x9E3779B97F4A7C15 := by
  have hone : BitVec.ofNat 64 1 * 0x9E3779B97F4A7C15 = (0x9E3779B97F4A7C15 : U64) := by decide
  have hzero : BitVec.ofNat 64 0 * 0x9E3779B97F4A7C15 = (0 : U64) := by decide
  cases c with
  | Uint64 => exact congrArg (r.state + ·) hone.symm
  | Uint32 => exact congrArg (r.state + ·) hone.symm
  | Intn n =>
    unfold call Intn RandCall.draws
    dsimp only
    split_ifs
    · exact ((congrArg (r.state + ·) hzero).trans (add_zero _)).symm
    · exact congrArg (r.state + ·) hone.symm

theorem state_calls (r : DetRand) (calls : List RandCall) :
    (calls.foldl call r).state = r.state + BitVec.ofNat 64
      (calls.map RandCall.draws).sum * 0x9E3779B97F4A7C15 := by
  induction calls generalizing r with
  | nil =>
    have hzero : BitVec.ofNat 64 0 * 0x9E3779B97F4A7C15 = (0 : U64) := by decide
    exact ((congrArg (r.state + ·) hzero).trans (add_zero _)).symm
  | cons c calls ih =>
    calc (calls.foldl call (r.call c)).state
        = (r.call c).state +
          BitVec.ofNat 64 (calls.map RandCall.draws).sum * 0x9E3779B97F4A7C15 := ih _
      _ = r.state + (BitVec.ofNat 64 c.draws * 0x9E3779B97F4A7C15 +
          BitVec.ofNat 64 (calls.map RandCall.draws).sum * 0x9E3779B97F4A7C15) := by
          rw [state_call, add_assoc]
      _ = r.state + BitVec.ofNat 64 ((c :: calls).map RandCall.draws).sum *
          0x9E3779B97F4A7C15 := by
          rw [List.map_cons, List.sum_cons, BitVec.ofNat_add, add_mul]

theorem state_skip (r : DetRand) (n : ℕ) :
    (r.skip n).state = r.state + BitVec.ofNat 64 n * 0x9E3779B97F4A7C15 := by
  unfold skip
  rw [state_calls, List.map_replicate, List.sum_replicate]
  show _ + BitVec.ofNat 64 (n • 1) * _ = _
  rw [smul_eq_mul, mul_one]

/-- The draws are the values of a generator that counts. -/
theorem draw_eq (r : DetRand) (n : ℕ) :
    (r.skip n).Uint64.1 = value 0x9E3779B97F4A7C15 mix r.state n := by
  rw [Uint64_eq]
  show mix ((r.skip n).state + 0x9E3779B97F4A7C15) =
    mix (r.state + BitVec.ofNat 64 (n + 1) * 0x9E3779B97F4A7C15)
  have hone : BitVec.ofNat 64 1 * 0x9E3779B97F4A7C15 = (0x9E3779B97F4A7C15 : U64) := by decide
  rw [state_skip, BitVec.ofNat_add, add_mul, hone, add_assoc]

/-! ## The values -/

theorem toInt_of_one_lt {n : U64} (hn : 1 < n.toInt) : 1 < n.toNat := by
  rw [BitVec.toInt_eq_toNat_cond] at hn
  split_ifs at hn
  · omega
  · have hlt := n.isLt
    omega

/-- The words below `2 ^ 64` with a remainder. -/
theorem ncard_mod {b n v : ℕ} (hn : 0 < n) (hv : v < n) :
    Set.ncard {x | x < b ∧ x % n = v} = b / n + if v < b % n then 1 else 0 := by
  have hset : {x | x < b ∧ x % n = v} = ((Finset.range b).filter (· ≡ v [MOD n]) : Finset ℕ) := by
    ext x
    rw [Finset.coe_filter, Set.mem_ofPred_eq, Set.mem_ofPred_eq, Finset.mem_range]
    unfold Nat.ModEq
    rw [Nat.mod_eq_of_lt hv]
  rw [hset, Set.ncard_coe_finset, ← Nat.count_eq_card_filter_range, Nat.count_modEq_card b hn v,
    Nat.mod_eq_of_lt hv]

/-- The words with a quotient. -/
theorem ncard_div {a b v : ℕ} (hv : v < a) : Set.ncard {x | x < a * b ∧ x / b = v} = b := by
  rcases Nat.eq_zero_or_pos b with rfl | hb
  · have hempty : {x | x < a * 0 ∧ x / 0 = v} = ∅ := by
      ext x
      rw [Set.mem_ofPred_eq, Nat.mul_zero]
      exact iff_of_false (fun h => Nat.not_lt_zero _ h.1) (Set.notMem_empty x)
    rw [hempty, Set.ncard_empty]
  · have hset : {x | x < a * b ∧ x / b = v} = (Finset.Ico (v * b) (v * b + b) : Finset ℕ) := by
      ext x
      rw [Finset.coe_Ico, Set.mem_ofPred_eq, Set.mem_Ico, Nat.div_eq_iff hb]
      constructor
      · rintro ⟨-, hlo, hhi⟩
        exact ⟨hlo, by omega⟩
      · rintro ⟨hlo, hhi⟩
        refine ⟨?_, hlo, by omega⟩
        calc x < (v + 1) * b := by rw [Nat.succ_mul]; exact hhi
          _ ≤ a * b := Nat.mul_le_mul_right b hv
    rw [hset, Set.ncard_coe_finset, Nat.card_Ico, Nat.add_sub_cancel_left]

/-- **A full period.** What the generator gives depends on the seed and the number of draws. From
every state on, each word is drawn exactly once in `2 ^ 64` draws, and then the state is the same
again; so the values of `Uint32` are equally frequent, and those of `Intn` as far as the bound
allows. -/
theorem rand_full_period (seed : U64) (calls : List RandCall) :
    calls.foldl call (NewDetRand seed) = (NewDetRand seed).skip (calls.map RandCall.draws).sum ∧
      ∀ r : DetRand, (∀ v : U64, ∃! i, i < 2 ^ 64 ∧ (r.skip i).Uint64.1 = v) ∧ r.skip (2 ^ 64) = r ∧
        (∀ v : U32, Set.ncard {i | i < 2 ^ 64 ∧ (r.skip i).Uint32.1 = v} = 2 ^ 32) ∧
        ∀ n : U64, 1 < n.toInt → ∀ v < n.toNat,
          Set.ncard {i | i < 2 ^ 64 ∧ ((r.skip i).Intn n).1.toNat = v} =
          2 ^ 64 / n.toNat + if v < 2 ^ 64 % n.toNat then 1 else 0 := by
  have hγ : (0x9E3779B97F4A7C15 : U64) * 0xF1DE83E19937733D = 1 := by decide
  refine ⟨?_, fun r => ⟨fun v => ?_, ?_, fun v => ?_, fun n hn v hv => ?_⟩⟩
  · have hstate : (calls.foldl call (NewDetRand seed)).state =
        ((NewDetRand seed).skip (calls.map RandCall.draws).sum).state := by
      rw [state_calls, state_skip]
    exact DetRand.ext hstate
  · simp only [draw_eq]
    exact existsUnique_value hγ mix_injective r.state v
  · have hstate : (r.skip (2 ^ 64)).state = r.state :=
      (r.state_skip _).trans (@state_period 64 0x9E3779B97F4A7C15 r.state)
    exact DetRand.ext hstate
  · have hUint32 (i : ℕ) : (r.skip i).Uint32.1 = ((r.skip i).Uint64.1 >>> 32).setWidth 32 := rfl
    simp only [hUint32, draw_eq]
    rw [ncard_value hγ mix_injective r.state fun x => (x >>> 32).setWidth 32 = v]
    have hlow {x : ℕ} (hx : x < 2 ^ 64) :
        (BitVec.ofNat 64 x >>> 32).setWidth 32 = v ↔ x / 2 ^ 32 = v.toNat := by
      have hq : x / 2 ^ 32 < 2 ^ 32 := Nat.div_lt_of_lt_mul hx
      rw [BitVec.toNat_eq, BitVec.toNat_setWidth, BitVec.toNat_ushiftRight, BitVec.toNat_ofNat,
        Nat.mod_eq_of_lt hx, Nat.shiftRight_eq_div_pow, Nat.mod_eq_of_lt hq]
    have hset : {x | x < 2 ^ 64 ∧ (BitVec.ofNat 64 x >>> 32).setWidth 32 = v} =
        {x | x < 2 ^ 32 * 2 ^ 32 ∧ x / 2 ^ 32 = v.toNat} := by
      ext x
      exact and_congr_right hlow
    rw [hset]
    exact ncard_div v.isLt
  · have hIntn (i : ℕ) : ((r.skip i).Intn n).1 = (r.skip i).Uint64.1 % n := by
      unfold Intn
      rw [if_neg (not_le.2 hn)]
    simp only [hIntn, draw_eq]
    rw [ncard_value hγ mix_injective r.state fun x => (x % n).toNat = v]
    have hset : {x | x < 2 ^ 64 ∧ (BitVec.ofNat 64 x % n).toNat = v} =
        {x | x < 2 ^ 64 ∧ x % n.toNat = v} := by
      ext x
      refine and_congr_right fun hx => ?_
      rw [BitVec.toNat_umod, BitVec.toNat_ofNat, Nat.mod_eq_of_lt hx]
    rw [hset]
    exact ncard_mod (zero_lt_one.trans (toInt_of_one_lt hn)) hv

/-- A die of a room. -/
theorem rand_full_period_die :
    [RandCall.Intn 1, .Intn 6, .Uint32].foldl call (NewDetRand 42) = (NewDetRand 42).skip 2 ∧
      Set.ncard {i | i < 2 ^ 64 ∧ (((NewDetRand 42).skip i).Intn 6).1.toNat = 3} =
        2 ^ 64 / 6 + if 3 < 2 ^ 64 % 6 then 1 else 0 := by
  obtain ⟨hcalls, hperiod⟩ := rand_full_period 42 [.Intn 1, .Intn 6, .Uint32]
  exact ⟨hcalls, (hperiod (NewDetRand 42)).2.2.2 6 (by decide) 3 (by decide)⟩

end DetRand

end SoupEngine.Sdk
