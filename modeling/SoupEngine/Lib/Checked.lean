import Mathlib.Tactic

/-!
# Arithmetic with overflow checks

The operations of a build in which an overflow ends the program, with `none` for that. `Guards` sets
such a computation beside the one that wraps around: it ends in the bad case, and gives the same
otherwise.
-/

namespace Checked

universe u

variable {w : ℕ}

/-- `a + b` of an unsigned type. -/
def add (a b : BitVec w) : Option (BitVec w) := if a.uaddOverflow b then none else some (a + b)

/-- `a - b` of an unsigned type. -/
def sub (a b : BitVec w) : Option (BitVec w) := if a.usubOverflow b then none else some (a - b)

/-- `-a` of a signed type. -/
def neg (a : BitVec w) : Option (BitVec w) := if a.negOverflow then none else some (-a)

/-- `a << n`. -/
def shl (a : BitVec w) (n : ℕ) : Option (BitVec w) := if n < w then some (a <<< n) else none

/-- A computation with checks fails in the bad case, and otherwise gives what the one without
gives. -/
structure Guards {α : Type*} (bad : Prop) (o : Option α) (a : α) : Prop where
  fails : bad → o = none
  agrees : ¬ bad → o = some a

section Rules

variable {α β : Type u} {bad bad' : Prop} {o : Option α} {a : α}

theorem Guards.isSome_iff (h : Guards bad o a) : o.isSome ↔ ¬ bad := by
  constructor
  · intro hsome hbad
    rw [h.fails hbad] at hsome
    cases hsome
  · intro hbad
    rw [h.agrees hbad]
    rfl

/-- What cannot fail. -/
theorem guards_some (h : o = some a) : Guards False o a := ⟨False.elim, fun _ => h⟩

theorem Guards.congr (h : Guards bad o a) (hiff : bad ↔ bad') : Guards bad' o a :=
  ⟨fun hbad => h.fails (hiff.2 hbad), fun hbad => h.agrees fun hb => hbad (hiff.1 hb)⟩

/-- The next step sees the value of a computation that has not failed. -/
theorem Guards.bind {f : α → Option β} {b : β} (h : Guards bad o a) (hf : Guards bad' (f a) b) :
    Guards (bad ∨ bad') (o >>= f) b := by
  constructor
  · intro hbad
    by_cases hb : bad
    · rw [h.fails hb]
      rfl
    · rw [h.agrees hb]
      exact hf.fails (hbad.resolve_left hb)
  · intro hbad
    rw [not_or] at hbad
    rw [h.agrees hbad.1]
    exact hf.agrees hbad.2

/-- A step that cannot fail comes after it. -/
theorem Guards.map {f : α → Option β} {b : β} (h : Guards bad o a) (hf : f a = some b) :
    Guards bad (o >>= f) b := (h.bind (guards_some hf)).congr (or_false bad).to_iff

/-- A loop of which no round fails. -/
theorem foldlM_some {f : α → β → Option α} {g : α → β → α} {xs : List β}
    (h : ∀ acc, ∀ x ∈ xs, f acc x = some (g acc x)) (acc : α) :
    xs.foldlM f acc = some (xs.foldl g acc) := by
  induction xs generalizing acc with
  | nil => rfl
  | cons x xs ih =>
    rw [List.foldlM_cons, h acc x List.mem_cons_self, List.foldl_cons]
    exact ih (fun acc y hy => h acc y (List.mem_cons_of_mem x hy)) (g acc x)

end Rules

section Operations

variable (a b : BitVec w)

theorem guards_add : Guards (2 ^ w ≤ a.toNat + b.toNat) (add a b) (a + b) := by
  unfold add BitVec.uaddOverflow
  constructor
  · intro h
    rw [if_pos (decide_eq_true h)]
  · intro h
    rw [if_neg (by rwa [decide_eq_true_iff])]

/-- Only the smallest number has no opposite. -/
theorem guards_neg (hw : 0 < w) : Guards (a = BitVec.intMin w) (neg a) (-a) := by
  have hover : a.negOverflow = true ↔ a = BitVec.intMin w := by
    rw [BitVec.negOverflow_eq, Bool.and_eq_true, decide_eq_true_iff, beq_iff_eq]
    exact and_iff_right hw
  unfold neg
  constructor
  · intro h
    rw [if_pos (hover.2 h)]
  · intro h
    rw [if_neg (mt hover.1 h)]

variable {a b}

theorem sub_of_le (h : b ≤ a) : sub a b = some (a - b) := by
  unfold sub BitVec.usubOverflow
  rw [if_neg (by rw [decide_eq_true_iff]; exact not_lt.2 h)]

theorem shl_of_lt {n : ℕ} (h : n < w) : shl a n = some (a <<< n) := if_pos h

end Operations

end Checked
