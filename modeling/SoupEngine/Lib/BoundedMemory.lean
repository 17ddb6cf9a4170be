import Mathlib.Tactic
import Mathlib.Data.List.DropRight

/-!
# Bounded memories

A memory that is appended to at the back and trimmed at the front to `cap` entries, so it holds the
last `cap` values remembered. `remember_rtake` says that trimming after every append is the same as
trimming once; the entry of age `d` is the one at position `d` from the back.
-/

namespace BoundedMemory

variable {α : Type*}

/-- Append `x` at the back, then trim the front down to `cap` entries. -/
def remember (cap : ℕ) (xs : List α) (x : α) : List α := (xs ++ [x]).rtake cap

theorem length_rtake (n : ℕ) (xs : List α) : (xs.rtake n).length = min n xs.length := by
  unfold List.rtake; rw [List.length_drop]; omega

theorem length_remember_le (cap : ℕ) (xs : List α) (x : α) :
    (remember cap xs x).length ≤ cap := by
  unfold remember; rw [length_rtake]; exact min_le_left _ _

theorem rtake_of_length_le {n : ℕ} {xs : List α} (h : xs.length ≤ n) : xs.rtake n = xs := by
  unfold List.rtake; rw [Nat.sub_eq_zero_of_le h]; rfl

/-- Trimming a trimmed history after an append is trimming the whole history. -/
theorem remember_rtake (cap : ℕ) (xs : List α) (x : α) :
    remember cap (xs.rtake cap) x = (xs ++ [x]).rtake cap := by
  cases cap with
  | zero => simp [remember]
  | succ n =>
    unfold remember
    rw [List.rtake_concat_succ, List.rtake_concat_succ]
    congr 1
    simp only [List.rtake_eq_reverse_take_reverse, List.reverse_reverse, List.take_take]
    rw [min_eq_left (Nat.le_succ n)]

theorem reverse_remember (cap : ℕ) (xs : List α) (x : α) :
    (remember cap xs x).reverse = (x :: xs.reverse).take cap := by
  unfold remember
  rw [List.rtake_eq_reverse_take_reverse, List.reverse_reverse, List.reverse_append]
  rfl

theorem remember_map {β : Type*} (f : α → β) (cap : ℕ) (xs : List α) (x : α) :
    remember cap (xs.map f) (f x) = (remember cap xs x).map f := by
  unfold remember List.rtake
  rw [List.map_drop, List.map_append, List.length_append, List.length_append, List.length_map]
  rfl

theorem mem_of_mem_remember {cap : ℕ} {xs : List α} {x y : α} (h : y ∈ remember cap xs x) :
    y ∈ xs ∨ y = x := by
  have := List.mem_of_mem_drop h
  simpa using this

theorem mem_remember_self {cap : ℕ} (hc : 0 < cap) (xs : List α) (x : α) :
    x ∈ remember cap xs x := by
  obtain ⟨n, rfl⟩ : ∃ n, cap = n + 1 := ⟨cap - 1, by omega⟩
  unfold remember
  rw [List.rtake_concat_succ]
  simp

theorem remember_sublist (cap : ℕ) (xs : List α) (x : α) :
    (remember cap xs x).Sublist (xs ++ [x]) := List.drop_sublist _ _

theorem nodup_remember {cap : ℕ} {xs : List α} {x : α} (h : xs.Nodup) (hx : x ∉ xs) :
    (remember cap xs x).Nodup := by
  refine List.Nodup.sublist (remember_sublist cap xs x) ?_
  rw [List.nodup_append]
  refine ⟨h, List.nodup_singleton x, fun y hy z hz he => ?_⟩
  rw [List.mem_singleton.1 hz] at he
  exact hx (he ▸ hy)

/-- Nothing is forgotten below the capacity. -/
theorem mem_remember_of_lt {cap : ℕ} {xs : List α} {x y : α} (hlen : xs.length < cap)
    (hy : y ∈ xs) :
    y ∈ remember cap xs x := by
  unfold remember
  rw [rtake_of_length_le (by rw [List.length_append, List.length_singleton]; omega)]
  exact List.mem_append_left _ hy

/-- The entry of age `d`: position `d` counted from the newest. -/
def ofAge (xs : List α) (d : ℕ) : Option α := xs.reverse[d]?

theorem exists_ofAge_of_mem {xs : List α} {x : α} (h : x ∈ xs) : ∃ d, ofAge xs d = some x :=
  List.mem_iff_getElem?.1 (List.mem_reverse.2 h)

theorem ofAge_lt_length {xs : List α} {d : ℕ} {x : α} (h : ofAge xs d = some x) :
    d < xs.length := by
  unfold ofAge at h
  obtain ⟨hd, -⟩ := List.getElem?_eq_some_iff.1 h
  simpa using hd

/-- Remembering a value makes it the newest and every other entry one older. -/
theorem ofAge_remember {cap : ℕ} {xs : List α} {x y : α} {d : ℕ}
    (h : ofAge (remember cap xs x) d = some y) :
    (d = 0 ∧ y = x) ∨ ∃ e, d = e + 1 ∧ ofAge xs e = some y := by
  unfold ofAge at h
  rw [reverse_remember, List.getElem?_take] at h
  split_ifs at h with hd
  cases d with
  | zero => left; simpa [eq_comm] using h
  | succ e => right; exact ⟨e, rfl, by unfold ofAge; simpa using h⟩

theorem mem_of_ofAge {xs : List α} {x : α} {d : ℕ} (h : ofAge xs d = some x) : x ∈ xs :=
  List.mem_reverse.1 (List.mem_iff_getElem?.2 ⟨d, h⟩)

theorem ofAge_remember_zero {cap : ℕ} (hc : 0 < cap) (xs : List α) (x : α) :
    ofAge (remember cap xs x) 0 = some x := by
  unfold ofAge
  rw [reverse_remember, List.getElem?_take, if_pos hc]
  rfl

theorem ofAge_remember_succ {cap : ℕ} {xs : List α} {y : α} {d : ℕ} (hd : d + 1 < cap)
    (h : ofAge xs d = some y) (x : α) : ofAge (remember cap xs x) (d + 1) = some y := by
  unfold ofAge
  rw [reverse_remember, List.getElem?_take, if_pos hd]
  exact h

section Range

variable {f : ℕ → α}

/-- The last `cap` of the values `f 0, …, f (k - 1)`. -/
theorem mem_rtake_map_range {cap k : ℕ} {x : α} :
    x ∈ ((List.range k).map f).rtake cap ↔ ∃ i, i < k ∧ k ≤ i + cap ∧ f i = x := by
  unfold List.rtake
  rw [List.length_map, List.length_range, ← List.map_drop, List.mem_map]
  constructor
  · rintro ⟨i, hi, rfl⟩
    rw [List.mem_drop_iff_getElem] at hi
    obtain ⟨j, hj, rfl⟩ := hi
    rw [List.length_range] at hj
    exact ⟨_, by simp only [List.getElem_range]; omega,
      by simp only [List.getElem_range]; omega, rfl⟩
  · rintro ⟨i, hi, hc, rfl⟩
    refine ⟨i, ?_, rfl⟩
    rw [List.mem_drop_iff_getElem]
    exact ⟨i - (k - cap), by rw [List.length_range]; omega, by rw [List.getElem_range]; omega⟩

theorem remember_rtake_range (cap k : ℕ) :
    remember cap (((List.range k).map f).rtake cap) (f k) =
      ((List.range (k + 1)).map f).rtake cap := by
  rw [remember_rtake, List.range_succ, List.map_append]
  rfl

end Range

end BoundedMemory
