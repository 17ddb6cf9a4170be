import Mathlib.Tactic

/-!
# Sliding windows

Entries with a time and a weight, in the order of their times. If every entry is within a limit
together with those of the period that ends with it (`Limited`), the entries of every such period
are (`load_le`).
-/

namespace RateWindow

variable {α : Type*} (time weight : α → ℕ) (width : ℕ)

/-- The weight of the entries at certain times. -/
def load (P : ℕ → Prop) [DecidablePred P] (xs : List α) : ℕ :=
  ((xs.filter fun x => P (time x)).map weight).sum

/-- The entries that count at time `n`. -/
def recent (n : ℕ) (xs : List α) : List α := xs.filter fun x => n < time x + width

/-- Every entry is within the limit, together with those before it that count at its time. -/
def Limited (limit : ℕ) (xs : List α) : Prop :=
  ∀ as x bs, xs = as ++ x :: bs →
    ((recent time width (time x) as).map weight).sum + weight x ≤ limit

/-- The entries are in the order of their times. -/
def Timely (xs : List α) : Prop := xs.Pairwise fun x y => time x ≤ time y

variable {time weight width} {P Q : ℕ → Prop} [DecidablePred P] [DecidablePred Q]
  {xs : List α} {x : α} {n m limit : ℕ}

theorem load_append (ys : List α) :
    load time weight P (xs ++ ys) = load time weight P xs + load time weight P ys := by
  unfold load
  rw [List.filter_append, List.map_append, List.sum_append]

theorem load_singleton (x : α) : load time weight P [x] = if P (time x) then weight x else 0 := by
  unfold load
  rw [List.filter_singleton]
  by_cases h : P (time x)
  · rw [if_pos h, decide_eq_true h]
    rfl
  · rw [if_neg h, decide_eq_false h]
    rfl

/-- More times, more weight. -/
theorem load_mono (h : ∀ x ∈ xs, P (time x) → Q (time x)) :
    load time weight P xs ≤ load time weight Q xs := by
  induction xs with
  | nil => exact le_rfl
  | cons x xs ih =>
    have htail := ih fun y hy => h y (List.mem_cons_of_mem x hy)
    rw [← List.singleton_append, load_append, load_append, load_singleton, load_singleton]
    refine Nat.add_le_add ?_ htail
    split_ifs with hp hq
    · exact le_rfl
    · exact absurd (h x List.mem_cons_self hp) hq
    · exact Nat.zero_le _
    · exact le_rfl

theorem load_eq_recent : load time weight (fun t => n < t + width) xs =
    ((recent time width n xs).map weight).sum := rfl

/-- What counts later counted before. -/
theorem recent_recent (h : n ≤ m) :
    recent time width m (recent time width n xs) = recent time width m xs := by
  unfold recent
  rw [List.filter_filter]
  refine List.filter_congr fun x _ => ?_
  by_cases hm : m < time x + width
  · rw [decide_eq_true hm, decide_eq_true (lt_of_le_of_lt h hm)]
    rfl
  · rw [decide_eq_false hm]
    rfl

/-- In the order of the times, what no longer counts is in front. -/
theorem dropWhile_eq_recent (h : Timely time xs) :
    xs.dropWhile (fun x => !decide (n < time x + width)) = recent time width n xs := by
  induction xs with
  | nil => rfl
  | cons x xs ih =>
    obtain ⟨hx, hxs⟩ := List.pairwise_cons.1 h
    unfold recent
    by_cases hn : n < time x + width
    · rw [List.dropWhile_cons_of_neg (by rw [decide_eq_true hn]; decide),
        List.filter_eq_self.2 fun y hy => ?_]
      refine decide_eq_true ?_
      rcases List.mem_cons.1 hy with rfl | hy
      · exact hn
      · exact lt_of_lt_of_le hn (Nat.add_le_add_right (hx y hy) width)
    · rw [List.dropWhile_cons_of_pos (by rw [decide_eq_false hn]; rfl),
        List.filter_cons_of_neg (by rw [decide_eq_false hn]; decide)]
      exact ih hxs

theorem Timely.left {ys : List α} (h : Timely time (xs ++ ys)) : Timely time xs :=
  (List.pairwise_append.1 h).1

/-- The entries before the last one. -/
theorem Timely.le_last (h : Timely time (xs ++ [x])) : ∀ y ∈ xs, time y ≤ time x :=
  fun y hy => (List.pairwise_append.1 h).2.2 y hy x (List.mem_singleton_self x)

theorem Limited.left {ys : List α} (h : Limited time weight width limit (xs ++ ys)) :
    Limited time weight width limit xs := by
  intro as x bs heq
  refine h as x (bs ++ ys) ?_
  rw [heq, List.append_assoc]
  rfl

theorem Limited.concat (h : Limited time weight width limit xs)
    (hx : ((recent time width (time x) xs).map weight).sum + weight x ≤ limit) :
    Limited time weight width limit (xs ++ [x]) := by
  intro as y bs heq
  rcases List.eq_nil_or_concat bs with rfl | ⟨bs', z, rfl⟩
  · obtain ⟨rfl, hlast⟩ := List.append_inj' heq rfl
    cases hlast
    exact hx
  · have heq' : xs ++ [x] = (as ++ y :: bs') ++ [z] := by
      rw [heq, List.concat_eq_append, List.append_assoc]
      rfl
    exact h as y bs' (List.append_inj' heq' rfl).1

/-- **Every period.** Times that lie closer together than the width have no more than the limit. -/
theorem load_le (h : Timely time xs) (hlim : Limited time weight width limit xs)
    (hP : ∀ t u, P t → P u → u < t + width) : load time weight P xs ≤ limit := by
  induction xs using List.reverseRecOn with
  | nil => exact Nat.zero_le limit
  | append_singleton xs x ih =>
    have hxs := ih h.left hlim.left
    rw [load_append, load_singleton]
    split_ifs with hx
    · -- the entries before the last one count at its time
      have hsub : load time weight P xs ≤ load time weight (fun t => time x < t + width) xs :=
        load_mono fun y _ hy => hP (time y) (time x) hy hx
      have hlast := hlim xs x [] rfl
      rw [load_eq_recent] at hsub
      omega
    · exact hxs

end RateWindow
