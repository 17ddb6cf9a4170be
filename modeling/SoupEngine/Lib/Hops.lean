import Mathlib.Data.List.Basic
import Mathlib.Tactic

/-!
# Messages that go by one connection after the other

Connections are numbered, and every message is paired with the one by which it goes. Two lists that
never go back to an earlier connection can be compared connection by connection (`sublist_of_on`).
-/

namespace Hops

variable {μ : Type*}

/-- The messages on a connection. -/
def on (n : ℕ) (l : List (μ × ℕ)) : List μ := (l.filter fun x => decide (x.2 = n)).map Prod.fst

/-- No message goes by an earlier connection than one before it. -/
def Forward (l : List (μ × ℕ)) : Prop := l.Pairwise fun a b => a.2 ≤ b.2

variable {l m : List (μ × ℕ)} {x : μ × ℕ} {n : ℕ}

theorem on_append (n : ℕ) (l m : List (μ × ℕ)) : on n (l ++ m) = on n l ++ on n m := by
  unfold on
  rw [List.filter_append, List.map_append]

theorem on_cons_self (x : μ × ℕ) (l : List (μ × ℕ)) : on x.2 (x :: l) = x.1 :: on x.2 l := by
  unfold on
  rw [List.filter_cons, if_pos (decide_eq_true rfl), List.map_cons]

theorem on_cons_ne (hx : x.2 ≠ n) : on n (x :: l) = on n l := by
  unfold on
  rw [List.filter_cons, if_neg]
  exact fun h => hx (of_decide_eq_true h)

theorem on_eq_nil (h : ∀ x ∈ l, x.2 ≠ n) : on n l = [] := by
  unfold on
  rw [List.filter_eq_nil_iff.2, List.map_nil]
  exact fun x hx heq => h x hx (of_decide_eq_true heq)

/-- One more message on a connection. -/
theorem on_append_self (l : List (μ × ℕ)) (x : μ) (n : ℕ) :
    on n (l ++ [(x, n)]) = on n l ++ [x] := by
  rw [on_append]
  exact congrArg (on n l ++ ·) (on_cons_self (x, n) [])

theorem on_append_ne (l : List (μ × ℕ)) (x : μ) {k : ℕ} (hk : k ≠ n) :
    on n (l ++ [(x, k)]) = on n l := by
  rw [on_append, on_cons_ne hk]
  exact List.append_nil _

theorem Forward.append_one (h : Forward l) (hn : ∀ y ∈ l, y.2 ≤ n) (x : μ) :
    Forward (l ++ [(x, n)]) := by
  unfold Forward
  rw [List.pairwise_append]
  refine ⟨h, List.pairwise_singleton _ _, fun y hy z hz => ?_⟩
  rw [List.mem_singleton.1 hz]
  exact hn y hy

/-- **Connection by connection.** -/
theorem sublist_of_on (hl : Forward l) (hm : Forward m) (h : ∀ n, (on n l).Sublist (on n m)) :
    l.Sublist m := by
  induction m generalizing l with
  | nil =>
    cases l with
    | nil => exact List.Sublist.refl _
    | cons x l =>
      have hx := h x.2
      rw [on_cons_self] at hx
      exact absurd (List.sublist_nil.1 hx) (List.cons_ne_nil _ _)
  | cons y m ih =>
    obtain ⟨hy, hm⟩ := List.pairwise_cons.1 hm
    cases l with
    | nil => exact List.nil_sublist _
    | cons x l =>
      obtain ⟨hx, hl'⟩ := List.pairwise_cons.1 hl
      rcases lt_trichotomy x.2 y.2 with hlt | heq | hgt
      · -- nothing else is on the connection of `x`
        have hnone := h x.2
        rw [on_cons_self, on_cons_ne hlt.ne', on_eq_nil fun z hz => (hlt.trans_le (hy z hz)).ne']
          at hnone
        exact absurd (List.sublist_nil.1 hnone) (List.cons_ne_nil _ _)
      · have hself := h y.2
        rw [on_cons_self, ← heq, on_cons_self, heq] at hself
        rcases List.cons_sublist_cons'.1 hself with hskip | ⟨hxy, htail⟩
        · refine (ih hl hm fun n => ?_).cons y
          by_cases hn : y.2 = n
          · rw [← hn, ← heq, on_cons_self, heq]
            exact hskip
          · have hrest := h n
            rwa [@on_cons_ne μ m y n hn] at hrest
        · have hsame : x = y := Prod.ext hxy heq
          rw [hsame]
          refine (ih hl' hm fun n => ?_).cons_cons y
          by_cases hn : y.2 = n
          · rw [← hn]
            exact htail
          · have hrest := h n
            rwa [@on_cons_ne μ m y n hn, on_cons_ne (by rw [heq]; exact hn)] at hrest
      · -- the connection of `y` is over
        refine (ih hl hm fun n => ?_).cons y
        by_cases hn : y.2 = n
        · rw [← hn, on_eq_nil]
          · exact List.nil_sublist _
          · intro z hz
            rcases List.mem_cons.1 hz with rfl | hz
            · exact hgt.ne'
            · exact (hgt.trans_le (hx z hz)).ne'
        · have hrest := h n
          rwa [@on_cons_ne μ m y n hn] at hrest

end Hops
