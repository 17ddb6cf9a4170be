import Mathlib.Tactic

/-!
# Guarded transition systems

A deterministic step function `step : σ → α → σ` on states and actions, started in `init`; an action
may be taken in a state when the guard `ok` allows it. `Reach` is the set of states of all runs, and
`Reach.invariant` is the induction over a run.
-/

namespace TransitionSystem

variable {σ α : Type*} {step : σ → α → σ} {ok ok' : σ → α → Prop} {init : σ}

/-- The states reached by runs whose every action is allowed where it is taken. -/
inductive Reach (step : σ → α → σ) (ok : σ → α → Prop) (init : σ) : σ → Prop
  | start : Reach step ok init init
  | next {s : σ} (h : Reach step ok init s) (a : α) (ha : ok s a) : Reach step ok init (step s a)

/-- What holds at the start and is kept by every allowed action holds in every reached state. -/
theorem Reach.invariant {I : σ → Prop} (h0 : I init)
    (hstep : ∀ s a, I s → ok s a → I (step s a)) {s : σ} (h : Reach step ok init s) : I s := by
  induction h with
  | start => exact h0
  | next _ a ha ih => exact hstep _ a ih ha

/-- The same induction, with the reachability of the state before the step at hand. -/
theorem Reach.invariant' {I : σ → Prop} (h0 : I init)
    (hstep : ∀ s a, Reach step ok init s → I s → ok s a → I (step s a)) {s : σ}
    (h : Reach step ok init s) : I s := by
  induction h with
  | start => exact h0
  | next hr a ha ih => exact hstep _ a hr ih ha

/-- A weaker guard has more runs. -/
theorem Reach.mono (hok : ∀ s a, ok s a → ok' s a) {s : σ} (h : Reach step ok init s) :
    Reach step ok' init s := by
  induction h with
  | start => exact .start
  | next _ a ha ih => exact .next ih a (hok _ a ha)

/-- Two runs after each other are a run. -/
theorem Reach.trans {s t : σ} (h : Reach step ok init s) (h' : Reach step ok s t) :
    Reach step ok init t := by
  induction h' with
  | start => exact h
  | next _ a ha ih => exact .next ih a ha

/-- Every action of the list is allowed where it is taken. -/
def Allowed (step : σ → α → σ) (ok : σ → α → Prop) : σ → List α → Prop
  | _, [] => True
  | s, a :: as => ok s a ∧ Allowed step ok (step s a) as

instance decidableAllowed [∀ s a, Decidable (ok s a)] : ∀ s as, Decidable (Allowed step ok s as)
  | _, [] => .isTrue trivial
  | s, a :: as =>
    have := decidableAllowed (step s a) as
    inferInstanceAs (Decidable (ok s a ∧ Allowed step ok (step s a) as))

theorem allowed_append {s : σ} {as bs : List α} :
    Allowed step ok s (as ++ bs) ↔ Allowed step ok s as ∧ Allowed step ok (as.foldl step s) bs := by
  induction as generalizing s with
  | nil => exact (and_iff_right trivial).symm
  | cons a as ih =>
    show ok s a ∧ Allowed step ok (step s a) (as ++ bs) ↔ _
    rw [ih, ← and_assoc]
    rfl

/-- One more action. -/
theorem allowed_concat {s : σ} {as : List α} {a : α} :
    Allowed step ok s (as ++ [a]) ↔ Allowed step ok s as ∧ ok (as.foldl step s) a := by
  rw [allowed_append]
  exact and_congr_right fun _ => and_iff_left trivial

theorem allowed_and {s : σ} {as : List α} :
    Allowed step (fun s a => ok s a ∧ ok' s a) s as ↔
      Allowed step ok s as ∧ Allowed step ok' s as := by
  induction as generalizing s with
  | nil => exact (and_iff_left trivial).symm
  | cons a as ih =>
    refine (and_congr_right' ih).trans ?_
    exact and_and_and_comm

/-- Two guards that agree as long as an invariant of the allowed actions holds allow the same
runs. -/
theorem allowed_congr {I : σ → Prop} (hstep : ∀ s a, I s → ok s a → I (step s a))
    (hok : ∀ s a, I s → (ok s a ↔ ok' s a)) {s : σ} (hs : I s) {as : List α} :
    Allowed step ok s as ↔ Allowed step ok' s as := by
  induction as generalizing s with
  | nil => exact Iff.rfl
  | cons a as ih =>
    constructor
    · rintro ⟨ha, has⟩
      exact ⟨(hok s a hs).1 ha, (ih (hstep s a hs ha)).1 has⟩
    · rintro ⟨ha, has⟩
      have ha' : ok s a := (hok s a hs).2 ha
      exact ⟨ha', (ih (hstep s a hs ha')).2 has⟩

/-- A property that an invariant `I` of the allowed actions gives, and that every other action
breaks, holds all along the runs of allowed actions and of no others. `K` holds in every run. -/
theorem forall_take_iff_allowed {P I K : σ → Prop} {s : σ} (hI : I s) (hK : K s)
    (hP : ∀ s, I s → P s) (hkeep : ∀ s a, K s → K (step s a))
    (hstep : ∀ s a, K s → I s → ok s a → I (step s a))
    (hok : ∀ s a, K s → I s → P (step s a) → ok s a) {as : List α} :
    (∀ n, P ((as.take n).foldl step s)) ↔ Allowed step ok s as := by
  induction as generalizing s with
  | nil => exact iff_of_true (fun n => by rw [List.take_nil]; exact hP s hI) trivial
  | cons a as ih =>
    constructor
    · intro h
      have ha : ok s a := hok s a hK hI (h 1)
      exact ⟨ha, (ih (hstep s a hK hI ha) (hkeep s a hK)).1 fun n => h (n + 1)⟩
    · rintro ⟨ha, has⟩ n
      cases n with
      | zero => exact hP s hI
      | succ n => exact (ih (hstep s a hK hI ha) (hkeep s a hK)).2 has n

/-- Actions that are allowed everywhere. -/
theorem allowed_of_forall {as : List α} (h : ∀ a ∈ as, ∀ s, ok s a) (s : σ) :
    Allowed step ok s as := by
  induction as generalizing s with
  | nil => trivial
  | cons a as ih =>
    exact ⟨h a List.mem_cons_self s, ih (fun b hb => h b (List.mem_cons_of_mem a hb)) _⟩

/-- A list of allowed actions is a run. -/
theorem Reach.foldl {s : σ} {as : List α} (h : Allowed step ok s as) :
    Reach step ok s (as.foldl step s) := by
  induction as generalizing s with
  | nil => exact .start
  | cons a as ih => exact (Reach.start.next a h.1).trans (ih h.2)

end TransitionSystem
