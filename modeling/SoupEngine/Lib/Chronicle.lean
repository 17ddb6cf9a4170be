import SoupEngine.Lib.TransitionSystem

/-!
# Chronicles

What the steps of a run give out one after the other, as a list of events. If every step changes a
view of the state by its event alone, the view is what the events make of it (`view_chronicle`).
`Since` says of a list of events that something has happened and nothing has ended it.
-/

namespace Chronicle

open TransitionSystem

variable {σ α ε ν : Type*}

/-- The events of a run. -/
def chronicle (step : σ → α → σ) (event : σ → α → Option ε) : σ → List α → List ε
  | _, [] => []
  | s, a :: as => (event s a).toList ++ chronicle step event (step s a) as

/-- The events make of the view what the run makes of it. -/
theorem view_chronicle {step : σ → α → σ} {event : σ → α → Option ε} (view : σ → ν)
    {apply : ν → ε → ν} {ok : σ → α → Prop}
    (hstep : ∀ s a, ok s a → view (step s a) = (event s a).toList.foldl apply (view s)) {s : σ}
    {as : List α} (has : Allowed step ok s as) :
    view (as.foldl step s) = (chronicle step event s as).foldl apply (view s) := by
  induction as generalizing s with
  | nil => rfl
  | cons a as ih =>
    rw [List.foldl_cons, chronicle, List.foldl_append, ← hstep s a has.1]
    exact ih has.2

/-- Something of `P` has happened, and nothing of `Q` since. -/
def Since (P Q : ε → Prop) (es : List ε) : Prop :=
  ∃ before e after, es = before ++ e :: after ∧ P e ∧ ∀ e ∈ after, ¬ Q e

variable {P Q : ε → Prop} {es : List ε} {e : ε}

theorem not_since_nil : ¬ Since P Q [] := by
  rintro ⟨before, e, after, h, -⟩
  exact List.append_ne_nil_of_right_ne_nil before (List.cons_ne_nil e after) h.symm

/-- One more event. -/
theorem since_concat : Since P Q (es ++ [e]) ↔ P e ∨ Since P Q es ∧ ¬ Q e := by
  constructor
  · rintro ⟨before, d, after, h, hd, hafter⟩
    rcases List.eq_nil_or_concat after with rfl | ⟨init, last, rfl⟩
    · obtain ⟨-, hlast⟩ := List.append_inj' h rfl
      left
      rw [List.singleton_inj.1 hlast]
      exact hd
    · right
      rw [List.concat_eq_append, ← List.cons_append, ← List.append_assoc] at h
      obtain ⟨hinit, hlast⟩ := List.append_inj' h rfl
      rw [List.singleton_inj.1 hlast]
      rw [List.concat_eq_append, List.forall_mem_append, List.forall_mem_singleton] at hafter
      exact ⟨⟨before, d, init, hinit, hd, hafter.1⟩, hafter.2⟩
  · rintro (he | ⟨⟨before, d, after, rfl, hd, hafter⟩, he⟩)
    · exact ⟨es, e, [], rfl, he, List.forall_mem_nil _⟩
    · refine ⟨before, d, after ++ [e], ?_, hd, List.forall_mem_append.2 ⟨hafter, ?_⟩⟩
      · rw [List.append_assoc, List.cons_append]
      · exact List.forall_mem_singleton.2 he

end Chronicle
