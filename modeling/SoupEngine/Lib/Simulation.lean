import SoupEngine.Lib.TransitionSystem
import Mathlib.Logic.Relation

/-!
# Forward simulation

A guarded system is matched, step by step, by the runs of an abstract one. `Simulation.run` is the
induction over a run.
-/

namespace TransitionSystem

open Relation

variable {σ α τ : Type*} {step : σ → α → σ} {ok : σ → α → Prop} {init : σ} {next : τ → τ → Prop}
  {start : τ} {R : σ → τ → Prop}

/-- The relation `R` holds at the start, and every allowed step leads from related states to related
ones, by none or more steps of the abstract system. -/
structure Simulation (step : σ → α → σ) (ok : σ → α → Prop) (init : σ) (next : τ → τ → Prop)
    (start : τ) (R : σ → τ → Prop) : Prop where
  start : R init start
  step : ∀ s a t, R s t → ok s a → ∃ t', ReflTransGen next t t' ∧ R (step s a) t'

/-- Every run is matched by one of the abstract system. -/
theorem Simulation.run (h : Simulation step ok init next start R) {s : σ}
    (hr : Reach step ok init s) :
    ∃ t, ReflTransGen next start t ∧ R s t := by
  induction hr with
  | start => exact ⟨start, .refl, h.start⟩
  | next _ a ha ih =>
    obtain ⟨t, hrun, hR⟩ := ih
    obtain ⟨t', hrun', hR'⟩ := h.step _ a t hR ha
    exact ⟨t', hrun.trans hrun', hR'⟩

end TransitionSystem
