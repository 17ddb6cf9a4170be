import Mathlib.Tactic
import Mathlib.Logic.Relation

/-!
# A bounded channel that keeps the order

A channel takes messages as long as at most `cap` of them wait, and hands over those that wait in
the order in which they have come. What has been handed over is always a first part of what has been
sent.
-/

namespace Fifo

open Relation

/-- What has been sent, and how much of it has been delivered. -/
structure Channel (cap : ℕ) (μ : Type*) where
  sent : List μ
  count : ℕ
  le : count ≤ sent.length
  room : sent.length ≤ count + cap

variable {cap : ℕ} {μ : Type*}

def empty : Channel cap μ := ⟨[], 0, le_rfl, Nat.zero_le _⟩

def delivered (c : Channel cap μ) : List μ := c.sent.take c.count

def waiting (c : Channel cap μ) : List μ := c.sent.drop c.count

/-- A message is taken, or the next messages are handed over. -/
inductive Step : Channel cap μ → Channel cap μ → Prop
  | send (c c' : Channel cap μ) (x : μ) (hsent : c'.sent = c.sent ++ [x])
    (hcount : c'.count = c.count) :
    Step c c'
  | deliver (c c' : Channel cap μ) (hsent : c'.sent = c.sent) (hcount : c.count ≤ c'.count) :
      Step c c'

theorem Step.count_le {c c' : Channel cap μ} (h : Step c c') : c.count ≤ c'.count := by
  cases h with
  | send x hsent hcount => exact hcount.ge
  | deliver hsent hcount => exact hcount

end Fifo
