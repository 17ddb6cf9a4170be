import Mathlib.Tactic

/-!
# One seat

A seat is taken and left. Events that have been queued are in turn if it is taken only when it is
free, and left only by the one who sits there, or by one who has already been removed. Then nobody
is removed by somebody else's leaving, however often someone is removed in between.
-/

namespace Seat

variable {κ : Type*}

inductive Event (κ : Type*)
  | take (k : κ)
  | leave (k : κ)

/-- Who sits there after the events; a seat that is taken stays taken. -/
def after : Option κ → List (Event κ) → Option κ
  | b, [] => b
  | b, .take k :: es => after (some (b.getD k)) es
  | _, .leave _ :: es => after none es

def InTurn : Option κ → List (Event κ) → Prop
  | _, [] => True
  | b, .take k :: es => b = none ∧ InTurn (some k) es
  | b, .leave k :: es => (∀ k' ∈ b, k' = k) ∧ InTurn none es

theorem inTurn_append {b : Option κ} {es es' : List (Event κ)} :
    InTurn b (es ++ es') ↔ InTurn b es ∧ InTurn (after b es) es' := by
  induction es generalizing b with
  | nil => exact (and_iff_right trivial).symm
  | cons e es ih =>
    cases e with
    | take k =>
      show b = none ∧ InTurn (some k) (es ++ es') ↔
        (b = none ∧ InTurn (some k) es) ∧ InTurn (after (some (b.getD k)) es) es'
      rw [ih, and_assoc]
      refine and_congr_right fun hb => ?_
      rw [hb]
      rfl
    | leave k =>
      show _ ∧ InTurn none (es ++ es') ↔ (_ ∧ InTurn none es) ∧ InTurn (after none es) es'
      rw [ih, and_assoc]

/-- Whoever sits there may be removed at any time. -/
theorem InTurn.removed {k : κ} {es : List (Event κ)} (h : InTurn (some k) es) : InTurn none es := by
  cases es with
  | nil => trivial
  | cons e es =>
    cases e with
    | take k' => exact absurd h.1 (Option.some_ne_none k)
    | leave k' => exact ⟨(fun k'' hk => nomatch hk), h.2⟩

/-- One who sits there, or will, and does not leave, sits there at the end. -/
theorem after_eq_some {b : Option κ} {es : List (Event κ)} {k : κ} (h : InTurn b es)
    (hk : b = some k ∨ .take k ∈ es) (hstay : .leave k ∉ es) : after b es = some k := by
  induction es generalizing b with
  | nil =>
    rcases hk with hk | hk
    · exact hk
    · cases hk
  | cons e es ih =>
    have hstay' : .leave k ∉ es := fun hmem => hstay (List.mem_cons_of_mem _ hmem)
    cases e with
    | take k' =>
      obtain ⟨hb, hrest⟩ := h
      rw [hb] at hk ⊢
      refine ih hrest ?_ hstay'
      rcases hk with hk | hk
      · cases hk
      · rcases List.mem_cons.1 hk with heq | hk
        · exact .inl (congrArg some (Event.take.inj heq).symm)
        · exact .inr hk
    | leave k' =>
      obtain ⟨hleave, hrest⟩ := h
      refine ih hrest ?_ hstay'
      rcases hk with hk | hk
      · -- only the one who sits there leaves
        have heq := hleave k hk
        exact absurd (heq ▸ List.mem_cons_self) hstay
      · rcases List.mem_cons.1 hk with heq | hk
        · cases heq
        · exact .inr hk

end Seat
