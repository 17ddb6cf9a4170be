import SoupEngine.Sdk.Ending

/-!
# Catching up

A call of `advance` makes ticks until the room is in time, or more than three ticks late. The clock
is read after each tick. `returned_iff`: so the call returns within four ticks if one of the first
four readings is early or late enough, and in no other case; a room whose ticks take one step each
never leaves it (`never_returned`).
-/

namespace SoupEngine.Sdk

/-- A call of `advance`, while it runs and when it is over. -/
inductive Advancing
  /-- There is one more tick to make; `next` is the last one that was due. -/
  | running (next : Instant)
  | returned (ticks : ℕ) (next : Instant)
  | panicked
  deriving DecidableEq

def Advancing.Returned : Advancing → Prop
  | .returned _ _ => True
  | _ => False

/-- The call after `n` ticks, or when it is over. -/
def advancing (step : Duration) (next : Instant) (clock : ℕ → Instant) : ℕ → Advancing
  | 0 => .running next
  | n + 1 =>
    match advancing step next clock n with
    | .running next' =>
      match advance step next' (clock n) with
      | none => .panicked
      | some (next'', more) => if more = true then .running next'' else .returned (n + 1) next''
    | done => done

/-- The instant that the clock is compared with after tick `k`, the first one being 0. -/
def due (step : Duration) (next : Instant) (k : ℕ) : Instant := next + (k + 1) * step

/-- After tick `k` the room is late, by no more than three steps. -/
def Late (step : Duration) (next : Instant) (clock : ℕ → Instant) (k : ℕ) : Prop :=
  due step next k ≤ clock k ∧ clock k - due step next k ≤ maxCatchUpTicks * step

/-- After tick `k` the room is in time, or later than three steps. -/
def Exits (step : Duration) (next : Instant) (clock : ℕ → Instant) (k : ℕ) : Prop :=
  clock k < due step next k ∨ (0 < step ∧ maxCatchUpTicks * step < clock k - due step next k)

instance (step : Duration) (next : Instant) (clock : ℕ → Instant) (k : ℕ) :
    Decidable (Exits step next clock k) := by
  unfold Exits
  infer_instance

section Rounds

variable {step : Duration} {next : Instant} {clock : ℕ → Instant} {n : ℕ}

theorem due_eq (step : Duration) (next : Instant) (n : ℕ) :
    next + n * step + step = due step next n := by
  unfold due
  rw [Nat.succ_mul, Nat.add_assoc]

/-- The call goes on as long as the room is late. -/
theorem advancing_of_late (h : ∀ k < n, Late step next clock k) :
    advancing step next clock n = .running (next + n * step) := by
  induction n with
  | zero =>
    rw [Nat.zero_mul]
    rfl
  | succ n ih =>
    have hlate := h n n.lt_succ_self
    have hadvance : advance step (next + n * step) (clock n) =
        some (next + n * step + step, true) := by
      refine Loop.advance_late ?_
      rw [due_eq]
      exact not_or.2 ⟨not_lt.2 hlate.1, not_lt.2 hlate.2⟩
    unfold advancing
    rw [ih fun k hk => h k (Nat.lt_succ_of_lt hk)]
    dsimp only
    rw [hadvance, Nat.succ_mul, Nat.add_assoc]
    rfl

theorem advancing_running {next' : Instant} (h : advancing step next clock n = .running next') :
    next' = next + n * step ∧ ∀ k < n, Late step next clock k := by
  induction n generalizing next' with
  | zero =>
    cases h
    exact ⟨by rw [Nat.zero_mul]; rfl, fun k hk => absurd hk (Nat.not_lt_zero k)⟩
  | succ n ih =>
    unfold advancing at h
    cases hn : advancing step next clock n with
    | running next₀ =>
      obtain ⟨rfl, hlate⟩ := ih hn
      rw [hn] at h
      dsimp only at h
      have hnow : Late step next clock n := by
        by_contra hnot
        have hprompt : clock n < next + n * step + step ∨
            maxCatchUpTicks * step < clock n - (next + n * step + step) := by
          rw [due_eq]
          by_contra hno
          exact hnot ⟨not_lt.1 (not_or.1 hno).1, not_lt.1 (not_or.1 hno).2⟩
        cases hadv : advance step (next + n * step) (clock n) with
        | none =>
          rw [hadv] at h
          cases h
        | some res =>
          have hmore := Loop.advance_prompt hprompt res (by rw [hadv]; rfl)
          rw [hadv] at h
          dsimp only at h
          rw [if_neg (by rw [hmore]; decide)] at h
          cases h
      have hall : ∀ k < n + 1, Late step next clock k := by
        intro k hk
        rcases Nat.lt_succ_iff_lt_or_eq.1 hk with hlt | rfl
        · exact hlate k hlt
        · exact hnow
      refine ⟨?_, hall⟩
      have hrun := advancing_of_late hall
      unfold advancing at hrun
      rw [hn] at hrun
      exact Advancing.running.inj (h.symm.trans hrun)
    | returned ticks next₀ =>
      rw [hn] at h
      exact nomatch h
    | panicked =>
      rw [hn] at h
      exact nomatch h

/-- A step that is not 0 does not panic. -/
theorem advancing_panicked (h : advancing step next clock n = .panicked) :
    step = 0 ∧ ∃ k < n, next ≤ clock k := by
  induction n with
  | zero => cases h
  | succ n ih =>
    unfold advancing at h
    cases hn : advancing step next clock n with
    | running next₀ =>
      obtain ⟨rfl, -⟩ := advancing_running hn
      rw [hn] at h
      dsimp only at h
      unfold advance at h
      dsimp only at h
      split_ifs at h with h1 h2 h3
      · cases h
      · refine ⟨h3, n, n.lt_succ_self, ?_⟩
        rw [h3, Nat.mul_zero] at h1
        exact not_lt.1 h1
      · cases h
      · cases h
    | returned ticks next₀ =>
      rw [hn] at h
      exact nomatch h
    | panicked =>
      obtain ⟨hstep, k, hk, hle⟩ := ih hn
      exact ⟨hstep, k, Nat.lt_succ_of_lt hk, hle⟩

theorem not_exits_of_late {k : ℕ} (h : Late step next clock k) : ¬ Exits step next clock k := by
  rintro (hlt | ⟨-, hlt⟩)
  · exact absurd h.1 (not_le.2 hlt)
  · exact absurd h.2 (not_le.2 hlt)

/-- The call has returned after `n` ticks at the latest if one of the readings up to then makes
it. -/
theorem advancing_returned_iff (hclock : Monotone clock) (n : ℕ) :
    (advancing step next clock n).Returned ↔ ∃ k < n, Exits step next clock k := by
  induction n with
  | zero => exact ⟨fun h => h.elim, fun ⟨k, hk, _⟩ => absurd hk (Nat.not_lt_zero k)⟩
  | succ n ih =>
    have hsucc : (∃ k < n + 1, Exits step next clock k) ↔
        (∃ k < n, Exits step next clock k) ∨ Exits step next clock n := by
      constructor
      · rintro ⟨k, hk, h⟩
        rcases Nat.lt_succ_iff_lt_or_eq.1 hk with hlt | rfl
        · exact Or.inl ⟨k, hlt, h⟩
        · exact Or.inr h
      · rintro (⟨k, hk, h⟩ | h)
        · exact ⟨k, Nat.lt_succ_of_lt hk, h⟩
        · exact ⟨n, n.lt_succ_self, h⟩
    rw [hsucc]
    unfold advancing
    cases hn : advancing step next clock n with
    | running next₀ =>
      obtain ⟨rfl, hlate⟩ := advancing_running hn
      have hno : ¬ ∃ k < n, Exits step next clock k :=
        fun ⟨k, hk, h⟩ => not_exits_of_late (hlate k hk) h
      rw [or_iff_right hno]
      unfold Exits advance
      rw [← due_eq]
      dsimp only
      split_ifs with h1 h2 h3
      · exact ⟨fun _ => Or.inl h1, fun _ => trivial⟩
      · exact ⟨fun h => h.elim, fun h => h.elim h1 fun h => absurd h3 (Nat.pos_iff_ne_zero.1 h.1)⟩
      · exact ⟨fun _ => Or.inr ⟨Nat.pos_of_ne_zero h3, h2⟩, fun _ => trivial⟩
      · exact ⟨fun h => h.elim, fun h => h.elim h1 fun h => h2 h.2⟩
    | returned ticks next₀ =>
      rw [hn] at ih
      dsimp only
      exact ⟨fun _ => Or.inl (ih.1 trivial), fun _ => trivial⟩
    | panicked =>
      rw [hn] at ih
      dsimp only
      obtain ⟨hstep, k, hk, hle⟩ := advancing_panicked hn
      refine ⟨fun h => h.elim, ?_⟩
      rintro (h | h | h)
      · exact ih.2 h
      · have hge : next ≤ clock n := hle.trans (hclock hk.le)
        unfold due at h
        rw [hstep, Nat.mul_zero] at h
        exact absurd hge (not_le.2 h)
      · exact absurd hstep (Nat.pos_iff_ne_zero.1 h.1)

end Rounds

/-- **The bound.** With a clock that does not go back, the call returns after at most four ticks if
and only if after one of the first four the room is in time, or later than three steps. -/
theorem returned_iff (step : Duration) (next : Instant) (clock : ℕ → Instant)
    (hclock : Monotone clock) :
    (advancing step next clock (maxCatchUpTicks + 1)).Returned ↔
      ∃ k ≤ maxCatchUpTicks, Exits step next clock k := by
  rw [advancing_returned_iff hclock]
  simp only [Nat.lt_succ_iff]

/-- The clock of a room of 20 ticks a second that starts 70 ms late and gains 30 ms with every
tick. -/
def gaining (k : ℕ) : Instant := Duration.fromMillis (120 + 20 * k)

/-- Three ticks are made up for, and the fourth ends in time. -/
theorem returned_iff_gaining :
    ¬ (advancing Loop.step20 0 gaining maxCatchUpTicks).Returned ∧
      (advancing Loop.step20 0 gaining (maxCatchUpTicks + 1)).Returned := by
  have hclock : Monotone gaining := fun j k h => Nat.mul_le_mul_right _ (by omega)
  refine ⟨fun h => ?_, (returned_iff Loop.step20 0 gaining hclock).2 ⟨3, le_rfl, Or.inl ?_⟩⟩
  · obtain ⟨k, hk, hexits⟩ := (advancing_returned_iff hclock _).1 h
    have hlate : ∀ k < maxCatchUpTicks, Late Loop.step20 0 gaining k := by
      unfold Late
      decide
    exact not_exits_of_late (hlate k hk) hexits
  · show gaining 3 < due Loop.step20 0 3
    decide

/-- If every tick takes one step the call never returns. -/
theorem never_returned :
    ∃ clock : ℕ → Instant, Monotone clock ∧ (∀ k, clock (k + 1) = clock k + Loop.step20) ∧
      ∀ n, ¬ (advancing Loop.step20 0 clock n).Returned := by
  have hclock : Monotone (due Loop.step20 0) := by
    intro j k h
    unfold due
    exact Nat.add_le_add_left (Nat.mul_le_mul_right _ (Nat.succ_le_succ h)) _
  refine ⟨due Loop.step20 0, hclock, fun k => ?_, fun n h => ?_⟩
  · unfold due
    rw [Nat.succ_mul (k + 1), Nat.add_assoc]
  · obtain ⟨k, -, hlt | ⟨-, hlt⟩⟩ := (advancing_returned_iff hclock n).1 h
    · exact absurd hlt (lt_irrefl _)
    · rw [Nat.sub_self] at hlt
      exact absurd hlt (Nat.not_lt_zero _)

end SoupEngine.Sdk
