import SoupEngine.Sdk.Ending
import SoupEngine.Lib.TransitionSystem

/-!
# The pace of the ticks

`run` waits for its timer, and `advance` makes a tick, or several if the room is late, or gives the
late ones up and counts them in `TickSkipped`. `ticks_follow_clock`: so there are never more ticks
than steps of time have passed, however late the timer fires and however long a tick takes; and the
next tick is due no later than the ticks and `TickSkipped` say, but for two steps each time that
ticks are given up.
-/

namespace SoupEngine.Sdk

open TransitionSystem
open Loop (step20)

/-- The goroutine is in `advance`. -/
def Place.advances : Place → Bool
  | .drain _ | .tick => true
  | _ => false

/-- `TickSkipped.Add` at the end of a round of `advance`. -/
def skips (step : Duration) (next now : Instant) : ℕ :=
  let next := next + step
  if now < next then 0 else if maxCatchUpTicks * step < now - next then (now - next) / step else 0

/-- The goroutine of a room, with the time and its timer. -/
structure Clocked where
  loop : Loop
  now : Instant
  /-- The timer does not fire before. -/
  expiry : Instant
  /-- The calls of `Tick`, and those that have returned. -/
  calls : ℕ
  ticks : ℕ
  TickSkipped : ℕ

inductive ClockedAction
  /-- Time passes. -/
  | pass (t : Instant)
  | act (a : LoopAction)

namespace Clocked

variable (inboxCap : ℕ) (step : Duration)

/-- `run` makes the timer at `created`, and reads the clock after `d`. -/
def start (JitterBufferTicks BaselineRingSize : ℕ) (created : Instant) (d : Duration) :
    Clocked where
  loop := .start JitterBufferTicks BaselineRingSize (created + d + step)
  now := created + d
  expiry := created + step
  calls := 0
  ticks := 0
  TickSkipped := 0

/-- A step of the goroutine. After a tick the timer is set to the instant of the next one. -/
def act (s : Clocked) (a : LoopAction) : Clocked :=
  let loop := s.loop.act inboxCap step a
  match a with
  | .deliver order =>
    if s.loop.crashed = false ∧ s.loop.proc.drained = true ∧
        (s.loop.proc.room.deliverReadyInputs order).isSome = true then
      { s with loop, calls := s.calls + 1 }
    else { s with loop }
  | .tick _ now =>
    if s.loop.crashed = false ∧ s.loop.proc.place.ticking = true then
      { s with
        loop
        expiry := loop.next
        ticks := s.ticks + 1
        TickSkipped := s.TickSkipped + skips step s.loop.next now }
    else { s with loop }
  | _ => { s with loop }

def next (s : Clocked) : ClockedAction → Clocked
  | .pass t => { s with now := max s.now t }
  | .act a => s.act inboxCap step a

/-- The timer fires when it may, and `advance` reads the clock. -/
def Allows (s : Clocked) : ClockedAction → Prop
  | .act .timer => s.expiry ≤ s.now
  | .act (.tick _ now) => now = s.now
  | _ => True

instance (s : Clocked) (a : ClockedAction) : Decidable (s.Allows a) := by
  unfold Allows
  split <;> infer_instance

end Clocked

/-! ## The places -/

namespace Loop

variable {inboxCap : ℕ} {step : Duration} {s : Loop}

/-- The steps that do not begin or end a tick, and do not begin `advance`. -/
def Quiet : LoopAction → Prop
  | .timer | .deliver _ | .tick .. => False
  | _ => True

theorem advances_receive {e : Post} {x y : Place} (h : x.receive e = some y) :
    y.advances = x.advances ∧ y.ticking = x.ticking := by
  unfold Place.receive at h
  split at h
  · cases h
    exact ⟨rfl, rfl⟩
  · cases h
    exact ⟨rfl, rfl⟩
  · cases h
    exact ⟨rfl, rfl⟩
  · cases h

theorem advances_handled (x : Place) :
    x.handled.advances = x.advances ∧ x.handled.ticking = x.ticking := by
  unfold Place.handled
  split <;> exact ⟨rfl, rfl⟩

/-- Such a step leaves the room in `advance` and in `Tick`, or out of them. -/
theorem act_quiet {a : LoopAction} (ha : Quiet a) :
    (s.act inboxCap step a).proc.place.advances = s.proc.place.advances ∧
      (s.act inboxCap step a).proc.place.ticking = s.proc.place.ticking ∧
      (s.act inboxCap step a).next = s.next := by
  unfold act
  by_cases hcrashed : s.crashed = true
  · rw [if_pos hcrashed]
    exact ⟨rfl, rfl, rfl⟩
  rw [if_neg hcrashed]
  cases a with
  | timer => exact ha.elim
  | deliver order => exact ha.elim
  | tick out now => exact ha.elim
  | arrive e =>
    dsimp only
    unfold RoomProc.offer
    split_ifs <;> exact ⟨rfl, rfl, rfl⟩
  | take =>
    dsimp only
    unfold RoomProc.take
    split
    · exact ⟨rfl, rfl, rfl⟩
    · split
      · exact ⟨rfl, rfl, rfl⟩
      · rename_i place hplace
        exact ⟨(advances_receive hplace).1, (advances_receive hplace).2, rfl⟩
  | handle =>
    dsimp only
    unfold RoomProc.handle
    split
    · exact ⟨rfl, rfl, rfl⟩
    · exact ⟨(advances_handled _).1, (advances_handled _).2, rfl⟩
  | check =>
    dsimp only
    unfold RoomProc.check
    split
    · rename_i hplace
      rw [hplace]
      unfold RoomProc.next
      dsimp only
      split_ifs <;> exact ⟨rfl, rfl, rfl⟩
    · exact ⟨rfl, rfl, rfl⟩
  | leave p =>
    dsimp only
    unfold RoomProc.leave
    split
    · rename_i hplace
      rw [hplace]
      exact ⟨rfl, rfl, rfl⟩
    · exact ⟨rfl, rfl, rfl⟩
  | kick p reason =>
    dsimp only
    unfold RoomProc.kick
    split_ifs <;> exact ⟨rfl, rfl, rfl⟩
  | finish =>
    dsimp only
    unfold RoomProc.finish
    split_ifs <;> exact ⟨rfl, rfl, rfl⟩

/-- Where a tick leaves the room. -/
theorem act_tick {out : Bool} {now : Instant} (hrun : s.crashed = false)
    (hplace : s.proc.place.ticking = true) :
    step = 0 ∧ (s.act inboxCap step (.tick out now)).crashed = true ∧
        (s.act inboxCap step (.tick out now)).next = s.next ∨
      ∃ next more, advance step s.next now = some (next, more) ∧
        (s.act inboxCap step (.tick out now)).next = next ∧
        (s.act inboxCap step (.tick out now)).proc.place.ticking = false ∧
        ((s.act inboxCap step (.tick out now)).proc.place.advances = true → more = true) := by
  have htick : s.proc.place = .tick := ticking_iff.1 hplace
  unfold act
  rw [if_neg (by rw [hrun]; decide)]
  dsimp only
  rw [if_pos hplace]
  cases hadv : advance step s.next now with
  | none =>
    refine .inl ⟨?_, rfl, rfl⟩
    unfold advance at hadv
    dsimp only at hadv
    split_ifs at hadv with hearly hlate hstep
    exact hstep
  | some res =>
    obtain ⟨next, more⟩ := res
    right
    refine ⟨next, more, rfl, rfl, ?_⟩
    dsimp only
    unfold RoomProc.tick
    rw [htick]
    dsimp only
    cases more with
    | true => exact ⟨rfl, fun _ => rfl⟩
    | false =>
      rw [if_neg Bool.false_ne_true]
      unfold RoomProc.next
      dsimp only
      split_ifs
      · exact ⟨rfl, fun h => Bool.noConfusion h⟩
      · exact ⟨rfl, fun h => Bool.noConfusion h⟩

end Loop

/-! ## A round of `advance` -/

section Round

variable {step : Duration} {next next' now : Instant} {more : Bool}

/-- The next tick is due a step later at least; and if the loop goes on it is due now. -/
theorem le_of_advance (h : advance step next now = some (next', more)) :
    next + step ≤ next' ∧ (more = true → next' ≤ now) := by
  unfold advance at h
  dsimp only at h
  split_ifs at h with hearly hlate hstep
  · cases h
    exact ⟨le_rfl, fun hmore => Bool.noConfusion hmore⟩
  · cases h
    exact ⟨Nat.add_le_add_right ((Nat.le_add_right _ _).trans (not_lt.1 hearly)) step,
      fun hmore => Bool.noConfusion hmore⟩
  · cases h
    exact ⟨le_rfl, fun _ => not_lt.1 hearly⟩

/-- What is given up is counted, but for two steps. -/
theorem le_skips (h : advance step next now = some (next', more)) :
    ∃ jumps, 3 * jumps ≤ skips step next now ∧
    next' ≤ next + (1 + skips step next now + 2 * jumps) * step := by
  unfold advance at h
  unfold skips
  dsimp only at h ⊢
  split_ifs at h ⊢ with hearly hlate hstep
  · cases h
    refine ⟨0, le_rfl, le_of_eq ?_⟩
    rw [Nat.mul_zero, Nat.add_zero, Nat.one_mul]
  · cases h
    have hpos : 0 < step := Nat.pos_of_ne_zero hstep
    refine ⟨1, ?_, ?_⟩
    · exact (Nat.le_div_iff_mul_le hpos).2 hlate.le
    · -- less than one step more has passed than is counted
      have hlt : now - (next + step) < ((now - (next + step)) / step + 1) * step :=
        Nat.lt_mul_of_div_lt (Nat.lt_succ_self _) hpos
      generalize (now - (next + step)) / step = k at hlt ⊢
      have hnow : now = next + step + (now - (next + step)) :=
        (Nat.add_sub_cancel' (not_lt.1 hearly)).symm
      calc now + step = next + step + (now - (next + step)) + step := by rw [← hnow]
        _ ≤ next + step + (k + 1) * step + step := by gcongr
        _ = next + (1 + k + 2 * 1) * step := by ring
  · cases h
    refine ⟨0, le_rfl, le_of_eq ?_⟩
    rw [Nat.mul_zero, Nat.add_zero, Nat.one_mul]

end Round

/-! ## The invariant -/

namespace Clocked

variable {inboxCap : ℕ} {step : Duration} {created : Instant} {first : Instant} {s : Clocked}

structure Paced (step : Duration) (created first : Instant) (s : Clocked) : Prop where
  past : created + s.ticks * step ≤ s.now
  due : created + (s.ticks + 1) * step ≤ s.loop.next
  armed : created + (s.ticks + 1) * step ≤ s.expiry
  /-- In `advance` the time of the tick has come. -/
  inAdvance : s.loop.crashed = false → s.loop.proc.place.advances = true →
    created + (s.ticks + 1) * step ≤ s.now
  called : s.loop.crashed = true ∨ s.calls = s.ticks + if s.loop.proc.place.ticking = true
    then 1 else 0
  begun : created + s.calls * step ≤ s.now
  counted : ∃ jumps, 3 * jumps ≤ s.TickSkipped ∧
    s.loop.next ≤ first + (s.ticks + s.TickSkipped + 2 * jumps) * step

theorem paced_start (J B : ℕ) (created : Instant) (d : Duration) :
    Paced step created (created + d + step) (start step J B created d) where
  past := by
    show created + 0 * step ≤ created + d
    rw [Nat.zero_mul]
    exact Nat.le_add_right _ _
  due := by
    show created + (0 + 1) * step ≤ created + d + step
    rw [Nat.zero_add, Nat.one_mul]
    exact Nat.add_le_add_right (Nat.le_add_right _ _) _
  armed := by
    show created + (0 + 1) * step ≤ created + step
    rw [Nat.zero_add, Nat.one_mul]
  inAdvance _ h := Bool.noConfusion h
  called := .inr rfl
  begun := by
    show created + 0 * step ≤ created + d
    rw [Nat.zero_mul]
    exact Nat.le_add_right _ _
  counted := ⟨0, le_rfl, by
    show created + d + step ≤ created + d + step + 0 * step
    exact Nat.le_add_right _ _⟩

theorem Paced.pass (h : Paced step created first s) (t : Instant) :
    Paced step created first { s with now := max s.now t } :=
  { h with
    past := h.past.trans (le_max_left _ _)
    inAdvance := fun hrun hplace => (h.inAdvance hrun hplace).trans (le_max_left _ _)
    begun := h.begun.trans (le_max_left _ _) }

/-- A step that is no tick and does not begin `advance`. -/
theorem Paced.quiet (h : Paced step created first s) {a : LoopAction} (ha : Loop.Quiet a) :
    Paced step created first { s with loop := s.loop.act inboxCap step a } := by
  obtain ⟨hadvances, hticking, hnext⟩ := @Loop.act_quiet inboxCap step s.loop a ha
  have hcrashed : s.loop.crashed = true → (s.loop.act inboxCap step a).crashed = true := by
    intro hc
    unfold Loop.act
    rw [if_pos hc]
    exact hc
  refine { h with
    due := h.due.trans_eq hnext.symm
    inAdvance := fun hrun hplace => ?_
    called := h.called.imp hcrashed fun hcalls => ?_
    counted := ?_ }
  · refine h.inAdvance ?_ (hadvances.symm.trans hplace)
    by_contra hc
    rw [hcrashed (Bool.eq_true_of_not_eq_false hc)] at hrun
    cases hrun
  · dsimp only
    rw [hticking]
    exact hcalls
  · dsimp only
    rw [hnext]
    exact h.counted

/-- The timer fires. -/
theorem Paced.timer (h : Paced step created first s) (hnow : s.expiry ≤ s.now) :
    Paced step created first { s with loop := s.loop.act inboxCap step .timer } := by
  have hsame : (s.loop.act inboxCap step .timer).crashed = s.loop.crashed ∧
      (s.loop.act inboxCap step .timer).next = s.loop.next ∧
      (s.loop.act inboxCap step .timer).proc.place.ticking = s.loop.proc.place.ticking := by
    unfold Loop.act
    by_cases hc : s.loop.crashed = true
    · rw [if_pos hc]
      exact ⟨rfl, rfl, rfl⟩
    · rw [if_neg hc]
      dsimp only
      unfold RoomProc.timer
      split
      · rename_i hplace
        rw [hplace]
        exact ⟨rfl, rfl, rfl⟩
      · exact ⟨rfl, rfl, rfl⟩
  obtain ⟨hcrashed, hnext, hticking⟩ := hsame
  refine { h with
    due := h.due.trans_eq hnext.symm
    inAdvance := fun _ _ => h.armed.trans hnow
    called := ?_
    counted := ?_ }
  · dsimp only
    rw [hcrashed, hticking]
    exact h.called
  · dsimp only
    rw [hnext]
    exact h.counted

/-- **`Tick` is called.** -/
theorem Paced.deliver (h : Paced step created first s) (order : List PlayerID) :
    Paced step created first (s.act inboxCap step (.deliver order)) := by
  unfold act
  dsimp only
  split_ifs with hcalls
  · obtain ⟨hrun, hdrained, hsome⟩ := hcalls
    obtain ⟨⟨room, ops⟩, hroom⟩ := Option.isSome_iff_exists.1 hsome
    have hloop : s.loop.act inboxCap step (.deliver order) =
        { s.loop with proc := { s.loop.proc with room, place := .tick } } := by
      unfold Loop.act
      rw [if_neg (by rw [hrun]; decide)]
      dsimp only
      rw [if_pos hdrained, hroom]
    have hplace : s.loop.proc.place.advances = true ∧ s.loop.proc.place.ticking = false := by
      unfold RoomProc.drained at hdrained
      split at hdrained
      · rename_i hplace hinbox
        rw [hplace]
        exact ⟨rfl, rfl⟩
      · rename_i hplace hinbox
        rw [hplace]
        exact ⟨rfl, rfl⟩
      · cases hdrained
    have hnow := h.inAdvance hrun hplace.1
    rw [hloop]
    have hcount : s.calls = s.ticks := by
      rcases h.called with hc | hc
      · rw [hrun] at hc
        cases hc
      · rw [hplace.2, if_neg Bool.false_ne_true] at hc
        exact hc
    refine { h with
      inAdvance := fun _ _ => hnow
      called := .inr ?_
      begun := ?_ }
    · dsimp only
      rw [hcount]
      rfl
    · show created + (s.calls + 1) * step ≤ s.now
      rw [hcount]
      exact hnow
  · -- nothing happens, or the sort panics
    unfold Loop.act
    by_cases hc : s.loop.crashed = true
    · rw [if_pos hc]
      exact h
    rw [if_neg hc]
    dsimp only
    by_cases hdrained : s.loop.proc.drained = true
    · rw [if_pos hdrained]
      cases hroom : s.loop.proc.room.deliverReadyInputs order with
      | none =>
        refine { h with
          inAdvance := fun hrun => ?_
          called := .inl rfl }
        cases hrun
      | some out =>
        refine absurd ⟨Bool.eq_false_of_not_eq_true hc, hdrained, ?_⟩ hcalls
        rw [hroom]
        rfl
    · rw [if_neg hdrained]
      exact h

/-- `Tick` returns, and the division by the step panics. -/
theorem Paced.tick_panics (h : Paced step created first s)
    (hpast : created + (s.ticks + 1) * step ≤ s.now) {loop : Loop} (hzero : step = 0)
    (hcrashed : loop.crashed = true) (hnext : loop.next = s.loop.next) (now : Instant) :
    Paced step created first { s with
      loop
      expiry := loop.next
      ticks := s.ticks + 1
      TickSkipped := s.TickSkipped + skips step s.loop.next now } := by
  obtain ⟨jumps, hjumps, hlast⟩ := h.counted
  have hdue : created + (s.ticks + 1 + 1) * step ≤ loop.next := by
    have hdue := h.due
    rw [hzero, Nat.mul_zero] at hdue
    rw [hnext, hzero, Nat.mul_zero]
    exact hdue
  refine ⟨hpast, hdue, hdue, fun hrun => ?_, .inl hcrashed, h.begun, jumps, ?_, ?_⟩
  · have hrun' : loop.crashed = false := hrun
    rw [hcrashed] at hrun'
    cases hrun'
  · show 3 * jumps ≤ s.TickSkipped + skips step s.loop.next now
    exact hjumps.trans (Nat.le_add_right _ _)
  · show loop.next ≤ _
    rw [hnext, hzero, Nat.mul_zero]
    rw [hzero, Nat.mul_zero] at hlast
    exact hlast

/-- `Tick` returns, and `advance` goes on. -/
theorem Paced.tick_advances (h : Paced step created first s)
    (hpast : created + (s.ticks + 1) * step ≤ s.now) (hcount : s.calls = s.ticks + 1)
    {loop : Loop} {more : Bool} (hadv : advance step s.loop.next s.now = some (loop.next, more))
    (hticking : loop.proc.place.ticking = false)
    (hmore : loop.proc.place.advances = true → more = true) :
    Paced step created first { s with
      loop
      expiry := loop.next
      ticks := s.ticks + 1
      TickSkipped := s.TickSkipped + skips step s.loop.next s.now } := by
  obtain ⟨jumps, hjumps, hlast⟩ := h.counted
  obtain ⟨hle, hnowle⟩ := le_of_advance hadv
  obtain ⟨more', hmore', hskip⟩ := le_skips hadv
  have hdue : created + (s.ticks + 1 + 1) * step ≤ loop.next :=
    calc created + (s.ticks + 1 + 1) * step = created + (s.ticks + 1) * step + step := by
          rw [Nat.succ_mul (s.ticks + 1), Nat.add_assoc]
      _ ≤ s.loop.next + step := Nat.add_le_add_right h.due step
      _ ≤ loop.next := hle
  refine ⟨hpast, hdue, hdue, fun _ hadvances => ?_, .inr ?_, h.begun, jumps + more', ?_, ?_⟩
  · exact hdue.trans (hnowle (hmore hadvances))
  · show s.calls = s.ticks + 1 + if loop.proc.place.ticking = true then 1 else 0
    rw [hticking, hcount]
    rfl
  · show 3 * (jumps + more') ≤ s.TickSkipped + skips step s.loop.next s.now
    omega
  · show loop.next ≤ first + (s.ticks + 1 + (s.TickSkipped + skips step s.loop.next s.now) +
      2 * (jumps + more')) * step
    generalize skips step s.loop.next s.now = k at hskip ⊢
    calc loop.next ≤ s.loop.next + (1 + k + 2 * more') * step := hskip
      _ ≤ first + (s.ticks + s.TickSkipped + 2 * jumps) * step + (1 + k + 2 * more') * step := by
          gcongr
      _ = first + (s.ticks + 1 + (s.TickSkipped + k) + 2 * (jumps + more')) * step := by ring

/-- **`Tick` returns.** -/
theorem Paced.tick (h : Paced step created first s) (out : Bool) {now : Instant}
    (hnow : now = s.now) :
    Paced step created first (s.act inboxCap step (.tick out now)) := by
  subst hnow
  unfold act
  dsimp only
  by_cases hticks : s.loop.crashed = false ∧ s.loop.proc.place.ticking = true
  · rw [if_pos hticks]
    obtain ⟨hrun, hplace⟩ := hticks
    have hadvances : s.loop.proc.place.advances = true := by
      rw [Loop.ticking_iff.1 hplace]
      rfl
    have hpast := h.inAdvance hrun hadvances
    have hcount : s.calls = s.ticks + 1 := by
      rcases h.called with hc | hc
      · rw [hrun] at hc
        cases hc
      · rw [hplace, if_pos rfl] at hc
        exact hc
    rcases @Loop.act_tick inboxCap step s.loop out s.now hrun hplace with
      ⟨hzero, hcrashed, hnext⟩ | ⟨next, more, hadv, hnext, hticking, hmore⟩
    · exact h.tick_panics hpast hzero hcrashed hnext s.now
    · exact h.tick_advances hpast hcount (by rw [hnext]; exact hadv) hticking hmore
  · rw [if_neg hticks]
    have hsame : s.loop.act inboxCap step (.tick out s.now) = s.loop := by
      unfold Loop.act
      by_cases hc : s.loop.crashed = true
      · rw [if_pos hc]
      · rw [if_neg hc]
        dsimp only
        rw [if_neg fun hplace => hticks ⟨Bool.eq_false_of_not_eq_true hc, hplace⟩]
    rw [hsame]
    exact h

theorem Paced.next (h : Paced step created first s) {a : ClockedAction} (ha : s.Allows a) :
    Paced step created first (s.next inboxCap step a) := by
  cases a with
  | pass t => exact h.pass t
  | act a =>
    cases a with
    | timer => exact h.timer ha
    | deliver order => exact h.deliver order
    | tick out now => exact h.tick out ha
    | _ => exact h.quiet trivial

/-- **The ticks follow the clock.** However late the timer fires and however long the ticks take,
`Tick` has never been called more often than steps of time have passed since the timer was made; and
the next tick is due no later than the ticks and `TickSkipped` say, but for two steps for every
three that have been skipped. -/
theorem ticks_follow_clock (inboxCap : ℕ) (step : Duration) (J B : ℕ) (created : Instant)
    (d : Duration) (h : Reach (next inboxCap step) Allows (start step J B created d) s) :
    created + s.calls * step ≤ s.now ∧
      s.loop.next ≤
        created + d + step + (s.ticks + s.TickSkipped + 2 * (s.TickSkipped / 3)) * step := by
  have hpaced : Paced step created (created + d + step) s :=
    h.invariant (paced_start J B created d) fun _ _ hs ha => hs.next ha
  obtain ⟨jumps, hjumps, hnext⟩ := hpaced.counted
  have hthird : jumps ≤ s.TickSkipped / 3 := (Nat.le_div_iff_mul_le (by decide)).2 (by omega)
  refine ⟨hpaced.begun, hnext.trans ?_⟩
  gcongr

/-- A tick of a room at 20 ticks a second takes 350 ms, and the one after the break is in time. -/
def slowTick : List ClockedAction :=
  let ms := Duration.fromMillis
  [.pass (ms 50), .act .timer, .act (.deliver []), .pass (ms 400), .act (.tick false (ms 400)),
    .pass (ms 460), .act .timer, .act (.deliver []), .act (.tick false (ms 460))]

def slowRoom : Clocked :=
  slowTick.foldl (next 256 step20) (start step20 2 32 0 (Duration.fromMillis 1))

theorem ticks_follow_clock_slow : slowRoom.calls = 2 ∧ slowRoom.TickSkipped = 5 ∧
    0 + slowRoom.calls * step20 ≤ slowRoom.now ∧
      slowRoom.loop.next ≤ 0 + Duration.fromMillis 1 + step20 +
        (slowRoom.ticks + slowRoom.TickSkipped + 2 * (slowRoom.TickSkipped / 3)) * step20 := by
  have hrun : Allowed (next 256 step20) Allows
      (start step20 2 32 0 (Duration.fromMillis 1)) slowTick ∧
      slowRoom.calls = 2 ∧ slowRoom.TickSkipped = 5 := by
    decide +kernel
  exact ⟨hrun.2.1, hrun.2.2,
    ticks_follow_clock 256 step20 2 32 0 (Duration.fromMillis 1) (Reach.foldl hrun.1)⟩

end Clocked

end SoupEngine.Sdk
