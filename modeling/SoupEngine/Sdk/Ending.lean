import SoupEngine.Sdk.Server

/-!
# The end of a room

`End` sets a flag that `run` reads when `advance` returns. `advance` itself returns when the room is
in time, or more than three ticks late. `no_tick_after_end`: so `Tick` is not called again if that
is the case at every tick that ends the room; and otherwise it is called again, unless the room
panics before.
-/

namespace SoupEngine.Sdk

open TransitionSystem

def maxCatchUpTicks : ℕ := 3

/-- The end of a round of `advance`: the instant of the next tick, and whether the loop goes on.
Division by `step` panics if that is 0. -/
def advance (step : Duration) (next now : Instant) : Option (Instant × Bool) :=
  let next := next + step
  if now < next then some (next, false)
  else if maxCatchUpTicks * step < now - next then
    if step = 0 then none else some (now + step, false)
  else some (next, true)

/-- The room is in `Tick`. -/
def Place.ticking : Place → Bool
  | .tick => true
  | _ => false

/-- The goroutine of a room. -/
structure Loop where
  proc : RoomProc
  /-- The instant of the next tick. -/
  next : Instant
  /-- A call of `Tick` has returned `End`, or `RoomCtx.End` has been called in it. -/
  ended : Bool
  /-- The process has panicked. -/
  crashed : Bool

inductive LoopAction
  /-- An event is sent to the inbox. -/
  | arrive (e : Post)
  | take
  | handle
  | check
  | timer
  /-- `deliverReadyInputs`, after `drainInbox`; then `Tick` is called. -/
  | deliver (order : List PlayerID)
  /-- `Tick` returns, with `End` if `out`; `now` is the time after it. -/
  | tick (out : Bool) (now : Instant)
  /-- The loop of `stop` comes to a player. -/
  | leave (p : PlayerID)
  | kick (p : PlayerID) (reason : U8)
  /-- `RoomCtx.End`. -/
  | finish

namespace RoomProc

/-- The room handles the event that it holds. -/
def handle (r : RoomProc) : RoomProc :=
  match r.place.held with
  | none => r
  | some e =>
    { r with room := (r.room.handleEvent e.ev).1, place := r.place.handled, stayOf := r.seat e }

def leave (r : RoomProc) (p : PlayerID) : RoomProc :=
  match r.place with
  | .stop done => { r with place := .stop (p :: done) }
  | _ => r

def kick (r : RoomProc) (p : PlayerID) (reason : U8) : RoomProc :=
  if r.place.calling = true then { r with room := (r.room.kick p reason).1 } else r

end RoomProc

namespace Loop

variable (inboxCap : ℕ) (step : Duration)

/-- A new room; its first tick is due at `next`. -/
def start (JitterBufferTicks BaselineRingSize : ℕ) (next : Instant) : Loop :=
  ⟨.new JitterBufferTicks BaselineRingSize, next, false, false⟩

def act (s : Loop) (a : LoopAction) : Loop :=
  if s.crashed = true then s
  else
    match a with
    | .arrive e => { s with proc := s.proc.offer inboxCap e }
    | .take => { s with proc := s.proc.take }
    | .handle => { s with proc := s.proc.handle }
    | .check => { s with proc := s.proc.check }
    | .timer => { s with proc := s.proc.timer }
    | .deliver order =>
      if s.proc.drained = true then
        match s.proc.room.deliverReadyInputs order with
        | none => { s with crashed := true }
        | some (room, _) => { s with proc := { s.proc with room, place := .tick } }
      else s
    | .tick out now =>
      if s.proc.place.ticking = true then
        match advance step s.next now with
        | none => { s with crashed := true }
        | some (next, more) =>
          { s with proc := s.proc.tick out more, next, ended := s.ended || out }
      else s
    | .leave p => { s with proc := s.proc.leave p }
    | .kick p reason => { s with proc := s.proc.kick p reason }
    | .finish => { s with proc := s.proc.finish, ended := s.ended || s.proc.place.ticking }

/-- The step calls `Tick`. -/
def Calls (s : Loop) : LoopAction → Prop
  | .deliver order =>
    s.crashed = false ∧ s.proc.drained = true ∧ s.proc.room.deliverReadyInputs order ≠ none
  | _ => False

/-- When `Tick` ends the room, the room is in time, or more than three ticks late. -/
def Prompt (s : Loop) : LoopAction → Prop
  | .tick out now =>
    s.crashed = false → s.proc.place.ticking = true → out = true ∨ s.ended = true →
      now < s.next + step ∨ maxCatchUpTicks * step < now - (s.next + step)
  | _ => True

instance (s : Loop) : (a : LoopAction) → Decidable (s.Prompt step a)
  | .tick out now => inferInstanceAs (Decidable (s.crashed = false → s.proc.place.ticking = true →
      out = true ∨ s.ended = true →
        now < s.next + step ∨ maxCatchUpTicks * step < now - (s.next + step)))
  | .arrive _ | .take | .handle | .check | .timer | .deliver _ | .leave _ | .kick .. | .finish =>
    .isTrue trivial

/-- The room has panicked, or is on its way to a call of `Tick`. -/
def Bound (s : Loop) : Prop := s.crashed = true ∨ ∃ hand, s.proc.place = .drain hand

/-- A room that has ended is still in that `Tick`, with the flag set, or has stopped. -/
def Over (s : Loop) : Prop :=
  s.ended = true → s.crashed = true ∨ (s.proc.place = .tick ∧ s.proc.room.stopReq = true) ∨
    ∃ done, s.proc.place = .stop done

variable {inboxCap step} {s : Loop} {a : LoopAction}

theorem ticking_iff {x : Place} : x.ticking = true ↔ x = .tick := by
  cases x <;> simp [Place.ticking]

/-- In time, or too late, `advance` returns. -/
theorem advance_prompt {next now : Instant}
    (h : now < next + step ∨ maxCatchUpTicks * step < now - (next + step)) :
    ∀ res ∈ advance step next now, res.2 = false := by
  intro res hres
  unfold advance at hres
  dsimp only at hres
  split_ifs at hres with h1 h2 h3
  · rw [← Option.some.inj hres]
  · cases hres
  · rw [← Option.some.inj hres]
  · exact absurd h (not_or.2 ⟨h1, h2⟩)

/-- Not so late, it makes another tick. -/
theorem advance_late {next now : Instant}
    (h : ¬ (now < next + step ∨ maxCatchUpTicks * step < now - (next + step))) :
    advance step next now = some (next + step, true) := by
  obtain ⟨h1, h2⟩ := not_or.1 h
  unfold advance
  dsimp only
  rw [if_neg h1, if_neg h2]

theorem stopReq_kick (r : Room) (p : PlayerID) (reason : U8) (h : r.stopReq = true) :
    (r.kick p reason).1.stopReq = true := by
  unfold Room.kick
  split
  · exact h
  · show (r.stopReq || _) = true
    rw [h, Bool.true_or]

/-- The last tick: the flag is set, and `advance` returns. -/
theorem over_tick {out : Bool} {now : Instant} (h : s.Over) (hp : s.Prompt step (.tick out now)) :
    (s.act inboxCap step (.tick out now)).Over := by
  unfold act
  by_cases hc : s.crashed = true
  · rw [if_pos hc]
    exact h
  rw [if_neg hc]
  dsimp only
  by_cases ht : s.proc.place.ticking = true
  · rw [if_pos ht]
    have hplace := ticking_iff.1 ht
    cases hadvance : advance step s.next now with
    | none => exact fun _ => Or.inl rfl
    | some res =>
      obtain ⟨next, more⟩ := res
      intro hended
      have hout : out = true ∨ s.ended = true := by
        have : (s.ended || out) = true := hended
        rw [Bool.or_eq_true] at this
        exact this.symm
      obtain rfl : more = false := advance_prompt (hp (Bool.not_eq_true _ ▸ hc) ht hout) _ hadvance
      have hflag : (s.proc.room.stopReq || out) = true := by
        rcases hout with hout | hold
        · rw [hout, Bool.or_true]
        · rcases h hold with hcrash | ⟨-, hstop⟩ | ⟨done, hstop⟩
          · exact absurd hcrash hc
          · rw [hstop, Bool.true_or]
          · rw [hplace] at hstop
            cases hstop
      refine Or.inr (Or.inr ⟨[], ?_⟩)
      show (s.proc.tick out false).place = _
      unfold RoomProc.tick RoomProc.next
      rw [hplace]
      dsimp only
      rw [if_neg Bool.false_ne_true, if_pos hflag]
  · rw [if_neg ht]
    exact h

/-- What happens in `Tick`, or after the end, changes nothing about that. -/
theorem over_of_quiet {s' : Loop} (h : s.Over) (hc : s.crashed ≠ true) (hended : s'.ended = s.ended)
    (htick : s.proc.place = .tick →
      s'.proc.place = .tick ∧ (s.proc.room.stopReq = true → s'.proc.room.stopReq = true))
    (hstop : ∀ done, s.proc.place = .stop done → ∃ done', s'.proc.place = .stop done') :
    s'.Over := by
  intro hend
  rw [hended] at hend
  rcases h hend with hcrash | ⟨hplace, hflag⟩ | ⟨done, hdone⟩
  · exact absurd hcrash hc
  · obtain ⟨hplace', hflag'⟩ := htick hplace
    exact Or.inr (Or.inl ⟨hplace', hflag' hflag⟩)
  · exact Or.inr (Or.inr (hstop done hdone))

theorem over_take (h : s.Over) (hc : s.crashed ≠ true) : (s.act inboxCap step .take).Over := by
  unfold act
  rw [if_neg hc]
  have hsame (hreceive : ∀ e, s.proc.place.receive e = none) : s.proc.take = s.proc := by
    unfold RoomProc.take
    split
    · rfl
    · rw [hreceive]
  refine over_of_quiet h hc rfl (fun hplace => ?_) fun done hdone => ⟨done, ?_⟩
  · show s.proc.take.place = _ ∧ (_ → s.proc.take.room.stopReq = true)
    rw [hsame fun e => by rw [hplace]; rfl]
    exact ⟨hplace, id⟩
  · show s.proc.take.place = _
    rw [hsame fun e => by rw [hdone]; rfl]
    exact hdone

theorem over_handle (h : s.Over) (hc : s.crashed ≠ true) :
    (s.act inboxCap step .handle).Over := by
  unfold act
  rw [if_neg hc]
  have hsame (hheld : s.proc.place.held = none) : s.proc.handle = s.proc := by
    unfold RoomProc.handle
    rw [hheld]
  refine over_of_quiet h hc rfl (fun hplace => ?_) fun done hdone => ⟨done, ?_⟩
  · show s.proc.handle.place = _ ∧ (_ → s.proc.handle.room.stopReq = true)
    rw [hsame (by rw [hplace]; rfl)]
    exact ⟨hplace, id⟩
  · show s.proc.handle.place = _
    rw [hsame (by rw [hdone]; rfl)]
    exact hdone

/-- `End` is called. -/
theorem over_finish (h : s.Over) (hc : s.crashed ≠ true) :
    (s.act inboxCap step .finish).Over := by
  unfold act
  rw [if_neg hc]
  by_cases ht : s.proc.place = .tick
  · refine fun _ => Or.inr (Or.inl ?_)
    simp [RoomProc.finish, ht, Place.calling]
  · have hnot : s.proc.place.ticking = false := eq_false_of_ne_true fun h => ht (ticking_iff.1 h)
    refine over_of_quiet h hc ?_ (fun hplace => absurd hplace ht) fun done hdone => ⟨done, ?_⟩
    · show (s.ended || _) = _
      rw [hnot, Bool.or_false]
    · show s.proc.finish.place = _
      unfold RoomProc.finish
      split_ifs
      · exact hdone
      · exact hdone

/-- **One step.** -/
theorem over_act (h : s.Over) (hp : s.Prompt step a) : (s.act inboxCap step a).Over := by
  by_cases hc : s.crashed = true
  · unfold act
    rw [if_pos hc]
    exact h
  cases a with
  | tick out now => exact over_tick h hp
  | arrive e =>
    unfold act
    rw [if_neg hc]
    have hoffer : (s.proc.offer inboxCap e).place = s.proc.place ∧
        (s.proc.offer inboxCap e).room = s.proc.room := by
      unfold RoomProc.offer
      split_ifs <;> exact ⟨rfl, rfl⟩
    refine over_of_quiet h hc rfl (fun hplace => ⟨hoffer.1.trans hplace, fun hs => ?_⟩)
      fun done hdone => ⟨done, hoffer.1.trans hdone⟩
    show (s.proc.offer inboxCap e).room.stopReq = true
    rw [hoffer.2, hs]
  | take => exact over_take h hc
  | handle => exact over_handle h hc
  | check =>
    unfold act
    rw [if_neg hc]
    refine over_of_quiet h hc rfl (fun hplace => ?_) fun done hdone => ⟨done, ?_⟩
    · simp [RoomProc.check, hplace]
    · simp [RoomProc.check, hdone]
  | timer =>
    unfold act
    rw [if_neg hc]
    refine over_of_quiet h hc rfl (fun hplace => ?_) fun done hdone => ⟨done, ?_⟩
    · simp [RoomProc.timer, hplace]
    · simp [RoomProc.timer, hdone]
  | deliver order =>
    unfold act
    rw [if_neg hc]
    dsimp only
    split_ifs with hdrained
    · cases hdeliver : s.proc.room.deliverReadyInputs order with
      | none => exact fun _ => Or.inl rfl
      | some res =>
        refine over_of_quiet h hc rfl (fun hplace => ?_) fun done hdone => ?_
        · simp [RoomProc.drained, hplace] at hdrained
        · simp [RoomProc.drained, hdone] at hdrained
    · exact h
  | leave p =>
    unfold act
    rw [if_neg hc]
    refine over_of_quiet h hc rfl (fun hplace => ?_) fun done hdone => ⟨p :: done, ?_⟩
    · simp [RoomProc.leave, hplace]
    · simp [RoomProc.leave, hdone]
  | kick p reason =>
    unfold act
    rw [if_neg hc]
    have hkick : (s.proc.kick p reason).place = s.proc.place ∧
        (s.proc.room.stopReq = true → (s.proc.kick p reason).room.stopReq = true) := by
      unfold RoomProc.kick
      split_ifs
      · exact ⟨rfl, stopReq_kick s.proc.room p reason⟩
      · exact ⟨rfl, id⟩
    exact over_of_quiet h hc rfl (fun hplace => ⟨hkick.1.trans hplace, hkick.2⟩)
      fun done hdone => ⟨done, hkick.1.trans hdone⟩
  | finish => exact over_finish h hc

/-- A room that has ended calls `Tick` no more. -/
theorem not_calls_of_over (h : s.Over) (hended : s.ended = true) (a : LoopAction) :
    ¬ s.Calls a := by
  cases a with
  | deliver order =>
    rintro ⟨hc, hdrained, -⟩
    rcases h hended with hcrash | ⟨hplace, -⟩ | ⟨done, hdone⟩
    · rw [hc] at hcrash
      cases hcrash
    · simp [RoomProc.drained, hplace] at hdrained
    · simp [RoomProc.drained, hdone] at hdrained
  | _ => exact id

/-! ## A late end -/

/-- After a late end `advance` makes another tick. -/
theorem bound_of_late (h : ¬ s.Prompt step a) : (s.act inboxCap step a).Bound := by
  cases a with
  | tick out now =>
    unfold Prompt at h
    push Not at h
    obtain ⟨hc, ht, -, hlate⟩ := h
    have hadvance : advance step s.next now = some (s.next + step, true) :=
      advance_late (not_or.2 ⟨Nat.not_lt.2 hlate.1, Nat.not_lt.2 hlate.2⟩)
    unfold act
    rw [if_neg (by rw [hc]; exact Bool.false_ne_true)]
    dsimp only
    rw [if_pos ht, hadvance]
    refine Or.inr ⟨.idle, ?_⟩
    show (s.proc.tick out true).place = _
    unfold RoomProc.tick
    rw [ticking_iff.1 ht]
    rfl
  | _ => exact absurd trivial h

/-- Nothing but a call of `Tick`, or a panic, leads out of `drainInbox`. -/
theorem bound_act (h : s.Bound) (hcalls : ¬ s.Calls a) : (s.act inboxCap step a).Bound := by
  by_cases hc : s.crashed = true
  · unfold act
    rw [if_pos hc]
    exact h
  obtain ⟨hand, hplace⟩ := h.resolve_left hc
  unfold act
  rw [if_neg hc]
  cases a with
  | arrive e =>
    refine Or.inr ⟨hand, ?_⟩
    show (s.proc.offer inboxCap e).place = _
    unfold RoomProc.offer
    split_ifs
    · exact hplace
    · exact hplace
  | take =>
    show Bound { s with proc := s.proc.take }
    unfold RoomProc.take
    split
    · exact Or.inr ⟨hand, hplace⟩
    · rw [hplace]
      cases hand with
      | idle => exact Or.inr ⟨_, rfl⟩
      | holding e => exact Or.inr ⟨_, hplace⟩
      | calling => exact Or.inr ⟨_, rfl⟩
  | handle =>
    show Bound { s with proc := s.proc.handle }
    unfold RoomProc.handle
    cases hand with
    | idle => exact Or.inr ⟨.idle, by simp [hplace, Place.held]⟩
    | holding e => exact Or.inr ⟨.calling, by simp [hplace, Place.held, Place.handled]⟩
    | calling => exact Or.inr ⟨.calling, by simp [hplace, Place.held]⟩
  | check => exact Or.inr ⟨hand, by simp [RoomProc.check, hplace]⟩
  | timer => exact Or.inr ⟨hand, by simp [RoomProc.timer, hplace]⟩
  | deliver order =>
    dsimp only
    split_ifs with hdrained
    · cases hdeliver : s.proc.room.deliverReadyInputs order with
      | none => exact Or.inl rfl
      | some res =>
        refine absurd ⟨Bool.not_eq_true _ ▸ hc, hdrained, ?_⟩ hcalls
        rw [hdeliver]
        exact Option.some_ne_none res
    · exact Or.inr ⟨hand, hplace⟩
  | tick out now => exact Or.inr ⟨hand, by simp [Place.ticking, hplace]⟩
  | leave p => exact Or.inr ⟨hand, by simp [RoomProc.leave, hplace]⟩
  | kick p reason =>
    refine Or.inr ⟨hand, ?_⟩
    show (s.proc.kick p reason).place = _
    unfold RoomProc.kick
    split_ifs
    · exact hplace
    · exact hplace
  | finish =>
    refine Or.inr ⟨hand, ?_⟩
    show s.proc.finish.place = _
    unfold RoomProc.finish
    split_ifs
    · exact hplace
    · exact hplace

/-- **The end.** In every run in which the room is in time, or more than three ticks late, whenever
`Tick` ends it, `Tick` is not called again. After a tick that ends the room in any other case there
is nothing but another call of `Tick`, or a panic, that leads out of `drainInbox`. -/
theorem tick_after_end (inboxCap : ℕ) (step : Duration) (JitterBufferTicks BaselineRingSize : ℕ)
    (next : Instant) :
    (∀ s, Reach (act inboxCap step) (Prompt step)
        (start JitterBufferTicks BaselineRingSize next) s →
        s.ended = true → ∀ a, ¬ s.Calls a) ∧
      ∀ (s : Loop) (a : LoopAction), ¬ s.Prompt step a →
        ∀ s', Reach (act inboxCap step) (fun s a => ¬ s.Calls a) (s.act inboxCap step a) s' →
        s'.Bound := by
  constructor
  · intro s hs hended a
    have hover : s.Over := hs.invariant (fun h => nomatch h) fun s a h hp => over_act h hp
    exact not_calls_of_over hover hended a
  · intro s a hlate s' hs'
    exact hs'.invariant (bound_of_late hlate) fun s a h hcalls => bound_act h hcalls

/-- The step of 20 ticks a second. -/
def step20 : Duration := Duration.fromMillis 50

/-- Player 1 joins, and the first call of `Tick`, which is due after 50 ms, returns `End` at this
time. -/
def endingRun (now : Instant) : List LoopAction :=
  [.arrive ⟨1, .inOpen 1 1, 0⟩, .take, .handle, .check, .timer, .deliver [1], .tick true now]

def endingRoom (now : Instant) : Loop := (endingRun now).foldl (act 256 step20) (start 2 32 step20)

/-- After 60 ms the room is in time. -/
theorem tick_after_end_prompt :
    (endingRoom (Duration.fromMillis 60)).ended = true ∧
      ∀ a, ¬ (endingRoom (Duration.fromMillis 60)).Calls a := by
  have hreach : Reach (act 256 step20) (Prompt step20) (start 2 32 step20)
      (endingRoom (Duration.fromMillis 60)) := Reach.foldl (by decide +kernel)
  have hended : (endingRoom (Duration.fromMillis 60)).ended = true := by decide +kernel
  exact ⟨hended, (tick_after_end 256 step20 2 32 step20).1 _ hreach hended⟩

/-- After 110 ms it is late, and `Tick` is called again. -/
theorem tick_after_end_late :
    ¬ ∀ s, Reach (act 256 step20) (fun _ _ => True) (start 2 32 step20) s →
      s.ended = true → ∀ a, ¬ s.Calls a := by
  have hreach : Reach (act 256 step20) (fun _ _ => True) (start 2 32 step20)
      (endingRoom (Duration.fromMillis 110)) := Reach.foldl (by decide +kernel)
  have hended : (endingRoom (Duration.fromMillis 110)).ended = true := by decide +kernel
  have hcalls : (endingRoom (Duration.fromMillis 110)).Calls (.deliver [1]) := by
    refine ⟨by decide +kernel, by decide +kernel, fun h => ?_⟩
    have hsome : ((endingRoom (Duration.fromMillis 110)).proc.room.deliverReadyInputs [1]).isSome =
        true := by
      decide +kernel
    rw [h] at hsome
    cases hsome
  exact fun h => h _ hreach hended _ hcalls

end Loop

end SoupEngine.Sdk
