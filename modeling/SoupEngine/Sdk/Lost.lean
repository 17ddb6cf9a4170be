import SoupEngine.Sdk.Run

/-!
# Lost input

A tick leaves nothing due behind, and does not panic, exactly if the room flows: nothing due is
behind an entry that is not due or not next in sequence, and the walk starts with a least input. In
a run whose ticks all find the room like that every accepted input is delivered in time
(`lost_input`). An input that is lost on the way blocks those behind it for good
(`lost_input_freezes`).
-/

namespace SoupEngine.Sdk

open TransitionSystem

namespace Room

/-- Nothing that is due is kept back in this tick. -/
def Flows (r : Room) (order : List PlayerID) : Prop :=
  r.LeastFirst order ∧ ∀ (p : PlayerID) (st : PState), r.players[p]? = some st →
    st.Unobstructed r.tick

/-- The delivery goes through and leaves nothing behind that is due. -/
def Clears (r : Room) (order : List PlayerID) : Prop :=
  ∃ r' ops, r.deliverReadyInputs order = some (r', ops) ∧ ∀ p, ∀ e ∈ r'.jbufOf p, r.tick < e.due

theorem clears_iff {r : Room} {order : List PlayerID} (ho : r.IsOrder order) :
    r.Clears order ↔ r.Flows order := by
  have hkept : ∀ r' ops, r.deliverReadyInputs order = some (r', ops) →
      ((∀ p, ∀ e ∈ r'.jbufOf p, r.tick < e.due) ↔
        ∀ (p : PlayerID) (st : PState), r.players[p]? = some st → st.Unobstructed r.tick) := by
    intro r' ops hd
    have hplayers := (deliver_spec ho hd).1
    refine forall_congr' fun p => ?_
    rw [Run.jbufOf_eq (hplayers p)]
    cases hst : r.players[p]? with
    | none =>
      refine ⟨fun _ st h => ?_, fun _ e he => ?_⟩
      · cases h
      · cases he
    | some st =>
      refine Iff.trans (st.not_due_iff r.tick p) ⟨fun h st' hst' => ?_, fun h => h st rfl⟩
      rwa [← Option.some.inj hst']
  constructor
  · rintro ⟨r', ops, hd, hclear⟩
    exact ⟨(deliverReadyInputs_eq_some ho hd).1, (hkept r' ops hd).1 hclear⟩
  · rintro ⟨hleast, hfree⟩
    obtain ⟨pend, -, hd⟩ := (deliverReadyInputs_spec r ho).1 hleast
    exact ⟨_, _, hd, (hkept _ _ hd).2 hfree⟩

/-- Whether a room flows can be seen by delivering. -/
theorem flows_iff_all {r : Room} {order : List PlayerID} (ho : r.IsOrder order) :
    r.Flows order ↔ (r.deliverReadyInputs order).any fun out =>
      order.all fun p => (out.1.jbufOf p).all fun e => decide (r.tick < e.due) := by
  rw [← clears_iff ho]
  unfold Clears
  cases hd : r.deliverReadyInputs order with
  | none =>
    refine ⟨fun h => ?_, fun h => ?_⟩
    · obtain ⟨r', ops, h, -⟩ := h
      cases h
    · cases h
  | some out =>
    obtain ⟨r', ops⟩ := out
    simp only [Option.some.injEq, Prod.mk.injEq, Option.any_some, List.all_eq_true,
      decide_eq_true_eq]
    constructor
    · rintro ⟨_, _, ⟨rfl, rfl⟩, h⟩ p -
      exact h p
    · intro h
      refine ⟨_, _, ⟨rfl, rfl⟩, fun p e he => ?_⟩
      by_cases hp : p ∈ order
      · exact h p hp e he
      · -- who is not walked is not there
        rw [ho.2, mem_players_iff, not_not] at hp
        rw [Run.jbufOf_eq ((deliver_spec ho hd).1 p), hp] at he
        cases he

end Room

namespace Run

/-- A tick finds a room that flows. -/
def Flowing (s : Run) : Action → Prop
  | .tick order => s.room.IsOrder order ∧ s.room.Flows order
  | _ => True

instance (s : Run) : (a : Action) → Decidable (s.Flowing a)
  | .tick order => decidable_of_iff
      (s.room.IsOrder order ∧ (s.room.deliverReadyInputs order).any fun out =>
        order.all fun p => (out.1.jbufOf p).all fun e => decide (s.room.tick < e.due))
      (and_congr_right fun ho => (Room.flows_iff_all ho).symm)
  | .event _ => .isTrue trivial
  | .kick _ _ => .isTrue trivial

/-- No input is late. -/
structure OnTime (s : Run) : Prop where
  alive : s.crashed = false
  waiting : ∀ q, ∀ a ∈ (s.ledger q).waiting, s.ticks ≤ a.deadline
  delivered : ∀ q a t, (a, t) ∈ (s.ledger q).delivered → t ≤ a.deadline

theorem walks_of_flowing {s : Run} {a : Action} (h : s.Flowing a) : s.Walks a := by
  cases a with
  | tick order => exact h.1
  | event ev => exact trivial
  | kick p reason => exact trivial

theorem booked_of_reach {J B : ℕ} {ok : Run → Action → Prop} (hok : ∀ s a, ok s a → s.Walks a)
    {s : Run} (h : Reach step ok (start J B) s) : Booked s :=
  h.invariant (booked_start J B) fun s a hs ha => booked_step s a hs (hok s a ha)

theorem onTime_start (J B : ℕ) : OnTime (start J B) where
  alive := rfl
  waiting := fun q a ha => by cases ha
  delivered := fun q a t h => by cases h

theorem onTime_step (s : Run) (a : Action) (hb : Booked s) (h : OnTime s) (ha : s.Flowing a) :
    OnTime (s.step a) := by
  unfold step
  rw [if_neg (by rw [h.alive]; exact Bool.false_ne_true)]
  cases a with
  | event ev =>
    refine ⟨h.alive, fun q a ha => ?_, fun q a t hat => ?_⟩
    · change a ∈ (s.ledgerAfter q ev).waiting at ha
      show s.ticks ≤ a.deadline
      rcases s.ledgerAfter_cases q ev with ⟨hl, -⟩ | ⟨hl, -⟩ | ⟨st, payload, raw, -, hl, -⟩
      · rw [hl] at ha
        exact h.waiting q a ha
      · rw [hl] at ha
        cases ha
      · rw [hl] at ha
        rcases Ledger.mem_waiting_insertJitter ha with rfl | ha
        · exact Nat.le_add_right _ _
        · exact h.waiting q a ha
    · change (a, t) ∈ (s.ledgerAfter q ev).delivered at hat
      rw [delivered_ledgerAfter] at hat
      exact h.delivered q a t hat
  | kick p reason =>
    refine ⟨h.alive, fun q a ha => ?_, fun q a t hat => ?_⟩
    · change a ∈ (if p = q then (s.ledger q).clear else s.ledger q).waiting at ha
      split_ifs at ha
      · cases ha
      · exact h.waiting q a ha
    · change (a, t) ∈ (if p = q then (s.ledger q).clear else s.ledger q).delivered at hat
      split_ifs at hat
      · exact h.delivered q a t hat
      · exact h.delivered q a t hat
  | tick order =>
    obtain ⟨ho, hflows⟩ := ha
    obtain ⟨r', ops, hd, hclear⟩ := (Room.clears_iff ho).2 hflows
    have hb' := booked_step s (.tick order) hb ho
    rw [step_tick h.alive hd] at hb'
    dsimp only
    rw [hd]
    refine ⟨h.alive, fun q a ha => ?_, fun q a t hat => ?_⟩
    · -- what is left is not due in this tick
      have hwait := h.waiting q a (List.mem_of_mem_drop ha)
      have hentry : a.entry ∈ r'.jbufOf q := by
        rw [← show _ = r'.jbufOf q from (hb'.entries q).waiting]
        exact List.mem_map_of_mem ha
      have hlt := hclear q a.entry hentry
      rw [(hb.entries q).due a (List.mem_of_mem_drop ha), hb.tick] at hlt
      rcases Nat.lt_or_eq_of_le hwait with hlt' | heq
      · exact hlt'
      · rw [heq] at hlt
        exact absurd hlt (BitVec.lt_irrefl _)
    · rcases List.mem_append.1 hat with hat | hat
      · exact h.delivered q a t hat
      · obtain ⟨b, hb, heq⟩ := List.mem_map.1 hat
        obtain ⟨rfl, rfl⟩ := Prod.mk.inj heq
        exact h.waiting q b (List.mem_of_mem_take hb)

end Run

open Run

/-- **Lost input.** For every room and every order of the walk: the delivery goes through and leaves
nothing behind that is due, if and only if the room flows. And in every run whose ticks all find the
room like that nothing panics, and every accepted input of every player is waiting and not overdue,
or has been passed on in time, or was evicted, or was cleared when the player left or came back. -/
theorem lost_input (JitterBufferTicks BaselineRingSize : ℕ) :
    (∀ (r : Room) order, r.IsOrder order → (r.Clears order ↔ r.Flows order)) ∧
      ∀ s, Reach step Flowing (start JitterBufferTicks BaselineRingSize) s →
        s.crashed = false ∧ ∀ p,
          (s.ledger p).Balanced ∧
          ((s.ledger p).waiting.map Accepted.entry = s.room.jbufOf p ∧
            ∀ a ∈ (s.ledger p).waiting, s.ticks ≤ a.deadline) ∧
          ∀ a t, (a, t) ∈ (s.ledger p).delivered →
            t ≤ a.deadline ∧ ⟨t, p, a.entry.seq, a.entry.payload, true⟩ ∈ s.calls := by
  refine ⟨fun r order ho => Room.clears_iff ho, fun s hs => ?_⟩
  have hb : Booked s := booked_of_reach (fun _ _ => walks_of_flowing) hs
  have ht : OnTime s := by
    refine hs.invariant' (onTime_start _ _) fun s a hr hs ha => ?_
    exact onTime_step s a (booked_of_reach (fun _ _ => walks_of_flowing) hr) hs ha
  refine ⟨ht.alive, fun p => ⟨(hb.entries p).balanced, ⟨(hb.entries p).waiting, ht.waiting p⟩, ?_⟩⟩
  intro a t hat
  exact ⟨ht.delivered p a t hat, (hb.entries p).called a t hat⟩

/-- A player joins and sends input 0; then the room ticks three times. -/
def smoothRun : List Action :=
  [.event (.inOpen 1 1), .event (.inData 1 1 0 [0, 0, 0, 0, 0, 0, 0, 0, 7] 0),
    .tick [1], .tick [1], .tick [1]]

/-- The input is delivered in the third tick, in time. -/
theorem lost_input_none :
    (((smoothRun.foldl step (start 2 32)).ledger 1).delivered.map Prod.snd = [2]) ∧
      ∀ a t, (a, t) ∈ ((smoothRun.foldl step (start 2 32)).ledger 1).delivered →
      t ≤ a.deadline := by
  have hreach : Reach step Flowing (start 2 32) (smoothRun.foldl step (start 2 32)) :=
    Reach.foldl (by decide +kernel)
  refine ⟨by decide +kernel, fun a t hat => ?_⟩
  exact ((((lost_input 2 32).2 _ hreach).2 1).2.2 a t hat).1

/-! ## A gap -/

namespace PState

/-- Nothing is taken if the head is not next in sequence. -/
theorem taken_of_gap {st : PState} {e : JitterEntry} {es : List JitterEntry}
    (hbuf : st.jbuf = e :: es) (hin : st.hasInput = true) (hgap : e.seq ≠ st.lastSeq + 1)
    (tick : Tick) : st.taken tick = [] := by
  have hpre : st.taken tick <+: e :: es := by
    rw [← hbuf, st.jbuf_deliver tick 0]
    exact List.prefix_append _ _
  cases ht : st.taken tick with
  | nil => rfl
  | cons x xs =>
    have hd := st.drains_taken tick
    rw [ht] at hd hpre
    rw [List.cons_prefix_cons] at hpre
    refine absurd ((drains_cons.1 hd).2.1 hin) ?_
    rw [hpre.1]
    exact hgap

/-- So the tick leaves the player as the player is, and nothing is passed on. -/
theorem deliver_of_gap {st : PState} {e : JitterEntry} {es : List JitterEntry}
    (hbuf : st.jbuf = e :: es) (hin : st.hasInput = true) (hgap : e.seq ≠ st.lastSeq + 1)
    (tick : Tick) (p : PlayerID) :
    st.deliver tick p = (st, [], []) := by
  have ht := taken_of_gap hbuf hin hgap tick
  have hst : (st.deliver tick p).1 = st := by
    have hj := st.jbuf_deliver tick p
    rw [ht, List.nil_append] at hj
    rw [deliver_eq, ht, ← hj]
    rfl
  have hrep : st.repeated tick p = [] := by
    unfold repeated
    rw [if_neg]
    intro h
    rw [hbuf] at h
    cases h.1
  have hparts : st.deliver tick p = ((st.deliver tick p).1,
      (st.taken tick).map (freshDeliver p) ++ (st.deliver tick p).1.repeated tick p,
      (st.taken tick).filterMap JitterEntry.raw) := rfl
  rw [hparts, ht, hst, hrep]
  rfl

end PState

namespace Run

/-- Player 1, alone in the room, has an input behind a gap. -/
structure Frozen (s : Run) (e : JitterEntry) : Prop where
  alive : s.crashed = false
  order : s.room.IsOrder [1]
  player : ∃ st es, s.room.players[(1 : PlayerID)]? = some st ∧ st.jbuf = e :: es ∧
    st.hasInput = true ∧
    e.seq ≠ st.lastSeq + 1

/-- A tick changes nothing about it, and passes nothing on. -/
theorem Frozen.tick {s : Run} {e : JitterEntry} (h : Frozen s e) :
    Frozen (s.step (.tick [1])) e ∧ (s.step (.tick [1])).calls = s.calls := by
  obtain ⟨st, es, hst, hbuf, hin, hgap⟩ := h.player
  have hdeliver := PState.deliver_of_gap hbuf hin hgap s.room.tick 1
  have hready : s.room.pending [1] = [] := by
    unfold Room.pending Room.readyOf
    rw [List.flatMap_singleton, hst]
    dsimp only
    rw [hdeliver]
  have hputs : [1].flatMap s.room.putsOf = [] := by
    unfold Room.putsOf
    rw [List.flatMap_singleton, hst]
    dsimp only
    rw [hdeliver]
  have hleast : s.room.LeastFirst [1] := by
    unfold Room.LeastFirst
    rw [hready]
    exact fun a ha => by cases ha
  obtain ⟨pend, hsorts, hd⟩ := (Room.deliverReadyInputs_spec s.room h.order).1 hleast
  rw [hready] at hsorts
  rw [List.perm_nil.1 hsorts.perm, hputs] at hd
  obtain ⟨hplayers, -, -⟩ := Room.deliver_spec h.order hd
  rw [step_tick h.alive hd]
  refine ⟨⟨h.alive, ⟨h.order.1, fun p => ?_⟩, st, es, ?_, hbuf, hin, hgap⟩, List.append_nil _⟩
  · rw [h.order.2, Room.mem_players_iff, Room.mem_players_iff]
    show s.room.players[p]? ≠ none ↔ (s.room.drainPlayers [1]).1.players[p]? ≠ none
    rw [hplayers, Ne, Ne, Option.map_eq_none_iff]
  · show (s.room.drainPlayers [1]).1.players[1]? = some st
    rw [hplayers, hst, Option.map_some, hdeliver]

end Run

/-- Input 1 is lost; input 2 arrives after input 0 has been delivered, and two more ticks pass. -/
def gapRun : List Action :=
  smoothRun ++ [.event (.inData 1 1 0 [2, 0, 0, 0, 2, 0, 0, 0, 9] 1), .tick [1], .tick [1]]

/-- Input 2 is due and stays in the buffer for good; the player makes no further call of
`OnInput`. -/
theorem lost_input_freezes :
    ∃ s e, Reach step Walks (start 2 32) s ∧ e ∈ s.room.jbufOf 1 ∧ e.due ≤ s.room.tick ∧
      ¬ s.room.Clears [1] ∧ ∀ n,
        Reach step Walks (start 2 32) ((fun s => s.step (.tick [1]))^[n] s) ∧
        e ∈ ((fun s => s.step (.tick [1]))^[n] s).room.jbufOf 1 ∧
        ((fun s => s.step (.tick [1]))^[n] s).calls = s.calls := by
  set s := gapRun.foldl step (start 2 32) with hs
  set e : JitterEntry := ⟨2, 2, [9], some 1, 5⟩ with he
  have hreach : Reach step Walks (start 2 32) s := Reach.foldl (by decide +kernel)
  have hbuffered : ∀ s' : Run, s'.Frozen e → e ∈ s'.room.jbufOf 1 := by
    intro s' hf
    obtain ⟨st, es, hst, hbuf, -⟩ := hf.player
    rw [jbufOf_eq hst, Option.map_some, hbuf]
    exact List.mem_cons_self
  have hfrozen : s.Frozen e := by
    have hplayer : (s.room.players[(1 : PlayerID)]?).any fun st =>
        decide (st.jbuf = [e] ∧ st.hasInput = true ∧ e.seq ≠ st.lastSeq + 1) := by decide +kernel
    obtain ⟨st, hst, hp⟩ := (Option.any_eq_true _ _).1 hplayer
    obtain ⟨hbuf, hin, hgap⟩ := of_decide_eq_true hp
    exact ⟨by decide +kernel, by decide +kernel, st, [], hst, hbuf, hin, hgap⟩
  have hforever : ∀ n, Reach step Walks (start 2 32) ((fun s => s.step (.tick [1]))^[n] s) ∧
      ((fun s => s.step (.tick [1]))^[n] s).Frozen e ∧
      ((fun s => s.step (.tick [1]))^[n] s).calls = s.calls := by
    intro n
    induction n with
    | zero => exact ⟨hreach, hfrozen, rfl⟩
    | succ n ih =>
      obtain ⟨hr, hf, hcalls⟩ := ih
      rw [Function.iterate_succ_apply']
      exact ⟨hr.next (.tick [1]) hf.order, hf.tick.1, hf.tick.2.trans hcalls⟩
  refine ⟨s, e, hreach, hbuffered s hfrozen, by decide +kernel, ?_, fun n => ?_⟩
  · rw [Room.clears_iff hfrozen.order, Room.flows_iff_all hfrozen.order]
    decide +kernel
  · obtain ⟨hr, hf, hcalls⟩ := hforever n
    exact ⟨hr, hbuffered _ hf, hcalls⟩

end SoupEngine.Sdk
