import SoupEngine.Sdk.Run

/-!
# Repeated input

When the buffer of a player is empty the tick passes the player's last input on again. The rule of
`Fair` asks that every input that is taken from the buffer is passed on once, that nothing is
repeated in a tick that has taken something, and that what is repeated is the input that was passed
on last. In every run, every tick keeps the rule exactly if it finds the room as `Settles` says
(`repeated_input_iff`).
-/

namespace SoupEngine.Sdk

open TransitionSystem

namespace PState

theorem copyInto_spec (dst src : Bytes) :
    (copyInto dst src).1.length = dst.length ∧
      (copyInto dst src).1.take (copyInto dst src).2 = src.take dst.length ∧
      (copyInto dst src).2 = min dst.length src.length := by
  unfold copyInto
  dsimp only
  refine ⟨?_, ?_, rfl⟩
  · rw [List.length_append, List.length_take, List.length_drop]
    omega
  · rw [List.take_append_of_le_length (by rw [List.length_take]), List.take_take,
      List.take_eq_take_iff]
    omega

/-- What the state of a player remembers of the input that was taken last. -/
structure Echoes (st : PState) (last : Option JitterEntry) : Prop where
  cap : st.lastPayload.length = lastPayloadCap
  echo : 0 < st.lastPayloadLen → ∃ e, last = some e ∧
    st.lastPayload.take st.lastPayloadLen = e.payload.take lastPayloadCap ∧
    st.lastSeq = if st.hasInput = true then e.seq else 0

theorem Echoes.consume {st : PState} {last : Option JitterEntry} (h : st.Echoes last)
    (e : JitterEntry) : (st.consume e).Echoes (some e) ∧
      ((st.consume e).lastPayloadLen = 0 ↔ e.payload = []) := by
  obtain ⟨hlen, htake, hcopied⟩ := copyInto_spec st.lastPayload e.payload
  refine ⟨⟨hlen.trans h.cap, fun _ => ⟨e, rfl, ?_, rfl⟩⟩, ?_⟩
  · rw [← h.cap]
    exact htake
  · show (copyInto st.lastPayload e.payload).2 = 0 ↔ _
    rw [hcopied, h.cap, ← List.length_eq_zero_iff, lastPayloadCap]
    omega

theorem Echoes.consumed {es : List JitterEntry} {st : PState} {last : Option JitterEntry}
    (h : st.Echoes last) : (st.consumed es).Echoes (es.getLast?.or last) := by
  induction es using List.reverseRecOn with
  | nil => exact h
  | append_singleton es e ih =>
    unfold PState.consumed at ih ⊢
    rw [List.foldl_append, List.getLast?_append]
    exact (ih.consume e).1

/-- What is remembered does not depend on the buffer. -/
theorem Echoes.congr {st st' : PState} {last : Option JitterEntry} (h : st.Echoes last)
    (hp : st'.lastPayload = st.lastPayload) (hl : st'.lastPayloadLen = st.lastPayloadLen)
    (hs : st'.lastSeq = st.lastSeq) (hi : st'.hasInput = st.hasInput) : st'.Echoes last := by
  refine ⟨by rw [hp]; exact h.cap, fun hpos => ?_⟩
  rw [hp, hl, hs, hi]
  rw [hl] at hpos
  exact h.echo hpos

theorem Echoes.insertJitter {st : PState} {last : Option JitterEntry} (h : st.Echoes last)
    (e : JitterEntry) : (st.insertJitter e).1.Echoes last := by
  rcases st.insertJitter_cases e with hst | hst
  · rw [hst]
    exact h
  · rw [hst]
    exact h.congr rfl rfl rfl rfl

theorem Echoes.deliver {st : PState} {last : Option JitterEntry} (h : st.Echoes last) (tick : Tick)
    (p : PlayerID) : (st.deliver tick p).1.Echoes ((st.taken tick).getLast?.or last) := by
  rw [deliver_eq]
  exact h.consumed.congr rfl rfl rfl rfl

end PState

namespace Run

/-- The input of a player that was taken from the buffer last. -/
def lastTaken (s : Run) (p : PlayerID) : Option JitterEntry :=
  ((s.ledger p).delivered.getLast?).map fun d => d.1.entry

/-- The fresh input of a player that was passed on last. -/
def lastFresh (s : Run) (p : PlayerID) : Option (InputSeq × Bytes) :=
  ((s.calls.filter fun c => c.player = p ∧ c.fresh = true).getLast?).map fun c => (c.seq, c.payload)

/-- The calls of `OnInput` for a player in a tick. -/
def callsFor (s : Run) (p : PlayerID) (ops : List RoomOp) : List Call :=
  (callsOf s.ticks ops).filter (·.player = p)

/-- The rule for a tick: what leaves the buffer is passed on once, and what is passed on besides is
the last fresh input again, in a tick without a fresh one. -/
def Fair (s : Run) (order : List PlayerID) : Prop :=
  ∃ r' ops, s.room.deliverReadyInputs order = some (r', ops) ∧ ∀ p, ∃ taken again,
    s.room.jbufOf p = taken ++ r'.jbufOf p ∧
    (s.callsFor p ops).Perm (taken.map (fun e => ⟨s.ticks, p, e.seq, e.payload, true⟩) ++ again) ∧
    ∀ c ∈ again, c.fresh = false ∧ taken = [] ∧ s.lastFresh p = some (c.seq, c.payload)

/-- A player's buffer is not emptied in this tick by an input with a payload; and if it was empty
before, then the input to be repeated, which is the one taken last, was also passed on last, it fits
`lastPayload`, and its number has not been reset. -/
def SettlesFor (s : Run) (p : PlayerID) (st : PState) : Prop :=
  (st.jbuf ≠ [] → st.Drains s.room.tick st.jbuf → ∀ e ∈ st.jbuf.getLast?, e.payload = []) ∧
    (st.jbuf = [] → 0 < st.lastPayloadLen → ∀ e ∈ s.lastTaken p,
      s.lastFresh p = some (if st.hasInput = true then e.seq else 0, e.payload.take lastPayloadCap))

/-- The walk starts with a least input, and no player gets a wrong repetition. -/
def Settles (s : Run) (order : List PlayerID) : Prop :=
  s.room.LeastFirst order ∧ ∀ (p : PlayerID) (st : PState), s.room.players[p]? = some st →
    s.SettlesFor p st

/-! ## What the players remember -/

/-- Every player remembers the input that was taken last. -/
def Remembers (s : Run) : Prop :=
  ∀ (p : PlayerID) (st : PState), s.room.players[p]? = some st → st.Echoes (s.lastTaken p)

theorem remembers_start (J B : ℕ) : Remembers (start J B) := by
  intro p st hst
  have : (start J B).room.players[p]? = none := Std.ExtTreeMap.getElem?_empty
  rw [this] at hst
  cases hst

theorem echoes_stateAfter {r : Room} {q : PlayerID} {last : Option JitterEntry}
    (h : ∀ st, r.players[q]? = some st → st.Echoes last) (ev : InEvent) {st' : PState}
    (hst' : r.stateAfter q ev = some st') : st'.Echoes last := by
  have hold : r.players[q]? = some st' → st'.Echoes last := h st'
  cases ev with
  | inOpen sess p =>
    simp only [Room.stateAfter] at hst'
    split_ifs at hst' with hq
    · obtain rfl := Option.some.inj hst'
      cases hst : r.players[q]? with
      | none =>
        refine ⟨List.length_replicate, fun hpos => ?_⟩
        cases hpos
      | some st => exact h st hst
    · exact hold hst'
  | inClose p reason =>
    simp only [Room.stateAfter] at hst'
    split_ifs at hst' with hq
    exact hold hst'
  | inResume p gap =>
    simp only [Room.stateAfter] at hst'
    split_ifs at hst' with hq
    · obtain ⟨st, hst, rfl⟩ := Option.map_eq_some_iff.1 hst'
      refine ⟨(h st hst).cap, fun hpos => ?_⟩
      obtain ⟨e, he, htake, -⟩ := (h st hst).echo hpos
      exact ⟨e, he, htake, rfl⟩
    · exact hold hst'
  | inData p ch msg payload raw =>
    simp only [Room.stateAfter] at hst'
    split_ifs at hst' with hq
    · obtain ⟨st, hst, rfl⟩ := Option.map_eq_some_iff.1 hst'
      have hat : (r.atInput st payload).Echoes last := (h st hst).congr rfl rfl rfl rfl
      exact hat.insertJitter _
    · exact hold hst'
  | inStats p rtt loss =>
    simp only [Room.stateAfter] at hst'
    split_ifs at hst' with hq
    · obtain ⟨st, hst, rfl⟩ := Option.map_eq_some_iff.1 hst'
      exact (h st hst).congr rfl rfl rfl rfl
    · exact hold hst'
  | inOverload => exact hold hst'

theorem remembers_step (s : Run) (a : Action) (hb : Booked s) (h : Remembers s) (ha : s.Walks a) :
    Remembers (s.step a) := by
  by_cases hc : s.crashed = true
  · unfold step
    rw [if_pos hc]
    exact h
  cases a with
  | event ev =>
    unfold step
    rw [if_neg hc]
    intro p st hst
    have hlast : lastTaken { s with
        room := (s.room.handleEvent ev).1
        ledger := fun q => s.ledgerAfter q ev } p = s.lastTaken p := by
      unfold lastTaken
      dsimp only
      rw [delivered_ledgerAfter]
    dsimp only at hst ⊢
    rw [hlast]
    exact echoes_stateAfter (h p) ev (((s.room.handleEvent_spec ev).1 p).symm.trans hst)
  | kick k reason =>
    unfold step
    rw [if_neg hc]
    intro p st hst
    have hlast : lastTaken { s with
        room := (s.room.kick k reason).1
        ledger := fun q => if k = q then (s.ledger q).clear
            else s.ledger q } p = s.lastTaken p := by
      unfold lastTaken
      dsimp only
      split_ifs
      · rfl
      · rfl
    dsimp only at hst ⊢
    rw [hlast]
    have hst' := ((s.room.kick_spec k reason).1 p).symm.trans hst
    split_ifs at hst' with hq
    exact h p st hst'
  | tick order =>
    have halive : s.crashed = false := by simpa using hc
    cases hd : s.room.deliverReadyInputs order with
    | none =>
      unfold step
      rw [if_neg hc]
      dsimp only
      rw [hd]
      exact h
    | some out =>
      obtain ⟨r', ops⟩ := out
      rw [step_tick halive hd]
      intro p st' hst'
      have hr' : r'.players[p]? = some st' := hst'
      obtain ⟨st, hst, rfl⟩ :=
        Option.map_eq_some_iff.1 (((Room.deliver_spec ha hd).1 p).symm.trans hr')
      have hecho := (h p st hst).deliver s.room.tick p
      obtain ⟨hbuf, hn⟩ := length_taken hst hr'
      have hw := (hb.entries p).waiting
      have htaken : ((s.ledger p).waiting.take (st.taken s.room.tick).length).map Accepted.entry =
          st.taken s.room.tick := by
        rw [List.map_take, hw, hbuf, List.take_left]
      have hlast : lastTaken { s with
          room := { r' with tick := r'.tick + 1 }
          ticks := s.ticks + 1
          ledger := fun q =>
            (s.ledger q).deliver ((s.room.jbufOf q).length - (r'.jbufOf q).length) s.ticks
          calls := s.calls ++ callsOf s.ticks ops } p =
          (st.taken s.room.tick).getLast?.or (s.lastTaken p) := by
        unfold lastTaken Ledger.deliver
        dsimp only
        rw [hn, List.getLast?_append, List.getLast?_map]
        conv_rhs => rw [← htaken, List.getLast?_map]
        cases ((s.ledger p).waiting.take (st.taken s.room.tick).length).getLast? with
        | none => rfl
        | some a => rfl
      rw [hlast]
      exact hecho

/-! ## What a tick passes on -/

/-- The call for an input that is passed on. -/
def callOf (tick : ℕ) (d : PendingDeliver) : Call :=
  ⟨tick, d.player, d.seq, d.payload, d.raw.isSome⟩

theorem callsOf_deliver (tick : ℕ) (puts : List BufId) (pend : List PendingDeliver) :
    callsOf tick (puts.map .put ++ pend.map Room.onInputOf) = pend.map (callOf tick) := by
  unfold callsOf
  rw [List.filterMap_append, List.filterMap_map, List.filterMap_map, ← List.filterMap_eq_map]
  refine (congrArg (· ++ _) (List.filterMap_eq_nil_iff.2 fun b _ => ?_)).trans (List.nil_append _)
  rfl

/-- The calls for a player are those for what the player has ready. -/
theorem callsFor_perm {s : Run} {order : List PlayerID} (ho : s.room.IsOrder order) {r' : Room}
    {ops : List RoomOp} (hd : s.room.deliverReadyInputs order = some (r', ops)) (p : PlayerID) :
    (s.callsFor p ops).Perm ((s.room.readyOf p).map (callOf s.ticks)) := by
  obtain ⟨-, -, pend, hsorts, rfl⟩ := Room.deliverReadyInputs_eq_some ho hd
  unfold callsFor
  rw [callsOf_deliver, List.filter_map, ← Room.filter_player_pending ho p]
  exact ((hsorts.perm.filter _).map _)

/-- The repetition for a player after the tick has taken what it takes. -/
def againOf (s : Run) (p : PlayerID) (st : PState) : List Call :=
  ((st.deliver s.room.tick p).1.repeated s.room.tick p).map (callOf s.ticks)

theorem mem_againOf {s : Run} {p : PlayerID} {st : PState} {c : Call} :
    c ∈ s.againOf p st ↔ ((st.deliver s.room.tick p).1.jbuf = [] ∧
        0 < (st.deliver s.room.tick p).1.lastPayloadLen) ∧
      c = ⟨s.ticks, p, (st.deliver s.room.tick p).1.lastSeq,
        (st.deliver s.room.tick p).1.lastPayload.take
        (st.deliver s.room.tick p).1.lastPayloadLen, false⟩ := by
  unfold againOf PState.repeated
  split_ifs with h
  · rw [List.map_singleton, List.mem_singleton]
    exact ⟨fun hc => ⟨h, hc⟩, fun hc => hc.2⟩
  · exact ⟨fun hc => absurd hc List.not_mem_nil, fun hc => absurd hc.1 h⟩

theorem deliver_of_empty {st : PState} (h : st.jbuf = []) (tick : Tick) (p : PlayerID) :
    st.taken tick = [] ∧ (st.deliver tick p).1 = st := by
  have hbuf := st.jbuf_deliver tick p
  rw [h] at hbuf
  obtain ⟨ht, hj⟩ := List.append_eq_nil_iff.1 hbuf.symm
  refine ⟨ht, ?_⟩
  rw [PState.deliver_eq, ht, hj]
  show { st with jbuf := [] } = st
  rw [← h]

/-- Whether a tick that takes the last input of the buffer repeats it depends on its payload. -/
theorem lastPayloadLen_deliver {st : PState} {last : Option JitterEntry} (h : st.Echoes last)
    {tick : Tick} (p : PlayerID) {e : JitterEntry} (he : (st.taken tick).getLast? = some e) :
    (st.deliver tick p).1.lastPayloadLen = 0 ↔ e.payload = [] := by
  obtain ⟨es, hes⟩ := List.getLast?_eq_some_iff.1 he
  rw [PState.deliver_eq, hes]
  show (st.consumed (es ++ [e])).lastPayloadLen = 0 ↔ _
  unfold PState.consumed
  rw [List.foldl_append]
  exact (h.consumed.consume e).2

/-- The repetition is right exactly if the player settles. -/
theorem again_iff {s : Run} (hr : Remembers s) {p : PlayerID} {st : PState}
    (hst : s.room.players[p]? = some st) :
    (∀ c ∈ s.againOf p st, c.fresh = false ∧ st.taken s.room.tick = [] ∧
      s.lastFresh p = some (c.seq, c.payload)) ↔ s.SettlesFor p st := by
  have hecho := hr p st hst
  constructor
  · intro h
    refine ⟨fun hne hdrains e he => ?_, fun hempty hpos e he => ?_⟩
    · -- otherwise the input would be repeated in the tick that takes it
      by_contra hpayload
      have hj := (st.jbuf_deliver_eq_nil_iff s.room.tick p).2 hdrains
      have htaken : st.taken s.room.tick = st.jbuf := by
        rw [st.jbuf_deliver s.room.tick p, hj, List.append_nil]
      have hlen := mt (lastPayloadLen_deliver hecho p (by rw [htaken]; exact he)).1 hpayload
      have := (h _ (mem_againOf.2 ⟨⟨hj, Nat.pos_of_ne_zero hlen⟩, rfl⟩)).2.1
      rw [htaken] at this
      exact hne this
    · obtain ⟨ht, hsame⟩ := deliver_of_empty hempty s.room.tick p
      have := (h _ (mem_againOf.2 ⟨by rw [hsame]; exact ⟨hempty, hpos⟩, rfl⟩)).2.2
      rw [hsame] at this
      obtain ⟨e', he', htake, hseq⟩ := hecho.echo hpos
      obtain rfl : e = e' := Option.some.inj (he.symm.trans he')
      rw [this, htake, hseq]
  · rintro ⟨hfresh, hstarved⟩ c hc
    obtain ⟨⟨hj, hpos⟩, rfl⟩ := mem_againOf.1 hc
    by_cases hempty : st.jbuf = []
    · obtain ⟨ht, hsame⟩ := deliver_of_empty hempty s.room.tick p
      rw [hsame] at hpos ⊢
      obtain ⟨e, he, htake, hseq⟩ := hecho.echo hpos
      refine ⟨rfl, ht, ?_⟩
      rw [hstarved hempty hpos e he, htake, hseq]
    · have hdrains := (st.jbuf_deliver_eq_nil_iff s.room.tick p).1 hj
      have htaken : st.taken s.room.tick = st.jbuf := by
        rw [st.jbuf_deliver s.room.tick p, hj, List.append_nil]
      obtain ⟨e, he⟩ := Option.ne_none_iff_exists'.1 (mt List.getLast?_eq_none_iff.1 hempty)
      have hpayload := hfresh hempty hdrains e he
      rw [← htaken] at he
      rw [(lastPayloadLen_deliver hecho p he).2 hpayload] at hpos
      exact absurd hpos (Nat.lt_irrefl 0)

/-- What the calls for a player come to. -/
theorem calls_iff {s : Run} (hb : Booked s) (hr : Remembers s) {order : List PlayerID}
    (ho : s.room.IsOrder order) {r' : Room} {ops : List RoomOp}
    (hd : s.room.deliverReadyInputs order = some (r', ops)) {p : PlayerID} {st : PState}
    (hst : s.room.players[p]? = some st) :
    (∃ taken again, s.room.jbufOf p = taken ++ r'.jbufOf p ∧
      (s.callsFor p ops).Perm (taken.map (fun e => ⟨s.ticks, p, e.seq, e.payload, true⟩) ++ again) ∧
      ∀ c ∈ again, c.fresh = false ∧ taken = [] ∧ s.lastFresh p = some (c.seq, c.payload)) ↔
    s.SettlesFor p st := by
  have hr' : r'.players[p]? = some (st.deliver s.room.tick p).1 := by
    rw [(Room.deliver_spec ho hd).1, hst]
    rfl
  obtain ⟨hbuf, -⟩ := length_taken hst hr'
  have hraw : ∀ e ∈ s.room.jbufOf p, e.raw.isSome = true := by
    intro e he
    rw [← (hb.entries p).waiting] at he
    obtain ⟨a, ha, rfl⟩ := List.mem_map.1 he
    exact (hb.entries p).pooled a ha
  have hready : (s.room.readyOf p).map (callOf s.ticks) =
      (st.taken s.room.tick).map (fun e => (⟨s.ticks, p, e.seq, e.payload, true⟩ : Call)) ++
        s.againOf p st := by
    have : s.room.readyOf p = (st.taken s.room.tick).map (PState.freshDeliver p) ++
        (st.deliver s.room.tick p).1.repeated s.room.tick p := by
      unfold Room.readyOf
      rw [hst]
      rfl
    rw [this, List.map_append, List.map_map]
    refine congrArg (· ++ _) (List.map_congr_left fun e he => ?_)
    unfold callOf PState.freshDeliver
    dsimp only [Function.comp]
    rw [hraw e (by rw [hbuf]; exact List.mem_append_left _ he)]
  have hperm := callsFor_perm ho hd p
  rw [hready] at hperm
  rw [← again_iff hr hst]
  constructor
  · rintro ⟨taken, again, hsplit, hcalls, hagain⟩ c hc
    rw [hbuf] at hsplit
    obtain rfl := List.append_cancel_right hsplit
    have := (List.perm_append_left_iff _).1 (hperm.symm.trans hcalls)
    exact hagain c (this.mem_iff.1 hc)
  · intro h
    exact ⟨st.taken s.room.tick, s.againOf p st, hbuf, hperm, h⟩

theorem fair_iff {s : Run} (hb : Booked s) (hr : Remembers s) {order : List PlayerID}
    (ho : s.room.IsOrder order) : s.Fair order ↔ s.Settles order := by
  constructor
  · rintro ⟨r', ops, hd, h⟩
    refine ⟨(Room.deliverReadyInputs_eq_some ho hd).1, fun p st hst => ?_⟩
    exact (calls_iff hb hr ho hd hst).1 (h p)
  · rintro ⟨hleast, h⟩
    obtain ⟨pend, -, hd⟩ := (Room.deliverReadyInputs_spec s.room ho).1 hleast
    refine ⟨_, _, hd, fun p => ?_⟩
    cases hst : s.room.players[p]? with
    | some st => exact (calls_iff hb hr ho hd hst).2 (h p st hst)
    | none =>
      -- who is not in the room has no input
      have hr' := (Room.deliver_spec ho hd).1 p
      rw [hst] at hr'
      have hready : s.room.readyOf p = [] := by
        unfold Room.readyOf
        rw [hst]
      have hperm := callsFor_perm ho hd p
      rw [hready] at hperm
      exact ⟨[], [], by rw [jbufOf_eq hst, jbufOf_eq hr']; rfl, hperm, fun c hc => by cases hc⟩

end Run

open Run

theorem known_of_reach {J B : ℕ} {s : Run} (h : Reach step Walks (start J B) s) :
    Booked s ∧ Remembers s := by
  have hb : ∀ {s : Run}, Reach step Walks (start J B) s → Booked s :=
    fun h => h.invariant (booked_start _ _) booked_step
  refine ⟨hb h, h.invariant' (remembers_start _ _) fun s a hs hr ha => ?_⟩
  exact remembers_step s a (hb hs) hr ha

/-- **Repeated input.** In every run, every tick, in whatever order it walks the players, keeps the
rule if and only if the walk starts with a least input and no player gets a wrong repetition. -/
theorem repeated_input_iff (JitterBufferTicks BaselineRingSize : ℕ) {s : Run}
    (h : Reach step Walks (start JitterBufferTicks BaselineRingSize) s) (order : List PlayerID)
    (ho : s.room.IsOrder order) : s.Fair order ↔ s.Settles order :=
  fair_iff (known_of_reach h).1 (known_of_reach h).2 ho

/-- A player joins and sends input 0, and input 1 a tick later; another tick passes. -/
def steadyRun : List Action :=
  [.event (.inOpen 1 1), .event (.inData 1 1 0 [0, 0, 0, 0, 0, 0, 0, 0, 7] 0), .tick [1],
    .event (.inData 1 1 0 [1, 0, 0, 0, 1, 0, 0, 0, 8] 1), .tick [1]]

/-- The next tick passes input 0 on, and repeats nothing. -/
theorem repeated_input_none : (steadyRun.foldl step (start 2 32)).Fair [1] := by
  set s := steadyRun.foldl step (start 2 32) with hs
  have hreach : Reach step Walks (start 2 32) s := Reach.foldl (by decide +kernel)
  have ho : s.room.IsOrder [1] := by decide +kernel
  refine (repeated_input_iff 2 32 hreach [1] ho).2 ⟨by decide +kernel, fun p st hst => ?_⟩
  have hplayer : (s.room.players[(1 : PlayerID)]?).all fun st =>
      decide (st.jbuf ≠ [] ∧ ∃ e ∈ st.jbuf, s.room.tick < e.due) := by decide +kernel
  obtain rfl : p = 1 := by
    have : p ∈ s.room.players := by
      rw [Room.mem_players_iff, hst]
      exact Option.some_ne_none st
    exact List.mem_singleton.1 ((ho.2 p).2 this)
  rw [hst, Option.all_some, decide_eq_true_eq] at hplayer
  obtain ⟨hne, e, he, hlate⟩ := hplayer
  refine ⟨fun _ hdrains => ?_, fun hempty => absurd hempty hne⟩
  exact absurd (hdrains.1 e he) (by simpa using hlate)

/-! ## Two wrong repetitions -/

/-- A player joins and sends an input; two ticks pass. -/
def firstRun : List Action :=
  [.event (.inOpen 1 1), .event (.inData 1 1 0 [0, 0, 0, 0, 3, 0, 0, 0, 7] 0), .tick [1], .tick [1]]

/-- After the tick that delivers it, the player comes back. -/
def backRun : List Action := firstRun ++ [.tick [1], .event (.inResume 1 0)]

/-- The third tick passes the input on and repeats it at once; and after the player has come back it
is repeated with number 0. -/
theorem repeated_input_wrong :
    ∃ s s', Reach step Walks (start 2 32) s ∧ Reach step Walks (start 2 32) s' ∧
      s.room.IsOrder [1] ∧ s'.room.IsOrder [1] ∧ ¬ s.Fair [1] ∧ ¬ s'.Fair [1] ∧
      (s.step (.tick [1])).calls =
        [⟨2, 1, 3, [7], true⟩, ⟨2, 1, 3, [7], false⟩] ∧
      (s'.step (.tick [1])).calls =
        [⟨2, 1, 3, [7], true⟩, ⟨2, 1, 3, [7], false⟩, ⟨3, 1, 0, [7], false⟩] := by
  set s := firstRun.foldl step (start 2 32) with hs
  set s' := backRun.foldl step (start 2 32) with hs'
  have hreach : Reach step Walks (start 2 32) s := Reach.foldl (by decide +kernel)
  have hreach' : Reach step Walks (start 2 32) s' := Reach.foldl (by decide +kernel)
  have ho : s.room.IsOrder [1] := by decide +kernel
  have ho' : s'.room.IsOrder [1] := by decide +kernel
  refine ⟨s, s', hreach, hreach', ho, ho', fun hfair => ?_, fun hfair => ?_, by decide +kernel,
    by decide +kernel⟩
  · have hplayer : (s.room.players[(1 : PlayerID)]?).any fun st =>
        decide (st.jbuf = [⟨0, 3, [7], some 0, 2⟩] ∧ st.hasInput = false ∧ s.room.tick = 2) := by
      decide +kernel
    obtain ⟨st, hst, hp⟩ := (Option.any_eq_true _ _).1 hplayer
    obtain ⟨hbuf, hin, htick⟩ := of_decide_eq_true hp
    have hsettles := (fair_iff (known_of_reach hreach).1 (known_of_reach hreach).2 ho).1 hfair
    have hdrains : st.Drains s.room.tick st.jbuf := by
      rw [hbuf, htick, PState.drains_cons]
      exact ⟨by decide, fun h => absurd (hin.symm.trans h) Bool.false_ne_true,
        PState.drains_nil _ _⟩
    have := (hsettles.2 1 st hst).1 (by rw [hbuf]; exact List.cons_ne_nil _ _) hdrains _
      (by rw [hbuf]; rfl)
    cases this
  · have hplayer : (s'.room.players[(1 : PlayerID)]?).any fun st =>
        decide (st.jbuf = [] ∧ st.hasInput = false ∧ 0 < st.lastPayloadLen) := by decide +kernel
    obtain ⟨st, hst, hp⟩ := (Option.any_eq_true _ _).1 hplayer
    obtain ⟨hbuf, hin, hpos⟩ := of_decide_eq_true hp
    have hsettles := (fair_iff (known_of_reach hreach').1 (known_of_reach hreach').2 ho').1 hfair
    have hlast : s'.lastTaken 1 = some ⟨0, 3, [7], some 0, 2⟩ := by decide +kernel
    have hfresh : s'.lastFresh 1 = some (3, [7]) := by decide +kernel
    have := (hsettles.2 1 st hst).2 hbuf hpos _ hlast
    rw [hfresh, hin] at this
    cases this

end SoupEngine.Sdk
