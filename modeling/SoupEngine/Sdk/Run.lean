import SoupEngine.Sdk.Drain
import SoupEngine.Lib.TransitionSystem

/-!
# Runs of a room

A room handles events, kicks players and ticks, in any order. Beside the room a run counts its
ticks, logs the calls of `OnInput` that its ticks make, and keeps a ledger of the accepted inputs of
every player: each is waiting, or has been delivered, evicted or cleared (`Booked`).
-/

namespace SoupEngine.Sdk

open InsertionSort TransitionSystem

namespace Room

/-- The jitter buffer of a player, empty if the player is not in the room. -/
def jbufOf (r : Room) (p : PlayerID) : List JitterEntry := ((r.players[p]?).map PState.jbuf).getD []

/-- What becomes of the state of a player with an event. -/
def stateAfter (r : Room) (q : PlayerID) : InEvent → Option PState
  | .inOpen sess p => if p = q then some ((r.players[q]?).getD (r.joined sess)) else r.players[q]?
  | .inClose p _ => if p = q then none else r.players[q]?
  | .inResume p _ => if p = q then (r.players[q]?).map resumed else r.players[q]?
  | .inData p ch _ payload raw =>
    if p = q ∧ ch = ChInput ∧ inputHeaderLen ≤ payload.length then
      (r.players[q]?).map fun st =>
        ((r.atInput st payload).insertJitter (r.inputEntry (r.atInput st payload) payload raw)).1
    else r.players[q]?
  | .inStats p rtt loss =>
    if p = q then (r.players[q]?).map fun st => { st with rtt, loss } else r.players[q]?
  | .inOverload => r.players[q]?

/-- The state of a player who is there is changed. -/
theorem getElem?_update {m : Map PlayerID PState} {p : PlayerID} {st : PState} (h : m[p]? = some st)
    (f : PState → PState) (q : PlayerID) :
    (m.insert p (f st))[q]? = if p = q then (m[q]?).map f else m[q]? := by
  rw [Map.getElem?_insert]
  split_ifs with hq
  · rw [← hq, h]
    rfl
  · rfl

/-- The state of a player who is not there need not be changed. -/
theorem getElem?_missing {m : Map PlayerID PState} {p : PlayerID} (h : m[p]? = none)
    (f : PState → PState) (q : PlayerID) : m[q]? = if p = q then (m[q]?).map f else m[q]? := by
  split_ifs with hq
  · rw [← hq, h]
    rfl
  · rfl

theorem getElem?_erase_missing {m : Map PlayerID PState} {p : PlayerID} (h : m[p]? = none)
    (q : PlayerID) : m[q]? = if p = q then none else m[q]? := by
  split_ifs with hq
  · rw [← hq, h]
  · rfl

theorem mem_players_iff {r : Room} {p : PlayerID} : p ∈ r.players ↔ r.players[p]? ≠ none := by
  rw [Std.ExtTreeMap.mem_iff_isSome_getElem?, Option.isSome_iff_ne_none]

theorem handleCh1Input_spec (r : Room) (p : PlayerID) (payload : Bytes) (raw : BufId) :
    (∀ q, (r.handleCh1Input p payload raw).1.players[q]? =
      if p = q ∧ inputHeaderLen ≤ payload.length then
        (r.players[q]?).map fun st =>
          ((r.atInput st payload).insertJitter (r.inputEntry (r.atInput st payload) payload raw)).1
      else r.players[q]?) ∧
      (r.handleCh1Input p payload raw).1.tick = r.tick ∧
      (r.handleCh1Input p payload raw).1.JitterBufferTicks = r.JitterBufferTicks := by
  unfold handleCh1Input
  cases hst : r.players[p]? with
  | none =>
    refine ⟨fun q => ?_, rfl, rfl⟩
    dsimp only
    split_ifs with hq
    · rw [← hq.1, hst]
      rfl
    · rfl
  | some st =>
    dsimp only
    by_cases hlen : payload.length < inputHeaderLen
    · rw [if_pos hlen]
      refine ⟨fun q => ?_, rfl, rfl⟩
      rw [if_neg fun h => absurd h.2 (by omega)]
    · rw [if_neg hlen]
      refine ⟨fun q => ?_, rfl, rfl⟩
      have hif : (p = q ∧ inputHeaderLen ≤ payload.length) ↔ p = q := and_iff_left (by omega)
      simp only [hif]
      exact getElem?_update hst
        (fun st => ((r.atInput st payload).insertJitter
          (r.inputEntry (r.atInput st payload) payload raw)).1) q

/-- An event changes the state of its player, and neither the tick nor the configuration. -/
theorem handleEvent_spec (r : Room) (ev : InEvent) :
    (∀ q, (r.handleEvent ev).1.players[q]? = r.stateAfter q ev) ∧
      (r.handleEvent ev).1.tick = r.tick ∧
      (r.handleEvent ev).1.JitterBufferTicks = r.JitterBufferTicks := by
  cases ev with
  | inOpen sess p =>
    simp only [handleEvent, stateAfter]
    by_cases hp : p ∈ r.players
    · rw [if_pos hp]
      refine ⟨fun q => ?_, rfl, rfl⟩
      rw [mem_players_iff] at hp
      obtain ⟨st, hst⟩ := Option.ne_none_iff_exists'.1 hp
      split_ifs with hq
      · rw [← hq, hst]
        rfl
      · rfl
    · rw [if_neg hp]
      refine ⟨fun q => ?_, rfl, rfl⟩
      rw [mem_players_iff, not_not] at hp
      show (r.players.insert p _)[q]? = _
      rw [Map.getElem?_insert]
      split_ifs with hq
      · rw [← hq, hp]
        rfl
      · rfl
  | inClose p reason =>
    simp only [handleEvent, stateAfter]
    cases hst : r.players[p]? with
    | none => exact ⟨fun q => getElem?_erase_missing hst q, rfl, rfl⟩
    | some st => exact ⟨fun q => Map.getElem?_erase _ p q, rfl, rfl⟩
  | inResume p gap =>
    simp only [handleEvent, stateAfter]
    cases hst : r.players[p]? with
    | none => exact ⟨fun q => getElem?_missing hst _ q, rfl, rfl⟩
    | some st => exact ⟨fun q => getElem?_update hst _ q, rfl, rfl⟩
  | inData p ch msg payload raw =>
    simp only [handleEvent, stateAfter]
    by_cases hch : ch = ChInput
    · rw [if_pos hch]
      simp only [hch, true_and]
      exact r.handleCh1Input_spec p payload raw
    · rw [if_neg hch]
      simp only [hch, false_and, and_false, if_false]
      split_ifs
      · exact ⟨fun q => rfl, rfl, rfl⟩
      · exact ⟨fun q => rfl, rfl, rfl⟩
  | inStats p rtt loss =>
    simp only [handleEvent, stateAfter]
    cases hst : r.players[p]? with
    | none => exact ⟨fun q => getElem?_missing hst _ q, rfl, rfl⟩
    | some st => exact ⟨fun q => getElem?_update hst (fun st => { st with rtt, loss }) q, rfl, rfl⟩
  | inOverload => exact ⟨fun q => rfl, rfl, rfl⟩

/-- A kick removes the player. -/
theorem kick_spec (r : Room) (p : PlayerID) (reason : U8) :
    (∀ q, (r.kick p reason).1.players[q]? = if p = q then none else r.players[q]?) ∧
      (r.kick p reason).1.tick = r.tick ∧
      (r.kick p reason).1.JitterBufferTicks = r.JitterBufferTicks := by
  unfold kick
  cases hst : r.players[p]? with
  | none => exact ⟨fun q => getElem?_erase_missing hst q, rfl, rfl⟩
  | some st => exact ⟨fun q => Map.getElem?_erase _ p q, rfl, rfl⟩

/-- A delivery drains every player. -/
theorem deliver_spec {r r' : Room} {order : List PlayerID} {ops : List RoomOp}
    (ho : r.IsOrder order) (h : r.deliverReadyInputs order = some (r', ops)) :
    (∀ q : PlayerID, r'.players[q]? = (r.players[q]?).map fun st => (st.deliver r.tick q).1) ∧
      r'.tick = r.tick ∧ r'.JitterBufferTicks = r.JitterBufferTicks := by
  obtain ⟨-, rfl, -⟩ := deliverReadyInputs_eq_some ho h
  have hsame := (drainPlayers_spec ho.1 r).2.1
  refine ⟨fun q => players_drainPlayers ho q, ?_, ?_⟩
  · rw [hsame]
  · rw [hsame]

end Room

/-! ## The ledger -/

/-- An accepted input, with the number of the tick in which it is due. -/
structure Accepted where
  entry : JitterEntry
  deadline : ℕ
  deriving DecidableEq

/-- What has become of the accepted inputs of a player. -/
structure Ledger where
  accepted : List Accepted
  /-- Those in the jitter buffer. -/
  waiting : List Accepted
  /-- Those that have been delivered, with the number of the tick. -/
  delivered : List (Accepted × ℕ)
  evicted : List Accepted
  /-- Those that were in the buffer when the player left or came back. -/
  cleared : List Accepted

namespace Ledger

def empty : Ledger := ⟨[], [], [], [], []⟩

/-- The input goes into the buffer of the player, if `insertJitter` takes it. -/
def insertJitter (l : Ledger) (st : PState) (a : Accepted) : Ledger :=
  if (st.insertJitter a.entry).2.2 = true then
    let full := st.jcap ≤ st.jbuf.length
    let waiting := if full then l.waiting.tail else l.waiting
    { l with
      accepted := l.accepted ++ [a]
      waiting := waiting.insertIdx (waiting.findIdx fun x => seqNewer x.entry.seq a.entry.seq) a
      evicted := if full then l.evicted ++ l.waiting.head?.toList else l.evicted }
  else l

def clear (l : Ledger) : Ledger := { l with waiting := [], cleared := l.cleared ++ l.waiting }

/-- So many are delivered in this tick. -/
def deliver (l : Ledger) (n tick : ℕ) : Ledger :=
  { l with
    waiting := l.waiting.drop n
    delivered := l.delivered ++ (l.waiting.take n).map fun a => (a, tick) }

/-- Every accepted input is in one place. -/
def Balanced (l : Ledger) : Prop :=
  l.accepted.Perm (l.waiting ++ l.delivered.map Prod.fst ++ l.evicted ++ l.cleared)

theorem Balanced.clear {l : Ledger} (h : l.Balanced) : l.clear.Balanced := by
  refine h.trans (List.perm_iff_count.2 fun a => ?_)
  simp only [Ledger.clear, List.count_append, List.count_nil]
  omega

theorem Balanced.deliver {l : Ledger} (h : l.Balanced) (n tick : ℕ) :
    (l.deliver n tick).Balanced := by
  refine h.trans (List.perm_iff_count.2 fun a => ?_)
  have hsplit := congrArg (List.count a) (List.take_append_drop n l.waiting)
  have hmap : ((l.waiting.take n).map fun a => (a, tick)).map Prod.fst = l.waiting.take n := by
    rw [List.map_map]
    exact List.map_id _
  simp only [Ledger.deliver, List.map_append, List.count_append, hmap] at hsplit ⊢
  omega

theorem Balanced.insertJitter {l : Ledger} (h : l.Balanced) (st : PState) (a : Accepted) :
    (l.insertJitter st a).Balanced := by
  unfold Ledger.insertJitter
  split_ifs with hacc
  · refine (h.append_right [a]).trans (List.perm_iff_count.2 fun b => ?_)
    have hins : ∀ xs : List Accepted, ∀ i ≤ xs.length,
        (xs.insertIdx i a).count b = xs.count b + [a].count b := by
      intro xs i hi
      rw [(List.perm_insertIdx a xs hi).count_eq, List.count_cons, List.count_singleton]
    dsimp only
    split_ifs with hfull
    · have hhead : l.waiting.count b = l.waiting.head?.toList.count b + l.waiting.tail.count b := by
        cases l.waiting with
        | nil => rfl
        | cons x xs => simp [List.count_cons, Nat.add_comm]
      simp only [List.count_append, hins _ _ List.findIdx_le_length, hhead]
      omega
    · simp only [List.count_append, hins _ _ List.findIdx_le_length]
      omega
  · exact h

end Ledger

/-! ## Runs -/

/-- A call of `OnInput` in a tick. -/
structure Call where
  tick : ℕ
  player : PlayerID
  seq : InputSeq
  payload : Bytes
  /-- The input comes from the jitter buffer, and is not the last one again. -/
  fresh : Bool
  deriving DecidableEq

structure Run where
  room : Room
  /-- The number of ticks so far. -/
  ticks : ℕ
  /-- The process has panicked. -/
  crashed : Bool
  ledger : PlayerID → Ledger
  calls : List Call

/-- What happens to a room. -/
inductive Action
  | event (ev : InEvent)
  | kick (p : PlayerID) (reason : U8)
  | tick (order : List PlayerID)

namespace Run

/-- A new room in a server with this configuration. -/
def start (JitterBufferTicks BaselineRingSize : ℕ) : Run :=
  ⟨.new JitterBufferTicks BaselineRingSize, 0, false, fun _ => .empty, []⟩

/-- The ledger of a player after an event. -/
def ledgerAfter (s : Run) (q : PlayerID) : InEvent → Ledger
  | .inClose p _ => if p = q then (s.ledger q).clear else s.ledger q
  | .inResume p _ => if p = q then (s.ledger q).clear else s.ledger q
  | .inData p ch _ payload raw =>
    if p = q ∧ ch = ChInput ∧ inputHeaderLen ≤ payload.length then
      match s.room.players[q]? with
      | none => s.ledger q
      | some st =>
        let st := s.room.atInput st payload
        (s.ledger q).insertJitter st ⟨s.room.inputEntry st payload raw, s.ticks + st.jdepth⟩
    else s.ledger q
  | _ => s.ledger q

/-- The calls of `OnInput` among the operations of a tick. -/
def callsOf (tick : ℕ) (ops : List RoomOp) : List Call :=
  ops.filterMap fun
    | .onInput p seq payload raw => some ⟨tick, p, seq, payload, raw.isSome⟩
    | _ => none

def step (s : Run) (a : Action) : Run :=
  if s.crashed = true then s
  else
    match a with
    | .event ev =>
      { s with room := (s.room.handleEvent ev).1, ledger := fun q => s.ledgerAfter q ev }
    | .kick p reason =>
      { s with
        room := (s.room.kick p reason).1
        ledger := fun q => if p = q then (s.ledger q).clear else s.ledger q }
    | .tick order =>
      match s.room.deliverReadyInputs order with
      | none => { s with crashed := true }
      | some (room, ops) =>
        { s with
          room := { room with tick := room.tick + 1 }
          ticks := s.ticks + 1
          ledger := fun q =>
            (s.ledger q).deliver ((s.room.jbufOf q).length - (room.jbufOf q).length) s.ticks
          calls := s.calls ++ callsOf s.ticks ops }

/-- A tick walks the players of the room. -/
def Walks (s : Run) : Action → Prop
  | .tick order => s.room.IsOrder order
  | _ => True

instance (s : Run) : (a : Action) → Decidable (s.Walks a)
  | .tick order => inferInstanceAs (Decidable (s.room.IsOrder order))
  | .event _ => .isTrue trivial
  | .kick _ _ => .isTrue trivial

end Run

namespace PState

/-- An input is rejected, or put in its place among those that stay. -/
theorem insertJitter_cases (st : PState) (e : JitterEntry) :
    st.insertJitter e = (st, e.raw.toList, false) ∨
      st.insertJitter e =
        let evicted := if st.jcap ≤ st.jbuf.length then st.jbuf.head?.bind JitterEntry.raw else none
        let jbuf := if st.jcap ≤ st.jbuf.length then st.jbuf.tail else st.jbuf
        ({ st with jbuf := jbuf.insertIdx (jbuf.findIdx fun x => seqNewer x.seq e.seq) e },
          evicted.toList, true) := by
  unfold insertJitter
  by_cases hold : st.hasInput = true ∧ ¬ seqNewer e.seq st.lastSeq
  · rw [if_pos hold]
    exact .inl rfl
  · rw [if_neg hold]
    by_cases hdup : ∃ x ∈ st.jbuf, x.seq = e.seq
    · rw [if_pos hdup]
      exact .inl rfl
    · rw [if_neg hdup]
      exact .inr rfl

end PState

namespace Ledger

/-- The waiting inputs are kept like the buffer. -/
theorem waiting_insertJitter {l : Ledger} {st : PState} (h : l.waiting.map Accepted.entry = st.jbuf)
    (a : Accepted) :
    (l.insertJitter st a).waiting.map Accepted.entry = (st.insertJitter a.entry).1.jbuf := by
  unfold Ledger.insertJitter
  rcases st.insertJitter_cases a.entry with hst | hst
  · rw [hst, if_neg Bool.false_ne_true, h]
  · have hstay :
        (if st.jcap ≤ st.jbuf.length then l.waiting.tail else l.waiting).map Accepted.entry =
        if st.jcap ≤ st.jbuf.length then st.jbuf.tail else st.jbuf := by
      split_ifs
      · rw [List.map_tail, h]
      · exact h
    rw [hst, if_pos rfl]
    dsimp only
    rw [List.map_insertIdx, hstay, ← hstay, List.findIdx_map]
    rfl

theorem mem_waiting_insertJitter {l : Ledger} {st : PState} {a b : Accepted}
    (h : b ∈ (l.insertJitter st a).waiting) : b = a ∨ b ∈ l.waiting := by
  unfold Ledger.insertJitter at h
  split_ifs at h with hacc
  · dsimp only at h
    rcases List.eq_or_mem_of_mem_insertIdx h with h | h
    · exact .inl h
    · right
      split_ifs at h
      · exact List.mem_of_mem_tail h
      · exact h
  · exact .inr h

theorem delivered_insertJitter (l : Ledger) (st : PState) (a : Accepted) :
    (l.insertJitter st a).delivered = l.delivered := by
  unfold Ledger.insertJitter
  split_ifs
  · rfl
  · rfl

/-- The ledger of the player `q`, with this buffer and these calls, is right. -/
structure Matches (l : Ledger) (q : PlayerID) (buf : List JitterEntry) (calls : List Call) :
    Prop where
  waiting : l.waiting.map Accepted.entry = buf
  balanced : l.Balanced
  due : ∀ a ∈ l.waiting, a.entry.due = BitVec.ofNat 32 a.deadline
  pooled : ∀ a ∈ l.waiting, a.entry.raw.isSome = true
  called : ∀ a t, (a, t) ∈ l.delivered → ⟨t, q, a.entry.seq, a.entry.payload, true⟩ ∈ calls

theorem matches_empty (q : PlayerID) (calls : List Call) : Matches .empty q [] calls where
  waiting := rfl
  balanced := List.Perm.refl _
  due := fun a ha => by cases ha
  pooled := fun a ha => by cases ha
  called := fun a t h => by cases h

theorem Matches.clear {l : Ledger} {q : PlayerID} {buf : List JitterEntry} {calls : List Call}
    (h : l.Matches q buf calls) : l.clear.Matches q [] calls where
  waiting := rfl
  balanced := h.balanced.clear
  due := fun a ha => by cases ha
  pooled := fun a ha => by cases ha
  called := h.called

theorem Matches.insertJitter {l : Ledger} {q : PlayerID} {st : PState} {calls : List Call}
    (h : l.Matches q st.jbuf calls) {a : Accepted} (hdue : a.entry.due = BitVec.ofNat 32 a.deadline)
    (hraw : a.entry.raw.isSome = true) :
    (l.insertJitter st a).Matches q (st.insertJitter a.entry).1.jbuf calls where
  waiting := waiting_insertJitter h.waiting a
  balanced := h.balanced.insertJitter st a
  due := by
    intro b hb
    rcases mem_waiting_insertJitter hb with rfl | hb
    · exact hdue
    · exact h.due b hb
  pooled := by
    intro b hb
    rcases mem_waiting_insertJitter hb with rfl | hb
    · exact hraw
    · exact h.pooled b hb
  called := by
    rw [delivered_insertJitter]
    exact h.called

/-- The inputs that lead the buffer have been passed on. -/
theorem Matches.deliver {l : Ledger} {q : PlayerID} {es buf : List JitterEntry}
    {calls calls' : List Call} {tick : ℕ} (h : l.Matches q (es ++ buf) calls)
    (hcalls : ∀ e ∈ es, ⟨tick, q, e.seq, e.payload, e.raw.isSome⟩ ∈ calls') :
    (l.deliver es.length tick).Matches q buf (calls ++ calls') where
  waiting := by
    show (l.waiting.drop es.length).map Accepted.entry = buf
    rw [List.map_drop, h.waiting, List.drop_left]
  balanced := h.balanced.deliver _ _
  due := fun a ha => h.due a (List.mem_of_mem_drop ha)
  pooled := fun a ha => h.pooled a (List.mem_of_mem_drop ha)
  called := by
    intro a t hat
    rcases List.mem_append.1 hat with hat | hat
    · exact List.mem_append_left _ (h.called a t hat)
    · obtain ⟨b, hb, heq⟩ := List.mem_map.1 hat
      obtain ⟨rfl, rfl⟩ := Prod.mk.inj heq
      have hes : b.entry ∈ es := by
        have := List.mem_map_of_mem (f := Accepted.entry) hb
        rwa [List.map_take, h.waiting, List.take_left] at this
      have := hcalls b.entry hes
      rw [h.pooled b (List.mem_of_mem_take hb)] at this
      exact List.mem_append_right _ this

end Ledger

namespace Run

theorem jbufOf_eq {r : Room} {q : PlayerID} {st : Option PState} (h : r.players[q]? = st) :
    r.jbufOf q = (st.map PState.jbuf).getD [] := by
  unfold Room.jbufOf
  rw [h]

/-- The ledger of a player after an event: unchanged, cleared, or with one more input. -/
theorem ledgerAfter_cases (s : Run) (q : PlayerID) (ev : InEvent) :
    (s.ledgerAfter q ev = s.ledger q ∧
      ((s.room.stateAfter q ev).map PState.jbuf).getD [] = s.room.jbufOf q) ∨
    (s.ledgerAfter q ev = (s.ledger q).clear ∧
      ((s.room.stateAfter q ev).map PState.jbuf).getD [] = []) ∨
    ∃ st payload raw, s.room.players[q]? = some st ∧
      s.ledgerAfter q ev = (s.ledger q).insertJitter (s.room.atInput st payload)
        ⟨s.room.inputEntry (s.room.atInput st payload) payload raw,
          s.ticks + (s.room.atInput st payload).jdepth⟩ ∧
      s.room.stateAfter q ev = some ((s.room.atInput st payload).insertJitter
        (s.room.inputEntry (s.room.atInput st payload) payload raw)).1 := by
  cases ev with
  | inOpen sess p =>
    left
    refine ⟨rfl, ?_⟩
    unfold Room.stateAfter Room.jbufOf
    cases hst : s.room.players[q]? with
    | none =>
      dsimp only
      split_ifs
      · rfl
      · rfl
    | some st =>
      dsimp only
      split_ifs
      · rfl
      · rfl
  | inClose p reason =>
    by_cases hq : p = q
    · refine .inr (.inl ⟨if_pos hq, ?_⟩)
      simp only [Room.stateAfter, if_pos hq]
      rfl
    · refine .inl ⟨if_neg hq, ?_⟩
      simp only [Room.stateAfter, if_neg hq]
      rfl
  | inResume p gap =>
    by_cases hq : p = q
    · refine .inr (.inl ⟨if_pos hq, ?_⟩)
      simp only [Room.stateAfter, if_pos hq]
      cases s.room.players[q]? with
      | none => rfl
      | some st => rfl
    · refine .inl ⟨if_neg hq, ?_⟩
      simp only [Room.stateAfter, if_neg hq]
      rfl
  | inData p ch msg payload raw =>
    simp only [ledgerAfter, Room.stateAfter]
    by_cases hq : p = q ∧ ch = ChInput ∧ inputHeaderLen ≤ payload.length
    · rw [if_pos hq, if_pos hq]
      cases hst : s.room.players[q]? with
      | none => exact .inl ⟨rfl, (jbufOf_eq hst).symm⟩
      | some st => exact .inr (.inr ⟨st, payload, raw, rfl, rfl, rfl⟩)
    · rw [if_neg hq, if_neg hq]
      exact .inl ⟨rfl, rfl⟩
  | inStats p rtt loss =>
    refine .inl ⟨rfl, ?_⟩
    unfold Room.stateAfter Room.jbufOf
    cases hst : s.room.players[q]? with
    | none =>
      dsimp only
      split_ifs
      · rfl
      · rfl
    | some st =>
      dsimp only
      split_ifs
      · rfl
      · rfl
  | inOverload => exact .inl ⟨rfl, rfl⟩

/-- An event delivers nothing. -/
theorem delivered_ledgerAfter (s : Run) (q : PlayerID) (ev : InEvent) :
    (s.ledgerAfter q ev).delivered = (s.ledger q).delivered := by
  rcases s.ledgerAfter_cases q ev with ⟨hl, -⟩ | ⟨hl, -⟩ | ⟨st, payload, raw, -, hl, -⟩
  · rw [hl]
  · rw [hl]
    rfl
  · rw [hl, Ledger.delivered_insertJitter]

/-- What a tick takes is passed on. -/
theorem mem_callsOf {r r' : Room} {order : List PlayerID} {ops : List RoomOp} (ho : r.IsOrder order)
    (h : r.deliverReadyInputs order = some (r', ops)) {q : PlayerID} {st : PState}
    (hst : r.players[q]? = some st) {e : JitterEntry} (he : e ∈ st.taken r.tick) (t : ℕ) :
    ⟨t, q, e.seq, e.payload, e.raw.isSome⟩ ∈ callsOf t ops := by
  obtain ⟨-, -, pend, hsorts, rfl⟩ := Room.deliverReadyInputs_eq_some ho h
  have hready : PState.freshDeliver q e ∈ r.readyOf q := by
    unfold Room.readyOf
    rw [hst]
    exact List.mem_append_left _ (List.mem_map_of_mem he)
  have hpend : PState.freshDeliver q e ∈ pend :=
    hsorts.perm.mem_iff.2 ((Room.mem_pending ho).2 hready)
  refine List.mem_filterMap.2 ⟨Room.onInputOf (PState.freshDeliver q e), ?_, rfl⟩
  exact List.mem_append_right _ (List.mem_map_of_mem hpend)

/-- The number of inputs that leave a buffer in a tick. -/
theorem length_taken {r r' : Room} {q : PlayerID} {st : PState} (hst : r.players[q]? = some st)
    (hr' : r'.players[q]? = some (st.deliver r.tick q).1) :
    r.jbufOf q = st.taken r.tick ++ r'.jbufOf q ∧
      (r.jbufOf q).length - (r'.jbufOf q).length = (st.taken r.tick).length := by
  have hbuf : r.jbufOf q = st.taken r.tick ++ r'.jbufOf q := by
    rw [jbufOf_eq hst, jbufOf_eq hr']
    exact st.jbuf_deliver r.tick q
  refine ⟨hbuf, ?_⟩
  rw [congrArg List.length hbuf, List.length_append]
  omega

/-- A tick that goes through. -/
theorem step_tick {s : Run} (halive : s.crashed = false) {order : List PlayerID} {r' : Room}
    {ops : List RoomOp} (hd : s.room.deliverReadyInputs order = some (r', ops)) :
    s.step (.tick order) = { s with
      room := { r' with tick := r'.tick + 1 }
      ticks := s.ticks + 1
      ledger := fun q =>
        (s.ledger q).deliver ((s.room.jbufOf q).length - (r'.jbufOf q).length) s.ticks
      calls := s.calls ++ callsOf s.ticks ops } := by
  unfold step
  rw [if_neg (by rw [halive]; exact Bool.false_ne_true)]
  dsimp only
  rw [hd]

/-- The ledgers of all players are right. -/
structure Booked (s : Run) : Prop where
  tick : s.room.tick = BitVec.ofNat 32 s.ticks
  entries : ∀ q, (s.ledger q).Matches q (s.room.jbufOf q) s.calls

theorem booked_start (J B : ℕ) : Booked (start J B) := ⟨rfl, fun q => Ledger.matches_empty q _⟩

theorem booked_step (s : Run) (a : Action) (h : Booked s) (ha : s.Walks a) : Booked (s.step a) := by
  unfold step
  split_ifs with hc
  · exact h
  cases a with
  | event ev =>
    obtain ⟨hplayers, htick, -⟩ := s.room.handleEvent_spec ev
    refine ⟨htick.trans h.tick, fun q => ?_⟩
    have hq := h.entries q
    show (s.ledgerAfter q ev).Matches q ((s.room.handleEvent ev).1.jbufOf q) s.calls
    rw [jbufOf_eq (hplayers q)]
    rcases s.ledgerAfter_cases q ev with
      ⟨hl, hbuf⟩ | ⟨hl, hbuf⟩ | ⟨st, payload, raw, hst, hl, hafter⟩
    · rw [hl, hbuf]
      exact hq
    · rw [hl, hbuf]
      exact hq.clear
    · rw [hl, hafter]
      rw [jbufOf_eq hst] at hq
      have hq' : (s.ledger q).Matches q (s.room.atInput st payload).jbuf s.calls := hq
      refine hq'.insertJitter ?_ rfl
      show s.room.tick + BitVec.ofNat 32 _ = BitVec.ofNat 32 (s.ticks + _)
      rw [h.tick, BitVec.ofNat_add]
  | kick p reason =>
    obtain ⟨hplayers, htick, -⟩ := s.room.kick_spec p reason
    refine ⟨htick.trans h.tick, fun q => ?_⟩
    have hq := h.entries q
    show (if p = q then (s.ledger q).clear else s.ledger q).Matches q
      ((s.room.kick p reason).1.jbufOf q) s.calls
    rw [jbufOf_eq (hplayers q)]
    split_ifs with hpq
    · exact hq.clear
    · exact hq
  | tick order =>
    dsimp only
    cases hd : s.room.deliverReadyInputs order with
    | none => exact ⟨h.tick, h.entries⟩
    | some out =>
      obtain ⟨r', ops⟩ := out
      obtain ⟨hplayers, htick, -⟩ := Room.deliver_spec ha hd
      refine ⟨?_, fun q => ?_⟩
      · show r'.tick + 1 = BitVec.ofNat 32 (s.ticks + 1)
        rw [htick, h.tick, BitVec.ofNat_add]
        rfl
      · have hq := h.entries q
        show ((s.ledger q).deliver ((s.room.jbufOf q).length - (r'.jbufOf q).length)
          s.ticks).Matches q (r'.jbufOf q) (s.calls ++ callsOf s.ticks ops)
        cases hst : s.room.players[q]? with
        | none =>
          have hr' : r'.players[q]? = none := by rw [hplayers, hst]; rfl
          rw [jbufOf_eq hst] at hq ⊢
          rw [jbufOf_eq hr']
          have hq' : (s.ledger q).Matches q ([] ++ []) s.calls := hq
          exact hq'.deliver fun e he => by cases he
        | some st =>
          have hr' : r'.players[q]? = some (st.deliver s.room.tick q).1 := by
            rw [hplayers, hst]; rfl
          obtain ⟨hbuf, hn⟩ := length_taken hst hr'
          rw [hn]
          rw [hbuf] at hq
          exact hq.deliver fun e he => mem_callsOf ha hd hst he s.ticks

end Run

end SoupEngine.Sdk
