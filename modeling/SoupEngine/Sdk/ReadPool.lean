import SoupEngine.Sdk.Frame
import SoupEngine.Sdk.Run

/-!
# The read pool

The reader goroutine gets a buffer from the pool for every frame, and the room goroutine gives most
of them back. The two are interleaved in any order: each takes its operations on the pool, the inbox
and the room implementation one at a time.
-/

namespace SoupEngine.Sdk

open TransitionSystem

/-- The buffer that comes with an event. -/
def InEvent.raw : InEvent → Option BufId
  | .inData _ _ _ _ raw => some raw
  | _ => none

/-- The buffer that an operation puts back. -/
def RoomOp.buf : RoomOp → Option BufId
  | .put b => some b
  | _ => none

/-- What the reader does with a frame, after it has read it. -/
inductive ReaderOp
  | put (b : BufId)
  /-- The event goes into the inbox of the room. -/
  | post (ev : InEvent)

def ReaderOp.buf : ReaderOp → Option BufId
  | .put b => some b
  | .post ev => ev.raw

/-- `Server.dispatch`, `handleSessionOpen` and `routeToRoom`. The event goes to the player `dest`,
if there is one and the inbox has room. -/
def dispatch (typ : U8) (body : Bytes) (raw : BufId) (dest : Option PlayerID) : List ReaderOp :=
  let post (ev : PlayerID → InEvent) : List ReaderOp := (dest.map fun p => .post (ev p)).toList
  if typ = FrameEngineHello then
    match parseEngineHello body with
    | .error _ => []
    | .ok _ => [.put raw]
  else if typ = FrameSessionOpen then
    (match parseSessionOpen body with
      | .error _ => []
      | .ok (sess, _, _) => post (.inOpen sess)) ++ [.put raw]
  else if typ = FrameSessionClose then
    .put raw :: match parseSessionClose body with
      | .error _ => []
      | .ok (_, reason) => post fun p => .inClose p reason
  else if typ = FrameSessionResume then
    .put raw :: match parseSessionResume body with
      | .error _ => []
      | .ok (_, gap) => post fun p => .inResume p gap
  else if typ = FrameDataUp then
    match parseData body, dest with
    | .ok (_, ch, msg, payload), some p => [.post (.inData p ch msg payload raw)]
    | _, _ => [.put raw]
  else if typ = FrameSessionStats then
    .put raw :: match parseSessionStats body with
      | .error _ => []
      | .ok (_, rtt, loss, _) => post fun p => .inStats p rtt loss
  else if typ = FrameOverload then
    (match parseOverload body with
      | .error _ => []
      | .ok _ => post fun _ => .inOverload) ++ [.put raw]
  else [.put raw]

/-- The two goroutines and the pool between them. -/
structure Pool where
  /-- The buffers in the pool. -/
  free : Finset BufId
  /-- The buffer that the pool makes when it has to make one. -/
  next : BufId
  /-- The bytes in the buffers. -/
  mem : BufId → Bytes
  /-- The buffer that the reader holds to read a frame into. -/
  reader : Option BufId
  /-- What the reader has still to do with the frame before. -/
  pending : List ReaderOp
  inbox : List InEvent
  room : Room
  /-- What the room goroutine has still to do. -/
  todo : List RoomOp
  /-- The process has panicked. -/
  crashed : Bool
  /-- A buffer was put back while it was in the pool. -/
  twice : Bool

inductive PoolAction
  /-- `readPool.Get`. -/
  | get (b : BufId)
  /-- `TryDecodeFrame` fails, so that the buffer is put back. -/
  | refuse
  /-- `TryDecodeFrame` reads a frame into the buffer. -/
  | frame (typ : U8) (body : Bytes) (dest : Option PlayerID)
  /-- The next operation of the reader. -/
  | read
  /-- The room takes the next event from the inbox. -/
  | take
  | tick (order : List PlayerID)
  /-- The next operation of the room. -/
  | act
  | kick (p : PlayerID) (reason : U8)

namespace Pool

def start (JitterBufferTicks BaselineRingSize : ℕ) : Pool where
  free := ∅
  next := 0
  mem := fun _ => []
  reader := none
  pending := []
  inbox := []
  room := .new JitterBufferTicks BaselineRingSize
  todo := []
  crashed := false
  twice := false

def put (s : Pool) (b : BufId) : Pool :=
  { s with free := insert b s.free, twice := s.twice || decide (b ∈ s.free) }

def step (s : Pool) (a : PoolAction) : Pool :=
  if s.crashed = true then s
  else
    match a with
    | .get b =>
      if s.reader = none ∧ s.pending = [] then
        { s with
          free := s.free.erase b
          next := if b = s.next then s.next + 1 else s.next
          reader := some b }
      else s
    | .refuse =>
      match s.reader with
      | none => s
      | some b => { s with reader := none, pending := [.put b] }
    | .frame typ body dest =>
      match s.reader with
      | none => s
      | some b =>
        { s with
          mem := Function.update s.mem b body
          reader := none
          pending := dispatch typ body b dest }
    | .read =>
      match s.pending with
      | [] => s
      | .put b :: ops => { s.put b with pending := ops }
      | .post ev :: ops => { s with inbox := s.inbox ++ [ev], pending := ops }
    | .take =>
      match s.todo, s.inbox with
      | [], ev :: rest =>
        { s with
          room := (s.room.handleEvent ev).1, inbox := rest, todo := (s.room.handleEvent ev).2 }
      | _, _ => s
    | .tick order =>
      match s.todo with
      | [] =>
        match s.room.deliverReadyInputs order with
        | none => { s with crashed := true }
        | some (room, ops) => { s with room := { room with tick := room.tick + 1 }, todo := ops }
      | _ => s
    | .act =>
      match s.todo with
      | [] => s
      | .put b :: ops => { s.put b with todo := ops }
      | _ :: ops => { s with todo := ops }
    | .kick p reason =>
      { s with room := (s.room.kick p reason).1, todo := (s.room.kick p reason).2 ++ s.todo }

/-- The pool hands out a buffer that it has or a new one, the buffers have `maxFrameLen` bytes, and
a tick walks the players of the room. -/
def Valid (s : Pool) : PoolAction → Prop
  | .get b => b ∈ s.free ∨ b = s.next
  | .frame _ body _ => body.length ≤ maxFrameLen
  | .tick order => s.room.IsOrder order
  | _ => True

instance (s : Pool) : (a : PoolAction) → Decidable (s.Valid a)
  | .get b => inferInstanceAs (Decidable (b ∈ s.free ∨ b = s.next))
  | .frame _ body _ => inferInstanceAs (Decidable (body.length ≤ maxFrameLen))
  | .tick order => inferInstanceAs (Decidable (s.room.IsOrder order))
  | .refuse | .read | .take | .act | .kick _ _ => .isTrue trivial

/-- The buffers that are not in the pool and not in a jitter buffer. -/
def held (s : Pool) : List BufId :=
  s.reader.toList ++ s.pending.filterMap ReaderOp.buf ++ s.inbox.filterMap InEvent.raw ++
    s.todo.filterMap RoomOp.buf

end Pool

/-- The buffers in the jitter buffer of a player. -/
def Room.rawsOf (r : Room) (p : PlayerID) : List BufId := (r.jbufOf p).filterMap JitterEntry.raw

namespace PState

/-- The buffers in and out of a jitter buffer. -/
theorem count_insertJitter (st : PState) (e : JitterEntry) (b : BufId) :
    (st.insertJitter e).2.1.count b +
        ((st.insertJitter e).1.jbuf.filterMap JitterEntry.raw).count b =
      e.raw.toList.count b + (st.jbuf.filterMap JitterEntry.raw).count b := by
  rcases st.insertJitter_cases e with hst | hst
  · rw [hst]
  · rw [hst]
    dsimp only
    have hins : ∀ xs : List JitterEntry, ∀ i ≤ xs.length,
        ((xs.insertIdx i e).filterMap JitterEntry.raw).count b =
          e.raw.toList.count b + (xs.filterMap JitterEntry.raw).count b := by
      intro xs i hi
      rw [((List.perm_insertIdx e xs hi).filterMap _).count_eq, List.filterMap_cons]
      cases e.raw with
      | none => exact (Nat.zero_add _).symm
      | some c => rw [← List.count_append]; rfl
    rw [hins _ _ List.findIdx_le_length]
    split_ifs with hfull
    · cases st.jbuf with
      | nil => exact Nat.zero_add _
      | cons x xs =>
        rw [List.head?_cons, Option.bind_some, List.tail_cons, List.filterMap_cons]
        cases x.raw with
        | none => exact Nat.zero_add _
        | some c =>
          have hcons : (c :: xs.filterMap JitterEntry.raw).count b =
              [c].count b + (xs.filterMap JitterEntry.raw).count b := by
            rw [← List.count_append]
            rfl
          dsimp only
          rw [Option.toList_some, hcons]
          omega
    · exact Nat.zero_add _

end PState

/-! ## What an event does with its buffer -/

namespace Room

theorem rawsOf_of_players_eq {r r' : Room} {q : PlayerID} (h : r'.players[q]? = r.players[q]?) :
    r'.jbufOf q = r.jbufOf q := by
  unfold jbufOf
  rw [h]

/-- Where the entries of a jitter buffer come from. -/
def Arrives (r : Room) (ev : InEvent) (r' : Room) : Prop :=
  ∀ q, ∀ e ∈ r'.jbufOf q, e ∈ r.jbufOf q ∨
    ∃ p ch msg payload raw, ev = .inData p ch msg payload raw ∧ e.raw = some raw ∧
    e.payload <:+ payload

/-- An event moves buffers to and from the jitter buffer of one player, and adds its own. -/
structure Moves (r : Room) (ev : InEvent) (r' : Room) (ops : List RoomOp) (p : PlayerID) :
    Prop where
  others : ∀ q, q ≠ p → r'.rawsOf q = r.rawsOf q
  count : ∀ b, (ops.filterMap RoomOp.buf).count b + (r'.rawsOf p).count b ≤
    ev.raw.toList.count b + (r.rawsOf p).count b
  arrives : r.Arrives ev r'
  /-- What is passed on is put back afterwards. -/
  backed : ∀ q seq payload b rest, .onInput q seq payload (some b) :: rest <:+ ops →
    .put b ∈ rest ∧ ∃ p ch msg, ev = .inData p ch msg payload b

theorem Moves.of_quiet {r r' : Room} {ev : InEvent} {ops : List RoomOp} {p : PlayerID}
    (hothers : ∀ q, q ≠ p → r'.jbufOf q = r.jbufOf q)
    (hp : r'.jbufOf p = r.jbufOf p ∨ r'.jbufOf p = [])
    (hops : ∀ op ∈ ops, op.buf = none ∧ ∀ q seq payload b, op ≠ .onInput q seq payload (some b)) :
    Moves r ev r' ops p where
  others := by
    intro q hq
    unfold rawsOf
    rw [hothers q hq]
  count := by
    intro b
    have hnil : ops.filterMap RoomOp.buf = [] :=
      List.filterMap_eq_nil_iff.2 fun op hop => (hops op hop).1
    have hle : (r'.rawsOf p).count b ≤ (r.rawsOf p).count b := by
      unfold rawsOf
      rcases hp with h | h
      · rw [h]
      · rw [h]
        exact Nat.zero_le _
    rw [hnil, List.count_nil]
    omega
  arrives := by
    intro q e he
    left
    by_cases hq : q = p
    · rw [hq] at he ⊢
      rcases hp with h | h
      · rwa [h] at he
      · rw [h] at he
        cases he
    · rwa [hothers q hq] at he
  backed := by
    intro q seq payload b rest hs
    exact absurd rfl ((hops _ (hs.subset List.mem_cons_self)).2 q seq payload b)

theorem handleCh1Input_moves (r : Room) (p : PlayerID) (msg : U16) (payload : Bytes) (raw : BufId) :
    Moves r (.inData p ChInput msg payload raw) (r.handleCh1Input p payload raw).1
      (r.handleCh1Input p payload raw).2 p := by
  have hreject : Moves r (.inData p ChInput msg payload raw) r [.put raw] p := by
    refine ⟨fun _ _ => rfl, fun b => le_refl _, fun q e he => .inl he, ?_⟩
    intro q seq payload b rest hs
    have := List.mem_singleton.1 (hs.subset List.mem_cons_self)
    cases this
  obtain ⟨hplayers, -, -⟩ := r.handleCh1Input_spec p payload raw
  unfold handleCh1Input at hplayers ⊢
  cases hst : r.players[p]? with
  | none => exact hreject
  | some st =>
    rw [hst] at hplayers
    dsimp only at hplayers ⊢
    by_cases hlen : payload.length < inputHeaderLen
    · rw [if_pos hlen]
      exact hreject
    · rw [if_neg hlen] at hplayers ⊢
      dsimp only at hplayers ⊢
      set e := r.inputEntry (r.atInput st payload) payload raw with he
      set out := (r.atInput st payload).insertJitter e with hout
      have hbuf : ∀ q, q ≠ p → ({ r with players := r.players.insert p out.1 } : Room).jbufOf q =
          r.jbufOf q := by
        intro q hq
        refine rawsOf_of_players_eq ((hplayers q).trans ?_)
        rw [if_neg fun h => hq h.1.symm]
      have hbufp : ({ r with players := r.players.insert p out.1 } : Room).jbufOf p =
          out.1.jbuf := by
        rw [Run.jbufOf_eq (Map.getElem?_insert _ p p _), if_pos rfl]
        rfl
      have hold : r.jbufOf p = (r.atInput st payload).jbuf := Run.jbufOf_eq hst
      refine ⟨fun q hq => ?_, fun b => ?_, fun q x hx => ?_, fun q seq payload b rest hs => ?_⟩
      · unfold rawsOf
        rw [hbuf q hq]
      · unfold rawsOf
        have hops : (out.2.1.map RoomOp.put).filterMap RoomOp.buf = out.2.1 := by
          rw [List.filterMap_map]
          exact List.filterMap_some
        rw [hops, hbufp, hold]
        exact le_of_eq ((r.atInput st payload).count_insertJitter e b)
      · by_cases hq : q = p
        · rw [hq] at hx ⊢
          rw [hbufp] at hx
          rw [hold]
          rcases (r.atInput st payload).insertJitter_cases e with hcase | hcase
          · rw [hout, hcase] at hx
            exact .inl hx
          · rw [hout, hcase] at hx
            rcases List.eq_or_mem_of_mem_insertIdx hx with rfl | hx
            · exact .inr ⟨p, ChInput, msg, payload, raw, rfl, rfl, List.drop_suffix _ _⟩
            · left
              split_ifs at hx
              · exact List.mem_of_mem_tail hx
              · exact hx
        · rw [hbuf q hq] at hx
          exact .inl hx
      · obtain ⟨_, _, h⟩ := List.mem_map.1 (hs.subset List.mem_cons_self)
        cases h

/-- **An event** and its buffer. -/
theorem handleEvent_moves (r : Room) (ev : InEvent) :
    ∃ p, Moves r ev (r.handleEvent ev).1 (r.handleEvent ev).2 p := by
  have hplayers := (r.handleEvent_spec ev).1
  have hbuf : ∀ q, (r.handleEvent ev).1.jbufOf q = ((r.stateAfter q ev).map PState.jbuf).getD [] :=
    fun q => Run.jbufOf_eq (hplayers q)
  cases ev with
  | inOpen sess p =>
    refine ⟨p, Moves.of_quiet (fun q hq => ?_) ?_ ?_⟩
    · rw [hbuf]
      simp only [stateAfter, if_neg (Ne.symm hq)]
      rfl
    · left
      rw [hbuf]
      unfold stateAfter jbufOf
      dsimp only
      rw [if_pos rfl]
      cases r.players[p]? with
      | none => rfl
      | some st => rfl
    · simp only [handleEvent]
      split_ifs
      · exact fun op hop => absurd hop List.not_mem_nil
      · intro op hop
        rw [List.mem_singleton.1 hop]
        exact ⟨rfl, fun q seq payload b h => by cases h⟩
  | inClose p reason =>
    refine ⟨p, Moves.of_quiet (fun q hq => ?_) (.inr ?_) ?_⟩
    · rw [hbuf]
      simp only [stateAfter, if_neg (Ne.symm hq)]
      rfl
    · rw [hbuf]
      simp only [stateAfter, if_pos]
      rfl
    · simp only [handleEvent]
      cases r.players[p]? with
      | none => exact fun op hop => absurd hop List.not_mem_nil
      | some st =>
        intro op hop
        rcases List.mem_cons.1 hop with rfl | hop
        · exact ⟨rfl, fun q seq payload b h => by cases h⟩
        · rw [List.mem_singleton.1 hop]
          exact ⟨rfl, fun q seq payload b h => by cases h⟩
  | inResume p gap =>
    refine ⟨p, Moves.of_quiet (fun q hq => ?_) (.inr ?_) ?_⟩
    · rw [hbuf]
      simp only [stateAfter, if_neg (Ne.symm hq)]
      rfl
    · rw [hbuf]
      simp only [stateAfter, if_pos]
      cases r.players[p]? with
      | none => rfl
      | some st => rfl
    · simp only [handleEvent]
      cases r.players[p]? with
      | none => exact fun op hop => absurd hop List.not_mem_nil
      | some st =>
        intro op hop
        rw [List.mem_singleton.1 hop]
        exact ⟨rfl, fun q seq payload b h => by cases h⟩
  | inData p ch msg payload raw =>
    refine ⟨p, ?_⟩
    simp only [handleEvent]
    by_cases hch : ch = ChInput
    · rw [if_pos hch, hch]
      exact r.handleCh1Input_moves p msg payload raw
    · rw [if_neg hch]
      split_ifs
      · -- the buffer is put back after the call
        refine ⟨fun _ _ => rfl, fun b => le_refl _, fun q e he => .inl he, ?_⟩
        intro q seq payload' b rest hs
        rcases List.suffix_cons_iff.1 hs with h | h
        · obtain ⟨h1, rfl⟩ := List.cons.inj h
          cases h1
          exact ⟨List.mem_cons_self, p, ch, _, rfl⟩
        · have := List.mem_singleton.1 (h.subset List.mem_cons_self)
          cases this
      · exact Moves.of_quiet (fun _ _ => rfl) (.inl rfl) fun op hop => absurd hop List.not_mem_nil
  | inStats p rtt loss =>
    refine ⟨p, Moves.of_quiet (fun q hq => ?_) (.inl ?_) ?_⟩
    · rw [hbuf]
      simp only [stateAfter, if_neg (Ne.symm hq)]
      rfl
    · rw [hbuf]
      unfold stateAfter jbufOf
      dsimp only
      rw [if_pos rfl]
      cases r.players[p]? with
      | none => rfl
      | some st => rfl
    · simp only [handleEvent]
      cases r.players[p]? with
      | none => exact fun op hop => absurd hop List.not_mem_nil
      | some st => exact fun op hop => absurd hop List.not_mem_nil
  | inOverload =>
    exact ⟨0, Moves.of_quiet (fun _ _ => rfl) (.inl rfl) fun op hop => absurd hop List.not_mem_nil⟩

end Room

end SoupEngine.Sdk
