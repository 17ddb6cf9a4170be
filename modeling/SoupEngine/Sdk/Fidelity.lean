import SoupEngine.Sdk.Callbacks
import SoupEngine.Sdk.Run

/-!
# Replays of live runs

A room with a recording handles events, kicks players and ticks, in any order, and is stopped in the
end. Only what a tick delivers is recorded, in the order of delivery; a replay goes by the order of
the players. `replay_faithful_iff`: so a replay makes the same calls exactly if no other input has
come, every tick has delivered in the order of the players, there is something to replay that fits
the file, and the room asks nothing of its `ctx` over these calls. A room that answers every input
is never replayed (`echo_unfaithful`).
-/

namespace SoupEngine.Sdk

open InsertionSort TransitionSystem

/-- What of the configuration a recording depends on, and the seed of the room. -/
structure RecordConfig where
  JitterBufferTicks : ℕ
  BaselineRingSize : ℕ
  TickHz : ℤ
  seed : U64

namespace RecordConfig

/-- The rate, which `NewServer` sets if it is not positive. -/
def hz (cfg : RecordConfig) : ℕ := if cfg.TickHz ≤ 0 then 20 else cfg.TickHz.toNat

def dtMS (cfg : RecordConfig) : U32 := BitVec.ofNat 32 (1000 / cfg.hz)

end RecordConfig

/-- A room with a recording. -/
structure Recording where
  room : Room
  /-- The file of the `ReplayWriter`. -/
  file : Bytes
  /-- The calls of the implementation. -/
  calls : List ImplCall
  /-- The process has panicked. -/
  crashed : Bool

def ImplCall.ofOp : RoomOp → Option ImplCall
  | .onInput player seq payload _ => some (.OnInput player seq payload)
  | .onJoin player => some (.OnJoin player)
  | .onLeave player why => some (.OnLeave player why)
  | .onResume player gapMS => some (.OnResume player gapMS)
  | _ => none

def Action.isTick : Action → Bool
  | .tick _ => true
  | _ => false

namespace Room

/-- What a player has ready is no later than what a greater player has ready. -/
def InOrder (r : Room) : Prop :=
  ∀ p q : PlayerID, p < q → ∀ a ∈ r.readyOf p, ∀ b ∈ r.readyOf q, a.clientTick ≤ b.clientTick

end Room

namespace Recording

/-- `newRoom`. -/
def start (cfg : RecordConfig) : Recording :=
  ⟨.new cfg.JitterBufferTicks cfg.BaselineRingSize, newReplayWriter cfg.seed cfg.hz, [], false⟩

/-- The call of `Tick` comes behind the delivery, and then `scheduleSnapshots`, which divides by the
rate. -/
def step (cfg : RecordConfig) (s : Recording) (a : Action) : Recording :=
  if s.crashed = true then s
  else
    match a with
    | .event ev =>
      let (room, ops) := s.room.handleEvent ev
      { s with room, calls := s.calls ++ ops.filterMap ImplCall.ofOp }
    | .kick p reason =>
      let (room, ops) := s.room.kick p reason
      { s with room, calls := s.calls ++ ops.filterMap ImplCall.ofOp }
    | .tick order =>
      match s.room.deliverReadyInputs order with
      | none => { s with crashed := true }
      | some (room, ops) =>
        if BitVec.ofNat 32 cfg.hz = 0 then { s with crashed := true }
        else
          { s with
            room := { room with tick := room.tick + 1 }
            file := (inputs ops).foldl
              (fun file x => Record file ⟨s.room.tick, x.1, x.2.1, x.2.2⟩) s.file
            calls := s.calls ++ ops.filterMap ImplCall.ofOp ++ [.Tick s.room.tick cfg.dtMS] }

/-- A room in which this has happened. -/
def play (cfg : RecordConfig) (as : List Action) : Recording := as.foldl (step cfg) (start cfg)

theorem play_concat (cfg : RecordConfig) (as : List Action) (a : Action) :
    play cfg (as ++ [a]) = (play cfg as).step cfg a := by
  unfold play
  rw [List.foldl_append]
  rfl

/-- A tick walks the players of the room. -/
def Walks (s : Recording) : Action → Prop
  | .tick order => s.room.IsOrder order
  | _ => True

instance (s : Recording) : (a : Action) → Decidable (s.Walks a)
  | .tick order => inferInstanceAs (Decidable (s.room.IsOrder order))
  | .event _ => .isTrue trivial
  | .kick _ _ => .isTrue trivial

/-- The file that `stop` leaves. -/
def stop (s : Recording) : Bytes := Finish s.file s.room.tick

/-- No message of a player in the room comes but in channel 1. -/
def Buffered (s : Recording) : Action → Prop
  | .event (.inData player ch _ _ _) => ch = ChInput ∨ player ∉ s.room.players
  | _ => True

/-- A tick delivers in the order of the players. -/
def Orderly (s : Recording) : Action → Prop
  | .tick _ => s.room.InOrder
  | _ => True

/-- A tick delivers no long payload. -/
def Short (s : Recording) : Action → Prop
  | .tick _ => ∀ p, ∀ d ∈ s.room.readyOf p, d.payload.length ≤ 4096
  | _ => True

/-- A tick delivers nothing. -/
def Idle (s : Recording) : Action → Prop
  | .tick _ => ∀ p, s.room.readyOf p = []
  | _ => True

end Recording

/-- A run of a room up to its stop. -/
structure Live (cfg : RecordConfig) where
  actions : List Action
  walks : Allowed (Recording.step cfg) Recording.Walks (.start cfg) actions
  alive : (Recording.play cfg actions).crashed = false

namespace Live

variable {cfg : RecordConfig}

/-- Where the run ends. -/
def last (l : Live cfg) : Recording := Recording.play cfg l.actions

/-- The replay of the file gets through the same calls of `OnInput` and `Tick`, and a room that
depends on these alone ends with the hash that it has after the run, whatever its `ctx` has answered
there. -/
def Faithful (l : Live cfg) {σ : Type} (impl : Impl σ) : Prop :=
  ∃ calls n lastHash, replayCalls l.last.stop = .ok (cfg.seed, calls, n) ∧
    calls.filter ImplCall.counted = l.last.calls.filter ImplCall.counted ∧
    impl.Replay l.last.stop = .ok (lastHash, n) ∧
    (impl.InputOnly → ∀ asked st, impl.Lives cfg.seed l.last.calls asked st →
      lastHash = impl.StateHash st)

/-- The calls of `OnInput` and `Tick`, and a player joins before its first input. -/
def fedCalls (l : Live cfg) : List ImplCall := withJoins [] (l.last.calls.filter ImplCall.counted)

end Live

/-! ## The order of a tick -/

theorem Room.inOrder_iff {r : Room} {order : List PlayerID} (ho : r.IsOrder order)
    {pend : List PendingDeliver} (h : Sorts PendingDeliver.key (r.pending order) pend) :
    r.InOrder ↔ pend.Pairwise fun a b => a.player.toNat ≤ b.player.toNat := by
  have hmem (d : PendingDeliver) : d ∈ pend ↔ d ∈ r.readyOf d.player := by
    rw [h.perm.mem_iff]
    exact Room.mem_pending ho
  have hkey (a b : PendingDeliver) : a.key ≤ b.key ↔ a.clientTick.toNat < b.clientTick.toNat ∨
      a.clientTick.toNat = b.clientTick.toNat ∧ a.player.toNat ≤ b.player.toNat :=
        Prod.Lex.toLex_le_toLex
  constructor
  · intro hin
    refine h.sorted.imp_of_mem fun {a b} ha hb hle => ?_
    by_contra hlt
    have hticks :=
      hin b.player a.player (BitVec.lt_def.2 (by omega)) b ((hmem b).1 hb) a ((hmem a).1 ha)
    rw [BitVec.le_def] at hticks
    rcases (hkey a b).1 hle with hless | ⟨-, hplayer⟩
    · omega
    · omega
  · intro hplayers p q hpq a ha b hb
    have hap := player_of_mem_readyOf ha
    have hbq := player_of_mem_readyOf hb
    -- of two inputs of the tick the later one is of the greater player
    have hfront : pend.Pairwise fun a b => a.clientTick.toNat < b.clientTick.toNat →
        a.player.toNat ≤ b.player.toNat := by
      refine hplayers.imp fun {a b} hle _ => ?_
      exact hle
    have hback : pend.Pairwise fun a b => b.clientTick.toNat < a.clientTick.toNat →
        b.player.toNat ≤ a.player.toNat := by
      refine h.sorted.imp fun {a b} hle hlt => ?_
      rcases (hkey a b).1 hle with hless | ⟨heq, -⟩
      · omega
      · omega
    have hany := List.Pairwise.forall_of_forall_of_flip (fun a _ _ => le_rfl) hfront hback
    have hba := hany ((hmem b).2 (by rw [hbq]; exact hb)) ((hmem a).2 (by rw [hap]; exact ha))
    rw [hap, hbq] at hba
    rw [BitVec.lt_def] at hpq
    rw [BitVec.le_def]
    by_contra hlt
    have hle := hba (by omega)
    omega

/-! ## What a run records -/

open Recording

/-- What a list of actions has recorded, if its ticks have delivered these inputs. -/
structure Log (cfg : RecordConfig) (as : List Action) (Ds : List (List PendingDeliver)) : Prop where
  tick : (play cfg as).room.tick = BitVec.ofNat 32 Ds.length
  file : (play cfg as).file =
    newReplayWriter cfg.seed cfg.hz ++ (records 0 Ds).flatMap ReplayRec.bytes
  ticks : (play cfg as).calls.countP ImplCall.isTick = Ds.length
  count : as.countP Action.isTick = Ds.length
  inputs : Ds.flatten.length ≤ (play cfg as).calls.countP ImplCall.isInput
  called : ∀ D ∈ Ds, ∀ d ∈ D, d.call ∈ (play cfg as).calls
  alone : Allowed (step cfg) Buffered (.start cfg) as →
    (play cfg as).calls.filter ImplCall.counted = tickCalls cfg.dtMS 0 Ds
  stray : ¬ Allowed (step cfg) Buffered (.start cfg) as →
    Ds.flatten.length < (play cfg as).calls.countP ImplCall.isInput
  orderly : Allowed (step cfg) Orderly (.start cfg) as ↔
    ∀ D ∈ Ds, D.Pairwise fun a b => a.player.toNat ≤ b.player.toNat
  short : Allowed (step cfg) Short (.start cfg) as ↔
    ∀ D ∈ Ds, ∀ d ∈ D, d.payload.length ≤ 4096
  idle : Allowed (step cfg) Idle (.start cfg) as ↔ Ds.flatten = []

/-- Only counted calls are inputs or ticks. -/
theorem countP_counted {P : ImplCall → Bool} (hP : ∀ c, P c = true → c.counted = true)
    (calls : List ImplCall) :
    (calls.filter ImplCall.counted).countP P = calls.countP P := by
  rw [List.countP_filter]
  refine List.countP_congr fun c _ => ?_
  rw [Bool.and_eq_true]
  exact ⟨fun h => h.1, fun h => ⟨h, hP c h⟩⟩

theorem isTick_counted (c : ImplCall) (h : c.isTick = true) : c.counted = true := by
  cases c with
  | Tick tick dtMS => rfl
  | OnJoin | OnLeave | OnResume | OnInput => cases h

theorem isInput_counted (c : ImplCall) (h : c.isInput = true) : c.counted = true := by
  cases c with
  | OnInput player seq payload => rfl
  | OnJoin | OnLeave | OnResume | Tick => cases h

/-- Calls that are not counted are neither inputs nor ticks. -/
theorem countP_uncounted {calls : List ImplCall} (h : calls.filter ImplCall.counted = []) :
    calls.countP ImplCall.isTick = 0 ∧ calls.countP ImplCall.isInput = 0 := by
  rw [← countP_counted isTick_counted, ← countP_counted isInput_counted, h]
  exact ⟨rfl, rfl⟩

theorem calls_puts (puts : List BufId) : (puts.map RoomOp.put).filterMap ImplCall.ofOp = [] := by
  rw [List.filterMap_map]
  exact List.filterMap_eq_nil_iff.2 fun b _ => rfl

/-- An event makes no counted call, but for a message outside channel 1. -/
theorem calls_event (s : Recording) (ev : InEvent) :
    ((s.room.handleEvent ev).2.filterMap ImplCall.ofOp).countP ImplCall.isTick = 0 ∧
      (s.Buffered (.event ev) →
        ((s.room.handleEvent ev).2.filterMap ImplCall.ofOp).filter ImplCall.counted = []) ∧
      (¬ s.Buffered (.event ev) →
        0 < ((s.room.handleEvent ev).2.filterMap ImplCall.ofOp).countP ImplCall.isInput) := by
  have hquiet {ops : List RoomOp} (h : (ops.filterMap ImplCall.ofOp).filter ImplCall.counted = [])
      (hbuf : s.Buffered (.event ev)) :
      (ops.filterMap ImplCall.ofOp).countP ImplCall.isTick = 0 ∧
        (s.Buffered (.event ev) → (ops.filterMap ImplCall.ofOp).filter ImplCall.counted = []) ∧
        (¬ s.Buffered (.event ev) → 0 < (ops.filterMap ImplCall.ofOp).countP ImplCall.isInput) :=
    ⟨(countP_uncounted h).1, fun _ => h, fun hnot => absurd hbuf hnot⟩
  cases ev with
  | inOpen sess p =>
    refine hquiet ?_ trivial
    unfold Room.handleEvent
    dsimp only
    split_ifs <;> rfl
  | inClose p reason =>
    refine hquiet ?_ trivial
    unfold Room.handleEvent
    dsimp only
    cases s.room.players[p]? <;> rfl
  | inResume p gapMS =>
    refine hquiet ?_ trivial
    unfold Room.handleEvent
    dsimp only
    cases s.room.players[p]? <;> rfl
  | inStats p rtt loss =>
    refine hquiet ?_ trivial
    unfold Room.handleEvent
    dsimp only
    cases s.room.players[p]? <;> rfl
  | inOverload => exact hquiet rfl trivial
  | inData p ch msg payload raw =>
    by_cases hch : ch = ChInput
    · refine hquiet ?_ (.inl hch)
      unfold Room.handleEvent
      dsimp only
      rw [if_pos hch]
      have hputs : ∃ bs : List BufId,
          (s.room.handleCh1Input p payload raw).2 = bs.map RoomOp.put := by
        unfold Room.handleCh1Input
        cases s.room.players[p]? with
        | none => exact ⟨[raw], rfl⟩
        | some st =>
          dsimp only
          split_ifs
          · exact ⟨[raw], rfl⟩
          · exact ⟨_, rfl⟩
      obtain ⟨bs, hbs⟩ := hputs
      rw [hbs, calls_puts]
      rfl
    · by_cases hp : p ∈ s.room.players
      · have hnot : ¬ s.Buffered (.event (.inData p ch msg payload raw)) :=
          not_or.2 ⟨hch, not_not.2 hp⟩
        unfold Room.handleEvent
        dsimp only
        rw [if_neg hch, if_pos hp]
        exact ⟨rfl, fun hbuf => absurd hbuf hnot, fun _ => Nat.zero_lt_one⟩
      · refine hquiet ?_ (.inr hp)
        unfold Room.handleEvent
        dsimp only
        rw [if_neg hch, if_neg hp]
        rfl

theorem calls_kick (r : Room) (p : PlayerID) (reason : U8) :
    ((r.kick p reason).2.filterMap ImplCall.ofOp).filter ImplCall.counted = [] := by
  unfold Room.kick
  cases r.players[p]? <;> rfl

theorem calls_deliver (puts : List BufId) (pend : List PendingDeliver) :
    (puts.map RoomOp.put ++ pend.map Room.onInputOf).filterMap ImplCall.ofOp =
      pend.map PendingDeliver.call := by
  have hpend : (pend.map Room.onInputOf).filterMap ImplCall.ofOp =
      pend.map PendingDeliver.call := by
    rw [List.filterMap_map, ← List.filterMap_eq_map]
    rfl
  rw [List.filterMap_append, calls_puts, hpend, List.nil_append]

section Steps

variable {cfg : RecordConfig} {as : List Action} {Ds : List (List PendingDeliver)}

/-- A step between two ticks. -/
theorem Log.still (h : Log cfg as Ds) {a : Action} (ha : a.isTick = false) {calls : List ImplCall}
    (htick : ((play cfg as).step cfg a).room.tick =
      (play cfg as).room.tick)
    (hfile : ((play cfg as).step cfg a).file =
      (play cfg as).file)
    (hcalls : ((play cfg as).step cfg a).calls =
      (play cfg as).calls ++ calls)
    (hticks : calls.countP ImplCall.isTick = 0)
    (hbuf : (play cfg as).Buffered a → calls.filter ImplCall.counted = [])
    (hstray : ¬ (play cfg as).Buffered a → 0 < calls.countP ImplCall.isInput) :
    Log cfg (as ++ [a]) Ds := by
  have hother : (play cfg as).Orderly a ∧
      (play cfg as).Short a ∧ (play cfg as).Idle a := by
    cases a with
    | event ev => exact ⟨trivial, trivial, trivial⟩
    | kick p reason => exact ⟨trivial, trivial, trivial⟩
    | tick order => cases ha
  refine ⟨?_, ?_, ?_, ?_, ?_, fun D hD d hd => ?_, fun hall => ?_, fun hnot => ?_, ?_, ?_, ?_⟩
  · rw [play_concat, htick, h.tick]
  · rw [play_concat, hfile, h.file]
  · rw [play_concat, hcalls, List.countP_append, hticks, Nat.add_zero, h.ticks]
  · rw [List.countP_append, List.countP_cons_of_neg (by rw [ha]; exact Bool.false_ne_true),
      List.countP_nil, Nat.add_zero, h.count]
  · rw [play_concat, hcalls, List.countP_append]
    exact h.inputs.trans (Nat.le_add_right _ _)
  · rw [play_concat, hcalls]
    exact List.mem_append_left _ (h.called D hD d hd)
  · obtain ⟨hbefore, hlast⟩ := allowed_concat.1 hall
    rw [play_concat, hcalls, List.filter_append, hbuf hlast, List.append_nil, h.alone hbefore]
  · rw [play_concat, hcalls, List.countP_append]
    by_cases hbefore : Allowed (step cfg) Buffered (.start cfg) as
    · have hpos := hstray fun hlast => hnot (allowed_concat.2 ⟨hbefore, hlast⟩)
      have hle := h.inputs
      omega
    · have hlt := h.stray hbefore
      omega
  · rw [allowed_concat, ← h.orderly]
    exact and_iff_left hother.1
  · rw [allowed_concat, ← h.short]
    exact and_iff_left hother.2.1
  · rw [allowed_concat, ← h.idle]
    exact and_iff_left hother.2.2

/-- A tick that goes through. -/
theorem step_deliver {s : Recording} (halive : s.crashed = false) (hhz : BitVec.ofNat 32 cfg.hz ≠ 0)
    {order : List PlayerID} {r' : Room} {ops : List RoomOp}
    (hd : s.room.deliverReadyInputs order = some (r', ops)) :
    s.step cfg (.tick order) = { s with
      room := { r' with tick := r'.tick + 1 }
      file := (inputs ops).foldl (fun file x => Record file ⟨s.room.tick, x.1, x.2.1, x.2.2⟩) s.file
      calls := s.calls ++ ops.filterMap ImplCall.ofOp ++ [.Tick s.room.tick cfg.dtMS] } := by
  unfold Recording.step
  rw [if_neg (by rw [halive]; exact Bool.false_ne_true)]
  dsimp only
  rw [hd]
  dsimp only
  rw [if_neg hhz]

/-- What the players have ready is what the tick delivers. -/
theorem mem_delivered {r : Room} {order : List PlayerID} (ho : r.IsOrder order)
    {pend : List PendingDeliver} (h : Sorts PendingDeliver.key (r.pending order) pend)
    (P : PendingDeliver → Prop) :
    (∀ p, ∀ d ∈ r.readyOf p, P d) ↔ ∀ d ∈ pend, P d := by
  have hmem (d : PendingDeliver) : d ∈ pend ↔ d ∈ r.readyOf d.player := by
    rw [h.perm.mem_iff]
    exact Room.mem_pending ho
  refine ⟨fun hall d hd => hall d.player d ((hmem d).1 hd),
    fun hall p d hd => hall d ((hmem d).2 ?_)⟩
  rw [Room.player_of_mem_readyOf hd]
  exact hd

/-- A tick records what it delivers. -/
theorem Log.tick_step (h : Log cfg as Ds) (halive : (play cfg as).crashed = false)
    (hhz : BitVec.ofNat 32 cfg.hz ≠ 0) {order : List PlayerID}
    (ho : (play cfg as).room.IsOrder order) {r' : Room} {ops : List RoomOp}
    (hd : (play cfg as).room.deliverReadyInputs order = some (r', ops)) :
    ∃ pend, Log cfg (as ++ [.tick order]) (Ds ++ [pend]) := by
  obtain ⟨-, -, pend, hsorts, rfl⟩ := Room.deliverReadyInputs_eq_some ho hd
  have htick : r'.tick = (play cfg as).room.tick := (Room.deliver_spec ho hd).2.1
  have hstep := step_deliver halive hhz hd
  rw [inputs_deliver, calls_deliver] at hstep
  have hplay := (play_concat cfg as (.tick order)).trans hstep
  have hfile : (pend.map PendingDeliver.input).foldl
      (fun file x => Record file ⟨(play cfg as).room.tick, x.1, x.2.1, x.2.2⟩) (play cfg as).file =
        (play cfg as).file ++ (pend.map (PendingDeliver.record (BitVec.ofNat 32 Ds.length))).flatMap
          ReplayRec.bytes := by
    rw [← foldl_Record, List.foldl_map, List.foldl_map, h.tick]
    rfl
  have hcounted : (pend.map PendingDeliver.call).filter ImplCall.counted =
      pend.map PendingDeliver.call := by
    refine List.filter_eq_self.2 fun c hc => ?_
    obtain ⟨d, -, rfl⟩ := List.mem_map.1 hc
    rfl
  have hinputs : (pend.map PendingDeliver.call).countP ImplCall.isInput = pend.length := by
    rw [List.countP_map, List.countP_eq_length]
    exact fun d _ => rfl
  have hticks : (pend.map PendingDeliver.call).countP ImplCall.isTick = 0 := by
    rw [List.countP_map, List.countP_eq_zero]
    exact fun d _ => Bool.false_ne_true
  refine ⟨pend, ?_, ?_, ?_, ?_, ?_, fun D hD d hd => ?_, fun hall => ?_, fun hnot => ?_, ?_, ?_, ?_⟩
  · rw [hplay, List.length_append, List.length_singleton, BitVec.ofNat_add]
    show r'.tick + 1 = _
    rw [htick, h.tick]
    rfl
  · rw [hplay, records_concat, Nat.zero_add, List.flatMap_append, ← List.append_assoc, ← h.file]
    exact hfile
  · rw [hplay, List.length_append]
    dsimp only
    rw [List.countP_append, List.countP_append, h.ticks, hticks]
    rfl
  · rw [List.countP_append, h.count, List.length_append]
    rfl
  · rw [hplay, List.flatten_append, List.length_append, List.flatten_singleton]
    dsimp only
    rw [List.countP_append, List.countP_append, hinputs]
    calc Ds.flatten.length + pend.length
        ≤ (play cfg as).calls.countP ImplCall.isInput + pend.length :=
          Nat.add_le_add_right h.inputs _
      _ ≤ _ := Nat.le_add_right _ _
  · rw [hplay]
    rcases List.mem_append.1 hD with hD | hD
    · exact List.mem_append_left _ (List.mem_append_left _ (h.called D hD d hd))
    · rw [List.mem_singleton.1 hD] at hd
      exact List.mem_append_left _ (List.mem_append_right _ (List.mem_map_of_mem hd))
  · rw [hplay, tickCalls_concat, Nat.zero_add, ← h.alone (allowed_concat.1 hall).1]
    dsimp only
    rw [List.filter_append, List.filter_append, hcounted, h.tick, List.append_assoc]
    rfl
  · have hbefore := h.stray fun hall => hnot (allowed_concat.2 ⟨hall, trivial⟩)
    rw [hplay, List.flatten_append, List.length_append, List.flatten_singleton]
    dsimp only
    rw [List.countP_append, List.countP_append, hinputs]
    exact (Nat.add_lt_add_right hbefore _).trans_le (Nat.le_add_right _ _)
  · rw [allowed_concat, h.orderly, List.forall_mem_append, List.forall_mem_singleton,
      ← Room.inOrder_iff ho hsorts]
    rfl
  · rw [allowed_concat, h.short, List.forall_mem_append, List.forall_mem_singleton,
      ← mem_delivered ho hsorts fun d => d.payload.length ≤ 4096]
    rfl
  · rw [allowed_concat, h.idle, List.flatten_append, List.flatten_singleton, List.append_eq_nil_iff]
    refine and_congr_right fun _ => ?_
    have hnone := mem_delivered ho hsorts fun _ => False
    rw [List.eq_nil_iff_forall_not_mem, ← hnone]
    exact forall_congr' fun p => List.eq_nil_iff_forall_not_mem

/-- A crashed room stays crashed. -/
theorem alive_before {a : Action} (h : (play cfg (as ++ [a])).crashed = false) :
    (play cfg as).crashed = false := by
  by_contra hcrash
  rw [Bool.not_eq_false] at hcrash
  have hstay : (play cfg as).step cfg a = play cfg as := if_pos hcrash
  rw [play_concat, hstay, hcrash] at h
  cases h

/-- **The log.** Every run has one. -/
theorem exists_log (hw : Allowed (step cfg) Walks (.start cfg) as)
    (h : (play cfg as).crashed = false) :
    ∃ Ds, Log cfg as Ds := by
  induction as using List.reverseRecOn with
  | nil =>
    refine ⟨[], rfl, (List.append_nil _).symm, rfl, rfl, le_rfl, fun D hD => (by cases hD),
      fun _ => rfl, fun hnot => absurd trivial hnot, ?_, ?_, ?_⟩
    · exact iff_of_true trivial fun D hD => by cases hD
    · exact iff_of_true trivial fun D hD => by cases hD
    · exact iff_of_true trivial rfl
  | append_singleton as a ih =>
    obtain ⟨hbefore, hwalk⟩ := allowed_concat.1 hw
    have halive := alive_before h
    obtain ⟨Ds, hlog⟩ := ih hbefore halive
    have hgo : ¬ (play cfg as).crashed = true := by rw [halive]; exact Bool.false_ne_true
    cases a with
    | event ev =>
      have hstep : (play cfg as).step cfg (.event ev) = { play cfg as with
          room := ((play cfg as).room.handleEvent ev).1
          calls := (play cfg as).calls ++
            ((play cfg as).room.handleEvent ev).2.filterMap ImplCall.ofOp } := if_neg hgo
      obtain ⟨hticks, hbuf, hstray⟩ := calls_event (play cfg as) ev
      refine ⟨Ds, hlog.still rfl ?_ (by rw [hstep]) (by rw [hstep]) hticks hbuf hstray⟩
      rw [hstep]
      exact (Room.handleEvent_spec _ ev).2.1
    | kick p reason =>
      have hstep : (play cfg as).step cfg (.kick p reason) = { play cfg as with
          room := ((play cfg as).room.kick p reason).1
          calls := (play cfg as).calls ++
            ((play cfg as).room.kick p reason).2.filterMap ImplCall.ofOp } := if_neg hgo
      have hquiet := calls_kick (play cfg as).room p reason
      refine ⟨Ds, hlog.still rfl ?_ (by rw [hstep]) (by rw [hstep]) (countP_uncounted hquiet).1
        (fun _ => hquiet) fun hnot => absurd trivial hnot⟩
      rw [hstep]
      exact (Room.kick_spec _ p reason).2.1
    | tick order =>
      have hd : ∃ out, (play cfg as).room.deliverReadyInputs order = some out ∧
          BitVec.ofNat 32 cfg.hz ≠ 0 := by
        rw [play_concat] at h
        unfold Recording.step at h
        rw [if_neg hgo] at h
        dsimp only at h
        cases hd : (play cfg as).room.deliverReadyInputs order with
        | none =>
          rw [hd] at h
          cases h
        | some out =>
          rw [hd] at h
          dsimp only at h
          refine ⟨out, rfl, fun hzero => ?_⟩
          rw [if_pos hzero] at h
          cases h
      obtain ⟨⟨r', ops⟩, hd, hhz⟩ := hd
      obtain ⟨pend, hnext⟩ := hlog.tick_step halive hhz hwalk hd
      exact ⟨Ds ++ [pend], hnext⟩

end Steps

/-! ## The replay -/

namespace RecordConfig

variable (cfg : RecordConfig)

/-- The rate that is read back. -/
def hzRead : ℕ := if cfg.hz % 2 ^ 32 = 0 then 20 else cfg.hz % 2 ^ 32

theorem hz_pos : 0 < cfg.hz := by
  unfold hz
  split_ifs with h
  · omega
  · omega

/-- The rate does not fit the file, but the length of a tick may come out the same. -/
theorem dtMS_read : BitVec.ofNat 32 (1000 / cfg.hzRead) = cfg.dtMS ↔
    cfg.hz < 2 ^ 32 ∨ 1000 < cfg.hz % 2 ^ 32 := by
  have hpos := cfg.hz_pos
  have hlive : 1000 / cfg.hz ≤ 1000 := Nat.div_le_self _ _
  have hread : 1000 / cfg.hzRead ≤ 1000 := Nat.div_le_self _ _
  have hnat : BitVec.ofNat 32 (1000 / cfg.hzRead) = cfg.dtMS ↔
      1000 / cfg.hzRead = 1000 / cfg.hz := by
    unfold dtMS
    rw [← BitVec.toNat_inj, BitVec.toNat_ofNat, BitVec.toNat_ofNat, Nat.mod_eq_of_lt (by omega),
      Nat.mod_eq_of_lt (by omega)]
  rw [hnat]
  by_cases hfit : cfg.hz < 2 ^ 32
  · have hsame : cfg.hzRead = cfg.hz := by
      unfold hzRead
      rw [Nat.mod_eq_of_lt hfit, if_neg (by omega)]
    exact iff_of_true (by rw [hsame]) (.inl hfit)
  · have hzero : 1000 / cfg.hz = 0 := Nat.div_eq_of_lt (by omega)
    rw [hzero, or_iff_right hfit]
    unfold hzRead
    split_ifs with hmod
    · rw [hmod]
      exact iff_of_false (by norm_num) (by omega)
    · rw [Nat.div_eq_zero_iff_lt (by omega)]

end RecordConfig

section Stop

variable {cfg : RecordConfig} {as : List Action} {Ds : List (List PendingDeliver)}

/-- The file of a run that is stopped. -/
theorem Log.stop (h : Log cfg as Ds) : readReplay (play cfg as).stop =
    match readRecs ((records 0 Ds).flatMap ReplayRec.bytes).length
      ((records 0 Ds).flatMap ReplayRec.bytes) with
    | .error e => .error e
    | .ok recs =>
      if recs = [] then .error .ErrInvalid
      else .ok (cfg.seed, cfg.hzRead, BitVec.ofNat 32 Ds.length, recs) := by
  unfold Recording.stop
  rw [h.file, h.tick]
  exact readReplay_eq cfg.seed cfg.hz _ _

/-- What fits the file is read back. -/
theorem Log.stop_short (h : Log cfg as Ds) (hshort : ∀ D ∈ Ds, ∀ d ∈ D, d.payload.length ≤ 4096)
    (hsome : Ds.flatten ≠ []) :
    readReplay (play cfg as).stop =
      .ok (cfg.seed, cfg.hzRead, BitVec.ofNat 32 Ds.length, records 0 Ds) := by
  have hne : records 0 Ds ≠ [] := by
    intro hnil
    have hlen : (records 0 Ds).length = Ds.flatten.length := length_records
    rw [hnil, List.length_nil] at hlen
    exact hsome (List.length_eq_zero_iff.1 hlen.symm)
  have hread : ∀ r ∈ records 0 Ds, r.payload.length ≤ 4096 := by
    intro r hr
    obtain ⟨D, hD, d, hd, hp⟩ := payload_of_mem_records hr
    rw [hp]
    exact hshort D hD d hd
  rw [h.stop, readRecs_bytes hread le_rfl]
  exact if_neg hne

/-- **Fidelity.** A replay of what has been delivered in the order of the players, and is all, makes
the calls again. -/
theorem Log.replayed (h : Log cfg as Ds) (halone : Allowed (step cfg) Buffered (.start cfg) as)
    (horder : ∀ D ∈ Ds, D.Pairwise fun a b => a.player.toNat ≤ b.player.toNat)
    (hshort : ∀ D ∈ Ds, ∀ d ∈ D, d.payload.length ≤ 4096) (hsome : Ds.flatten ≠ [])
    (hlt : Ds.length < 2 ^ 32) (hdt : BitVec.ofNat 32 (1000 / cfg.hzRead) = cfg.dtMS) :
    ∃ (calls : List ImplCall) (tick : U32) (n : ℕ),
      replayCalls (play cfg as).stop = .ok (cfg.seed, calls ++ [.Tick tick cfg.dtMS], n) ∧
        (calls ++ [ImplCall.Tick tick cfg.dtMS]).filter ImplCall.counted =
          (play cfg as).calls.filter ImplCall.counted := by
  have hsorted := sortRecs_sorted ((pairwise_records (t := 0) (by omega)).2 horder)
  have hpos : Ds.length ≠ 0 := fun h0 => hsome (by rw [List.length_eq_zero_iff.1 h0]; rfl)
  have hmod : (BitVec.ofNat 32 Ds.length).toNat = Ds.length := by
    rw [BitVec.toNat_ofNat]
    exact Nat.mod_eq_of_lt hlt
  have htotal : ¬ BitVec.ofNat 32 Ds.length = 0 := by
    intro h0
    rw [h0] at hmod
    exact hpos hmod.symm
  have hreplay : replayCalls (play cfg as).stop =
      .ok (cfg.seed, replayTicks cfg.dtMS Ds.length 0 (records 0 Ds) [],
        (records 0 Ds).length) := by
    unfold replayCalls
    rw [h.stop_short hshort hsome]
    dsimp only
    rw [hsorted]
    dsimp only
    rw [if_neg htotal, hmod, hdt]
  have hcounted : (replayTicks cfg.dtMS Ds.length 0 (records 0 Ds) []).filter ImplCall.counted =
      (play cfg as).calls.filter ImplCall.counted := by
    rw [h.alone halone]
    exact replayTicks_records cfg.dtMS (by omega) []
  obtain ⟨n, hn⟩ := Nat.exists_eq_succ_of_ne_zero hpos
  obtain ⟨calls, hcalls⟩ := replayTicks_last cfg.dtMS n 0 (records 0 Ds) []
  have hlast : replayTicks cfg.dtMS Ds.length 0 (records 0 Ds) [] =
      calls ++ [.Tick (BitVec.ofNat 32 (0 + n)) cfg.dtMS] := by rw [hn]; exact hcalls
  rw [hlast] at hreplay hcounted
  exact ⟨calls, _, _, hreplay, hcounted⟩

/-- What a replay that makes the calls again tells of the run. -/
theorem Log.of_replayed (h : Log cfg as Ds) {calls : List ImplCall} {n : ℕ}
    (hreplay : replayCalls (play cfg as).stop = .ok (cfg.seed, calls, n))
    (hcounted : calls.filter ImplCall.counted = (play cfg as).calls.filter ImplCall.counted) :
    Allowed (step cfg) Buffered (.start cfg) as ∧
      (∀ D ∈ Ds, D.Pairwise fun a b => a.player.toNat ≤ b.player.toNat) ∧
      (∀ D ∈ Ds, ∀ d ∈ D, d.payload.length ≤ 4096) ∧ Ds.flatten ≠ [] ∧ Ds.length < 2 ^ 32 ∧
      BitVec.ofNat 32 (1000 / cfg.hzRead) = cfg.dtMS := by
  obtain ⟨tickHz, totalTicks, maxTick, recs, ys, hread, hsort, rfl⟩ := replayCalls_eq_ok hreplay
  have hsorts := sorts_of_sortRecs hsort
  obtain ⟨hticks, hinputs, hpayload, hdt⟩ :=
    replayTicks_spec (BitVec.ofNat 32 (1000 / tickHz)) maxTick.toNat 0 ys []
  have hmem (c : ImplCall) (hc : c.counted = true) (hlive : c ∈ (play cfg as).calls) :
      c ∈ replayTicks (BitVec.ofNat 32 (1000 / tickHz)) maxTick.toNat 0 ys [] := by
    have hin := List.mem_filter.2 ⟨hlive, hc⟩
    rw [← hcounted] at hin
    exact (List.mem_filter.1 hin).1
  rw [h.stop] at hread
  cases hrecs : readRecs ((records 0 Ds).flatMap ReplayRec.bytes).length
      ((records 0 Ds).flatMap ReplayRec.bytes) with
  | error e =>
    rw [hrecs] at hread
    cases hread
  | ok recs' =>
    rw [hrecs] at hread
    dsimp only at hread
    split_ifs at hread with hnil
    obtain ⟨-, rfl, -, rfl⟩ : cfg.seed = cfg.seed ∧ cfg.hzRead = tickHz ∧
        BitVec.ofNat 32 Ds.length = totalTicks ∧ recs' = recs := by
      simpa using hread
    -- what is called is read, and what is read is short
    have hshort : ∀ D ∈ Ds, ∀ d ∈ D, d.payload.length ≤ 4096 := by
      intro D hD d hd
      obtain ⟨r, hr, hp⟩ := hpayload _ _ _ (hmem d.call rfl (h.called D hD d hd))
      rw [← hp]
      exact readRecs_short hrecs r (hsorts.perm.mem_iff.1 hr)
    have hall : ∀ r ∈ records 0 Ds, r.payload.length ≤ 4096 := by
      intro r hr
      obtain ⟨D, hD, d, hd, hp⟩ := payload_of_mem_records hr
      rw [hp]
      exact hshort D hD d hd
    rw [readRecs_bytes hall le_rfl] at hrecs
    obtain rfl := Except.ok.inj hrecs
    have hsome : Ds.flatten ≠ [] := by
      intro hempty
      have hlen : (records 0 Ds).length = Ds.flatten.length := length_records
      rw [hempty, List.length_nil] at hlen
      exact hnil (List.length_eq_zero_iff.1 hlen)
    have hlen : Ds.length = maxTick.toNat := by
      rw [← h.ticks, ← hticks, ← countP_counted isTick_counted, ← hcounted,
        countP_counted isTick_counted]
    have hlt : Ds.length < 2 ^ 32 := hlen ▸ maxTick.isLt
    have halone : Allowed (step cfg) Buffered (.start cfg) as := by
      by_contra hnot
      have hstray := h.stray hnot
      rw [← countP_counted isInput_counted, ← hcounted, countP_counted isInput_counted] at hstray
      have hsize : ys.length = (records 0 Ds).length := hsorts.perm.length_eq
      rw [length_records] at hsize
      omega
    -- the replay goes tick by tick as well
    have hrange : ∀ r ∈ ys, 0 ≤ r.tick.toNat ∧ r.tick.toNat < 0 + Ds.length := fun r hr =>
      tick_of_mem_records (hsorts.perm.mem_iff.1 hr) (by omega)
    have hby : ys.Pairwise fun a b => a.tick.toNat ≤ b.tick.toNat := by
      refine hsorts.sorted.imp fun {a b} hle => ?_
      rcases Prod.Lex.toLex_le_toLex.1 hle with hless | ⟨heq, -⟩
      · exact hless.le
      · exact heq.le
    obtain ⟨Es, hEs, hys⟩ := exists_records (by omega) hby hrange
    have hticked :
        (replayTicks (BitVec.ofNat 32 (1000 / cfg.hzRead)) Es.length 0 (records 0 Es) []).filter
        ImplCall.counted = tickCalls (BitVec.ofNat 32 (1000 / cfg.hzRead)) 0 Es :=
      replayTicks_records _ (by omega) []
    rw [hys, hEs, hlen, hcounted, h.alone halone] at hticked
    have hsame : records 0 Ds = ys := by
      rw [← recordsOf_tickCalls, hticked, recordsOf_tickCalls, hys]
    refine ⟨halone, ?_, hshort, hsome, hlt, ?_⟩
    · refine (pairwise_records (t := 0) (by omega)).1 ?_
      rw [hsame]
      exact hsorts.sorted
    · obtain ⟨D, Ds', rfl⟩ := List.exists_cons_of_ne_nil (l := Ds) fun h0 => hsome (by rw [h0]; rfl)
      have htick : ImplCall.Tick (BitVec.ofNat 32 0) cfg.dtMS ∈ (play cfg as).calls := by
        have hin : ImplCall.Tick (BitVec.ofNat 32 0) cfg.dtMS ∈ tickCalls cfg.dtMS 0 (D :: Ds') :=
          List.mem_append_right _ List.mem_cons_self
        rw [← h.alone halone] at hin
        exact (List.mem_filter.1 hin).1
      exact (hdt _ _ (hmem _ rfl htick)).symm

end Stop

namespace Live

/-- What a replay with the same inputs and ticks calls. -/
theorem fedCalls_eq {cfg : RecordConfig} (l : Live cfg) {calls : List ImplCall} {n : ℕ}
    (hreplay : replayCalls l.last.stop = .ok (cfg.seed, calls, n))
    (hcounted : calls.filter ImplCall.counted = l.last.calls.filter ImplCall.counted) :
    l.fedCalls = calls := by
  obtain ⟨tickHz, totalTicks, maxTick, recs, ys, -, -, rfl⟩ := replayCalls_eq_ok hreplay
  unfold fedCalls
  rw [← hcounted]
  exact withJoins_replayTicks _ _ _ _ _

/-- Two players whose input is due in the same tick: that of the player 2 has the earlier client
tick. -/
def crossing : List Action :=
  [.event (.inOpen 1 1), .event (.inOpen 2 2),
    .event (.inData 2 ChInput 0 [0, 0, 0, 0, 1, 0, 0, 0, 7] 0),
    .event (.inData 1 ChInput 0 [1, 0, 0, 0, 1, 0, 0, 0, 8] 1), .tick [2, 1], .tick [2, 1],
    .tick [2, 1]]

def crossed : Live ⟨2, 8, 20, 42⟩ := ⟨crossing, by decide +kernel, by decide +kernel⟩

/-- The room that sends every input back to its player, byte by byte. -/
def echo : Impl Unit where
  newRoom _ := ()
  OnJoin _ _ := .done ()
  OnLeave _ _ _ := .done ()
  OnResume _ _ _ := .done ()
  OnInput _ player _ payload := .ask (.BeginSend player 2 99) fun b : Buffer =>
    .ask (.Commit (some (payload.foldl Buffer.PutU8 b))) fun _ => .done ()
  Tick _ _ _ := .done ((), .Continue)
  StateHash _ := 0

theorem echo_asks {st st' : Unit} {calls : List ImplCall} {asked : List CtxRequest}
    (h : Script.Drives echo.call st calls asked st') (hvoid : ∀ c ∈ asked, c.Void) :
    calls.countP ImplCall.isInput = 0 := by
  induction h with
  | nil st => rfl
  | @cons st t st' c cs asked rest h hrest ih =>
    obtain ⟨hfirst, hlast⟩ := List.forall_mem_append.1 hvoid
    rw [List.countP_cons, ih hlast]
    cases c with
    | OnInput player seq payload =>
      cases h with
      | ask b h => exact absurd (hfirst _ List.mem_cons_self) id
    | OnJoin | OnLeave | OnResume | Tick => rfl

/-- No run of the echo room can be replayed. -/
theorem echo_unfaithful {cfg : RecordConfig} (l : Live cfg) : ¬ l.Faithful echo := by
  rintro ⟨calls, n, lastHash, hreplay, hcounted, hfed, -⟩
  obtain ⟨Ds, hlog⟩ := exists_log l.walks l.alive
  obtain ⟨-, -, -, hsome, -, -⟩ := hlog.of_replayed hreplay hcounted
  have hinput : 0 < calls.countP ImplCall.isInput := by
    rw [← countP_counted isInput_counted, hcounted, countP_counted isInput_counted]
    exact (List.length_pos_iff.2 hsome).trans_le hlog.inputs
  have hfeed := (Impl.Replay_eq_ok_iff hreplay).1 hfed
  obtain ⟨asked, st, hlives, hvoid⟩ := (Impl.feed_isSome_iff 0).1 (Option.isSome_of_eq_some hfeed)
  exact absurd (echo_asks hlives hvoid) hinput.ne'

end Live

end SoupEngine.Sdk
