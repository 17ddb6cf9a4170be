import SoupEngine.Sdk.Room

/-!
# The order of input within a tick

What `deliverReadyInputs` makes of a room does not depend on the order in which the map of players
is walked, and neither does the order of the calls of `OnInput`, if the sort does not panic. It
panics exactly if the first input it sees is not a least one (`input_order_iff`).
-/

namespace SoupEngine.Sdk

open InsertionSort

/-- The order of delivery: by client tick, then by player. -/
def PendingDeliver.key (d : PendingDeliver) : ℕ ×ₗ ℕ := toLex (d.clientTick.toNat, d.player.toNat)

theorem pendingAfter_eq : pendingAfter = fun a b => decide (b.key < a.key) := by
  funext a b
  unfold pendingAfter PendingDeliver.key
  simp only [Prod.Lex.toLex_lt_toLex, Bool.decide_or, Bool.decide_and, BitVec.lt_def,
    BitVec.toNat_inj, eq_comm]

theorem player_eq_of_key_eq {a b : PendingDeliver} (h : a.key = b.key) : a.player = b.player :=
  BitVec.eq_of_toNat_eq (congrArg (fun k => (ofLex k).2) h)

/-- The calls of `OnInput` among the operations of a room. -/
def inputs (ops : List RoomOp) : List (PlayerID × InputSeq × Bytes) :=
  ops.filterMap fun
    | .onInput p seq payload _ => some (p, seq, payload)
    | _ => none

def PendingDeliver.input (d : PendingDeliver) : PlayerID × InputSeq × Bytes :=
  (d.player, d.seq, d.payload)

theorem inputs_deliver (puts : List BufId) (pend : List PendingDeliver) :
    inputs (puts.map .put ++ pend.map Room.onInputOf) = pend.map PendingDeliver.input := by
  unfold inputs
  rw [List.filterMap_append, List.filterMap_map, List.filterMap_map]
  have h1 : puts.filterMap ((fun op : RoomOp => match op with
      | .onInput p seq payload _ => some (p, seq, payload)
      | _ => none) ∘ RoomOp.put) = [] := List.filterMap_eq_nil_iff.2 fun b _ => rfl
  have h2 : pend.filterMap ((fun op : RoomOp => match op with
      | .onInput p seq payload _ => some (p, seq, payload)
      | _ => none) ∘ Room.onInputOf) = pend.map PendingDeliver.input := by
    rw [← List.filterMap_eq_map]
    rfl
  exact (congrArg₂ _ h1 h2).trans (List.nil_append _)

/-! ## Walking the players -/

namespace Room

/-- What a player has ready for delivery. -/
def readyOf (r : Room) (p : PlayerID) : List PendingDeliver :=
  match r.players[p]? with
  | none => []
  | some st => (st.deliver r.tick p).2.1

/-- What is ready for delivery, in the order in which the players are walked. -/
def pending (r : Room) (order : List PlayerID) : List PendingDeliver := order.flatMap r.readyOf

/-- The buffers that are given back when a player's input is taken. -/
def putsOf (r : Room) (p : PlayerID) : List BufId :=
  match r.players[p]? with
  | none => []
  | some st => (st.deliver r.tick p).2.2

/-- The order of a walk is some order of the keys. -/
theorem isOrder_iff_perm {r : Room} {order : List PlayerID} :
    r.IsOrder order ↔ order.Perm r.players.keys := by
  constructor
  · rintro ⟨hn, hm⟩
    refine (List.perm_ext_iff_of_nodup hn Std.ExtTreeMap.nodup_keys).2 fun p => ?_
    rw [hm, Std.ExtTreeMap.mem_keys]
  · intro h
    refine ⟨h.nodup_iff.2 Std.ExtTreeMap.nodup_keys, fun p => ?_⟩
    rw [h.mem_iff, Std.ExtTreeMap.mem_keys]

instance (r : Room) (order : List PlayerID) : Decidable (r.IsOrder order) :=
  decidable_of_iff _ isOrder_iff_perm.symm

/-- A player who is walked is drained, the others are left alone, and what comes out is ready
input. -/
theorem drainPlayers_spec {order : List PlayerID} (hn : order.Nodup) (r : Room) :
    (r.drainPlayers order).2 = (r.pending order, order.flatMap r.putsOf) ∧
      (r.drainPlayers order).1 = { r with players := (r.drainPlayers order).1.players } ∧
      ∀ q, (r.drainPlayers order).1.players[q]? =
        if q ∈ order then (r.players[q]?).map fun st => (st.deliver r.tick q).1
            else r.players[q]? := by
  induction order generalizing r with
  | nil =>
    refine ⟨rfl, rfl, fun q => ?_⟩
    rw [if_neg List.not_mem_nil]
    rfl
  | cons p ps ih =>
    obtain ⟨hp, hps⟩ := List.nodup_cons.1 hn
    cases hst : r.players[p]? with
    | none =>
      have hstep : r.drainPlayers (p :: ps) = r.drainPlayers ps := by rw [drainPlayers, hst]
      obtain ⟨h1, h2, h3⟩ := ih hps r
      rw [hstep]
      refine ⟨?_, h2, fun q => ?_⟩
      · have hnil : r.readyOf p = [] := by
          unfold readyOf
          rw [hst]
        have hput : r.putsOf p = [] := by
          unfold putsOf
          rw [hst]
        rw [h1, pending, pending, List.flatMap_cons, hnil, List.nil_append, List.flatMap_cons, hput,
          List.nil_append]
      · rw [h3]
        by_cases hq : q = p
        · rw [hq, if_neg hp, if_pos List.mem_cons_self, hst]
          rfl
        · simp only [List.mem_cons, hq, false_or]
    | some st =>
      set r₁ : Room := { r with players := r.players.insert p (st.deliver r.tick p).1 } with hr₁
      have hstep : r.drainPlayers (p :: ps) = ((r₁.drainPlayers ps).1,
          (st.deliver r.tick p).2.1 ++ (r₁.drainPlayers ps).2.1,
          (st.deliver r.tick p).2.2 ++ (r₁.drainPlayers ps).2.2) := by rw [drainPlayers, hst]
      have hget : ∀ q, q ≠ p → r₁.players[q]? = r.players[q]? := by
        intro q hq
        show (r.players.insert p _)[q]? = _
        rw [Map.getElem?_insert, if_neg (Ne.symm hq)]
      have ht : r₁.tick = r.tick := rfl
      obtain ⟨h1, h2, h3⟩ := ih hps r₁
      rw [ht] at h3
      rw [hstep]
      refine ⟨?_, ?_, fun q => ?_⟩
      · have hhead : r.readyOf p = (st.deliver r.tick p).2.1 := by
          unfold readyOf
          rw [hst]
        have hput : r.putsOf p = (st.deliver r.tick p).2.2 := by
          unfold putsOf
          rw [hst]
        have htail : ps.flatMap r₁.readyOf = ps.flatMap r.readyOf := by
          refine List.flatMap_congr fun q hq => ?_
          unfold readyOf
          rw [hget q fun h => hp (h ▸ hq)]
        have hputs : ps.flatMap r₁.putsOf = ps.flatMap r.putsOf := by
          refine List.flatMap_congr fun q hq => ?_
          unfold putsOf
          rw [hget q fun h => hp (h ▸ hq)]
        rw [h1, pending, pending, List.flatMap_cons, List.flatMap_cons, hhead, htail, hput, hputs]
      · rw [h2]
      · rw [h3]
        by_cases hq : q = p
        · rw [hq, if_neg hp, if_pos List.mem_cons_self, hst]
          show (r.players.insert p _)[p]? = _
          rw [Map.getElem?_insert, if_pos rfl]
          rfl
        · rw [hget q hq]
          simp only [List.mem_cons, hq, false_or]

/-- The first input in the order of the walk is a least one. -/
def LeastFirst (r : Room) (order : List PlayerID) : Prop :=
  ∀ a ∈ (r.pending order).head?, ∀ b ∈ r.pending order, a.key ≤ b.key

instance (r : Room) (order : List PlayerID) : Decidable (r.LeastFirst order) :=
  inferInstanceAs (Decidable (∀ a ∈ (r.pending order).head?, ∀ b ∈ r.pending order, a.key ≤ b.key))

theorem player_of_mem_readyOf {r : Room} {p : PlayerID} {d : PendingDeliver} (h : d ∈ r.readyOf p) :
    d.player = p := by
  unfold readyOf at h
  cases hst : r.players[p]? with
  | none =>
    rw [hst] at h
    cases h
  | some st =>
    rw [hst] at h
    rcases List.mem_append.1 (show d ∈ _ ++ _ from h) with h | h
    · obtain ⟨e, -, rfl⟩ := List.mem_map.1 h
      rfl
    · unfold PState.repeated at h
      split_ifs at h
      · rw [List.mem_singleton.1 h]
      · cases h

/-- What is pending for a player is what the player has ready, wherever the player is walked. -/
theorem filter_player_pending {r : Room} {order : List PlayerID} (ho : r.IsOrder order)
    (p : PlayerID) :
    (r.pending order).filter (·.player = p) = r.readyOf p := by
  have hother : ∀ q, q ≠ p → (r.readyOf q).filter (·.player = p) = [] := by
    intro q hq
    refine List.filter_eq_nil_iff.2 fun e he hk => hq ?_
    rw [← player_of_mem_readyOf he]
    exact of_decide_eq_true hk
  have hself : (r.readyOf p).filter (·.player = p) = r.readyOf p :=
    List.filter_eq_self.2 fun e he => decide_eq_true (player_of_mem_readyOf he)
  have hwalk : ∀ ps : List PlayerID, ps.Nodup → (ps.flatMap r.readyOf).filter (·.player = p) =
      if p ∈ ps then r.readyOf p else [] := by
    intro ps hn
    induction ps with
    | nil => rfl
    | cons q ps ih =>
      obtain ⟨hq, hps⟩ := List.nodup_cons.1 hn
      rw [List.flatMap_cons, List.filter_append, ih hps]
      by_cases hpq : p = q
      · rw [← hpq] at hq
        rw [← hpq, hself, if_neg hq, if_pos List.mem_cons_self, List.append_nil]
      · rw [hother q (Ne.symm hpq), List.nil_append]
        simp only [List.mem_cons, hpq, false_or]
  rw [pending, hwalk order ho.1]
  split_ifs with hp
  · rfl
  · -- a player who is not in the room has nothing ready
    rw [ho.2, Std.ExtTreeMap.mem_iff_isSome_getElem?, Option.not_isSome_iff_eq_none] at hp
    unfold readyOf
    rw [hp]

theorem mem_pending {r : Room} {order : List PlayerID} (ho : r.IsOrder order) {d : PendingDeliver} :
    d ∈ r.pending order ↔ d ∈ r.readyOf d.player := by
  rw [← filter_player_pending ho, List.mem_filter]
  exact ⟨fun h => ⟨h, decide_eq_true rfl⟩, fun h => h.1⟩

/-- Two walks find the same inputs of every key, in the same order. -/
theorem filter_pending_eq {r : Room} {order order' : List PlayerID} (ho : r.IsOrder order)
    (ho' : r.IsOrder order') (k : ℕ ×ₗ ℕ) :
    (r.pending order).filter (·.key = k) = (r.pending order').filter (·.key = k) := by
  by_cases hk : ∃ d ∈ r.pending order, d.key = k
  · obtain ⟨d, hd, rfl⟩ := hk
    -- the key tells the player
    have hplayer : ∀ os, r.IsOrder os →
        (r.pending os).filter (·.key = d.key) = (r.readyOf d.player).filter (·.key = d.key) := by
      intro os hos
      rw [← filter_player_pending hos, List.filter_filter]
      refine List.filter_congr fun e he => ?_
      by_cases hkey : e.key = d.key
      · rw [decide_eq_true hkey, decide_eq_true (player_eq_of_key_eq hkey)]
        rfl
      · rw [decide_eq_false hkey]
        rfl
    rw [hplayer order ho, hplayer order' ho']
  · have hk' : ∀ os, r.IsOrder os → (r.pending os).filter (·.key = k) = [] := by
      intro os hos
      refine List.filter_eq_nil_iff.2 fun d hd he => hk ⟨d, ?_, of_decide_eq_true he⟩
      exact (mem_pending ho).2 ((mem_pending hos).1 hd)
    rw [hk' order ho, hk' order' ho']

theorem players_drainPlayers {r : Room} {order : List PlayerID} (ho : r.IsOrder order)
    (q : PlayerID) :
    (r.drainPlayers order).1.players[q]? = (r.players[q]?).map fun st =>
      (st.deliver r.tick q).1 := by
  rw [(drainPlayers_spec ho.1 r).2.2]
  split_ifs with hq
  · rfl
  · rw [ho.2, Std.ExtTreeMap.mem_iff_isSome_getElem?, Option.not_isSome_iff_eq_none] at hq
    rw [hq]
    rfl

/-- **The delivery** gives back the buffers of what it has taken, and then passes what is pending
on, in stable order, unless the sort panics. -/
theorem deliverReadyInputs_spec (r : Room) {order : List PlayerID} (ho : r.IsOrder order) :
    (r.LeastFirst order → ∃ pend, Sorts PendingDeliver.key (r.pending order) pend ∧
      r.deliverReadyInputs order = some ((r.drainPlayers order).1,
        (order.flatMap r.putsOf).map .put ++ pend.map onInputOf)) ∧
    (¬ r.LeastFirst order → r.deliverReadyInputs order = none) := by
  have hdrain := (drainPlayers_spec ho.1 r).1
  have hdeliver : r.deliverReadyInputs order = (sortPending (r.pending order)).map fun pend =>
      ((r.drainPlayers order).1, (order.flatMap r.putsOf).map .put ++ pend.map onInputOf) := by
    unfold deliverReadyInputs
    rw [← Prod.mk.eta (p := r.drainPlayers order), hdrain]
  have hsort : sortPending (r.pending order) =
      sort (fun a b => decide (b.key < a.key)) (r.pending order) := by
    unfold sortPending
    rw [pendingAfter_eq]
  constructor
  · intro hleast
    have hmin : ∀ a ∈ (r.pending order).head?, ∀ b ∈ r.pending order,
        PendingDeliver.key a ≤ PendingDeliver.key b := hleast
    obtain ⟨pend, hp, hsorts⟩ := sort_sorts hmin
    rw [hdeliver, hsort, hp]
    exact ⟨pend, hsorts, rfl⟩
  · intro hleast
    have hmin : ¬ ∀ a ∈ (r.pending order).head?, ∀ b ∈ r.pending order,
        PendingDeliver.key a ≤ PendingDeliver.key b := hleast
    rw [hdeliver, hsort, sort_eq_none hmin]
    rfl

/-- A delivery that goes through, and what it comes to. -/
theorem deliverReadyInputs_eq_some {r r' : Room} {order : List PlayerID} {ops : List RoomOp}
    (ho : r.IsOrder order) (h : r.deliverReadyInputs order = some (r', ops)) :
    r.LeastFirst order ∧ r' = (r.drainPlayers order).1 ∧
      ∃ pend, Sorts PendingDeliver.key (r.pending order) pend ∧
        ops = (order.flatMap r.putsOf).map .put ++ pend.map onInputOf := by
  have hspec := deliverReadyInputs_spec r ho
  by_cases hleast : r.LeastFirst order
  · obtain ⟨pend, hsorts, heq⟩ := hspec.1 hleast
    obtain ⟨rfl, rfl⟩ := Prod.mk.inj (Option.some.inj (h.symm.trans heq))
    exact ⟨hleast, rfl, pend, hsorts, rfl⟩
  · rw [hspec.2 hleast] at h
    cases h

/-- What is pending depends on the players and the tick alone. -/
theorem pending_congr {r r₀ : Room} (hp : r₀.players = r.players) (ht : r₀.tick = r.tick)
    (order : List PlayerID) : r₀.pending order = r.pending order := by
  have : r₀.readyOf = r.readyOf := by
    funext p
    unfold readyOf
    rw [hp, ht]
  unfold pending
  rw [this]

end Room

open Room

/-- **The order of input.** For every room and every order of the walk: the delivery goes through
and calls `OnInput` in the stable order of `(clientTick, player)` if and only if the first input of
the walk is a least one, and otherwise it panics. Two rooms with the same players in the same tick
whose deliveries both go through make the same calls, whatever the orders of their walks. -/
theorem input_order_iff (r : Room) (order : List PlayerID) (ho : r.IsOrder order) :
    ((∃ r' ops pend, r.deliverReadyInputs order = some (r', ops) ∧
        Sorts PendingDeliver.key (r.pending order) pend ∧
        inputs ops = pend.map PendingDeliver.input) ↔ r.LeastFirst order) ∧
      (¬ r.LeastFirst order → r.deliverReadyInputs order = none) ∧
      ∀ (r₀ : Room) (order₀ : List PlayerID) (r' : Room) (ops : List RoomOp) (r₀' : Room)
        (ops₀ : List RoomOp),
        r₀.players = r.players → r₀.tick = r.tick → r₀.IsOrder order₀ →
        r.deliverReadyInputs order = some (r', ops) →
        r₀.deliverReadyInputs order₀ = some (r₀', ops₀) → inputs ops₀ = inputs ops := by
  have hspec := deliverReadyInputs_spec r ho
  refine ⟨⟨?_, ?_⟩, hspec.2, ?_⟩
  · rintro ⟨r', ops, pend, hd, -⟩
    exact (deliverReadyInputs_eq_some ho hd).1
  · intro hleast
    obtain ⟨pend, hsorts, hd⟩ := hspec.1 hleast
    exact ⟨_, _, pend, hd, hsorts, inputs_deliver _ _⟩
  · intro r₀ order₀ r' ops r₀' ops₀ hp ht ho₀ hd hd₀
    obtain ⟨-, -, pend, hs, rfl⟩ := deliverReadyInputs_eq_some ho hd
    obtain ⟨-, -, pend₀, hs₀, rfl⟩ := deliverReadyInputs_eq_some ho₀ hd₀
    rw [pending_congr hp ht] at hs₀
    have ho₀' : r.IsOrder order₀ := ⟨ho₀.1, fun p => by rw [ho₀.2, hp]⟩
    rw [inputs_deliver, inputs_deliver, hs₀.unique hs fun k => filter_pending_eq ho₀' ho k]

/-! ## A duel -/

/-- Two players whose inputs are due: the first one's has client tick 1, the second one's 0. -/
def duel : Room :=
  let r := [.inOpen 1 1, .inOpen 2 2, .inData 1 1 0 [1, 0, 0, 0, 0, 0, 0, 0, 7] 0,
      .inData 2 1 0 [0, 0, 0, 0, 0, 0, 0, 0, 9] 1].foldl (fun r ev =>
        (r.handleEvent ev).1) (Room.new 2 32)
  { r with tick := 2 }

/-- Walked in the order of their inputs, both are delivered. -/
theorem input_order_duel :
    ∃ r' ops pend, duel.deliverReadyInputs [2, 1] = some (r', ops) ∧
      Sorts PendingDeliver.key (duel.pending [2, 1]) pend ∧
      inputs ops = pend.map PendingDeliver.input :=
  (input_order_iff duel [2, 1] (by decide +kernel)).1.2 (by decide +kernel)

/-- Walked the other way round, the sort looks at `pend[-1]`. -/
theorem input_order_panics :
    duel.IsOrder [1, 2] ∧ duel.IsOrder [2, 1] ∧ duel.deliverReadyInputs [1, 2] = none ∧
      (duel.deliverReadyInputs [2, 1]).map (inputs ·.2) =
        some [(2, 0, [9]), (1, 0, [7]), (1, 0, [7]), (2, 0, [9])] :=
  ⟨by decide +kernel, by decide +kernel, by decide +kernel, by decide +kernel⟩

end SoupEngine.Sdk
