import SoupEngine.Engine.PushOrder
import SoupEngine.Engine.Reconnect

/-!
# Across broken links

What `readLoop` dispatches, over all connections to the engine. Frames are lost when a link breaks,
in the queue and on the wire; but those about a session come to the SDK in the order in which the
session table has reported their events, none of them twice, as long as no task pushes past another
one and the SDK takes nothing for a frame that is none (`heard_in_order`).
-/

namespace SoupEngine

open TransitionSystem
open Sdk (BufId Verdict)

/-- The frames about a session that do not belong to a greeting. -/
def talesOf (id : U64) (l : List (Frame × Bool)) : List Frame :=
  (l.filter fun p => decide (p.2 = false ∧ p.1.Tells id)).map Prod.fst

/-- The engine and the SDK, with the places of the frames and what `readLoop` has dispatched. -/
structure Hearing (cfg : EngineConfig) where
  pairing : Pairing cfg
  held : ℕ → List (Option ℕ)
  queued : List ℕ
  /-- Marked are the frames of a greeting. -/
  heard : List (Frame × Bool)

namespace Hearing

variable {cfg : EngineConfig} (hmac4 : Hmac)

def start (now : Instant) (MaxRooms inboxCap JitterBufferTicks BaselineRingSize : ℕ) :
    Hearing cfg where
  pairing := .start now MaxRooms inboxCap JitterBufferTicks BaselineRingSize
  held := fun _ => []
  queued := []
  heard := []

/-- The engine alone. -/
def traced (s : Hearing cfg) : Traced cfg := ⟨s.pairing.engine, s.held, s.queued⟩

/-- What `readLoop` dispatches in a step. -/
def hears (c : Pairing cfg) : PairingAction → List (Frame × Bool)
  | .read .. =>
    match c.reader with
    | .reading k _ =>
      match c.wire k with
      | p :: _ => if c.Free p.1.ty then [p] else []
      | [] => []
    | _ => []
  | .misread typ body .. =>
    match c.reader with
    | .reading _ .more => if c.Free typ then [(⟨typ, body⟩, false)] else []
    | _ => []
  | _ => []

def step (s : Hearing cfg) (a : PairingAction) : Hearing cfg where
  pairing := s.pairing.step hmac4 a
  held :=
    match a with
    | .engine x => s.traced.heldAfter hmac4 x
    | _ => s.held
  queued :=
    match a with
    | .engine x => s.traced.queuedAfter hmac4 x
    | _ => s.queued
  heard := s.heard ++ if s.pairing.server.crashed = true then [] else hears s.pairing a

/-- No task pushes past an older event of the same session, and nothing is taken for a frame that is
none. -/
def Sound (s : Hearing cfg) : PairingAction → Prop
  | .engine x => s.traced.Waits x
  | .misread .. => False
  | _ => True

end Hearing

/-! ## What the engine does to the frames about a session -/

section Tales

theorem talesOf_append (id : U64) (l m : List (Frame × Bool)) :
    talesOf id (l ++ m) = talesOf id l ++ talesOf id m := by
  unfold talesOf
  rw [List.filter_append, List.map_append]

theorem sublist_talesOf {id : U64} {l m : List (Frame × Bool)} (h : l.Sublist m) :
    (talesOf id l).Sublist (talesOf id m) := (h.filter _).map _

/-- A greeting tells nothing. -/
theorem talesOf_greeting (id : U64) (fs : List Frame) :
    talesOf id (fs.map fun f => (f, true)) = [] := by
  unfold talesOf
  rw [List.filter_eq_nil_iff.2, List.map_nil]
  intro p hp htells
  obtain ⟨f, -, rfl⟩ := List.mem_map.1 hp
  exact Bool.noConfusion (of_decide_eq_true htells).1

theorem talesOf_frames (id : U64) (fs : List Frame) :
    talesOf id (fs.map fun f => (f, false)) = fs.filter fun f => decide (f.Tells id) := by
  unfold talesOf
  rw [List.filter_map, List.map_map]
  refine (List.map_id _).trans (List.filter_congr fun f _ => ?_)
  exact decide_eq_decide.2 (and_iff_right rfl)

end Tales

namespace Engine

variable {cfg : EngineConfig} {hmac4 : Hmac}

/-- Apart from the write loop, the link loop writes a greeting. -/
theorem written_or_greets (e : Engine cfg) {a : EngineAction} (ha : ∀ ok, a ≠ .write ok) :
    (e.step hmac4 a).written = e.written ∨ e.greets = true := by
  rcases e.written_step hmac4 a with hsame | ⟨f, -, ⟨hgreets, -⟩ | ⟨-, ok, rfl⟩⟩
  · exact .inl hsame
  · exact .inr hgreets
  · exact absurd rfl (ha ok)

/-- What a step writes, as it goes onto the wire. -/
def sends (hmac4 : Hmac) (e : Engine cfg) (a : EngineAction) : List (Frame × Bool) :=
  ((e.step hmac4 a).written.drop e.written.length).map fun f => (f, e.greets)

theorem sends_of_same {e : Engine cfg} {a : EngineAction}
    (h : (e.step hmac4 a).written = e.written) :
    e.sends hmac4 a = [] := by
  unfold sends
  rw [h, List.drop_length, List.map_nil]

/-- The write loop moves a frame from the queue to the wire, or loses the queue. -/
theorem tales_write (e : Engine cfg) (ok : Bool) (id : U64) :
    (talesOf id (e.sends hmac4 (.write ok)) ++
      (e.step hmac4 (.write ok)).shared.queue.filter fun f => decide (f.Tells id)).Sublist
        (e.shared.queue.filter fun f => decide (f.Tells id)) := by
  have hqueue := (step_loop e hmac4 (a := .write ok) trivial).2.2 id
  by_cases hsame : (e.step hmac4 (.write ok)).written = e.written
  · rw [sends_of_same hsame]
    exact hqueue.sublist
  · unfold sends
    unfold Engine.step at hsame ⊢
    dsimp only at hsame ⊢
    split at hsame
    · rename_i f rest hphase hq
      rw [hphase, hq]
      split_ifs at hsame ⊢
      · have hrun : e.greets = false := by
          unfold greets
          rw [hphase]
        have htail : e.shared.recv.queue = rest := by
          rw [show e.shared.recv.queue = e.shared.queue.tail from
            Shared.offer_none (x := .recv) rfl, hq]
          rfl
        dsimp only
        rw [List.drop_left, hrun, talesOf_frames, htail, ← List.filter_append]
        exact List.Sublist.refl _
      · exact absurd rfl hsame
    · exact absurd rfl hsame

end Engine

namespace Traced

variable {cfg : EngineConfig} {hmac4 : Hmac} {s : Traced cfg}

/-- A push puts a frame into the queue, whose event is then among the enqueued ones, or no frame
that tells of a session. -/
theorem OrderInv.tales_push (h : OrderInv s) (w : ℕ) (now : Instant) (id : U64) :
    ∃ D : List SessionEvent, (s.step hmac4 (.push w now)).enqueued = s.enqueued ++ D ∧
      (s.engine.step hmac4 (.push w now)).shared.queue.filter (fun f => decide (f.Tells id)) =
        s.engine.shared.queue.filter (fun f => decide (f.Tells id)) ++
          (eventsOf id D).map upFrame := by
  have hframes := h.frames w
  cases htasks : s.engine.tasks w with
  | nil =>
    rw [htasks] at hframes
    have hnil : s.held w = [] := List.forall₂_nil_right_iff.1 hframes
    have hqueued : s.queuedAfter hmac4 (.push w now) = s.queued := by
      unfold queuedAfter
      dsimp only
      rw [hnil]
    have hengine : s.engine.step hmac4 (.push w now) = s.engine := by
      unfold Engine.step
      dsimp only
      rw [htasks]
    refine ⟨[], ?_, ?_⟩
    · unfold enqueued Traced.step
      dsimp only
      rw [hqueued, hengine, List.append_nil]
    · rw [hengine]
      exact (List.append_nil _).symm
  | cons p rest =>
    obtain ⟨f, droppable⟩ := p
    rw [htasks] at hframes
    obtain ⟨o, hs, hat, hrest, hheld⟩ := List.forall₂_cons_right_iff.1 hframes
    obtain ⟨-, hreported, hqueue⟩ := step_push s.engine hmac4 now htasks
    have hkept (hqueued : s.queuedAfter hmac4 (.push w now) = s.queued) :
        (s.step hmac4 (.push w now)).enqueued = s.enqueued ++ [] := by
      unfold enqueued Traced.step
      dsimp only
      rw [hqueued, hreported, List.append_nil]
    cases o with
    | none =>
      refine ⟨[], hkept ?_, ?_⟩
      · unfold queuedAfter
        dsimp only
        rw [hheld]
      · rcases hqueue with hq | hq
        · rw [hq]
          exact (List.append_nil _).symm
        · rw [hq, List.filter_append, List.filter_cons_of_neg, List.filter_nil]
          · rfl
          · exact fun htells => hat id (of_decide_eq_true htells)
    | some k =>
      obtain ⟨e, he, rfl⟩ : ∃ e, s.engine.reported[k]? = some e ∧ f = upFrame e := hat
      rcases hqueue with hq | hq
      · refine ⟨[], hkept ?_, ?_⟩
        · unfold queuedAfter
          dsimp only
          rw [hheld]
          dsimp only
          rw [hq]
          exact if_neg (lt_irrefl _)
        · rw [hq]
          exact (List.append_nil _).symm
      · refine ⟨[e], ?_, ?_⟩
        · have hqueued : s.queuedAfter hmac4 (.push w now) = s.queued ++ [k] := by
            unfold queuedAfter
            dsimp only
            rw [hheld]
            dsimp only
            rw [hq]
            refine if_pos ?_
            rw [List.length_append]
            exact Nat.lt_succ_self _
          unfold enqueued Traced.step
          dsimp only
          rw [hqueued, hreported, List.filterMap_append, List.filterMap_cons_some he,
            List.filterMap_nil]
        · rw [hq, List.filter_append, ← told_upFrame id [e]]
          rfl

/-- What a step writes and leaves in the queue was there, or has been put there. -/
theorem OrderInv.tales (h : OrderInv s) (a : EngineAction) (id : U64) :
    ∃ D : List SessionEvent, (s.step hmac4 a).enqueued = s.enqueued ++ D ∧
      (talesOf id (s.engine.sends hmac4 a) ++
        (s.engine.step hmac4 a).shared.queue.filter fun f => decide (f.Tells id)).Sublist
          (s.engine.shared.queue.filter (fun f => decide (f.Tells id)) ++
            (eventsOf id D).map upFrame) := by
  have hgreeting (ha : ∀ ok, a ≠ .write ok) : talesOf id (s.engine.sends hmac4 a) = [] := by
    rcases s.engine.written_or_greets ha with hsame | hgreets
    · rw [Engine.sends_of_same hsame]
      rfl
    · unfold Engine.sends
      rw [hgreets]
      exact talesOf_greeting id _
  have hloop (ha : a.Loop) (hqueued : s.queuedAfter hmac4 a = s.queued) :
      (s.step hmac4 a).enqueued = s.enqueued ++ [] := by
    unfold enqueued Traced.step
    dsimp only
    rw [hqueued, (step_loop s.engine hmac4 ha).2.1, List.append_nil]
  have hnil (l : List Frame) : l ++ (eventsOf id []).map upFrame = l := List.append_nil l
  cases a with
  | push w now =>
    obtain ⟨D, henqueued, hqueue⟩ := h.tales_push w now id
    refine ⟨D, henqueued, ?_⟩
    rw [hgreeting fun ok => EngineAction.noConfusion, hqueue]
    exact List.Sublist.refl _
  | handle w x =>
    rw [hgreeting fun ok => EngineAction.noConfusion]
    refine ⟨[], ?_, ?_⟩
    · rw [List.append_nil]
      refine List.filterMap_congr fun k hk => ?_
      show (s.engine.step hmac4 (.handle w x)).reported[k]? = _
      unfold Engine.step
      dsimp only
      split_ifs
      · exact List.getElem?_append_left (h.places k hk)
      · rfl
    · rw [hnil]
      unfold Engine.step
      dsimp only
      split_ifs
      · exact List.Sublist.refl _
      · exact List.Sublist.refl _
  | stats w i =>
    rw [hgreeting fun ok => EngineAction.noConfusion]
    refine ⟨[], ?_, ?_⟩
    · unfold enqueued Traced.step Engine.step
      dsimp only
      split_ifs
      · exact (List.append_nil _).symm
      · exact (List.append_nil _).symm
    · rw [hnil]
      unfold Engine.step
      dsimp only
      split_ifs
      · exact List.Sublist.refl _
      · exact List.Sublist.refl _
  | write ok =>
    refine ⟨[], hloop trivial rfl, ?_⟩
    rw [hnil]
    exact s.engine.tales_write ok id
  | _ =>
    rw [hgreeting fun ok => EngineAction.noConfusion]
    refine ⟨[], hloop trivial rfl, ?_⟩
    rw [hnil]
    exact ((step_loop s.engine hmac4 (by trivial)).2.2 id).sublist

end Traced

/-! ## The connections in line -/

namespace Pairing

variable {cfg : EngineConfig} {c c' : Pairing cfg} {hmac4 : Hmac}

/-- What is on the connections from number `n` on. -/
def onWire (c : Pairing cfg) (n : ℕ) : List (Frame × Bool) :=
  (List.range' n (c.made - n)).flatMap c.wire

/-- The connection of which `readLoop` reads next. -/
def floor (c : Pairing cfg) : ℕ :=
  match c.reader with
  | .reading k _ => k
  | _ => c.cur.getD c.accepted

/-- The connections are made, accepted and read one after the other. -/
structure InLine (c : Pairing cfg) : Prop where
  unused : ∀ j, c.made ≤ j → c.wire j = []
  phase : c.engine.phase = .waiting ∨ 1 ≤ c.made
  accepted : c.accepted ≤ c.made
  current : ∀ j, c.cur = some j → j + 1 = c.accepted
  reading : ∀ k heard, c.reader = .reading k heard → k < c.accepted

theorem inLine_start (now : Instant) (M C J B : ℕ) : InLine (start now M C J B : Pairing cfg) where
  unused _ _ := rfl
  phase := .inl rfl
  accepted := le_rfl
  current _ h := nomatch h
  reading _ _ h := nomatch h

theorem floor_reading {k : ℕ} {heard : Heard} (h : c.reader = .reading k heard) : c.floor = k := by
  unfold floor
  rw [h]

theorem floor_other (h : ∀ k heard, c.reader ≠ .reading k heard) :
    c.floor = c.cur.getD c.accepted := by
  unfold floor
  cases hreader : c.reader with
  | reading k heard => exact absurd hreader (h k heard)
  | ensure => rfl
  | marking locked => rfl

theorem InLine.cur_le (h : InLine c) : c.cur.getD c.accepted ≤ c.accepted := by
  cases hcur : c.cur with
  | none => exact le_rfl
  | some j =>
    have hj := h.current j hcur
    show j ≤ c.accepted
    omega

/-- What is read is not beyond the current connection. -/
theorem InLine.reading_le (h : InLine c) {k : ℕ} {heard : Heard}
    (hreader : c.reader = .reading k heard) :
    k ≤ c.cur.getD c.accepted := by
  have hk := h.reading k heard hreader
  cases hcur : c.cur with
  | none => exact hk.le
  | some j =>
    have hj := h.current j hcur
    show k ≤ j
    omega

theorem InLine.floor_le (h : InLine c) : c.floor ≤ c.made := by
  refine le_trans ?_ h.accepted
  unfold floor
  split
  · rename_i k heard hreader
    exact (h.reading k heard hreader).le
  · exact h.cur_le

theorem onWire_mono {n m : ℕ} (hwire : c'.wire = c.wire) (hmade : c'.made = c.made) (hle : n ≤ m) :
    (c'.onWire m).Sublist (c.onWire n) := by
  unfold onWire
  rw [hwire, hmade]
  by_cases hm : m ≤ c.made
  · have hsplit : List.range' n (c.made - n) =
        List.range' n (m - n) ++ List.range' m (c.made - m) := by
      have happend := @List.range'_append n (m - n) (c.made - m) 1
      rw [one_mul, Nat.add_sub_cancel' hle, show m - n + (c.made - m) = c.made - n by omega]
        at happend
      exact happend.symm
    rw [hsplit, List.flatMap_append]
    exact List.sublist_append_right _ _
  · rw [Nat.sub_eq_zero_of_le (not_le.1 hm).le]
    exact List.nil_sublist _

/-- What is read of a connection is the first of what is on the wire. -/
theorem onWire_head {k : ℕ} {p : Frame × Bool} {rest : List (Frame × Bool)} (hk : k < c.made)
    (hwire : c.wire k = p :: rest) (hmade : c'.made = c.made)
    (hwire' : c'.wire = Function.update c.wire k rest) : c.onWire k = p :: c'.onWire k := by
  have hrange : List.range' k (c.made - k) = k :: List.range' (k + 1) (c.made - (k + 1)) := by
    rw [← Nat.succ_pred_eq_of_pos (Nat.sub_pos_of_lt hk), List.range'_succ]
    rfl
  have hlater : ∀ j ∈ List.range' (k + 1) (c.made - (k + 1)), c'.wire j = c.wire j := by
    intro j hj
    have hlt : k < j := (List.mem_range'_1.1 hj).1
    rw [hwire', Function.update_of_ne hlt.ne']
  have hrest : c'.wire k = rest := by rw [hwire', Function.update_self]
  unfold onWire
  calc (List.range' k (c.made - k)).flatMap c.wire
      = c.wire k ++ (List.range' (k + 1) (c.made - (k + 1))).flatMap c.wire := by
        rw [hrange, List.flatMap_cons]
    _ = p :: (c'.wire k ++ (List.range' (k + 1) (c.made - (k + 1))).flatMap c'.wire) := by
        rw [hwire, hrest, List.flatMap_congr hlater, List.cons_append]
    _ = p :: (List.range' k (c'.made - k)).flatMap c'.wire := by
        rw [hmade, hrange, List.flatMap_cons]

theorem onWire_last {n : ℕ} (l : List (Frame × Bool)) (hn : n < c.made) (hmade : c'.made = c.made)
    (hwire : c'.wire = Function.update c.wire (c.made - 1) (c.wire (c.made - 1) ++ l)) :
    c'.onWire n = c.onWire n ++ l := by
  have hrange : List.range' n (c.made - n) = List.range' n (c.made - 1 - n) ++ [c.made - 1] := by
    have hconcat := @List.range'_concat 1 n (c.made - 1 - n)
    rw [one_mul, Nat.add_sub_cancel' (Nat.le_sub_one_of_lt hn)] at hconcat
    rw [← hconcat]
    congr 1
    omega
  have hearlier : ∀ j ∈ List.range' n (c.made - 1 - n), c'.wire j = c.wire j := by
    intro j hj
    have hlt := (List.mem_range'_1.1 hj).2
    rw [hwire, Function.update_of_ne (by omega)]
  have hlast : c'.wire (c.made - 1) = c.wire (c.made - 1) ++ l := by
    rw [hwire, Function.update_self]
  unfold onWire
  calc (List.range' n (c'.made - n)).flatMap c'.wire
      = (List.range' n (c.made - 1 - n)).flatMap c'.wire ++ c'.wire (c.made - 1) := by
        rw [hmade, hrange, List.flatMap_append, List.flatMap_singleton]
    _ = (List.range' n (c.made - 1 - n)).flatMap c.wire ++ c.wire (c.made - 1) ++ l := by
        rw [List.flatMap_congr hearlier, hlast, List.append_assoc]
    _ = (List.range' n (c.made - n)).flatMap c.wire ++ l := by
        rw [hrange, List.flatMap_append, List.flatMap_singleton]

/-- A new connection has nothing on it. -/
theorem InLine.onWire_made (h : InLine c) {n : ℕ} (hn : n ≤ c.made) (hmade : c'.made = c.made + 1)
    (hwire : c'.wire = c.wire) : c'.onWire n = c.onWire n := by
  have hrange : List.range' n (c.made + 1 - n) = List.range' n (c.made - n) ++ [c.made] := by
    have hconcat := @List.range'_concat 1 n (c.made - n)
    rw [one_mul, Nat.add_sub_cancel' hn] at hconcat
    rw [← hconcat]
    congr 1
    omega
  unfold onWire
  calc (List.range' n (c'.made - n)).flatMap c'.wire
      = (List.range' n (c.made - n)).flatMap c.wire ++ c.wire c.made := by
        rw [hmade, hrange, hwire, List.flatMap_append, List.flatMap_singleton]
    _ = (List.range' n (c.made - n)).flatMap c.wire := by
        rw [h.unused c.made le_rfl, List.append_nil]

/-- Nothing but a connection ends the waiting, and while it lasts nothing is written. -/
theorem waiting_step {e : Engine cfg} (hphase : e.phase = .waiting) (a : EngineAction) :
    (e.step hmac4 a).written = e.written ∧
      ((e.step hmac4 a).phase = .waiting ∨ e.connects a = true) := by
  cases a with
  | connect =>
    refine ⟨?_, .inr ?_⟩
    · unfold Engine.step
      rw [hphase]
    · unfold Engine.connects
      rw [hphase]
  | handle w x =>
    unfold Engine.step
    dsimp only
    split_ifs
    · exact ⟨rfl, .inl hphase⟩
    · exact ⟨rfl, .inl hphase⟩
  | stats w i =>
    unfold Engine.step
    dsimp only
    split_ifs
    · exact ⟨rfl, .inl hphase⟩
    · exact ⟨rfl, .inl hphase⟩
  | push w now =>
    unfold Engine.step
    dsimp only
    split
    · exact ⟨rfl, .inl hphase⟩
    · exact ⟨rfl, .inl hphase⟩
  | overload now => exact ⟨rfl, .inl hphase⟩
  | hello ok now =>
    unfold Engine.step
    rw [hphase]
    exact ⟨rfl, .inl hphase⟩
  | walk =>
    unfold Engine.step
    rw [hphase]
    exact ⟨rfl, .inl hphase⟩
  | resume ok =>
    unfold Engine.step
    rw [hphase]
    exact ⟨rfl, .inl hphase⟩
  | write ok =>
    unfold Engine.step
    rw [hphase]
    exact ⟨rfl, .inl hphase⟩
  | hangUp =>
    unfold Engine.step
    rw [hphase]
    exact ⟨rfl, .inl hphase⟩
  | reset =>
    unfold Engine.step
    rw [hphase]
    exact ⟨rfl, .inl hphase⟩

theorem connects_waiting {e : Engine cfg} {a : EngineAction} (h : e.connects a = true) :
    e.phase = .waiting := by
  unfold Engine.connects at h
  split at h
  · split at h
    · assumption
    · cases h
  · cases h

/-- The engine connects, or writes at the end of its last connection. -/
theorem InLine.engine (h : InLine c) (a : EngineAction) :
    InLine (c.engineStep hmac4 a) ∧
      ((c.engineStep hmac4 a).onWire c.floor).Sublist
        (c.onWire c.floor ++ c.engine.sends hmac4 a) := by
  by_cases hconnects : c.engine.connects a = true
  · obtain ⟨hwritten, -⟩ := @waiting_step _ hmac4 _ (connects_waiting hconnects) a
    have hsends := Engine.sends_of_same hwritten
    have hmade : (c.engineStep hmac4 a).made = c.made + 1 := if_pos hconnects
    have hwire : (c.engineStep hmac4 a).wire = c.wire := by
      show Function.update c.wire (c.made - 1) (c.wire (c.made - 1) ++ c.engine.sends hmac4 a) = _
      rw [hsends, List.append_nil, Function.update_eq_self]
    refine ⟨⟨fun j hj => ?_, .inr ?_, ?_, h.current, h.reading⟩, ?_⟩
    · rw [hwire]
      exact h.unused j (by omega)
    · omega
    · have hle := h.accepted
      show c.accepted ≤ (c.engineStep hmac4 a).made
      omega
    · rw [h.onWire_made h.floor_le hmade hwire, hsends, List.append_nil]
  · have hmade : (c.engineStep hmac4 a).made = c.made := if_neg hconnects
    have hwire : (c.engineStep hmac4 a).wire =
        Function.update c.wire (c.made - 1) (c.wire (c.made - 1) ++ c.engine.sends hmac4 a) := rfl
    by_cases hnone : c.made = 0
    · -- no connection has been made
      have hphase : c.engine.phase = .waiting := h.phase.resolve_right (by omega)
      obtain ⟨hwritten, hstays⟩ := @waiting_step _ hmac4 _ hphase a
      rw [Engine.sends_of_same hwritten, List.append_nil, Function.update_eq_self] at hwire
      refine ⟨⟨fun j hj => ?_, .inl (hstays.resolve_right hconnects), ?_, h.current, h.reading⟩, ?_⟩
      · rw [hwire]
        exact h.unused j (by omega)
      · exact h.accepted.trans hmade.ge
      · rw [Engine.sends_of_same hwritten, List.append_nil]
        exact onWire_mono hwire hmade le_rfl
    · refine ⟨⟨fun j hj => ?_, .inr (by omega), h.accepted.trans hmade.ge, h.current, h.reading⟩,
        ?_⟩
      · rw [hwire, Function.update_of_ne (by omega)]
        exact h.unused j (by omega)
      · by_cases hfloor : c.floor < c.made
        · rw [onWire_last _ hfloor hmade hwire]
        · unfold onWire
          rw [hmade, Nat.sub_eq_zero_of_le (not_lt.1 hfloor)]
          exact List.nil_sublist _

/-- A step of the SDK that reads nothing leaves the wire alone, and goes back to no connection. -/
theorem InLine.idle (h : InLine c) (hengine : c'.engine = c.engine) (hmade : c'.made = c.made)
    (hwire : c'.wire = c.wire) (haccepted : c'.accepted ≤ c.made)
    (hcurrent : ∀ j, c'.cur = some j → j + 1 = c'.accepted)
    (hreading : ∀ k heard, c'.reader = .reading k heard → k < c'.accepted)
    (hfloor : c.floor ≤ c'.floor) :
    InLine c' ∧ (c'.onWire c'.floor).Sublist (c.onWire c.floor) := by
  refine ⟨⟨fun j hj => ?_, ?_, haccepted.trans hmade.ge, hcurrent, hreading⟩,
    onWire_mono hwire hmade hfloor⟩
  · rw [hwire]
    exact h.unused j (hmade.ge.trans hj)
  · rw [hengine, hmade]
    exact h.phase

/-- A frame is taken off the connection that is read. -/
theorem InLine.take (h : InLine c) {k : ℕ} {heard : Heard} {p : Frame × Bool}
    {rest : List (Frame × Bool)} (hreader : c.reader = .reading k heard)
    (hwire : c.wire k = p :: rest) (heard' : Heard) (s : Sdk.Server) :
    let c' : Pairing cfg :=
      { c with server := s, wire := Function.update c.wire k rest, reader := .reading k heard' }
    InLine c' ∧ c.onWire c.floor = p :: c'.onWire c'.floor := by
  have hk := h.reading k heard hreader
  refine ⟨⟨fun j hj => ?_, h.phase, h.accepted, h.current, fun k' heard'' heq => ?_⟩, ?_⟩
  · have hne : j ≠ k := by
      have hle := h.accepted
      have hj' : c.made ≤ j := hj
      omega
    exact (Function.update_of_ne hne _ _).trans (h.unused j hj)
  · cases heq
    exact hk
  · rw [floor_reading hreader, floor_reading (c := { c with
      server := s, wire := Function.update c.wire k rest, reader := .reading k heard' }) rfl]
    exact onWire_head (hk.trans_le h.accepted) hwire rfl rfl

/-- `Dial` returns. -/
theorem InLine.accept (h : InLine c) :
    InLine (c.sdkStep .accept) ∧
      ((c.sdkStep .accept).onWire (c.sdkStep .accept).floor).Sublist (c.onWire c.floor) := by
  have hstay : InLine c ∧ (c.onWire c.floor).Sublist (c.onWire c.floor) := ⟨h, List.Sublist.refl _⟩
  unfold sdkStep
  dsimp only
  split_ifs with hnone
  · refine h.idle rfl rfl rfl hnone.2 (fun j hj => ?_) (fun k heard hreader => ?_) ?_
    · rw [Option.some.inj hj]
    · exact Nat.lt_succ_of_lt (h.reading k heard hreader)
    · unfold floor
      dsimp only
      split
      · exact le_rfl
      · rw [hnone.1]
        exact le_rfl
  · exact hstay

/-- The reader takes up the connection. -/
theorem InLine.ensured (h : InLine c) :
    InLine (c.sdkStep .ensured) ∧
      ((c.sdkStep .ensured).onWire (c.sdkStep .ensured).floor).Sublist (c.onWire c.floor) := by
  have hstay : InLine c ∧ (c.onWire c.floor).Sublist (c.onWire c.floor) := ⟨h, List.Sublist.refl _⟩
  unfold sdkStep
  dsimp only
  split
  · rename_i k hreader hcur
    have hk := h.current k hcur
    refine h.idle rfl rfl rfl h.accepted h.current (fun k' heard heq => ?_) ?_
    · cases heq
      show k < c.accepted
      omega
    · rw [floor_other (c := c) (by rw [hreader]; exact fun _ _ => LinkReader.noConfusion), hcur]
      exact le_rfl
  · exact hstay

/-- The reader dispatches what is first on its connection. -/
theorem InLine.read (h : InLine c) (raw : Sdk.BufId) (v : Sdk.Verdict) (queued : Bool) :
    InLine (c.sdkStep (.read raw v queued)) ∧
      (Hearing.hears c (.read raw v queued) ++ (c.sdkStep (.read raw v queued)).onWire
        (c.sdkStep (.read raw v queued)).floor).Sublist (c.onWire c.floor) := by
  have hstay : InLine c ∧ (c.onWire c.floor).Sublist (c.onWire c.floor) := ⟨h, List.Sublist.refl _⟩
  unfold sdkStep Hearing.hears
  dsimp only
  cases hreader : c.reader with
  | reading k heard =>
    dsimp only
    cases hwire : c.wire k with
    | nil => exact hstay
    | cons p rest =>
      obtain ⟨f, greeting⟩ := p
      dsimp only
      split_ifs
      · obtain ⟨hline, hhead⟩ := h.take hreader hwire (heard.next greeting)
          (c.server.step (.frame f.ty f.body raw v queued))
        refine ⟨hline, ?_⟩
        rw [hhead]
        exact List.Sublist.refl _
      · exact hstay
  | _ => exact hstay

/-- The reader throws a frame away. -/
theorem InLine.skip (h : InLine c) :
    InLine (c.sdkStep .skip) ∧
      ((c.sdkStep .skip).onWire (c.sdkStep .skip).floor).Sublist (c.onWire c.floor) := by
  have hstay : InLine c ∧ (c.onWire c.floor).Sublist (c.onWire c.floor) := ⟨h, List.Sublist.refl _⟩
  unfold sdkStep
  dsimp only
  split
  · rename_i k heard hreader
    split
    · rename_i f rest hwire
      obtain ⟨hline, hhead⟩ := h.take hreader hwire .more c.server
      refine ⟨hline, ?_⟩
      rw [hhead]
      exact List.sublist_cons_self _ _
    · exact hstay
  · exact hstay

/-- The reader meets an error. -/
theorem InLine.readFails (h : InLine c) :
    InLine (c.sdkStep .readFails) ∧
      ((c.sdkStep .readFails).onWire (c.sdkStep .readFails).floor).Sublist (c.onWire c.floor) := by
  have hstay : InLine c ∧ (c.onWire c.floor).Sublist (c.onWire c.floor) := ⟨h, List.Sublist.refl _⟩
  unfold sdkStep
  dsimp only
  split
  · rename_i k heard hreader
    split_ifs with hidle hcur
    · refine h.idle rfl rfl rfl h.accepted (fun j hj => by cases hj)
        (fun k' heard' heq => by cases heq) ?_
      rw [floor_reading hreader]
      exact (h.reading k heard hreader).le
    · refine h.idle rfl rfl rfl h.accepted h.current (fun k' heard' heq => by cases heq) ?_
      rw [floor_reading hreader]
      exact h.reading_le hreader
    · exact hstay
  · exact hstay

/-- The writer meets an error. -/
theorem InLine.writeFails (h : InLine c) :
    InLine (c.sdkStep .writeFails) ∧
      ((c.sdkStep .writeFails).onWire (c.sdkStep .writeFails).floor).Sublist
        (c.onWire c.floor) := by
  have hstay : InLine c ∧ (c.onWire c.floor).Sublist (c.onWire c.floor) := ⟨h, List.Sublist.refl _⟩
  unfold sdkStep
  dsimp only
  split_ifs
  · refine h.idle rfl rfl rfl h.accepted (fun j hj => by cases hj) h.reading ?_
    unfold floor
    dsimp only
    split
    · exact le_rfl
    · exact h.cur_le
  · exact hstay

/-- A step of the SDK dispatches what is first on the wire, or nothing. -/
theorem InLine.sdk (h : InLine c) {a : PairingAction} (ha : ∀ typ body raw v queued,
    a ≠ .misread typ body raw v queued) :
    InLine (c.sdkStep a) ∧
      (Hearing.hears c a ++ (c.sdkStep a).onWire (c.sdkStep a).floor).Sublist
        (c.onWire c.floor) := by
  have hstay : InLine c ∧ (c.onWire c.floor).Sublist (c.onWire c.floor) := ⟨h, List.Sublist.refl _⟩
  cases a with
  | engine a => exact hstay
  | misread typ body raw v queued => exact absurd rfl (ha typ body raw v queued)
  | accept => exact h.accept
  | ensured => exact h.ensured
  | read raw v queued => exact h.read raw v queued
  | skip => exact h.skip
  | readFails => exact h.readFails
  | writeFails => exact h.writeFails
  | readerLocks =>
    show InLine (c.sdkStep .readerLocks) ∧ ((c.sdkStep .readerLocks).onWire _).Sublist _
    unfold sdkStep
    dsimp only
    split_ifs with hlock
    · refine h.idle rfl rfl rfl h.accepted h.current (fun k' heard' heq => by cases heq) ?_
      rw [floor_other (c := c) (by rw [hlock.1]; exact fun _ _ => LinkReader.noConfusion)]
      exact le_rfl
    · exact hstay
  | readerUnlocks =>
    show InLine (c.sdkStep .readerUnlocks) ∧ ((c.sdkStep .readerUnlocks).onWire _).Sublist _
    unfold sdkStep
    dsimp only
    split_ifs with hlock
    · refine h.idle rfl rfl rfl h.accepted h.current (fun k' heard' heq => by cases heq) ?_
      rw [floor_other (c := c) (by rw [hlock.1]; exact fun _ _ => LinkReader.noConfusion)]
      exact le_rfl
    · exact hstay
  | writerLocks =>
    show InLine (c.sdkStep .writerLocks) ∧ ((c.sdkStep .writerLocks).onWire _).Sublist _
    unfold sdkStep
    dsimp only
    split_ifs
    · exact h.idle rfl rfl rfl h.accepted h.current h.reading le_rfl
    · exact hstay
  | writerUnlocks =>
    show InLine (c.sdkStep .writerUnlocks) ∧ ((c.sdkStep .writerUnlocks).onWire _).Sublist _
    unfold sdkStep
    dsimp only
    split_ifs
    · exact h.idle rfl rfl rfl h.accepted h.current h.reading le_rfl
    · exact hstay
  | server a =>
    show InLine (c.sdkStep (.server a)) ∧ ((c.sdkStep (.server a)).onWire _).Sublist _
    unfold sdkStep
    dsimp only
    split
    · exact hstay
    · exact hstay
    · exact hstay
    · exact h.idle rfl rfl rfl h.accepted h.current h.reading le_rfl

theorem engine_sdkStep (c : Pairing cfg) (a : PairingAction) : (c.sdkStep a).engine = c.engine := by
  cases a with
  | engine a => rfl
  | accept =>
    unfold sdkStep
    dsimp only
    split_ifs <;> rfl
  | ensured =>
    unfold sdkStep
    dsimp only
    split <;> rfl
  | read raw v queued =>
    unfold sdkStep
    dsimp only
    split
    · split
      · rfl
      · split_ifs <;> rfl
    · rfl
  | skip =>
    unfold sdkStep
    dsimp only
    split
    · split <;> rfl
    · rfl
  | misread typ body raw v queued =>
    unfold sdkStep
    dsimp only
    split
    · split_ifs <;> rfl
    · rfl
  | readFails =>
    unfold sdkStep
    dsimp only
    split
    · split_ifs <;> rfl
    · rfl
  | server a =>
    unfold sdkStep
    dsimp only
    split <;> rfl
  | _ =>
    unfold sdkStep
    dsimp only
    split_ifs <;> rfl

end Pairing

/-! ## The run -/

namespace Hearing

variable {cfg : EngineConfig} {hmac4 : Hmac} {s : Hearing cfg}

/-- What has been dispatched, is on the wire and in the queue comes from the enqueued events, in
order. -/
structure InOrder (s : Hearing cfg) : Prop where
  order : s.traced.OrderInv
  line : s.pairing.InLine
  tales : ∀ id : U64, (talesOf id (s.heard ++ s.pairing.onWire s.pairing.floor) ++
    s.pairing.engine.shared.queue.filter fun f => decide (f.Tells id)).Sublist
      ((eventsOf id s.traced.enqueued).map upFrame)

theorem inOrder_start (now : Instant) (M C J B : ℕ) :
    InOrder (start now M C J B : Hearing cfg) where
  order := Traced.orderInv_start now
  line := Pairing.inLine_start now M C J B
  tales _ := List.nil_sublist _

theorem InOrder.engine (h : InOrder s) {a : EngineAction} (ha : s.traced.Waits a) :
    InOrder (s.step hmac4 (.engine a)) := by
  obtain ⟨hline, hwire⟩ := @Pairing.InLine.engine _ _ hmac4 h.line a
  refine ⟨h.order.step a ha, hline, fun id => ?_⟩
  obtain ⟨D, henqueued, htales⟩ := @Traced.OrderInv.tales _ hmac4 _ h.order a id
  have hheard : (s.step hmac4 (.engine a)).heard = s.heard := by
    show s.heard ++ (if _ then [] else []) = s.heard
    rw [ite_self, List.append_nil]
  have htraced : (s.step hmac4 (.engine a)).traced = s.traced.step hmac4 a := rfl
  rw [hheard, htraced, henqueued, eventsOf_append, List.map_append]
  -- what is new on the wire comes out of the queue
  have hnew : (talesOf id
      (s.heard ++ (s.pairing.engineStep hmac4 a).onWire s.pairing.floor)).Sublist
      (talesOf id (s.heard ++ s.pairing.onWire s.pairing.floor) ++
        talesOf id (s.pairing.engine.sends hmac4 a)) := by
    rw [← talesOf_append, List.append_assoc]
    exact sublist_talesOf ((List.Sublist.refl s.heard).append hwire)
  refine (hnew.append_right _).trans ?_
  rw [List.append_assoc]
  refine (htales.append_left _).trans ?_
  rw [← List.append_assoc]
  exact (h.tales id).append_right _

theorem InOrder.sdk (h : InOrder s) {a : PairingAction} (ha : ∀ x, a ≠ .engine x)
    (hsound : s.Sound a) :
    InOrder (s.step hmac4 a) := by
  have hmis : ∀ typ body raw v queued, a ≠ .misread typ body raw v queued := by
    rintro typ body raw v queued rfl
    exact hsound
  have htraced : (s.step hmac4 a).traced = s.traced ∧
      (s.step hmac4 a).pairing = if s.pairing.server.crashed = true then s.pairing
        else s.pairing.sdkStep a := by
    cases a with
    | engine x => exact absurd rfl (ha x)
    | _ =>
      refine ⟨?_, rfl⟩
      show Traced.mk (if _ then s.pairing else s.pairing.sdkStep _).engine s.held s.queued = _
      split_ifs
      · rfl
      · rw [Pairing.engine_sdkStep]
        rfl
  obtain ⟨htraced, hpairing⟩ := htraced
  have hengine : (s.step hmac4 a).pairing.engine = s.pairing.engine :=
    congrArg Traced.engine htraced
  obtain ⟨hline, hwire⟩ := h.line.sdk hmis
  have hstep : (s.step hmac4 a).pairing.InLine ∧
      ((s.step hmac4 a).heard ++ (s.step hmac4 a).pairing.onWire
        (s.step hmac4 a).pairing.floor).Sublist (s.heard ++ s.pairing.onWire s.pairing.floor) := by
    have hheard : (s.step hmac4 a).heard =
        s.heard ++ if s.pairing.server.crashed = true then [] else hears s.pairing a := rfl
    rw [hheard, hpairing]
    split_ifs
    · rw [List.append_nil]
      exact ⟨h.line, List.Sublist.refl _⟩
    · rw [List.append_assoc]
      exact ⟨hline, (List.Sublist.refl s.heard).append hwire⟩
  refine ⟨?_, hstep.1, fun id => ?_⟩
  · rw [htraced]
    exact h.order
  · rw [htraced, hengine]
    exact ((sublist_talesOf hstep.2).append_right _).trans (h.tales id)

theorem InOrder.step (h : InOrder s) (a : PairingAction) (ha : s.Sound a) :
    InOrder (s.step hmac4 a) := by
  cases a with
  | engine x => exact h.engine ha
  | _ => exact h.sdk (fun x => PairingAction.noConfusion) ha

/-- **Across broken links.** In a run in which no task pushes past an older event of the same
session and nothing is taken for a frame that is none, what the SDK dispatches about a session, over
all connections and greetings apart, are frames of the events that the session table has reported
about it, in the order of the reports and each at most once. -/
theorem heard_in_order {now : Instant} {M C J B : ℕ}
    (h : Reach (step hmac4) Sound (start now M C J B) s) (id : U64) :
    (talesOf id s.heard).Sublist ((eventsOf id s.pairing.engine.reported).map upFrame) := by
  have hinv : s.InOrder := h.invariant (inOrder_start now M C J B) fun _ a hs ha => hs.step a ha
  have hheard : (talesOf id s.heard).Sublist ((eventsOf id s.traced.enqueued).map upFrame) := by
    refine List.Sublist.trans ?_ (hinv.tales id)
    rw [talesOf_append, List.append_assoc]
    exact List.sublist_append_left _ _
  exact hheard.trans ((hinv.order.sublist id).map upFrame)

/-! ## One task -/

/-- No other task than `w` does anything, and nothing is taken for a frame that is none. -/
def OnlyBy (w : ℕ) : PairingAction → Prop
  | .engine (.handle v _) => v = w
  | .engine (.stats v _) => v = w
  | .engine (.push v _) => v = w
  | .misread .. => False
  | _ => True

instance (w : ℕ) (a : PairingAction) : Decidable (OnlyBy w a) := by
  unfold OnlyBy
  split <;> infer_instance

/-- One task has nobody to wait for. -/
theorem allowed_of_onlyBy {w : ℕ} {xs : List PairingAction} (hxs : ∀ a ∈ xs, OnlyBy w a)
    {s : Hearing cfg} (hs : ∀ v, v ≠ w → s.held v = []) : Allowed (step hmac4) Sound s xs := by
  induction xs generalizing s with
  | nil => trivial
  | cons a xs ih =>
    rw [List.forall_mem_cons] at hxs
    refine ⟨?_, ih hxs.2 fun v hv => ?_⟩
    · cases a with
      | engine x =>
        cases x with
        | push w' now =>
          intro k e _ _ v hv j f hj
          have hw : w' = w := hxs.1
          have hnil : s.held v = [] := hs v (hw ▸ hv)
          have hj' : some j ∈ s.held v := hj
          rw [hnil] at hj'
          exact absurd hj' List.not_mem_nil
        | _ => trivial
      | misread typ body raw v queued => exact hxs.1
      | _ => trivial
    · cases a with
      | engine x =>
        have hby : ¬ x.By v := by
          cases x with
          | handle w' x => exact fun h => hv (Eq.trans (Eq.symm h) hxs.1)
          | stats w' i => exact fun h => hv (Eq.trans (Eq.symm h) hxs.1)
          | push w' now => exact fun h => hv (Eq.trans (Eq.symm h) hxs.1)
          | _ => exact id
        exact (s.traced.held_other hmac4 hby).trans (hs v hv)
      | _ => exact hs v hv

/-- A client comes in and its SessionOpen is read. The link breaks and is made again, and then the
client sends a message. -/
def talkOn : List PairingAction :=
  (Engine.linkUp ++ [EngineAction.resume true] ++ Engine.greet ++ [EngineAction.write true]).map
    .engine ++ [.accept, .ensured, .read 0 ⟨none, ⟨.RouteReject, 0⟩, false⟩ true,
      .read 0 ⟨none, ⟨.RouteReject, 0⟩, false⟩ true,
      .engine .hangUp, .engine .reset, .readFails, .readerLocks, .readerUnlocks] ++
    (Engine.linkUp ++ [EngineAction.resume true, EngineAction.resume true,
      EngineAction.handle 0 (message (.V4 0 0) 0 7), EngineAction.push 0 0,
      EngineAction.write true]).map .engine ++
    [.accept, .ensured, .read 0 ⟨none, ⟨.RouteReject, 0⟩, false⟩ true,
      .read 0 ⟨none, ⟨.RouteReject, 0⟩, false⟩ true, .read 0 ⟨none, ⟨.RouteReject, 0⟩, false⟩ true]

def talkedOn : Hearing Engine.oneShard := talkOn.foldl (step noHmac) (start 0 1024 256 2 32)

/-- The SessionOpen is heard before the link breaks and the message after it. -/
theorem heard_in_order_talkOn :
    talesOf 1 talkedOn.heard =
      [upFrame (.Open 1 (.V4 0 0) []), upFrame (.Data 1 CH_RELIABLE_ORDERED 0 [7])] ∧
      (talesOf 1 talkedOn.heard).Sublist
        ((eventsOf 1 talkedOn.pairing.engine.reported).map upFrame) := by
  have hrun : (∀ a ∈ talkOn, OnlyBy 0 a) ∧ talesOf 1 talkedOn.heard =
      [upFrame (.Open 1 (.V4 0 0) []), upFrame (.Data 1 CH_RELIABLE_ORDERED 0 [7])] := by
    decide +kernel
  exact ⟨hrun.2, heard_in_order (Reach.foldl (allowed_of_onlyBy hrun.1 fun _ _ => rfl)) 1⟩

end Hearing

end SoupEngine
