import SoupEngine.Sdk.ReadPool

/-!
# Ownership of the read buffers

Every buffer is in one place: in the pool, with the reader, in the inbox, in one jitter buffer, or
to be put back by the room (`Owned`). So none is put back twice.
-/

namespace SoupEngine.Sdk

/-- Events without a buffer. -/
theorem filterMap_post (dest : Option PlayerID) {ev : PlayerID → InEvent}
    (h : ∀ p, (ev p).raw = none) :
    (dest.map fun p => ReaderOp.post (ev p)).toList.filterMap ReaderOp.buf = [] := by
  cases dest with
  | none => rfl
  | some p => exact List.filterMap_cons_none (h p)

/-- A frame leaves at most its own buffer to be put back or posted. -/
theorem dispatch_buf (typ : U8) (body : Bytes) (raw : BufId) (dest : Option PlayerID) :
    ((dispatch typ body raw dest).filterMap ReaderOp.buf).Sublist [raw] := by
  have hput : ∀ ops : List ReaderOp, ops.filterMap ReaderOp.buf = [] →
      ((ops ++ [ReaderOp.put raw]).filterMap ReaderOp.buf).Sublist [raw] ∧
        ((ReaderOp.put raw :: ops).filterMap ReaderOp.buf).Sublist [raw] := by
    intro ops h
    have hraw : (ReaderOp.put raw).buf = some raw := rfl
    simp only [List.filterMap_append, List.filterMap_cons_some hraw, List.filterMap_nil, h]
    exact ⟨List.Sublist.refl _, List.Sublist.refl _⟩
  unfold dispatch
  dsimp only
  split_ifs
  · cases parseEngineHello body with
    | error _ => exact List.nil_sublist _
    | ok _ => exact List.Sublist.refl _
  · refine (hput _ ?_).1
    cases parseSessionOpen body with
    | error _ => rfl
    | ok _ => exact filterMap_post dest fun _ => rfl
  · refine (hput _ ?_).2
    cases parseSessionClose body with
    | error _ => rfl
    | ok _ => exact filterMap_post dest fun _ => rfl
  · refine (hput _ ?_).2
    cases parseSessionResume body with
    | error _ => rfl
    | ok _ => exact filterMap_post dest fun _ => rfl
  · cases parseData body with
    | error _ => exact List.Sublist.refl _
    | ok _ =>
      cases dest with
      | none => exact List.Sublist.refl _
      | some p => exact List.Sublist.refl _
  · refine (hput _ ?_).2
    cases parseSessionStats body with
    | error _ => rfl
    | ok _ => exact filterMap_post dest fun _ => rfl
  · refine (hput _ ?_).1
    cases parseOverload body with
    | error _ => rfl
    | ok _ => exact filterMap_post dest fun _ => rfl
  · exact List.Sublist.refl _

/-- The payload of a data event is the end of the frame. -/
theorem dispatch_post {typ : U8} {body : Bytes} {raw : BufId} {dest : Option PlayerID}
    {p : PlayerID} {ch : U8} {msg : U16} {payload : Bytes} {b : BufId}
    (h : .post (.inData p ch msg payload b) ∈ dispatch typ body raw dest) :
    b = raw ∧ payload <:+ body := by
  have hpost : ∀ ev : PlayerID → InEvent, (∀ p, (ev p).raw = none) →
      .post (.inData p ch msg payload b) ∉ (dest.map fun p => ReaderOp.post (ev p)).toList := by
    intro ev hev hmem
    have := List.mem_filterMap.2 ⟨_, hmem, show ReaderOp.buf _ = some b from rfl⟩
    rw [filterMap_post dest hev] at this
    cases this
  have hne : ReaderOp.post (.inData p ch msg payload b) ≠ .put raw := fun h => by cases h
  unfold dispatch at h
  dsimp only at h
  split_ifs at h
  · cases hp : parseEngineHello body with
    | error _ =>
      rw [hp] at h
      cases h
    | ok _ =>
      rw [hp] at h
      exact absurd (List.mem_singleton.1 h) hne
  · rcases List.mem_append.1 h with h | h
    · cases hp : parseSessionOpen body with
      | error _ =>
        rw [hp] at h
        cases h
      | ok _ =>
        rw [hp] at h
        exact absurd h (hpost _ fun _ => rfl)
    · exact absurd (List.mem_singleton.1 h) hne
  · rcases List.mem_cons.1 h with h | h
    · exact absurd h hne
    · cases hp : parseSessionClose body with
      | error _ =>
        rw [hp] at h
        cases h
      | ok _ =>
        rw [hp] at h
        exact absurd h (hpost _ fun _ => rfl)
  · rcases List.mem_cons.1 h with h | h
    · exact absurd h hne
    · cases hp : parseSessionResume body with
      | error _ =>
        rw [hp] at h
        cases h
      | ok _ =>
        rw [hp] at h
        exact absurd h (hpost _ fun _ => rfl)
  · cases hp : parseData body with
    | error _ =>
      rw [hp] at h
      exact absurd (List.mem_singleton.1 h) hne
    | ok out =>
      obtain ⟨sess, ch', msg', payload'⟩ := out
      rw [hp] at h
      cases dest with
      | none => exact absurd (List.mem_singleton.1 h) hne
      | some q =>
        have heq := List.mem_singleton.1 h
        cases heq
        refine ⟨rfl, ?_⟩
        unfold parseData at hp
        split_ifs at hp
        obtain ⟨-, hrest⟩ := Prod.mk.inj (Except.ok.inj hp)
        obtain ⟨-, hrest⟩ := Prod.mk.inj hrest
        obtain ⟨-, hrest⟩ := Prod.mk.inj hrest
        rw [← hrest]
        exact List.drop_suffix _ _
  · rcases List.mem_cons.1 h with h | h
    · exact absurd h hne
    · cases hp : parseSessionStats body with
      | error _ =>
        rw [hp] at h
        cases h
      | ok _ =>
        rw [hp] at h
        exact absurd h (hpost _ fun _ => rfl)
  · rcases List.mem_append.1 h with h | h
    · cases hp : parseOverload body with
      | error _ =>
        rw [hp] at h
        cases h
      | ok _ =>
        rw [hp] at h
        exact absurd h (hpost _ fun _ => rfl)
    · exact absurd (List.mem_singleton.1 h) hne
  · exact absurd (List.mem_singleton.1 h) hne

namespace Room

/-- The buffers that the walk puts back are those of one player, as far as one buffer is
concerned. -/
theorem count_flatMap_le {g : PlayerID → List BufId} {b : BufId}
    (hapart : ∀ p q, p ≠ q → (g p).count b + (g q).count b ≤ 1) {order : List PlayerID}
    (hn : order.Nodup) : (order.flatMap g).count b = 0 ∨ ∃ p ∈ order,
    (order.flatMap g).count b = (g p).count b := by
  induction order with
  | nil => exact .inl rfl
  | cons p ps ih =>
    obtain ⟨hp, hps⟩ := List.nodup_cons.1 hn
    rw [List.flatMap_cons, List.count_append]
    rcases ih hps with h0 | ⟨q, hq, heq⟩
    · right
      exact ⟨p, List.mem_cons_self, by rw [h0, Nat.add_zero]⟩
    · have hpq : p ≠ q := fun h => hp (h ▸ hq)
      have := hapart p q hpq
      rw [heq]
      by_cases h0 : (g q).count b = 0
      · exact .inr ⟨p, List.mem_cons_self, by rw [h0, Nat.add_zero]⟩
      · exact .inr ⟨q, List.mem_cons_of_mem _ hq, by omega⟩

/-- What a tick does with the buffers. -/
theorem tick_moves {r r' : Room} {order : List PlayerID} {ops : List RoomOp} (ho : r.IsOrder order)
    (hd : r.deliverReadyInputs order = some (r', ops)) :
    ops.filterMap RoomOp.buf = order.flatMap r.putsOf ∧
      (∀ p, r.rawsOf p = r.putsOf p ++ r'.rawsOf p) ∧ ∀ p, ∀ e ∈ r'.jbufOf p, e ∈ r.jbufOf p := by
  obtain ⟨-, -, pend, -, rfl⟩ := deliverReadyInputs_eq_some ho hd
  have hplayers := (deliver_spec ho hd).1
  refine ⟨?_, fun p => ?_, fun p e he => ?_⟩
  · rw [List.filterMap_append, List.filterMap_map, List.filterMap_map]
    have hcalls : pend.filterMap (RoomOp.buf ∘ onInputOf) = [] :=
      List.filterMap_eq_nil_iff.2 fun d _ => rfl
    rw [hcalls, List.append_nil]
    exact List.filterMap_some
  · cases hst : r.players[p]? with
    | none =>
      have hr' : r'.players[p]? = none := by rw [hplayers, hst]; rfl
      unfold rawsOf putsOf
      rw [Run.jbufOf_eq hst, Run.jbufOf_eq hr', hst]
      rfl
    | some st =>
      have hr' : r'.players[p]? = some (st.deliver r.tick p).1 := by rw [hplayers, hst]; rfl
      unfold rawsOf putsOf
      rw [(Run.length_taken hst hr').1, List.filterMap_append, hst]
      rfl
  · cases hst : r.players[p]? with
    | none =>
      have hr' : r'.players[p]? = none := by rw [hplayers, hst]; rfl
      rw [Run.jbufOf_eq hr'] at he
      cases he
    | some st =>
      have hr' : r'.players[p]? = some (st.deliver r.tick p).1 := by rw [hplayers, hst]; rfl
      rw [(Run.length_taken hst hr').1]
      exact List.mem_append_right _ he

end Room

namespace Pool

/-- One if the buffer is in the pool, zero otherwise. -/
def freeCount (s : Pool) (b : BufId) : ℕ := if b ∈ s.free then 1 else 0

/-- **Ownership.** -/
structure Owned (s : Pool) : Prop where
  once : ∀ b p, s.freeCount b + s.held.count b + (s.room.rawsOf p).count b ≤ 1
  apart : ∀ b p q, p ≠ q → (s.room.rawsOf p).count b + (s.room.rawsOf q).count b ≤ 1
  /-- A buffer that has not been made yet is nowhere. -/
  known : ∀ b, s.next ≤ b → s.freeCount b + s.held.count b = 0 ∧ ∀ p, (s.room.rawsOf p).count b = 0
  single : s.twice = false
  /-- The reader holds a buffer only when it has nothing left to do. -/
  idle : s.reader ≠ none → s.pending = []

theorem count_held (s : Pool) (b : BufId) :
    s.held.count b = s.reader.toList.count b + (s.pending.filterMap ReaderOp.buf).count b +
      (s.inbox.filterMap InEvent.raw).count b + (s.todo.filterMap RoomOp.buf).count b := by
  unfold held
  rw [List.count_append, List.count_append, List.count_append]

theorem owned_start (J B : ℕ) : Owned (start J B) := by
  have hraws : ∀ p, (start J B).room.rawsOf p = [] := by
    intro p
    have : (start J B).room.players[p]? = none := Std.ExtTreeMap.getElem?_empty
    unfold Room.rawsOf
    rw [Run.jbufOf_eq this]
    rfl
  refine ⟨fun b p => ?_, fun b p q _ => ?_, fun b _ => ⟨rfl, fun p => ?_⟩, rfl,
    fun h => absurd rfl h⟩
  · rw [hraws]
    exact Nat.zero_le _
  · rw [hraws, hraws]
    exact Nat.zero_le _
  · rw [hraws]
    rfl

/-- Buffers are moved to and from the jitter buffer of one player. -/
theorem Owned.of_moves {s s' : Pool} (h : Owned s) (p : PlayerID)
    (hothers : ∀ q, q ≠ p → s'.room.rawsOf q = s.room.rawsOf q)
    (hcount : ∀ b, s'.freeCount b + s'.held.count b + (s'.room.rawsOf p).count b ≤
      s.freeCount b + s.held.count b + (s.room.rawsOf p).count b)
    (hnext : s'.next = s.next) (hsingle : s'.twice = false)
    (hidle : s'.reader ≠ none → s'.pending = []) :
    Owned s' := by
  refine ⟨fun b q => ?_, fun b q q' hq => ?_, fun b hb => ?_, hsingle, hidle⟩
  · have h1 := hcount b
    have h2 := h.once b p
    have h3 := h.once b q
    by_cases hqp : q = p
    · rw [hqp]
      omega
    · have h4 := h.apart b q p hqp
      rw [hothers q hqp]
      omega
  · have h1 := hcount b
    have h2 := h.once b p
    by_cases hqp : q = p
    · have hq'p : q' ≠ p := fun h => hq (hqp.trans h.symm)
      have h3 := h.once b q'
      have h4 := h.apart b q' p hq'p
      rw [hqp, hothers q' hq'p]
      omega
    · have h3 := h.once b q
      have h4 := h.apart b q p hqp
      by_cases hq'p : q' = p
      · rw [hq'p, hothers q hqp]
        omega
      · rw [hothers q hqp, hothers q' hq'p]
        exact h.apart b q q' hq
  · rw [hnext] at hb
    obtain ⟨h1, h2⟩ := h.known b hb
    have h3 := hcount b
    have h4 := h2 p
    refine ⟨by omega, fun q => ?_⟩
    by_cases hqp : q = p
    · rw [hqp]
      omega
    · rw [hothers q hqp]
      exact h2 q

/-- Buffers are moved between those who hold them, or lost. -/
theorem Owned.of_held {s s' : Pool} (h : Owned s) (hroom : s'.room = s.room)
    (hfree : s'.free = s.free) (hheld : ∀ c, s'.held.count c ≤ s.held.count c)
    (hnext : s'.next = s.next) (hsingle : s'.twice = s.twice)
    (hidle : s'.reader ≠ none → s'.pending = []) : Owned s' := by
  refine h.of_moves 0 (fun q _ => by rw [hroom]) (fun c => ?_) hnext (hsingle.trans h.single) hidle
  have := hheld c
  unfold freeCount
  rw [hroom, hfree]
  omega

/-- A buffer that is held is put back into the pool. -/
theorem Owned.of_put {s s' : Pool} (h : Owned s) {b : BufId} (hroom : s'.room = s.room)
    (hfree : s'.free = insert b s.free)
    (hheld : ∀ c, s.held.count c = s'.held.count c + [b].count c) (hnext : s'.next = s.next)
    (hsingle : s'.twice = (s.twice || decide (b ∈ s.free)))
    (hidle : s'.reader ≠ none → s'.pending = []) : Owned s' := by
  have hpos : 0 < s.held.count b := by
    rw [hheld, List.count_singleton_self]
    omega
  have hnot : b ∉ s.free := by
    intro hmem
    have := h.once b 0
    have hone : s.freeCount b = 1 := if_pos hmem
    omega
  have hcount : ∀ c, s'.freeCount c = s.freeCount c + [b].count c := by
    intro c
    unfold freeCount
    rw [hfree]
    by_cases hc : c = b
    · rw [hc, if_pos (Finset.mem_insert_self b _), if_neg hnot, List.count_singleton_self]
    · have hiff : c ∈ insert b s.free ↔ c ∈ s.free := by
        rw [Finset.mem_insert]
        exact or_iff_right hc
      have hzero : [b].count c = 0 := List.count_eq_zero.2 fun hm => hc (List.mem_singleton.1 hm)
      simp only [hiff, hzero, Nat.add_zero]
  refine h.of_moves 0 (fun q _ => by rw [hroom]) (fun c => ?_) hnext ?_ hidle
  · have h1 := hcount c
    have h2 := hheld c
    rw [hroom]
    omega
  · rw [hsingle, h.single, decide_eq_false hnot]
    rfl

theorem count_cons' (b c : BufId) (bs : List BufId) :
    (b :: bs).count c = [b].count c + bs.count c := by
  rw [← List.count_append]
  rfl

/-- The pool hands out a buffer. -/
theorem Owned.of_get {s s' : Pool} (h : Owned s) {b : BufId} (hb : b ∈ s.free ∨ b = s.next)
    (hroom : s'.room = s.room) (hfree : s'.free = s.free.erase b)
    (hheld : ∀ c, s'.held.count c = s.held.count c + [b].count c)
    (hnext : s'.next = if b = s.next then s.next + 1 else s.next) (hsingle : s'.twice = s.twice)
    (hidle : s'.pending = []) : Owned s' := by
  have hother : ∀ c, c ≠ b → s'.freeCount c = s.freeCount c ∧ [b].count c = 0 := by
    intro c hc
    have hiff : c ∈ s.free.erase b ↔ c ∈ s.free := by
      rw [Finset.mem_erase]
      exact and_iff_right hc
    refine ⟨?_, List.count_eq_zero.2 fun hm => hc (List.mem_singleton.1 hm)⟩
    unfold freeCount
    simp only [hfree, hiff]
  have hself : s'.freeCount b = 0 ∧ [b].count b = 1 := by
    refine ⟨if_neg ?_, List.count_singleton_self⟩
    rw [hfree]
    exact Finset.notMem_erase b s.free
  have hold : s.held.count b = 0 ∧ ∀ p, (s.room.rawsOf p).count b = 0 := by
    rcases hb with hb | hb
    · have hone : s.freeCount b = 1 := if_pos hb
      have h0 := h.once b 0
      refine ⟨by omega, fun p => ?_⟩
      have := h.once b p
      omega
    · obtain ⟨h1, h2⟩ := h.known b (le_of_eq hb.symm)
      exact ⟨by omega, h2⟩
  refine ⟨fun c p => ?_, ?_, fun c hc => ?_, hsingle.trans h.single, fun _ => hidle⟩
  · rw [hroom, hheld]
    by_cases hcb : c = b
    · rw [hcb, hself.1, hself.2, hold.1, hold.2]
    · rw [(hother c hcb).1, (hother c hcb).2]
      exact h.once c p
  · rw [hroom]
    exact h.apart
  · have hnew : s.next ≤ c ∧ c ≠ b := by
      rw [hnext] at hc
      split_ifs at hc with hbn
      · refine ⟨Nat.le_of_succ_le hc, fun hcb => ?_⟩
        rw [hcb, hbn] at hc
        exact Nat.lt_irrefl _ hc
      · refine ⟨hc, fun hcb => ?_⟩
        rcases hb with hb | hb
        · have hone : s.freeCount b = 1 := if_pos hb
          have := (h.known c hc).1
          rw [hcb] at this
          omega
        · exact hbn hb
    rw [hroom, hheld, (hother c hnew.2).1, (hother c hnew.2).2]
    exact h.known c hnew.1

/-- A tick moves buffers from all jitter buffers to those that are put back. -/
theorem Owned.of_tick {s s' : Pool} (h : Owned s) {order : List PlayerID} (hn : order.Nodup)
    {g : PlayerID → List BufId} (hraws : ∀ p, s.room.rawsOf p = g p ++ s'.room.rawsOf p)
    (hfree : s'.free = s.free)
    (hheld : ∀ c, s'.held.count c = s.held.count c + (order.flatMap g).count c)
    (hnext : s'.next = s.next) (hsingle : s'.twice = s.twice)
    (hidle : s'.reader ≠ none → s'.pending = []) : Owned s' := by
  have hcount : ∀ p c, (s.room.rawsOf p).count c = (g p).count c + (s'.room.rawsOf p).count c := by
    intro p c
    rw [hraws, List.count_append]
  have hapart : ∀ c p q, p ≠ q → (g p).count c + (g q).count c ≤ 1 := by
    intro c p q hpq
    have := h.apart c p q hpq
    rw [hcount p, hcount q] at this
    omega
  have hwalk := fun c => Room.count_flatMap_le (hapart c) hn
  have hsame : ∀ c, s'.freeCount c = s.freeCount c := by
    intro c
    unfold freeCount
    rw [hfree]
  refine ⟨fun c p => ?_, fun c p q hpq => ?_, fun c hc => ?_, hsingle.trans h.single, hidle⟩
  · have h1 := h.once c p
    rw [hsame, hheld]
    rw [hcount] at h1
    rcases hwalk c with h0 | ⟨q, -, hq⟩
    · omega
    · have h2 := h.once c q
      rw [hcount] at h2
      by_cases hpq : p = q
      · rw [hq, ← hpq]
        omega
      · have h3 := h.apart c p q hpq
        rw [hcount, hcount q] at h3
        omega
  · have := h.apart c p q hpq
    rw [hcount p, hcount q] at this
    omega
  · rw [hnext] at hc
    obtain ⟨h1, h2⟩ := h.known c hc
    have h3 : ∀ p, (g p).count c = 0 ∧ (s'.room.rawsOf p).count c = 0 := by
      intro p
      have := h2 p
      rw [hcount] at this
      omega
    refine ⟨?_, fun p => (h3 p).2⟩
    rw [hsame, hheld]
    rcases hwalk c with h0 | ⟨q, -, hq⟩
    · omega
    · have := (h3 q).1
      omega

/-- What the reader holds goes into what it has to do, if at all. -/
theorem Owned.handed {s : Pool} (h : Owned s) {b : BufId} (hr : s.reader = some b)
    {ops : List ReaderOp} (hops : ∀ c, (ops.filterMap ReaderOp.buf).count c ≤ [b].count c)
    (mem : BufId → Bytes) :
    Owned { s with mem := mem, reader := none, pending := ops } := by
  have hp := h.idle (by rw [hr]; exact Option.some_ne_none b)
  refine h.of_held rfl rfl (fun c => ?_) rfl rfl fun h => absurd rfl h
  have hle := hops c
  rw [count_held, count_held s, hr, hp]
  simp only [Option.toList_none, Option.toList_some, List.filterMap_nil, List.count_nil]
  omega

/-- The reader puts a buffer back. -/
theorem Owned.puts {s : Pool} (h : Owned s) {b : BufId} {ops : List ReaderOp}
    (hp : s.pending = .put b :: ops) : Owned { s.put b with pending := ops } := by
  have hreader : s.reader = none := by
    by_contra hne
    rw [h.idle hne] at hp
    cases hp
  refine h.of_put rfl rfl (fun c => ?_) rfl rfl fun hne => absurd hreader hne
  have hbuf : (ReaderOp.put b).buf = some b := rfl
  rw [count_held, count_held { s.put b with pending := ops }, hp, List.filterMap_cons_some hbuf,
    count_cons']
  simp only [put]
  omega

/-- The reader posts an event. -/
theorem Owned.posts {s : Pool} (h : Owned s) {ev : InEvent} {ops : List ReaderOp}
    (hp : s.pending = .post ev :: ops) :
    Owned { s with inbox := s.inbox ++ [ev], pending := ops } := by
  have hreader : s.reader = none := by
    by_contra hne
    rw [h.idle hne] at hp
    cases hp
  refine h.of_held rfl rfl (fun c => ?_) rfl rfl fun hne => absurd hreader hne
  have hbuf : ((ReaderOp.post ev :: ops).filterMap ReaderOp.buf).count c =
      ([ev].filterMap InEvent.raw).count c + (ops.filterMap ReaderOp.buf).count c := by
    rw [← List.count_append, ← List.singleton_append, List.filterMap_append]
    rfl
  rw [count_held, count_held s, hp, hbuf]
  simp only [List.filterMap_append, List.count_append]
  omega

/-- The room takes an event: what it had goes into the jitter buffer of a player, or is put back. -/
theorem Owned.takes {s : Pool} (h : Owned s) (htodo : s.todo = []) {ev : InEvent}
    {rest : List InEvent} (hin : s.inbox = ev :: rest) :
    Owned { s with
      room := (s.room.handleEvent ev).1, inbox := rest, todo := (s.room.handleEvent ev).2 } := by
  obtain ⟨p, hmoves⟩ := s.room.handleEvent_moves ev
  refine h.of_moves p hmoves.others (fun c => ?_) rfl h.single h.idle
  have hcount := hmoves.count c
  have hbuf : ((ev :: rest).filterMap InEvent.raw).count c =
      ev.raw.toList.count c + (rest.filterMap InEvent.raw).count c := by
    rw [← List.count_append, List.filterMap_cons]
    cases ev.raw with
    | none => rfl
    | some b => rfl
  rw [count_held, count_held s, htodo, hin, hbuf]
  show s.freeCount c + _ + _ ≤ _
  simp only [List.filterMap_nil, List.count_nil] at hcount ⊢
  omega

/-- A tick, which delivers inputs. -/
theorem Owned.ticks {s : Pool} (h : Owned s) (htodo : s.todo = []) {order : List PlayerID}
    (horder : s.room.IsOrder order) {r' : Room} {ops : List RoomOp}
    (hd : s.room.deliverReadyInputs order = some (r', ops)) :
    Owned { s with room := { r' with tick := r'.tick + 1 }, todo := ops } := by
  obtain ⟨hops, hraws, -⟩ := Room.tick_moves horder hd
  refine h.of_tick horder.1 hraws rfl (fun c => ?_) rfl rfl h.idle
  rw [count_held, count_held s, htodo, ← hops]
  simp only [List.filterMap_nil, List.count_nil]
  omega

/-- The room puts a buffer back. -/
theorem Owned.acts_put {s : Pool} (h : Owned s) {b : BufId} {ops : List RoomOp}
    (htodo : s.todo = .put b :: ops) : Owned { s.put b with todo := ops } := by
  refine h.of_put rfl rfl (fun c => ?_) rfl rfl h.idle
  have hbuf : (RoomOp.put b).buf = some b := rfl
  rw [count_held, count_held { s.put b with todo := ops }, htodo, List.filterMap_cons_some hbuf,
    count_cons']
  simp only [put]
  omega

/-- The room does something else. -/
theorem Owned.acts {s : Pool} (h : Owned s) {op : RoomOp} {ops : List RoomOp}
    (htodo : s.todo = op :: ops) : Owned { s with todo := ops } := by
  refine h.of_held rfl rfl (fun c => ?_) rfl rfl h.idle
  rw [count_held, count_held s, htodo]
  have hle := ((List.sublist_cons_self op ops).filterMap RoomOp.buf).count_le c
  dsimp only
  omega

/-- A player is kicked, and what is buffered for the player is gone. -/
theorem Owned.kicks {s : Pool} (h : Owned s) (p : PlayerID) (reason : U8) :
    Owned { s with
      room := (s.room.kick p reason).1
      todo := (s.room.kick p reason).2 ++ s.todo } := by
  obtain ⟨hplayers, -, -⟩ := s.room.kick_spec p reason
  have hops : (s.room.kick p reason).2.filterMap RoomOp.buf = [] := by
    unfold Room.kick
    cases s.room.players[p]? with
    | none => rfl
    | some st => rfl
  refine h.of_moves p (fun q hq => ?_) (fun c => ?_) rfl h.single h.idle
  · show (s.room.kick p reason).1.rawsOf q = _
    unfold Room.rawsOf
    rw [Run.jbufOf_eq (hplayers q), if_neg (Ne.symm hq)]
    rfl
  · rw [count_held, count_held s]
    show s.freeCount c + _ + ((s.room.kick p reason).1.rawsOf p).count c ≤ _
    unfold Room.rawsOf
    rw [Run.jbufOf_eq (hplayers p), if_pos rfl]
    simp only [List.filterMap_append, hops, List.nil_append, Option.map_none, Option.getD_none,
      List.filterMap_nil, List.count_nil]
    omega

theorem owned_step (s : Pool) (a : PoolAction) (h : Owned s) (ha : s.Valid a) :
    Owned (s.step a) := by
  unfold step
  by_cases hc : s.crashed = true
  · rw [if_pos hc]
    exact h
  rw [if_neg hc]
  cases a with
  | get b =>
    dsimp only
    by_cases hidle : s.reader = none ∧ s.pending = []
    · rw [if_pos hidle]
      refine h.of_get ha rfl rfl (fun c => ?_) rfl rfl hidle.2
      rw [count_held, count_held s, hidle.1]
      simp only [Option.toList_none, Option.toList_some, List.count_nil]
      omega
    · rw [if_neg hidle]
      exact h
  | refuse =>
    dsimp only
    cases hr : s.reader with
    | none => exact h
    | some b => exact h.handed hr (fun _ => le_rfl) s.mem
  | frame typ body dest =>
    dsimp only
    cases hr : s.reader with
    | none => exact h
    | some b => exact h.handed hr (fun c => (dispatch_buf typ body b dest).count_le c) _
  | read =>
    dsimp only
    cases hp : s.pending with
    | nil => exact h
    | cons op ops =>
      cases op with
      | put b => exact h.puts hp
      | post ev => exact h.posts hp
  | take =>
    dsimp only
    cases htodo : s.todo with
    | cons op ops => exact h
    | nil =>
      cases hin : s.inbox with
      | nil => exact h
      | cons ev rest => exact h.takes htodo hin
  | tick order =>
    dsimp only
    cases htodo : s.todo with
    | cons op ops => exact h
    | nil =>
      dsimp only
      cases hd : s.room.deliverReadyInputs order with
      | none =>
        refine h.of_held rfl rfl (fun c => ?_) rfl rfl h.idle
        rw [count_held, count_held s, htodo]
      | some out => exact h.ticks htodo ha hd
  | act =>
    dsimp only
    cases htodo : s.todo with
    | nil => exact h
    | cons op ops =>
      cases op with
      | put b => exact h.acts_put htodo
      | _ => exact h.acts htodo
  | kick p reason => exact h.kicks p reason

end Pool

end SoupEngine.Sdk
