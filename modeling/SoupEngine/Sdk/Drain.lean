import SoupEngine.Sdk.Order

/-!
# What a tick takes from a jitter buffer

The loop takes the longest front of the buffer whose entries are due and in sequence
(`drainLoop_spec`); `Unobstructed` says that nothing due is left behind, and `Drains` that the whole
buffer is taken.
-/

namespace SoupEngine.Sdk

theorem seqNewer_self (s : InputSeq) : seqNewer s s = false := by
  unfold seqNewer
  rw [BitVec.sub_self]
  rfl

namespace PState

/-- The numbers go up by one from entry to entry, and from the number that was delivered last. -/
def InSequence (st : PState) (es : List JitterEntry) : Prop :=
  List.IsChain (fun a b : InputSeq => b = a + 1)
    ((if st.hasInput = true then [st.lastSeq] else []) ++ es.map JitterEntry.seq)

/-- The entries can be taken from the buffer one after the other in this tick. -/
def Drains (st : PState) (tick : Tick) (es : List JitterEntry) : Prop :=
  (∀ e ∈ es, e.due ≤ tick) ∧ st.InSequence es

/-- Everything in front of an entry that is due can be taken together with it. -/
def Unobstructed (st : PState) (tick : Tick) : Prop :=
  ∀ es e, es ++ [e] <+: st.jbuf → e.due ≤ tick → st.Drains tick (es ++ [e])

/-- The state after the entries have been taken. -/
def consumed (st : PState) (es : List JitterEntry) : PState := es.foldl consume st

theorem inSequence_nil (st : PState) : st.InSequence [] := by
  unfold InSequence
  split_ifs
  · exact List.isChain_singleton _
  · exact List.isChain_nil

theorem inSequence_cons {st : PState} {e : JitterEntry} {es : List JitterEntry} :
    st.InSequence (e :: es) ↔
      (st.hasInput = true → e.seq = st.lastSeq + 1) ∧ (st.consume e).InSequence es := by
  unfold InSequence consume
  by_cases h : st.hasInput = true
  · simp only [h, if_true, List.map_cons, List.singleton_append, List.isChain_cons_cons,
      forall_const]
  · simp only [h, if_false, Bool.false_eq_true, List.map_cons, List.nil_append, if_true,
      List.singleton_append, false_implies, true_and]

theorem drains_nil (st : PState) (tick : Tick) : st.Drains tick [] :=
  ⟨fun _ h => absurd h List.not_mem_nil, st.inSequence_nil⟩

theorem drains_cons {st : PState} {tick : Tick} {e : JitterEntry} {es : List JitterEntry} :
    st.Drains tick (e :: es) ↔ e.due ≤ tick ∧ (st.hasInput = true → e.seq = st.lastSeq + 1) ∧
      (st.consume e).Drains tick es := by
  unfold Drains
  rw [List.forall_mem_cons, inSequence_cons]
  tauto

theorem Drains.of_isPrefix {st : PState} {tick : Tick} {es es' : List JitterEntry}
    (h : st.Drains tick es') (hp : es <+: es') : st.Drains tick es := by
  refine ⟨fun e he => h.1 e (hp.subset he), ?_⟩
  obtain ⟨t, rfl⟩ := hp
  have := h.2
  unfold InSequence at this ⊢
  rw [List.map_append, ← List.append_assoc] at this
  exact this.left_of_append

/-- **The loop** takes a front of the buffer that can be taken, and stops in front of the first
entry with which it could not. -/
theorem drainLoop_spec (tick : Tick) (buf : List JitterEntry) (st : PState) :
    ∃ rest, buf = (drainLoop tick buf st).2 ++ rest ∧ st.Drains tick (drainLoop tick buf st).2 ∧
      (drainLoop tick buf st).1 = { st.consumed (drainLoop tick buf st).2 with jbuf := rest } ∧
      ∀ e ∈ rest.head?, ¬ st.Drains tick ((drainLoop tick buf st).2 ++ [e]) := by
  induction buf generalizing st with
  | nil => exact ⟨[], rfl, drains_nil _ _, rfl, fun e he => by cases he⟩
  | cons head rest ih =>
    rw [drainLoop]
    split_ifs with hdue hseq
    · -- the head is not due yet
      refine ⟨head :: rest, rfl, drains_nil _ _, rfl, fun e he hd => ?_⟩
      obtain rfl : head = e := Option.some.inj he
      exact absurd (drains_cons.1 hd).1 (by simpa using hdue)
    · -- the head is not next in sequence
      refine ⟨head :: rest, rfl, drains_nil _ _, rfl, fun e he hd => ?_⟩
      obtain rfl : head = e := Option.some.inj he
      exact hseq.2 ((drains_cons.1 hd).2.1 hseq.1)
    · obtain ⟨left, hbuf, hd, hst, hstop⟩ := ih (st.consume head)
      have hhead : head.due ≤ tick := by simpa using hdue
      have hnext : st.hasInput = true → head.seq = st.lastSeq + 1 := fun h => by
        by_contra hne
        exact hseq ⟨h, hne⟩
      refine ⟨left, congrArg (head :: ·) hbuf, drains_cons.2 ⟨hhead, hnext, hd⟩, hst,
        fun e he hc => ?_⟩
      exact hstop e he (drains_cons.1 hc).2.2

/-- What a tick takes from the buffer of a player. -/
def taken (st : PState) (tick : Tick) : List JitterEntry := (drainLoop tick st.jbuf st).2

theorem jbuf_deliver (st : PState) (tick : Tick) (p : PlayerID) :
    st.jbuf = st.taken tick ++ (st.deliver tick p).1.jbuf := by
  obtain ⟨rest, hbuf, -, hst, -⟩ := drainLoop_spec tick st.jbuf st
  have : (st.deliver tick p).1.jbuf = rest := congrArg jbuf hst
  rw [this]
  exact hbuf

theorem deliver_eq (st : PState) (tick : Tick) (p : PlayerID) :
    (st.deliver tick p).1 =
      { st.consumed (st.taken tick) with jbuf := (st.deliver tick p).1.jbuf } := by
  obtain ⟨rest, -, -, hst, -⟩ := drainLoop_spec tick st.jbuf st
  have : (st.deliver tick p).1.jbuf = rest := congrArg jbuf hst
  rw [this]
  exact hst

/-- The delivery of input leaves the rest of the state alone. -/
theorem consumed_frame (st : PState) (es : List JitterEntry) :
    ∃ lastPayload lastPayloadLen lastSeq hasInput,
      st.consumed es = { st with lastPayload, lastPayloadLen, lastSeq, hasInput } := by
  unfold consumed
  induction es generalizing st with
  | nil => exact ⟨_, _, _, _, rfl⟩
  | cons e es ih =>
    obtain ⟨a, b, c, d, h⟩ := ih (st.consume e)
    exact ⟨a, b, c, d, h⟩

theorem deliver_frame (st : PState) (tick : Tick) (p : PlayerID) :
    ∃ jbuf lastPayload lastPayloadLen lastSeq hasInput,
      (st.deliver tick p).1 = { st with jbuf, lastPayload, lastPayloadLen, lastSeq, hasInput } := by
  obtain ⟨a, b, c, d, h⟩ := st.consumed_frame (st.taken tick)
  rw [deliver_eq, h]
  exact ⟨_, a, b, c, d, rfl⟩

theorem drains_taken (st : PState) (tick : Tick) : st.Drains tick (st.taken tick) :=
  (drainLoop_spec tick st.jbuf st).choose_spec.2.1

/-- Whatever can be taken is taken. -/
theorem prefix_taken {st : PState} {tick : Tick} {es : List JitterEntry} (hp : es <+: st.jbuf)
    (hd : st.Drains tick es) : es <+: st.taken tick := by
  obtain ⟨rest, hbuf, -, -, hstop⟩ := drainLoop_spec tick st.jbuf st
  change st.jbuf = st.taken tick ++ rest at hbuf
  rcases List.prefix_or_prefix_of_prefix hp (hbuf ▸ List.prefix_append _ rest) with h | h
  · exact h
  · obtain ⟨more, rfl⟩ := h
    rw [hbuf, List.prefix_append_right_inj] at hp
    cases more with
    | nil =>
      rw [List.append_nil]
    | cons e more =>
      obtain ⟨t, rfl⟩ := hp
      refine absurd (hd.of_isPrefix ?_) (hstop e rfl)
      exact ⟨more, by rw [List.append_assoc]; rfl⟩

/-- Nothing is taken exactly if the head cannot be taken. -/
theorem taken_eq_nil_iff (st : PState) (tick : Tick) :
    st.taken tick = [] ↔ ∀ e ∈ st.jbuf.head?, ¬ st.Drains tick [e] := by
  constructor
  · intro h e he hd
    obtain ⟨es, hes⟩ := List.head?_eq_some_iff.1 he
    have := (prefix_taken (hes ▸ ⟨es, rfl⟩) hd).length_le
    rw [h] at this
    exact absurd this (Nat.not_succ_le_zero 0)
  · intro h
    cases ht : st.taken tick with
    | nil => rfl
    | cons e es =>
      have hd := st.drains_taken tick
      have hbuf := st.jbuf_deliver tick 0
      rw [ht] at hd hbuf
      exact absurd (hd.of_isPrefix ⟨es, rfl⟩) (h e (by rw [hbuf]; rfl))

/-- A tick leaves nothing due behind exactly if nothing due is obstructed. -/
theorem not_due_iff (st : PState) (tick : Tick) (p : PlayerID) :
    (∀ e ∈ (st.deliver tick p).1.jbuf, tick < e.due) ↔ st.Unobstructed tick := by
  have hbuf := st.jbuf_deliver tick p
  constructor
  · intro h es e hp hdue
    rcases List.prefix_or_prefix_of_prefix hp (hbuf ▸ List.prefix_append _ _) with hpre | hpre
    · exact (st.drains_taken tick).of_isPrefix hpre
    · rw [List.prefix_concat_iff] at hpre
      rcases hpre with heq | hpre
      · rw [← heq]
        exact st.drains_taken tick
      · -- then the entry is behind those that were taken
        obtain ⟨more, rfl⟩ := hpre
        rw [hbuf, List.append_assoc, List.prefix_append_right_inj] at hp
        have := h e (hp.subset (List.mem_append_right _ (List.mem_singleton.2 rfl)))
        exact absurd hdue (by simpa using this)
  · intro h e he
    by_contra hdue
    obtain ⟨a, b, hab⟩ := List.append_of_mem he
    have hp : st.taken tick ++ a ++ [e] <+: st.jbuf := by
      refine ⟨b, ?_⟩
      rw [hbuf, hab]
      simp only [List.append_assoc, List.singleton_append]
    have := (prefix_taken hp (h _ e hp (by simpa using hdue))).length_le
    simp only [List.length_append, List.length_singleton] at this
    omega

/-- The tick empties the buffer exactly if all of it can be taken. -/
theorem jbuf_deliver_eq_nil_iff (st : PState) (tick : Tick) (p : PlayerID) :
    (st.deliver tick p).1.jbuf = [] ↔ st.Drains tick st.jbuf := by
  have hbuf := st.jbuf_deliver tick p
  constructor
  · intro h
    rw [h, List.append_nil] at hbuf
    rw [hbuf]
    exact st.drains_taken tick
  · intro h
    have := (prefix_taken (List.prefix_refl _) h).length_le
    rw [hbuf, List.length_append] at this
    exact List.length_eq_zero_iff.1 (by omega)

end PState

end SoupEngine.Sdk
