import SoupEngine.Sdk.Sorted

/-!
# Overflow of the jitter buffer

A full jitter buffer drops its head for a new input before it looks for the place of that one. So
the newest inputs are kept exactly if no input that is older than the head of a full buffer arrives
(`overflow_iff`): such an input is the oldest itself, and takes the place of a newer one.
-/

namespace SoupEngine.Sdk

open BoundedSort TransitionSystem

/-- The buffer holds the `k` newest of the inputs, or all if there are not so many, in order. -/
structure Newest (k : ℕ) (inputs buf : List JitterEntry) : Prop where
  increasing : buf.Pairwise fun a b => seqNewer b.seq a.seq = true
  subset : buf ⊆ inputs
  length : buf.length = min k inputs.length
  newer : ∀ a ∈ inputs, a ∉ buf → ∀ b ∈ buf, seqNewer b.seq a.seq = true

/-- In a window the newest inputs are those with the greatest offsets. -/
theorem newest_iff {base : InputSeq} {k : ℕ} {inputs buf : List JitterEntry}
    (hw : ∀ a ∈ inputs, InWindow base a.seq) :
    Newest k inputs buf ↔ Greatest (JitterEntry.offset base) k inputs buf := by
  constructor
  · intro h
    refine ⟨?_, h.subset, h.length, fun a ha hna b hb => ?_⟩
    · exact (Jittered.increasing_iff fun a ha => hw a (h.subset ha)).1 h.increasing
    · exact (seqNewer_iff (hw b (h.subset hb)) (hw a ha)).1 (h.newer a ha hna b hb)
  · intro h
    refine ⟨?_, h.subset, h.length, fun a ha hna b hb => ?_⟩
    · exact (Jittered.increasing_iff fun a ha => hw a (h.subset ha)).2 h.increasing
    · exact (seqNewer_iff (hw b (h.subset hb)) (hw a ha)).2 (h.greater a ha hna b hb)

namespace PState

/-- The state after an input has arrived. -/
def arrive (st : PState) (e : JitterEntry) : PState := (st.insertJitter e).1

/-- Inputs that are in a window with those in the buffer, newer than the last delivery, and all
different. -/
structure Acceptable (base : InputSeq) (st : PState) (es : List JitterEntry) : Prop where
  window : ∀ e ∈ st.jbuf ++ es, InWindow base e.seq
  newer : ∀ n ∈ st.last?, ∀ e ∈ es, seqNewer e.seq n = true
  nodup : ((st.jbuf ++ es).map JitterEntry.seq).Nodup

/-- If the buffer is full, the input is newer than its head. -/
def Fits (st : PState) (e : JitterEntry) : Prop :=
  st.jcap ≤ st.jbuf.length → ∀ old ∈ st.jbuf.head?, seqNewer e.seq old.seq = true

instance (st : PState) (e : JitterEntry) : Decidable (st.Fits e) :=
  inferInstanceAs (Decidable (_ → ∀ old ∈ st.jbuf.head?, _))

variable {base : InputSeq} {st : PState} {e : JitterEntry} {es es' : List JitterEntry}

theorem Acceptable.of_concat (h : st.Acceptable base (es ++ [e])) : st.Acceptable base es where
  window := fun x hx => h.window x (by
    rw [← List.append_assoc]
    exact List.mem_append_left _ hx)
  newer := fun n hn x hx => h.newer n hn x (List.mem_append_left _ hx)
  nodup := by
    have hnodup := h.nodup
    rw [← List.append_assoc, List.map_append] at hnodup
    exact hnodup.of_append_left

theorem Acceptable.perm (h : st.Acceptable base es) (hp : es.Perm es') :
    st.Acceptable base es' where
  window := fun x hx => h.window x (((hp.append_left st.jbuf).mem_iff).2 hx)
  newer := fun n hn x hx => h.newer n hn x (hp.mem_iff.2 hx)
  nodup := ((hp.append_left st.jbuf).map JitterEntry.seq).nodup_iff.1 h.nodup

theorem arrive_frame (st : PState) (es : List JitterEntry) :
    (es.foldl arrive st).jcap = st.jcap ∧ (es.foldl arrive st).last? = st.last? := by
  induction es using List.reverseRecOn with
  | nil => exact ⟨rfl, rfl⟩
  | append_singleton es e ih =>
    rw [List.foldl_append]
    obtain ⟨hcap, hlast⟩ := (es.foldl arrive st).insertJitter_frame e
    exact ⟨hcap.trans ih.1, hlast.trans ih.2⟩

/-- **One more input.** The newest are kept exactly if it fits. -/
theorem newest_arrive (hcap : 0 < st.jcap) (h : st.Acceptable base (es ++ [e]))
    (hkept : Newest st.jcap (st.jbuf ++ es) (es.foldl arrive st).jbuf) :
    Newest st.jcap (st.jbuf ++ (es ++ [e])) ((es ++ [e]).foldl arrive st).jbuf ↔
      (es.foldl arrive st).Fits e := by
  have hbefore := h.of_concat
  obtain ⟨hjcap, hlast⟩ := st.arrive_frame es
  have he : InWindow base e.seq := h.window e (by simp)
  have hbuf : ∀ x ∈ (es.foldl arrive st).jbuf, InWindow base x.seq :=
    fun x hx => hbefore.window x (hkept.subset hx)
  have hne : ∀ x ∈ st.jbuf ++ es, x.seq ≠ e.seq := by
    have hnodup := h.nodup
    rw [← List.append_assoc, List.map_append, List.nodup_append] at hnodup
    intro x hx
    exact hnodup.2.2 x.seq (List.mem_map_of_mem hx) e.seq (List.mem_singleton.2 rfl)
  have hacc : (es.foldl arrive st).Accepts e := by
    refine ⟨?_, fun x hx => hne x (hkept.subset hx)⟩
    rw [hlast]
    exact fun n hn => h.newer n hn e (List.mem_append_right _ (List.mem_singleton.2 rfl))
  have hstep : ((es ++ [e]).foldl arrive st).jbuf =
      keep (JitterEntry.offset base) st.jcap e (es.foldl arrive st).jbuf := by
    rw [List.foldl_append, ← hjcap]
    exact jbuf_insertJitter hacc he hbuf
  rw [newest_iff h.window, hstep, ← List.append_assoc]
  rw [newest_iff hbefore.window] at hkept
  rw [hkept.keep_iff hcap fun x hx heq => hne x hx (offset_eq_iff.1 heq)]
  unfold Fits
  rw [hjcap]
  refine forall_congr' fun _ => forall₂_congr fun old hold => ?_
  exact (seqNewer_iff he (hbuf old (List.mem_of_mem_head? hold))).symm

/-- Of what fits the newest are kept. -/
theorem newest_of_fits (hst : Newest st.jcap st.jbuf st.jbuf) (hcap : 0 < st.jcap)
    (h : st.Acceptable base es) (hfits : Allowed arrive Fits st es) :
    Newest st.jcap (st.jbuf ++ es) (es.foldl arrive st).jbuf := by
  induction es using List.reverseRecOn with
  | nil =>
    rw [List.append_nil]
    exact hst
  | append_singleton es e ih =>
    obtain ⟨hes, he⟩ := allowed_concat.1 hfits
    exact (newest_arrive hcap h (ih h.of_concat hes)).2 he

end PState

namespace Jittered

open PState

variable {base : InputSeq} {s : Jittered} {es : List JitterEntry}

theorem Sorted.newest (h : s.Sorted) : Newest s.st.jcap s.st.jbuf s.st.jbuf where
  increasing := h.increasing
  subset := fun _ ha => ha
  length := (min_eq_right h.bounded).symm
  newer := fun _ ha hna => absurd ha hna

/-- **Overflow.** After every arrival the buffer holds the newest of its old entries and the inputs
that have arrived, exactly if no input older than the head of a full buffer arrives. Inputs that
arrive like that in another order leave the same buffer. -/
theorem overflow_iff (hs : s.Sorted) (h : s.st.Acceptable base es) :
    ((∀ n, Newest s.st.jcap (s.st.jbuf ++ es.take n) ((es.take n).foldl arrive s.st).jbuf) ↔
      Allowed arrive Fits s.st es) ∧
    (Allowed arrive Fits s.st es → ∀ es', es.Perm es' → Allowed arrive Fits s.st es' →
      (es.foldl arrive s.st).jbuf = (es'.foldl arrive s.st).jbuf) := by
  constructor
  · induction es using List.reverseRecOn with
    | nil =>
      refine iff_of_true (fun n => ?_) trivial
      rw [List.take_nil, List.append_nil]
      exact hs.newest
    | append_singleton es e ih =>
      rw [allowed_concat, ← ih h.of_concat]
      constructor
      · intro hall
        have hes : ∀ n,
            Newest s.st.jcap (s.st.jbuf ++ es.take n) ((es.take n).foldl arrive s.st).jbuf := by
          intro n
          have := hall (min n es.length)
          rwa [List.take_append_of_le_length (min_le_right _ _), ← List.take_eq_take_min] at this
        refine ⟨hes, (newest_arrive hs.room h ?_).1 ?_⟩
        · have := hes es.length
          rwa [List.take_length] at this
        · have := hall (es ++ [e]).length
          rwa [List.take_length] at this
      · rintro ⟨hes, he⟩ n
        rcases Nat.lt_or_ge es.length n with hn | hn
        · have hkept := hes es.length
          rw [List.take_length] at hkept
          rw [List.take_of_length_le (by simpa using hn)]
          exact (newest_arrive hs.room h hkept).2 he
        · rw [List.take_append_of_le_length hn]
          exact hes n
  · intro hes es' hp hes'
    have h' := h.perm hp
    have hg := (newest_iff h.window).1 (newest_of_fits hs.newest hs.room h hes)
    have hg' := (newest_iff h'.window).1 (newest_of_fits hs.newest hs.room h' hes')
    exact hg.unique hg' (hp.append_left _)

/-- The buffer of a player is full of the inputs 11 to 14. -/
def filling : List JitterOp :=
  [.insertJitter ⟨0, 11, [], some 1, 9⟩, .insertJitter ⟨0, 12, [], some 2, 9⟩,
    .insertJitter ⟨0, 13, [], some 3, 9⟩, .insertJitter ⟨0, 14, [], some 4, 9⟩]

def full : Jittered := filling.foldl step (start (.new 0 8) 5)

theorem reach_full : Reach step Windowed (start (.new 0 8) 5) full := by
  have hok : Allowed step (fun s op => windowedFrom 0 s op = true)
      (start (.new 0 8) 5) filling := by
    decide +kernel
  exact (Reach.foldl hok).mono fun s op h => windowed_of_from h

theorem acceptable_full {e : JitterEntry} (hw : InWindow 0 e.seq)
    (hne : e.seq ∉ full.st.jbuf.map JitterEntry.seq) : full.st.Acceptable 0 [e] where
  window := by
    intro x hx
    rcases List.mem_append.1 hx with hx | hx
    · have hall : ∀ x ∈ full.st.jbuf, InWindow 0 x.seq := by decide +kernel
      exact hall x hx
    · rw [List.mem_singleton.1 hx]
      exact hw
  newer := fun n hn => by
    have hlast : full.st.last? = none := by decide +kernel
    rw [hlast] at hn
    cases hn
  nodup := by
    have hnodup : (full.st.jbuf.map JitterEntry.seq).Nodup := by decide +kernel
    rw [List.map_append, List.map_singleton]
    refine hnodup.append (List.nodup_singleton _) fun n hn hn' => hne ?_
    rwa [List.mem_singleton.1 hn'] at hn

/-- The input 15 is newer than the head. -/
theorem overflow_newer : Newest full.st.jcap (full.st.jbuf ++ [⟨0, 15, [], some 5, 9⟩])
    (full.st.arrive ⟨0, 15, [], some 5, 9⟩).jbuf := by
  have hs : full.Sorted := reach_full.invariant (sorted_start _ _) sorted_step
  have hfits : Allowed arrive Fits full.st [⟨0, 15, [], some 5, 9⟩] := by decide +kernel
  exact (overflow_iff hs (acceptable_full (by decide) (by decide +kernel))).1.2 hfits 1

/-- The input 10 is the oldest, and takes the place of the input 11. -/
theorem overflow_older :
    Reach step Windowed (start (.new 0 8) 5) full ∧ full.st.jbuf.length = full.st.jcap ∧
      full.st.Acceptable 0 [⟨0, 10, [], some 5, 9⟩] ∧
      (full.st.arrive ⟨0, 10, [], some 5, 9⟩).jbuf.map JitterEntry.seq = [10, 12, 13, 14] ∧
      ¬ Newest full.st.jcap (full.st.jbuf ++ [⟨0, 10, [], some 5, 9⟩])
        (full.st.arrive ⟨0, 10, [], some 5, 9⟩).jbuf := by
  refine ⟨reach_full, by decide +kernel, acceptable_full (by decide) (by decide +kernel),
    by decide +kernel, ?_⟩
  intro h
  have := h.newer ⟨0, 11, [], some 1, 9⟩ (by decide +kernel) (by decide +kernel)
    ⟨0, 10, [], some 5, 9⟩ (by decide +kernel)
  exact absurd this (by decide)

end Jittered

end SoupEngine.Sdk
