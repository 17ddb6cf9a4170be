import SoupEngine.Sdk.Baselines
import SoupEngine.Lib.BoundedSort
import SoupEngine.Lib.TransitionSystem

/-!
# The order of the jitter buffer

`seqNewer` is an order only among numbers within half of the number space. In a run of insertions,
deliveries and resumes in which every insertion finds the numbers in play within such a window, the
jitter buffer of a player stays sorted and bounded, and the fresh inputs between two resumes have
consecutive numbers (`sorted_of_reach`).
-/

namespace SoupEngine.Sdk

open BoundedSort TransitionSystem

/-! ## Windows -/

/-- One of the `2 ^ 15` numbers from `base` on. -/
def InWindow (base n : InputSeq) : Prop := (n - base).toNat < 2 ^ 15

instance (base n : InputSeq) : Decidable (InWindow base n) := inferInstanceAs (Decidable (_ < _))

/-- The place of an entry in a window. -/
def JitterEntry.offset (base : InputSeq) (e : JitterEntry) : ℕ := (e.seq - base).toNat

theorem seqNewer_iff {base a b : InputSeq} (ha : InWindow base a) (hb : InWindow base b) :
    seqNewer a b = true ↔ (b - base).toNat < (a - base).toNat := by
  unfold InWindow at ha hb
  have hsub : a - b = (a - base) - (b - base) := (sub_sub_sub_cancel_right a b base).symm
  unfold seqNewer
  rw [decide_eq_true_iff, hsub]
  generalize a - base = x at ha
  generalize b - base = y at hb
  rw [BitVec.toInt_eq_toNat_cond, BitVec.toNat_sub]
  split_ifs
  · omega
  · omega

theorem offset_eq_iff {base : InputSeq} {a b : JitterEntry} : a.offset base = b.offset base ↔
    a.seq = b.seq := by
  unfold JitterEntry.offset
  rw [BitVec.toNat_inj, sub_left_inj]

namespace PState

variable {st : PState} {e : JitterEntry}

/-- The number of the last delivery. -/
def last? (st : PState) : Option InputSeq := if st.hasInput = true then some st.lastSeq else none

/-- The numbers in the buffer, and that of the last delivery. -/
def inPlay (st : PState) : List InputSeq := st.last?.toList ++ st.jbuf.map JitterEntry.seq

/-- The entry is newer than the last delivery, and not a duplicate. -/
def Accepts (st : PState) (e : JitterEntry) : Prop :=
  (∀ n ∈ st.last?, seqNewer e.seq n = true) ∧ ∀ x ∈ st.jbuf, x.seq ≠ e.seq

theorem insertJitter_of_not_accepts (h : ¬ st.Accepts e) :
    st.insertJitter e = (st, e.raw.toList, false) := by
  unfold insertJitter
  by_cases hold : st.hasInput = true ∧ ¬ seqNewer e.seq st.lastSeq
  · rw [if_pos hold]
  · rw [if_neg hold]
    by_cases hdup : ∃ x ∈ st.jbuf, x.seq = e.seq
    · rw [if_pos hdup]
    · refine absurd ⟨fun n hn => ?_, fun x hx heq => hdup ⟨x, hx, heq⟩⟩ h
      unfold last? at hn
      split_ifs at hn with hin
      · obtain rfl : st.lastSeq = n := Option.some.inj hn
        by_contra hnew
        exact hold ⟨hin, hnew⟩
      · cases hn

theorem insertJitter_of_accepts (h : st.Accepts e) :
    (st.insertJitter e).1 =
      let jbuf := if st.jcap ≤ st.jbuf.length then st.jbuf.tail else st.jbuf
      { st with jbuf := jbuf.insertIdx (jbuf.findIdx fun x => seqNewer x.seq e.seq) e } := by
  unfold insertJitter
  rw [if_neg, if_neg]
  · rintro ⟨x, hx, heq⟩
    exact h.2 x hx heq
  · rintro ⟨hin, hold⟩
    refine hold (h.1 st.lastSeq ?_)
    unfold last?
    rw [if_pos hin]
    rfl

theorem insertJitter_frame (st : PState) (e : JitterEntry) :
    (st.insertJitter e).1.jcap = st.jcap ∧ (st.insertJitter e).1.last? = st.last? := by
  rcases st.insertJitter_cases e with h | h
  · rw [h]
    exact ⟨rfl, rfl⟩
  · rw [h]
    exact ⟨rfl, rfl⟩

/-- In a window the buffer keeps the order of the offsets. -/
theorem jbuf_insertJitter {base : InputSeq} (h : st.Accepts e) (he : InWindow base e.seq)
    (hw : ∀ x ∈ st.jbuf, InWindow base x.seq) :
    (st.insertJitter e).1.jbuf = keep (JitterEntry.offset base) st.jcap e st.jbuf := by
  have hsub : ∀ x ∈ (if st.jcap ≤ st.jbuf.length then st.jbuf.tail else st.jbuf), x ∈ st.jbuf := by
    intro x hx
    split_ifs at hx
    · exact List.mem_of_mem_tail hx
    · exact hx
  rw [insertJitter_of_accepts h]
  refine insertIdx_findIdx fun x hx => ?_
  rw [seqNewer_iff (hw x (hsub x hx)) he]
  have hne : e.offset base ≠ x.offset base :=
    fun heq => h.2 x (hsub x hx) (offset_eq_iff.1 heq).symm
  exact ⟨le_of_lt, fun hle => lt_of_le_of_ne hle hne⟩

/-- The last delivery after some more. -/
theorem last?_consumed (st : PState) (es : List JitterEntry) :
    (st.consumed es).last? = (es.map JitterEntry.seq).getLast?.or st.last? := by
  induction es using List.reverseRecOn with
  | nil => rfl
  | append_singleton es e _ =>
    unfold consumed
    rw [List.foldl_append, List.map_append, List.getLast?_append]
    rfl

theorem inSequence_iff {es : List JitterEntry} :
    st.InSequence es ↔
      List.IsChain (fun a b : InputSeq => b = a + 1)
        (st.last?.toList ++ es.map JitterEntry.seq) := by
  unfold InSequence last?
  split_ifs
  · exact Iff.rfl
  · exact Iff.rfl

end PState

/-! ## Runs -/

/-- The state of a player in a run. -/
structure Jittered where
  st : PState
  /-- The numbers of the fresh inputs since the player joined or came back. -/
  fresh : List InputSeq

inductive JitterOp
  | insertJitter (e : JitterEntry)
  | deliver (tick : Tick) (p : PlayerID)
  | resume

namespace Jittered

/-- A player who has just joined. -/
def start (r : Room) (sess : U64) : Jittered := ⟨r.joined sess, []⟩

def step (s : Jittered) : JitterOp → Jittered
  | .insertJitter e => { s with st := (s.st.insertJitter e).1 }
  | .deliver tick p =>
    ⟨(s.st.deliver tick p).1, s.fresh ++ (s.st.taken tick).map JitterEntry.seq⟩
  | .resume => ⟨Room.resumed s.st, []⟩

/-- An insertion finds all numbers in play within a window. -/
def Windowed (s : Jittered) : JitterOp → Prop
  | .insertJitter e => ∃ base, ∀ n ∈ e.seq :: s.st.inPlay, InWindow base n
  | _ => True

/-- The buffer is in order, without duplicates, not too long and ahead of the last delivery, and the
fresh inputs up to that one are consecutive. -/
structure Sorted (s : Jittered) : Prop where
  room : 0 < s.st.jcap
  increasing : s.st.jbuf.Pairwise fun a b => seqNewer b.seq a.seq = true
  nodup : (s.st.jbuf.map JitterEntry.seq).Nodup
  bounded : s.st.jbuf.length ≤ s.st.jcap
  newer : s.st.hasInput = true → ∀ e ∈ s.st.jbuf, seqNewer e.seq s.st.lastSeq = true
  consecutive : s.fresh.IsChain fun a b => b = a + 1
  last : s.fresh.getLast? = s.st.last?

variable {s : Jittered}

theorem Sorted.newer' (h : s.Sorted) :
    ∀ n ∈ s.st.last?, ∀ e ∈ s.st.jbuf, seqNewer e.seq n = true := by
  intro n hn
  unfold PState.last? at hn
  split_ifs at hn with hin
  · obtain rfl : s.st.lastSeq = n := Option.some.inj hn
    exact h.newer hin
  · cases hn

theorem nodup_of_increasing {es : List JitterEntry}
    (h : es.Pairwise fun a b => seqNewer b.seq a.seq = true) : (es.map JitterEntry.seq).Nodup := by
  refine List.pairwise_map.2 (h.imp fun {a b} hab heq => ?_)
  rw [heq, seqNewer_self] at hab
  exact Bool.false_ne_true hab

theorem newer_of_last? {st : PState} (h : ∀ n ∈ st.last?, ∀ e ∈ st.jbuf, seqNewer e.seq n = true)
    (hin : st.hasInput = true) : ∀ e ∈ st.jbuf, seqNewer e.seq st.lastSeq = true := by
  refine h st.lastSeq ?_
  unfold PState.last?
  rw [if_pos hin]
  rfl

theorem sorted_start (r : Room) (sess : U64) : (start r sess).Sorted where
  room := Nat.succ_pos _
  increasing := List.Pairwise.nil
  nodup := List.nodup_nil
  bounded := Nat.zero_le _
  newer := fun h => absurd h Bool.false_ne_true
  consecutive := List.isChain_nil
  last := rfl

/-- In a window the order by `seqNewer` is that of the offsets. -/
theorem increasing_iff {base : InputSeq} {es : List JitterEntry}
    (hw : ∀ e ∈ es, InWindow base e.seq) :
    (es.Pairwise fun a b => seqNewer b.seq a.seq = true) ↔
      Increasing (JitterEntry.offset base) es := by
  exact List.Pairwise.iff_of_mem fun {a b} ha hb => seqNewer_iff (hw b hb) (hw a ha)

/-- The numbers of the buffer and of the last delivery are in play. -/
theorem inWindow_of_inPlay {st : PState} {base : InputSeq} (h : ∀ n ∈ st.inPlay, InWindow base n) :
    (∀ n ∈ st.last?, InWindow base n) ∧ ∀ x ∈ st.jbuf, InWindow base x.seq := by
  unfold PState.inPlay at h
  refine ⟨fun n hn => h n (List.mem_append_left _ (Option.mem_toList.2 hn)), fun x hx => ?_⟩
  exact h x.seq (List.mem_append_right _ (List.mem_map_of_mem hx))

theorem sorted_insertJitter (h : s.Sorted) {e : JitterEntry} (hw : s.Windowed (.insertJitter e)) :
    (s.step (.insertJitter e)).Sorted := by
  by_cases hacc : s.st.Accepts e
  · obtain ⟨base, hw⟩ := hw
    obtain ⟨he, hin⟩ := List.forall_mem_cons.1 hw
    obtain ⟨-, hbuf⟩ := inWindow_of_inPlay hin
    have hkeep := PState.jbuf_insertJitter hacc he hbuf
    have hnew : ∀ x ∈ (s.st.insertJitter e).1.jbuf, x = e ∨ x ∈ s.st.jbuf := by
      rw [hkeep]
      exact fun x hx => mem_of_mem_keep hx
    have hwin : ∀ x ∈ (s.st.insertJitter e).1.jbuf, InWindow base x.seq := by
      intro x hx
      rcases hnew x hx with rfl | hx
      · exact he
      · exact hbuf x hx
    have hinc : (s.st.insertJitter e).1.jbuf.Pairwise fun a b => seqNewer b.seq a.seq = true := by
      rw [increasing_iff hwin, hkeep]
      refine ((increasing_iff hbuf).1 h.increasing).keep fun x hx heq => ?_
      exact hacc.2 x hx (offset_eq_iff.1 heq)
    obtain ⟨hcap, hlast⟩ := s.st.insertJitter_frame e
    refine ⟨?_, hinc, nodup_of_increasing hinc, ?_, newer_of_last? ?_, h.consecutive, ?_⟩
    · show 0 < (s.st.insertJitter e).1.jcap
      rw [hcap]
      exact h.room
    · show (s.st.insertJitter e).1.jbuf.length ≤ (s.st.insertJitter e).1.jcap
      rw [hcap, hkeep]
      exact length_keep h.room h.bounded
    · show ∀ n ∈ (s.st.insertJitter e).1.last?, ∀ x ∈ (s.st.insertJitter e).1.jbuf,
        seqNewer x.seq n = true
      rw [hlast]
      intro n hn x hx
      rcases hnew x hx with rfl | hx
      · exact hacc.1 n hn
      · exact h.newer' n hn x hx
    · exact h.last.trans hlast.symm
  · have hsame : s.step (.insertJitter e) = s := by
      unfold step
      dsimp only
      rw [PState.insertJitter_of_not_accepts hacc]
    rw [hsame]
    exact h

/-- A tick takes the front of the buffer, whose numbers go on from the last one. -/
theorem sorted_deliver (h : s.Sorted) (tick : Tick) (p : PlayerID) :
    (s.step (.deliver tick p)).Sorted := by
  have hbuf := s.st.jbuf_deliver tick p
  have hst := s.st.deliver_eq tick p
  have hinc := h.increasing
  rw [hbuf] at hinc
  obtain ⟨-, hrest, hahead⟩ := List.pairwise_append.1 hinc
  have hlast : (s.st.deliver tick p).1.last? =
      ((s.st.taken tick).map JitterEntry.seq).getLast?.or s.st.last? := by
    rw [← s.st.last?_consumed, hst]
    rfl
  have hcap : (s.st.deliver tick p).1.jcap = s.st.jcap := by
    obtain ⟨a, b, c, d, e, heq⟩ := s.st.deliver_frame tick p
    rw [heq]
  have hseq := (s.st.drains_taken tick).2
  rw [PState.inSequence_iff, List.isChain_append] at hseq
  refine ⟨?_, hrest, nodup_of_increasing hrest, ?_, newer_of_last? ?_, ?_, ?_⟩
  · show 0 < (s.st.deliver tick p).1.jcap
    rw [hcap]
    exact h.room
  · show (s.st.deliver tick p).1.jbuf.length ≤ (s.st.deliver tick p).1.jcap
    rw [hcap]
    refine le_trans ?_ h.bounded
    rw [hbuf, List.length_append]
    exact Nat.le_add_left _ _
  · show ∀ n ∈ (s.st.deliver tick p).1.last?, ∀ e ∈ (s.st.deliver tick p).1.jbuf,
      seqNewer e.seq n = true
    intro n hn e he
    rw [hlast, Option.mem_def, Option.or_eq_some_iff] at hn
    rcases hn with hn | ⟨-, hn⟩
    · -- the last of those that were taken
      obtain ⟨x, hx, rfl⟩ := List.mem_map.1 (List.mem_of_getLast? hn)
      exact hahead x hx e he
    · refine h.newer' n hn e ?_
      rw [hbuf]
      exact List.mem_append_right _ he
  · show (s.fresh ++ (s.st.taken tick).map JitterEntry.seq).IsChain fun a b => b = a + 1
    refine List.isChain_append.2 ⟨h.consecutive, hseq.2.1, ?_⟩
    rw [h.last]
    intro a ha b hb
    refine hseq.2.2 a ?_ b hb
    rw [Option.mem_def.1 ha]
    rfl
  · show (s.fresh ++ (s.st.taken tick).map JitterEntry.seq).getLast? = (s.st.deliver tick p).1.last?
    rw [List.getLast?_append, h.last, hlast]

theorem sorted_resume (h : s.Sorted) : (s.step .resume).Sorted where
  room := h.room
  increasing := List.Pairwise.nil
  nodup := List.nodup_nil
  bounded := Nat.zero_le _
  newer := fun hin => absurd hin Bool.false_ne_true
  consecutive := List.isChain_nil
  last := rfl

theorem sorted_step (s : Jittered) (op : JitterOp) (h : s.Sorted) (hw : s.Windowed op) :
    (s.step op).Sorted := by
  cases op with
  | insertJitter e => exact sorted_insertJitter h hw
  | deliver tick p => exact sorted_deliver h tick p
  | resume => exact sorted_resume h

/-- **The jitter buffer.** In every run in a window it is sorted and bounded, and what is delivered
is consecutive. -/
theorem sorted_of_reach (r : Room) (sess : U64) {s : Jittered}
    (h : Reach step Windowed (start r sess) s) :
    s.Sorted :=
  h.invariant (sorted_start r sess) sorted_step

/-- Three inputs out of order around the end of the number space, and a tick. -/
def wrapping : List JitterOp :=
  [.insertJitter ⟨9, 0, [2], some 1, 0⟩, .insertJitter ⟨8, 65535, [1], some 2, 0⟩,
    .insertJitter ⟨10, 1, [3], some 3, 1⟩, .deliver 0 7]

/-- All of them are found in one window. -/
def windowedFrom (base : InputSeq) (s : Jittered) : JitterOp → Bool
  | .insertJitter e => (e.seq :: s.st.inPlay).all fun n => decide (InWindow base n)
  | _ => true

theorem windowed_of_from {base : InputSeq} {s : Jittered} {op : JitterOp}
    (h : windowedFrom base s op = true) :
    s.Windowed op := by
  cases op with
  | insertJitter e => exact ⟨base, fun n hn => of_decide_eq_true (List.all_eq_true.1 h n hn)⟩
  | deliver tick p => exact trivial
  | resume => exact trivial

theorem sorted_wrapping : (wrapping.foldl step (start (.new 2 8) 5)).fresh = [65535, 0] ∧
    (wrapping.foldl step (start (.new 2 8) 5)).Sorted := by
  have hok : Allowed step (fun s op => windowedFrom 65000 s op = true)
      (start (.new 2 8) 5) wrapping := by
    decide +kernel
  exact ⟨by decide +kernel,
    sorted_of_reach (.new 2 8) 5 ((Reach.foldl hok).mono fun s op h => windowed_of_from h)⟩

end Jittered

end SoupEngine.Sdk
