import SoupEngine.Reliable.Fragment

/-!
# Collecting the fragments of a group

`collected g f t` is what the assembler holds towards the group of id `g`, first number `f` and
total `t`. One push adds a chunk to it (`push_of_accepted`); the group is returned when nothing is
missing.
-/

namespace SoupEngine

open BoundedMemory

/-! ## Chunks -/

section Chunks

variable {size : ℕ} {payload : Bytes}

theorem length_chunks : (chunks size payload).length = divCeil payload.length size := by
  unfold chunks; rw [List.length_map, List.length_range]

/-- The chunks in order make up the payload. -/
theorem flatMap_chunk_take (n : ℕ) :
    (List.range n).flatMap (chunk size payload) = payload.take (n * size) := by
  induction n with
  | zero => rw [Nat.zero_mul, List.take_zero]; rfl
  | succ n ih =>
    rw [List.range_succ, List.flatMap_append, ih, Nat.succ_mul, List.take_add]
    congr 1
    simp only [List.flatMap_cons, List.flatMap_nil, List.append_nil]
    rfl

theorem flatMap_chunk (payload : Bytes) (hs : 0 < size) :
    (List.range (divCeil payload.length size)).flatMap (chunk size payload) = payload := by
  rw [flatMap_chunk_take, List.take_of_length_le]
  unfold divCeil
  have := Nat.lt_mul_div_succ (payload.length + size - 1) hs
  rw [Nat.mul_comm] at this
  rw [Nat.add_mul] at this
  omega

theorem length_split (g f : U16) :
    (split payload g f size).length = divCeil payload.length size := by
  unfold split
  rw [List.length_mapIdx, length_chunks]

theorem getElem?_split (g f : U16) {i : ℕ} (hi : i < divCeil payload.length size) :
    (split payload g f size)[i]? = some (encodeFragment g f (BitVec.ofNat 8 i)
      (BitVec.ofNat 8 (max (divCeil payload.length size) 1)) (chunk size payload i)) := by
  unfold split chunks
  rw [List.getElem?_mapIdx, List.getElem?_map, List.getElem?_range hi]
  rfl

end Chunks

/-! ## The parts of a group -/

namespace FragState

variable (st : FragState)

/-- The chunk of fragment `j` if it has arrived. -/
def part (j : ℕ) : Option Bytes := st.parts[j]?.join

theorem part_fresh (t : U8) (f : U16) (now : Instant) (j : ℕ) : (fresh t f now).part j = none := by
  unfold part fresh
  rw [List.getElem?_replicate]
  split_ifs <;> rfl

theorem part_store {n : U8} (hn : n < st.total) (c : Bytes) (j : ℕ) :
    (st.store n c).part j =
      if j = n.toNat then some ((st.part j).getD c) else st.part j := by
  have hlt : n.toNat < st.parts.length := by rw [st.length_parts]; exact hn
  unfold part store
  dsimp only
  by_cases hj : j = n.toNat
  · subst hj
    rw [if_pos rfl]
    cases hp : st.parts[n.toNat] with
    | none =>
      rw [List.getElem?_eq_getElem hlt, hp, if_pos rfl, List.getElem?_set_self hlt]
      rfl
    | some x =>
      rw [List.getElem?_eq_getElem hlt, hp, if_neg (by simp), List.getElem?_eq_getElem hlt, hp]
      rfl
  · rw [if_neg hj]
    split_ifs
    · rw [List.getElem?_set_ne (Ne.symm hj)]
    · rfl

theorem isComplete_iff : st.isComplete = true ↔ ∀ j < st.total.toNat, (st.part j).isSome := by
  unfold isComplete part
  rw [List.all_eq_true]
  constructor
  · intro h j hj
    rw [← st.length_parts] at hj
    rw [List.getElem?_eq_getElem hj]
    exact h _ (List.getElem_mem hj)
  · intro h p hp
    obtain ⟨j, hj, rfl⟩ := List.getElem_of_mem hp
    have := h j (by rw [← st.length_parts]; exact hj)
    rwa [List.getElem?_eq_getElem hj] at this

theorem concat_eq :
    st.concat = (List.range st.total.toNat).flatMap fun j => (st.part j).getD [] := by
  unfold concat part
  have hparts : st.parts = (List.range st.total.toNat).map fun j => st.parts[j]?.join := by
    apply List.ext_getElem
    · rw [List.length_map, List.length_range, st.length_parts]
    · intro j h1 h2
      rw [List.getElem_map, List.getElem_range, List.getElem?_eq_getElem h1]
      rfl
  conv_lhs => rw [hparts]
  rw [List.flatMap_map]

@[simp] theorem total_store (n : U8) (c : Bytes) : (st.store n c).total = st.total := rfl

@[simp] theorem firstSeq_store (n : U8) (c : Bytes) : (st.store n c).firstSeq = st.firstSeq := rfl

end FragState

/-! ## What the assembler holds towards a group -/

namespace FragmentAssembler

variable (a : FragmentAssembler) (g f : U16) (t : U8)

/-- What is pending under the id of the group belongs to it as far as the assembler can tell. -/
def Matches : Prop := ∃ st, a.pending[g]? = some st ∧ st.total = t ∧ st.firstSeq = f

instance : Decidable (a.Matches g f t) :=
  decidable_of_iff ((a.pending[g]?).any (fun st => decide (st.total = t ∧ st.firstSeq = f)) =
    true) <| by
    unfold Matches
    cases a.pending[g]? <;> simp

/-- The chunks held towards the group. -/
def collected (j : ℕ) : Option Bytes :=
  match a.pending[g]? with
  | none => none
  | some st => if st.total = t ∧ st.firstSeq = f then st.part j else none

variable {a g f t}

theorem entry_spec (now : Instant) :
    (a.entry g f t now).total = t ∧ (a.entry g f t now).firstSeq = f ∧
      ∀ j, (a.entry g f t now).part j = a.collected g f t j := by
  unfold entry collected
  cases a.pending[g]? with
  | none => exact ⟨rfl, rfl, FragState.part_fresh t f now⟩
  | some st =>
    dsimp only
    by_cases h : st.total ≠ t ∨ st.firstSeq ≠ f
    · have h' : ¬ (st.total = t ∧ st.firstSeq = f) := by tauto
      rw [if_pos h]
      refine ⟨rfl, rfl, fun j => ?_⟩
      rw [if_neg h']
      exact FragState.part_fresh t f now j
    · have h' : st.total = t ∧ st.firstSeq = f := by tauto
      rw [if_neg h]
      refine ⟨h'.1, h'.2, fun j => ?_⟩
      rw [if_pos h']
      rfl

/-- What is held towards the group with the chunk of fragment `n` added. -/
def withChunk (held : ℕ → Option Bytes) (n : ℕ) (c : Bytes) (j : ℕ) : Option Bytes :=
  if j = n then some ((held j).getD c) else held j

theorem push_of_completed (n : U8) (c : Bytes) (now : Instant) (h : g ∈ a.completed) :
    a.push g f n t c now = (a, none) := by
  unfold push
  rw [if_pos h]

/-- **One push.** The chunk is added to what is held towards the group. If nothing is missing then,
the group is returned and its id moves to the completed ones; else it stays pending. -/
theorem push_of_accepted {n : U8} (hn : n < t) (c : Bytes) (now : Instant) (h : g ∉ a.completed) :
    ((∀ j < t.toNat, (withChunk (a.collected g f t) n.toNat c j).isSome) ∧
        a.push g f n t c now =
          (⟨a.pending.erase g, remember COMPLETED_CAP a.completed g⟩,
            some (f, (List.range t.toNat).flatMap fun j =>
              (withChunk (a.collected g f t) n.toNat c j).getD []))) ∨
      (¬ (∀ j < t.toNat, (withChunk (a.collected g f t) n.toNat c j).isSome) ∧
        ∃ st : FragState, st.total = t ∧ st.firstSeq = f ∧
          (∀ j, st.part j = withChunk (a.collected g f t) n.toNat c j) ∧
          a.push g f n t c now = (⟨a.pending.insert g st, a.completed⟩, none)) := by
  obtain ⟨ht, hf, hpart⟩ := entry_spec (a := a) (g := g) (f := f) (t := t) now
  set st := (a.entry g f t now).store n c with hst
  have hparts : ∀ j, st.part j = withChunk (a.collected g f t) n.toNat c j := by
    intro j
    rw [hst, FragState.part_store _ (by rw [ht]; exact hn), hpart]
    rfl
  have htot : st.total = t := ht
  have hfirst : st.firstSeq = f := hf
  have hcomp : st.isComplete = true ↔
      ∀ j < t.toNat, (withChunk (a.collected g f t) n.toNat c j).isSome := by
    rw [FragState.isComplete_iff, htot]
    simp only [hparts]
  unfold push
  rw [if_neg h]
  dsimp only
  rw [← hst]
  by_cases hc : st.isComplete = true
  · left
    refine ⟨hcomp.1 hc, ?_⟩
    rw [if_pos hc, FragState.concat_eq, htot, hfirst]
    simp only [hparts]
  · right
    refine ⟨fun hall => hc (hcomp.2 hall), st, htot, hfirst, hparts, ?_⟩
    rw [if_neg hc]

/-- Dropping stale groups keeps the others. -/
theorem getElem?_cleanup {a : FragmentAssembler} {now : Instant} {g : U16} {st : FragState}
    (h : (a.cleanup now).pending[g]? = some st) : a.pending[g]? = some st := by
  have h' : (a.pending.filter fun _ st => decide (now - st.lastUpdate < FRAGMENT_TIMEOUT))[g]? =
    some st := h
  rw [Std.ExtTreeMap.getElem?_filter] at h'
  have hm := Option.eq_some_of_pfilter_eq_some h'
  exact hm

/-- A pending group holds what it holds. -/
theorem collected_insert {st : FragState} {a' : FragmentAssembler}
    (h : a'.pending = a.pending.insert g st) (ht : st.total = t) (hf : st.firstSeq = f) (j : ℕ) :
    a'.collected g f t j = st.part j := by
  unfold collected
  rw [h, Map.getElem?_insert, if_pos rfl]
  dsimp only
  rw [if_pos ⟨ht, hf⟩]

end FragmentAssembler

end SoupEngine
