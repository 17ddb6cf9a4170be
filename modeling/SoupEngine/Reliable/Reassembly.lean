import Mathlib.Data.List.Find
import SoupEngine.Reliable.Assembly

/-!
# Reassembly against the history

Beside the assembler a run keeps, for every group id, the fragments pushed since the entry of the
group was last created or reset, and the ids of all groups that have been completed. What `push`
returns is put together from these fragments alone (`reassembly`).
-/

namespace SoupEngine

open BoundedMemory

/-- The first chunk of a number, among the fragments of the same group. -/
def firstChunk (frs : List Fragment) (fr : Fragment) (j : ℕ) : Option Bytes :=
  (frs.find? fun x => decide (x.groupId = fr.groupId ∧ x.firstSeq = fr.firstSeq ∧
    x.total = fr.total ∧
    x.fragNo.toNat = j)).map Fragment.chunk

/-- An assembler with its history. -/
structure Assembling where
  assembler : FragmentAssembler
  /-- The fragments pushed since the entry of the group was last created or reset. -/
  since : U16 → List Fragment
  /-- The groups that have been completed. -/
  completions : List U16

inductive AsmStep
  /-- The body of a fragment is decoded and pushed. -/
  | push (body : Bytes) (now : Instant)
  | cleanup (now : Instant)

namespace Assembling

def start : Assembling := ⟨.new, fun _ => [], []⟩

/-- A decoded fragment is pushed. An entry is created where there is none, and reset where it
disagrees. -/
def push (s : Assembling) (fr : Fragment) (now : Instant) : Assembling :=
  let res := s.assembler.push fr.groupId fr.firstSeq fr.fragNo fr.total fr.chunk now
  { assembler := res.1
    since :=
      if fr.groupId ∈ s.assembler.completed then s.since
      else
        Function.update s.since fr.groupId
          ((if s.assembler.Matches fr.groupId fr.firstSeq fr.total then s.since fr.groupId
            else []) ++ [fr])
    completions := res.2.elim s.completions fun _ => s.completions ++ [fr.groupId] }

def step (s : Assembling) : AsmStep → Assembling
  | .push body now =>
    match decodeFragment body with
    | .error _ => s
    | .ok fr => s.push fr now
  | .cleanup now => { s with assembler := s.assembler.cleanup now }

/-! ## The invariant -/

/-- The fragments belong to the pending group, and are what it holds. -/
structure Holds (g : U16) (st : FragState) (frs : List Fragment) : Prop where
  same : ∀ x ∈ frs, x.groupId = g ∧ x.firstSeq = st.firstSeq ∧ x.total = st.total
  part : ∀ j, st.part j = (frs.find? fun x => decide (x.fragNo.toNat = j)).map Fragment.chunk

structure Tracks (s : Assembling) : Prop where
  completed : s.assembler.completed = s.completions.rtake COMPLETED_CAP
  pending : ∀ (g : U16) (st : FragState), s.assembler.pending[g]? = some st → Holds g st (s.since g)

theorem tracks_start : Tracks start where
  completed := List.drop_nil.symm
  pending g st h := by
    have hnone : (∅ : Map U16 FragState)[g]? = none := Std.ExtTreeMap.getElem?_empty
    cases hnone.symm.trans h

section Push

variable {s : Assembling} {fr : Fragment}

/-- The fragments of the entry that a fragment finds. -/
def found (s : Assembling) (fr : Fragment) : List Fragment :=
  if s.assembler.Matches fr.groupId fr.firstSeq fr.total then s.since fr.groupId else []

theorem Tracks.found_same (h : Tracks s) :
    ∀ x ∈ s.found fr, x.groupId = fr.groupId ∧ x.firstSeq = fr.firstSeq ∧ x.total = fr.total := by
  unfold found
  split_ifs with hmatch
  · obtain ⟨st, hst, htotal, hfirst⟩ := hmatch
    rw [← htotal, ← hfirst]
    exact (h.pending _ st hst).same
  · exact fun x hx => absurd hx List.not_mem_nil

/-- What the assembler holds towards a group are the chunks of these fragments. -/
theorem Tracks.collected_eq (h : Tracks s) (j : ℕ) :
    s.assembler.collected fr.groupId fr.firstSeq fr.total j =
      ((s.found fr).find? fun x => decide (x.fragNo.toNat = j)).map Fragment.chunk := by
  unfold found FragmentAssembler.collected
  by_cases hmatch : s.assembler.Matches fr.groupId fr.firstSeq fr.total
  · rw [if_pos hmatch]
    obtain ⟨st, hst, htotal, hfirst⟩ := hmatch
    rw [hst]
    dsimp only
    rw [if_pos ⟨htotal, hfirst⟩]
    exact (h.pending _ st hst).part j
  · rw [if_neg hmatch]
    cases hst : s.assembler.pending[fr.groupId]? with
    | none => rfl
    | some st =>
      dsimp only
      rw [if_neg fun hsame => hmatch ⟨st, hst, hsame.1, hsame.2⟩]
      rfl

/-- A chunk counts if it is the first of its number. -/
theorem Tracks.withChunk_eq (h : Tracks s) (j : ℕ) :
    FragmentAssembler.withChunk (s.assembler.collected fr.groupId fr.firstSeq fr.total)
      fr.fragNo.toNat fr.chunk j =
      ((s.found fr ++ [fr]).find? fun x => decide (x.fragNo.toNat = j)).map Fragment.chunk := by
  unfold FragmentAssembler.withChunk
  rw [h.collected_eq, List.find?_append]
  by_cases hj : j = fr.fragNo.toNat
  · rw [if_pos hj]
    cases (s.found fr).find? fun x => decide (x.fragNo.toNat = j) with
    | none =>
      rw [Option.none_or, List.find?_singleton, if_pos (decide_eq_true hj.symm)]
      rfl
    | some x => rfl
  · have hne : ¬ decide (fr.fragNo.toNat = j) = true := fun h => hj (of_decide_eq_true h).symm
    rw [if_neg hj, List.find?_singleton, if_neg hne, Option.or_none]

theorem Tracks.found_concat_same (h : Tracks s) :
    ∀ x ∈ s.found fr ++ [fr], x.groupId = fr.groupId ∧ x.firstSeq = fr.firstSeq ∧
    x.total = fr.total := by
  intro x hx
  rcases List.mem_append.1 hx with hold | hnew
  · exact h.found_same x hold
  · rw [List.mem_singleton.1 hnew]
    exact ⟨rfl, rfl, rfl⟩

/-- A group that has not been completed lately. -/
theorem since_push (now : Instant) (hnew : fr.groupId ∉ s.assembler.completed) :
    (s.push fr now).since = Function.update s.since fr.groupId (s.found fr ++ [fr]) := if_neg hnew

theorem push_parts {now : Instant} {a' : FragmentAssembler} {out : Option (U16 × Bytes)}
    (hpush : s.assembler.push fr.groupId fr.firstSeq fr.fragNo fr.total fr.chunk now = (a', out)) :
    (s.push fr now).assembler = a' ∧
      (s.push fr now).completions = out.elim s.completions fun _ =>
        s.completions ++ [fr.groupId] := by
  unfold Assembling.push
  dsimp only
  rw [hpush]
  exact ⟨rfl, rfl⟩

/-- **One push.** -/
theorem Tracks.push (h : Tracks s) (hn : fr.fragNo < fr.total) (now : Instant) :
    Tracks (s.push fr now) := by
  by_cases hold : fr.groupId ∈ s.assembler.completed
  · have hsame : s.push fr now = s := by
      unfold Assembling.push
      dsimp only
      rw [if_pos hold, FragmentAssembler.push_of_completed _ _ _ hold]
      rfl
    rw [hsame]
    exact h
  have hsince := since_push now hold
  -- the other groups
  have hother {g : U16} {st : FragState} (hg : g ≠ fr.groupId)
      (hst : s.assembler.pending[g]? = some st) :
      Holds g st ((s.push fr now).since g) := by
    rw [hsince, Function.update_of_ne hg]
    exact h.pending g st hst
  rcases FragmentAssembler.push_of_accepted hn fr.chunk now hold with
    ⟨-, hpush⟩ | ⟨-, st, htotal, hfirst, hpart, hpush⟩
  · obtain ⟨hasm, hdone⟩ := push_parts hpush
    refine ⟨?_, fun g st hst => ?_⟩
    · rw [hasm, hdone, Option.elim_some, ← remember_rtake, ← h.completed]
    · rw [hasm, Map.getElem?_erase] at hst
      split_ifs at hst with hg
      exact hother (Ne.symm hg) hst
  · obtain ⟨hasm, hdone⟩ := push_parts hpush
    refine ⟨?_, fun g st' hst => ?_⟩
    · rw [hasm, hdone]
      exact h.completed
    · rw [hasm, Map.getElem?_insert] at hst
      split_ifs at hst with hg
      · cases hst
        subst hg
        rw [hsince, Function.update_self]
        refine ⟨?_, fun j => ?_⟩
        · rw [htotal, hfirst]
          exact h.found_concat_same
        · rw [hpart, h.withChunk_eq]
      · exact hother (Ne.symm hg) hst

/-- Among fragments of one group the number decides. -/
theorem firstChunk_eq {frs : List Fragment}
    (hsame : ∀ x ∈ frs, x.groupId = fr.groupId ∧ x.firstSeq = fr.firstSeq ∧ x.total = fr.total)
    (j : ℕ) :
    firstChunk frs fr j = (frs.find? fun x => decide (x.fragNo.toNat = j)).map Fragment.chunk := by
  unfold firstChunk
  congr 1
  refine List.find?_congr fun x hx => ?_
  obtain ⟨hg, hf, ht⟩ := hsame x hx
  simp only [hg, hf, ht, true_and]

/-- **What is returned.** -/
theorem Tracks.returned (h : Tracks s) (hn : fr.fragNo < fr.total) (now : Instant) {gseq : U16}
    {out : Bytes}
    (hout : (s.assembler.push fr.groupId fr.firstSeq fr.fragNo fr.total fr.chunk now).2 =
      some (gseq, out)) :
    gseq = fr.firstSeq ∧
      (∃ chunks : List Bytes,
        (List.range fr.total.toNat).map (firstChunk ((s.push fr now).since fr.groupId) fr) =
          chunks.map some ∧
          out = chunks.flatten) ∧
      fr.groupId ∉ s.completions.rtake COMPLETED_CAP := by
  have hnew : fr.groupId ∉ s.assembler.completed := by
    intro hold
    rw [FragmentAssembler.push_of_completed _ _ _ hold] at hout
    cases hout
  rw [since_push now hnew, Function.update_self, ← h.completed]
  rcases FragmentAssembler.push_of_accepted hn fr.chunk now hnew with
    ⟨hall, hpush⟩ | ⟨-, st, -, -, -, hpush⟩
  · rw [hpush] at hout
    cases hout
    refine ⟨rfl, ⟨(List.range fr.total.toNat).map fun j => (FragmentAssembler.withChunk
      (s.assembler.collected fr.groupId fr.firstSeq fr.total) fr.fragNo.toNat fr.chunk j).getD [],
      ?_, ?_⟩, hnew⟩
    · rw [List.map_map]
      refine List.map_congr_left fun j hj => ?_
      rw [firstChunk_eq h.found_concat_same, ← h.withChunk_eq]
      obtain ⟨c, hc⟩ := Option.isSome_iff_exists.1 (hall j (List.mem_range.1 hj))
      show _ = some (Option.getD _ [])
      rw [hc, Option.getD_some]
    · rw [List.flatMap_def]
  · rw [hpush] at hout
    cases hout

end Push

/-- Dropping stale groups. -/
theorem Tracks.cleanup {s : Assembling} (h : Tracks s) (now : Instant) :
    Tracks { s with assembler := s.assembler.cleanup now } where
  completed := h.completed
  pending g st hst := h.pending g st (FragmentAssembler.getElem?_cleanup hst)

theorem tracks_step {s : Assembling} (h : Tracks s) (x : AsmStep) : Tracks (s.step x) := by
  cases x with
  | push body now =>
    unfold step
    dsimp only
    cases hdec : decodeFragment body with
    | error err => exact h
    | ok fr => exact h.push (decodeFragment_ok hdec).2.2 now
  | cleanup now => exact h.cleanup now

theorem tracks_run (steps : List AsmStep) : Tracks (steps.foldl step start) := by
  induction steps using List.reverseRecOn with
  | nil => exact tracks_start
  | append_singleton steps x ih =>
    rw [List.foldl_append]
    exact tracks_step ih x

/-- **Reassembly.** After any pushes and cleanups, a fragment has a slot in its group; and if it
completes the group, the first number is returned with the first chunks of all numbers pushed since
the entry of the group was created or reset, this fragment included, and the group is not among the
last 128 completed. -/
theorem reassembly (steps : List AsmStep) {body : Bytes} {fr : Fragment}
    (hdec : decodeFragment body = .ok fr) (now : Instant) :
    let s := steps.foldl step start
    fr.fragNo.toNat < (s.assembler.entry fr.groupId fr.firstSeq fr.total now).parts.length ∧
      ∀ gseq out, (s.assembler.push fr.groupId fr.firstSeq fr.fragNo fr.total fr.chunk now).2 =
        some (gseq, out) →
        gseq = fr.firstSeq ∧
          (∃ chunks : List Bytes,
            (List.range fr.total.toNat).map
                (firstChunk ((s.step (.push body now)).since fr.groupId) fr) =
                chunks.map some ∧
              out = chunks.flatten) ∧
          fr.groupId ∉ s.completions.rtake COMPLETED_CAP := by
  intro s
  have hn : fr.fragNo < fr.total := (decodeFragment_ok hdec).2.2
  constructor
  · rw [FragState.length_parts, (FragmentAssembler.entry_spec now).1]
    exact hn
  · intro gseq out hout
    have hstep : s.step (.push body now) = s.push fr now := by
      unfold step
      dsimp only
      rw [hdec]
    rw [hstep]
    exact (tracks_run steps).returned hn now hout

/-- Two fragments arrive in the wrong order. -/
theorem reassembly_swapped :
    decodeFragment (encodeFragment 1 5 0 2 [7]) = .ok ⟨1, 5, 0, 2, [7]⟩ ∧
      (1 : U16) ∉ ([AsmStep.push (encodeFragment 1 5 1 2 [8]) 0].foldl step start).completions.rtake
      COMPLETED_CAP :=
  ⟨rfl, ((@reassembly [.push (encodeFragment 1 5 1 2 [8]) 0] (encodeFragment 1 5 0 2 [7])
    ⟨1, 5, 0, 2, [7]⟩ rfl 0).2 5 [7, 8] (by decide +kernel)).2.2⟩

end Assembling

end SoupEngine
