import SoupEngine.Reliable.Assembly
import SoupEngine.Session.Packet

/-!
# Ch2 fragments

What `handleCh2` does with a fragment, as one case distinction (`handleCh2_fragment`): a copy that
is remembered is ignored, a chunk of an incomplete group is kept by the assembler, and the last
missing chunk buffers the group and starts delivery.
-/

namespace SoupEngine

open BoundedMemory Release

attribute [local irreducible] remember

section Handle

variable {s : Session} {header : DatagramHeader} {f : FrameRef}

/-- The chunks held towards the group of a fragment once it has been added. -/
def Session.heldWith (s : Session) (fr : Fragment) : ℕ → Option Bytes :=
  FragmentAssembler.withChunk (s.assembler.collected fr.groupId fr.firstSeq fr.total)
    fr.fragNo.toNat fr.chunk

/-- The fragment is the last one missing. -/
def Session.Completes (s : Session) (fr : Fragment) : Prop :=
  ∀ j < fr.total.toNat, (s.heldWith fr j).isSome

instance (s : Session) (fr : Fragment) : Decidable (s.Completes fr) := by
  unfold Session.Completes; infer_instance

/-- The fragment is remembered, by its number or by its group. -/
def Session.Remembers (s : Session) (seq groupId : U16) : Prop :=
  seq ∈ s.deliveredSeqs ∨ groupId ∈ s.assembler.completed

instance (s : Session) (seq groupId : U16) : Decidable (s.Remembers seq groupId) := by
  unfold Session.Remembers; infer_instance

/-- A malformed fragment is ignored. -/
theorem handleCh2_malformed (now : Instant) (events : List SessionEvent) {e : Error}
    (hflag : header.flags &&& FLAG_FRAGMENT ≠ 0) (hdec : decodeFragment f.body = .error e) :
    handleCh2 s header f now events = (s, events) := by
  unfold handleCh2
  rw [if_neg (fun h : header.flags &&& FLAG_FRAGMENT = 0 ∧ _ ∧ _ => hflag h.1), if_pos hflag, hdec]
  exact ite_self _

/-- **A fragment.** It is ignored, kept, or completes its group. -/
theorem handleCh2_fragment (now : Instant) (events : List SessionEvent) {fr : Fragment}
    (hflag : header.flags &&& FLAG_FRAGMENT ≠ 0) (hdec : decodeFragment f.body = .ok fr) :
    (s.Remembers header.seq fr.groupId ∧ handleCh2 s header f now events = (s, events)) ∨
      (¬ s.Remembers header.seq fr.groupId ∧ ¬ s.Completes fr ∧
        ∃ st : FragState, st.total = fr.total ∧ st.firstSeq = fr.firstSeq ∧
          (∀ j, st.part j = s.heldWith fr j) ∧
          handleCh2 s header f now events =
            ({ s with assembler :=
                ⟨s.assembler.pending.insert fr.groupId st, s.assembler.completed⟩ }, events)) ∨
      (¬ s.Remembers header.seq fr.groupId ∧ s.Completes fr ∧
        handleCh2 s header f now events =
          deliverCh2InOrder
            { s with
              assembler := ⟨s.assembler.pending.erase fr.groupId,
                remember COMPLETED_CAP s.assembler.completed fr.groupId⟩
              reorder := insertGroup s.reorder fr.firstSeq fr.total
                (f.msgId, (List.range fr.total.toNat).flatMap fun j => (s.heldWith fr j).getD []) }
            events) := by
  unfold handleCh2
  by_cases hseq : header.seq ∈ s.deliveredSeqs
  · rw [if_pos hseq]
    exact Or.inl ⟨Or.inl hseq, rfl⟩
  rw [if_neg hseq, if_neg (fun h : header.flags &&& FLAG_FRAGMENT = 0 ∧ _ ∧ _ => hflag h.1),
    if_pos hflag, hdec]
  dsimp only
  by_cases hg : fr.groupId ∈ s.assembler.completed
  · rw [FragmentAssembler.push_of_completed _ _ _ hg]
    exact Or.inl ⟨Or.inr hg, rfl⟩
  have hnot : ¬ s.Remembers header.seq fr.groupId := fun h => h.elim hseq hg
  have hn : fr.fragNo < fr.total := (decodeFragment_ok hdec).2.2
  rcases FragmentAssembler.push_of_accepted (f := fr.firstSeq) hn fr.chunk now hg with
    ⟨hall, hpush⟩ | ⟨hall, st, ht, hf, hparts, hpush⟩
  · rw [hpush]
    exact Or.inr (Or.inr ⟨hnot, hall, rfl⟩)
  · rw [hpush]
    exact Or.inr (Or.inl ⟨hnot, hall, st, ht, hf, hparts, rfl⟩)

end Handle

/-! ## Groups in the window -/

/-- Every number is that of an item within one turn of the number space. -/
theorem exists_seqNum (p : ℕ) (x : U16) : ∃ i, p ≤ i ∧ i < p + 65536 ∧ seqNum i = x := by
  refine ⟨p + (x - seqNum p).toNat, Nat.le_add_right _ _, ?_, ?_⟩
  · have := (x - seqNum p).isLt
    omega
  · calc seqNum (p + (x - seqNum p).toNat)
        = seqNum p + seqNum (x - seqNum p).toNat := (seqNum_add p _).symm
      _ = seqNum p + (x - seqNum p) := by
          rw [show seqNum (x - seqNum p).toNat = x - seqNum p from SerialNumber.num_toNat _]
      _ = x := by rw [BitVec.add_comm, BitVec.sub_add_cancel]

/-- A group releases its message. -/
theorem release_group {sessId : U64} {slot : ℕ → U16 × Bytes} {g t : ℕ} (ht : 0 < t)
    (hs : ∀ i, g < i → i < g + t → slot i = placeholder) :
    release sessId slot g (g + t) = deliveryEvents sessId (slot g) := by
  induction t with
  | zero => omega
  | succ t ih =>
    rcases Nat.eq_zero_or_pos t with rfl | hpos
    · exact release_succ slot g
    · rw [← release_append (q := g + t) (by omega) (by omega),
        ih hpos fun i h1 h2 => hs i h1 (by omega)]
      show _ ++ release sessId slot (g + t) (g + t + 1) = _
      rw [release_succ, hs (g + t) (by omega) (by omega)]
      exact List.append_nil _

/-- With everything delivered the buffer is empty. -/
theorem Window.reorder_eq_empty {slot : ℕ → U16 × Bytes} {p : ℕ} {v : Ch2View}
    (h : Window slot (Finset.range p) p v) : v.reorder = ∅ := by
  apply Std.ExtTreeMap.ext_getElem?
  intro x
  obtain ⟨i, hlo, hhi, rfl⟩ := exists_seqNum p x
  rw [h.reorder i hlo hhi, if_neg (by rw [Finset.mem_range]; omega), Std.ExtTreeMap.getElem?_empty]

/-! ## What it leaves alone -/

/-- `handleCh2` works on the Ch2 receive state only. -/
theorem handleCh2_same (s : Session) (header : DatagramHeader) (f : FrameRef) (now : Instant)
    (events : List SessionEvent) : SameOutsideCh2 s (handleCh2 s header f now events).1 := by
  by_cases hflag : header.flags &&& FLAG_FRAGMENT = 0
  · unfold handleCh2
    split_ifs with hseq hold
    · exact rfl
    · exact rfl
    · exact absurd hflag (by assumption)
    · have hframe : SameOutsideCh2 s
        { s with reorder := s.reorder.insert header.seq (f.msgId, f.body) } := rfl
      exact hframe.trans (deliverCh2InOrder_same _ _).1
  · cases hdec : decodeFragment f.body with
    | error e =>
      rw [handleCh2_malformed now events hflag hdec]
      exact rfl
    | ok fr =>
      rcases handleCh2_fragment now events hflag hdec with
        ⟨-, heq⟩ | ⟨-, -, st, -, -, -, heq⟩ | ⟨-, -, heq⟩
      · rw [heq]
        exact rfl
      · rw [heq]
        exact rfl
      · rw [heq]
        have hframe : SameOutsideCh2 s
          { s with
            assembler := ⟨s.assembler.pending.erase fr.groupId,
              remember COMPLETED_CAP s.assembler.completed fr.groupId⟩
            reorder := insertGroup s.reorder fr.firstSeq fr.total
              (f.msgId, (List.range fr.total.toNat).flatMap fun j => (s.heldWith fr j).getD []) } :=
          rfl
        exact hframe.trans (deliverCh2InOrder_same _ _).1

end SoupEngine
