import SoupEngine.Link.Kept
import SoupEngine.Link.Windowed

/-!
# Groups that wait in the reorder buffer

While the receiver is at most 64 numbers behind, a group that is buffered but not yet delivered is
still in the memory of completed groups, and nothing pending belongs to a buffered group
(`Settled`). So then no fragment is put together with those of another message
(`Settled.not_mixes`).
-/

namespace SoupEngine

open BoundedMemory Release

attribute [local irreducible] remember

namespace Link

/-- The numbers buffered within 64 of `k`. -/
def around (D : Finset ℕ) (k : ℕ) : Finset ℕ := {j ∈ D | j ≠ k ∧ k < j + 64 ∧ j < k + 64}

structure Settled (l : Link) (D : Finset ℕ) : Prop where
  unfinished : ∀ (g : U16) (st : FragState), l.b.assembler.pending[g]? = some st → l.owner g ∉ D
  /-- A buffered group that is not delivered has been followed by groups around it only. -/
  recent : ∀ c, l.Numbered c c.first → c.Fragmented → c.first ∈ D → l.pos ≤ c.first →
    ∃ d, ofAge l.b.assembler.completed d = some c.groupId ∧ d ≤ (around D c.first).card

theorem settled_start (a b : Opening) : Settled (start a b) ∅ where
  unfinished g st hg := by
    rw [show (start a b).b.assembler.pending = ∅ from rfl, Std.ExtTreeMap.getElem?_empty] at hg
    cases hg
  recent c hc hf hD := absurd hD (Finset.notMem_empty _)

theorem card_around_le (D : Finset ℕ) (k : ℕ) : (around D k).card ≤ 126 := by
  have hsub : around D k ⊆ (Finset.Ico (k - 63) (k + 64)).erase k := by
    intro j hj
    obtain ⟨-, hne, h1, h2⟩ := Finset.mem_filter.1 hj
    rw [Finset.mem_erase, Finset.mem_Ico]
    exact ⟨hne, by omega, h2⟩
  have hcard := Finset.card_le_card hsub
  rw [Finset.card_erase_of_mem (Finset.mem_Ico.2 ⟨by omega, by omega⟩), Nat.card_Ico] at hcard
  omega

theorem around_mono {D D' : Finset ℕ} (h : D ⊆ D') (k : ℕ) : around D k ⊆ around D' k :=
  Finset.filter_subset_filter _ h

variable {hmac4 : Hmac} {cfg : SessionTableConfig} {l l' : Link} {c : Call} {i : ℕ} {D : Finset ℕ}
  {bytes : Bytes}

/-- No fragment of a group that waits for its delivery is taken in. -/
theorem Settled.not_accepts (h : Settled l D) (hw : Wired cfg l) (hc : l.Numbered c i)
    (hf : c.Fragmented) (hD : c.first ∈ D) (hpos : l.pos ≤ c.first) : ¬ l.Accepts i c := by
  intro hacc
  obtain ⟨d, hd, -⟩ := h.recent c (hw.numbered_first hc) hf hD hpos
  exact hacc.2.2 (Or.inr (mem_of_ofAge hd))

theorem lt_of_numbered (hc : l.Numbered c i) : i < l.log.length := by
  obtain ⟨e, he, -⟩ := hc
  exact (List.getElem?_eq_some_iff.1 he).1

/-- **No mixing.** What is pending under the label of an arriving fragment is its own group. -/
theorem Settled.not_mixes (h : Settled l D) (hs : Sound cfg l D) (hlag : l.log.length ≤ l.pos + 64)
    (hc : l.Numbered c i) (hfresh : ¬ l.Stale i c) : ¬ l.Mixes i c := by
  rintro ⟨hacc, ⟨st, hst, -, hfs⟩, hne⟩
  obtain ⟨c', hc'⟩ := hs.assembled _ st hst
  have hpos' : l.pos ≤ c'.first := by
    by_contra hlt
    refine h.unfinished _ st hst ?_
    rw [hc'.owner]
    exact mem_of_lt_front (by rw [← hs.receiving.front]; omega)
  have hpos : l.pos ≤ c.first := not_lt.1 fun hlt => hfresh ⟨hacc, hlt⟩
  have hlt := lt_of_numbered (hs.wired.numbered_first hc)
  have hlt' := lt_of_numbered hc'.numbered
  have hseq : seqNum c'.first = seqNum c.first := hc'.firstSeq.symm.trans hfs
  refine hne ?_
  calc l.owner c.groupId = c'.first := hc'.owner
    _ = c.first := (seqNum_inj (by omega) (by omega)).1 hseq

theorem Settled.quiet (h : Settled l D) (hR : Receiving l D) (hq : Quiet l l') : Settled l' D where
  unfinished := by
    intro g st hg
    rw [hq.owner]
    exact h.unfinished g st (hq.pending g st hg)
  recent := by
    intro c hc hf hD hpos
    rw [hq.pos] at hpos
    rw [hq.completed]
    exact h.recent c (hc.back hq.log (lt_of_received hR (hR.buffered _ hD).1)) hf hD hpos

/-! ## Arrivals -/

section Arrival

variable (hs : Sound cfg l D) (hset : Settled l D) (hlag : l.log.length ≤ l.pos + 64)
  (ha : l.b.state = .Active) (he : l.log[i]? = some ⟨c, some bytes⟩) (hfresh : ¬ l.Stale i c)
  (peer : SocketAddr) (now clock : Instant)

include hs hset he in
/-- An arrival that leaves the assembler alone. -/
theorem settled_of_assembler
    (heq : (l.b.receive cfg Stats.new peer bytes now clock).session.assembler = l.b.assembler)
    (hacc : ¬ l.Accepts i c) {D' : Finset ℕ} (hD : D' = D ∨ D' = insert i D ∧ ¬ c.Fragmented) :
    Settled (l.receiveB cfg i c bytes peer now clock) D' := by
  set l' := l.receiveB cfg i c bytes peer now clock with hl'
  have hasm : l'.b.assembler = l.b.assembler := heq
  have hown : l'.owner = l.owner := if_neg fun h => hacc h.1
  have hpos : l.pos ≤ l'.pos := Nat.le_add_right _ _
  have hsub : D ⊆ D' := by
    rcases hD with rfl | ⟨rfl, -⟩
    · exact Finset.Subset.refl _
    · exact Finset.subset_insert _ _
  -- the number of a plain message is none of a group
  have hback : ∀ c' : Call, l.Numbered c' c'.first → c'.Fragmented → c'.first ∈ D' →
      c'.first ∈ D := by
    intro c' hc' hf' hm
    rcases hD with rfl | ⟨rfl, hcf⟩
    · exact hm
    · rcases Finset.mem_insert.1 hm with heq | hm
      · rw [heq] at hc'
        rw [Numbered.unique hc' ⟨_, he, rfl⟩] at hf'
        exact absurd hf' hcf
      · exact hm
  refine ⟨fun g st hg hm => ?_, fun c' hc' hf' hm hp => ?_⟩
  · rw [hasm] at hg
    obtain ⟨c', hc'⟩ := hs.assembled g st hg
    refine hset.unfinished g st hg ?_
    rw [hown, hc'.owner] at hm
    rw [hc'.owner]
    exact hback c' hc'.numbered hc'.fragmented hm
  · rw [hasm]
    obtain ⟨d, hd, hcard⟩ := hset.recent c' hc' hf' (hback c' hc' hf' hm) (hpos.trans hp)
    exact ⟨d, hd, hcard.trans (Finset.card_le_card (around_mono hsub _))⟩

theorem owner_of_ne {g : U16} (hg : g ≠ c.groupId) :
    (l.receiveB cfg i c bytes peer now clock).owner g = l.owner g := by
  have hown : (l.receiveB cfg i c bytes peer now clock).owner =
      if l.Accepts i c ∧ ¬ l.Joins i c then Function.update l.owner c.groupId c.first
      else l.owner := rfl
  rw [hown]
  split_ifs
  · exact Function.update_of_ne hg _ _
  · rfl

/-- The label of a fragment that is taken in belongs to its call. -/
theorem owner_self (hacc : l.Accepts i c) (hmix : ¬ l.Mixes i c) :
    (l.receiveB cfg i c bytes peer now clock).owner c.groupId = c.first := by
  have hown : (l.receiveB cfg i c bytes peer now clock).owner =
      if l.Accepts i c ∧ ¬ l.Joins i c then Function.update l.owner c.groupId c.first
      else l.owner := rfl
  rw [hown]
  by_cases hj : l.Joins i c
  · rw [if_neg fun h => h.2 hj]
    by_contra hne
    exact hmix ⟨hacc, hj, hne⟩
  · rw [if_pos ⟨hacc, hj⟩, Function.update_self]

include hset in
/-- A fragment that is stored. -/
theorem settled_stored (hacc : l.Accepts i c) (hmix : ¬ l.Mixes i c) (hfirst : c.first ∉ D)
    {st : FragState} (hasm : (l.receiveB cfg i c bytes peer now clock).b.assembler =
      ⟨l.b.assembler.pending.insert c.groupId st, l.b.assembler.completed⟩) :
    Settled (l.receiveB cfg i c bytes peer now clock) D := by
  have hpos : l.pos ≤ (l.receiveB cfg i c bytes peer now clock).pos := Nat.le_add_right _ _
  refine ⟨fun g st' hg => ?_, fun c' hc' hf' hm hp => ?_⟩
  · rw [hasm] at hg
    change (l.b.assembler.pending.insert c.groupId st)[g]? = some st' at hg
    rw [Map.getElem?_insert] at hg
    split_ifs at hg with hgc
    · subst hgc
      rw [owner_self peer now clock hacc hmix]
      exact hfirst
    · rw [owner_of_ne peer now clock (Ne.symm hgc)]
      exact hset.unfinished g st' hg
  · rw [hasm]
    exact hset.recent c' hc' hf' hm (hpos.trans hp)

include hs in
/-- A group that is completed is one more around each that waits already. -/
theorem card_around_group (hnum : l.Numbered c i) (hmem : c.first ∈ groupNums c.first c.total)
    (hfirst : c.first ∉ D) (hlo : l.pos ≤ c.first) (hlag : l.log.length ≤ l.pos + 64) {c' : Call}
    (hc' : l.Numbered c' c'.first) (hm : c'.first ∈ D) (hp : l.pos ≤ c'.first) :
    (around D c'.first).card + 1 ≤ (around (D ∪ groupNums c.first c.total) c'.first).card := by
  have hlt := lt_of_numbered hc'
  have hlt' := lt_of_numbered (hs.wired.numbered_first hnum)
  have hsub : insert c.first (around D c'.first) ⊆
      around (D ∪ groupNums c.first c.total) c'.first := by
    refine Finset.insert_subset ?_ (around_mono Finset.subset_union_left _)
    exact Finset.mem_filter.2 ⟨Finset.mem_union_right _ hmem, fun h => hfirst (h ▸ hm),
      by omega, by omega⟩
  have hnot : c.first ∉ around D c'.first := fun h => hfirst (Finset.mem_filter.1 h).1
  have hcard := Finset.card_le_card hsub
  rwa [Finset.card_insert_of_notMem hnot] at hcard

include hs hset hlag he in
/-- A fragment that completes its group. -/
theorem settled_completed (hacc : l.Accepts i c) (hfirst : c.first ∉ D) (hlo : l.pos ≤ c.first)
    (hall : ∀ j < c.total, j = i - c.first ∨ l.Got c (c.first + j))
    (hasm : (l.receiveB cfg i c bytes peer now clock).b.assembler =
      ⟨l.b.assembler.pending.erase c.groupId,
        remember COMPLETED_CAP l.b.assembler.completed c.groupId⟩) :
    Settled (l.receiveB cfg i c bytes peer now clock) (D ∪ groupNums c.first c.total) := by
  have hnum : l.Numbered c i := ⟨_, he, rfl⟩
  have hgroup := numbered_group hnum hall (hs.wired.number i _ he).1
  have hpos : l.pos ≤ (l.receiveB cfg i c bytes peer now clock).pos := Nat.le_add_right _ _
  have hmem : c.first ∈ groupNums c.first c.total := by
    have := hacc.2.1.2.2
    rw [mem_groupNums]
    omega
  refine ⟨fun g st' hg hm => ?_, fun c' hc' hf' hm hp => ?_⟩
  · rw [hasm] at hg
    change (l.b.assembler.pending.erase c.groupId)[g]? = some st' at hg
    rw [Map.getElem?_erase] at hg
    split_ifs at hg with hgc
    rw [owner_of_ne peer now clock (Ne.symm hgc)] at hm
    rcases Finset.mem_union.1 hm with hm | hm
    · exact hset.unfinished g st' hg hm
    · obtain ⟨c', hc'⟩ := hs.assembled g st' hg
      rw [hc'.owner] at hm
      have heq := Numbered.unique hc'.numbered (hgroup _ hm)
      exact hgc (by rw [← hc'.group, heq])
  · have hc : l.Numbered c' c'.first := hc'
    rw [hasm]
    rcases Finset.mem_union.1 hm with hm | hm
    · obtain ⟨d, hd, hcard⟩ := hset.recent c' hc hf' hm (hpos.trans hp)
      have hmore := card_around_group hs hnum hmem hfirst hlo hlag hc hm (hpos.trans hp)
      have hcap := card_around_le D c'.first
      exact ⟨d + 1, ofAge_remember_succ (by show d + 1 < 128; omega) hd _, by omega⟩
    · rw [Numbered.unique hc (hgroup _ hm)]
      exact ⟨0, ofAge_remember_zero (by decide) _ _, Nat.zero_le _⟩

include hs hset hlag ha he hfresh in
/-- A fragment. -/
theorem settled_fragment (hf : c.Fragmented) :
    Settled (l.receiveB cfg i c bytes peer now clock) (l.grown i c D) := by
  have hw := hs.wired
  have hnum : l.Numbered c i := ⟨_, he, rfl⟩
  have hmix := hset.not_mixes hs hlag hnum hfresh
  have hgrown : l.grown i c D =
      if l.Accepts i c ∧ l.b.Completes (c.fragment i) then D ∪ groupNums c.first c.total
          else D := by
    unfold grown
    rw [if_neg (by rw [isActive_iff.2 ha]; exact fun h => h.elim Bool.noConfusion fun h => h hf.1),
      if_neg (not_not.2 hf)]
  have hnew : l.Accepts i c → c.first ∉ D ∧ l.pos ≤ c.first := by
    intro hacc
    have hlo : l.pos ≤ c.first := not_lt.1 fun hlt => hfresh ⟨hacc, hlt⟩
    exact ⟨fun hD => hset.not_accepts hw hnum hf hD hlo hacc, hlo⟩
  rcases fragment_cases hw hs.assembled ha he hf.1 hf hmix peer now clock with
    ⟨hacc, hview, -⟩ | ⟨hacc, hnc, st, -, -, -, hview, -⟩ | ⟨hacc, hcomp, hall, s, hview, -,
      hses, -⟩
  · rw [hgrown, if_neg fun h => hacc h.1]
    exact settled_of_assembler hs hset he peer now clock
      (congrArg ReceiverView.assembler hview) hacc (Or.inl rfl)
  · rw [hgrown, if_neg fun h => hnc h.2]
    exact settled_stored hset peer now clock hacc hmix (hnew hacc).1
      (congrArg ReceiverView.assembler hview)
  · rw [hgrown, if_pos ⟨hacc, hcomp⟩]
    refine settled_completed hs hset hlag he peer now clock hacc (hnew hacc).1 (hnew hacc).2 hall ?_
    show (l.b.receive cfg Stats.new peer bytes now clock).session.assembler = _
    rw [hses, (deliverCh2InOrder_same s []).2]
    exact congrArg ReceiverView.assembler hview

include hs hset hlag ha he hfresh in
/-- **An arrival.** -/
theorem settled_arrival : Settled (l.receiveB cfg i c bytes peer now clock) (l.grown i c D) := by
  by_cases hf : c.Fragmented
  · exact settled_fragment hs hset hlag ha he hfresh peer now clock hf
  have heq := assembler_receive_of_plain ha hs.wired he hf peer now clock
  have hacc : ¬ l.Accepts i c := fun h => hf h.2.1.1
  refine settled_of_assembler hs hset he peer now clock heq hacc ?_
  unfold grown
  split_ifs
  · exact Or.inl rfl
  · exact Or.inr ⟨rfl, hf⟩

end Arrival

end Link

end SoupEngine
