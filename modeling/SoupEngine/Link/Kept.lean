import SoupEngine.Link.Groups
import SoupEngine.Link.Orderly

/-!
# Nothing that arrives is lost

`Kept`: every Ch2 number that has been received is buffered, or its chunk is held by the assembler
together with those of its call. The point is that the memory of completed groups never takes a new
group for an old one (`not_completed_of_new`): group ids repeat only after `2 ^ 16` groups, and long
before that an id has left the memory.
-/

namespace SoupEngine

open BoundedMemory Release Sparse

attribute [local irreducible] remember

namespace Link

/-- The groups buffered so far whose first number is at least `k`. -/
def startsFrom (l : Link) (D : Finset ℕ) (k : ℕ) : Finset ℕ := {i ∈ D | l.StartsGroup i ∧ k ≤ i}

/-- The chunk of number `i` is held under the group id of its call. -/
def HeldPart (l : Link) (c : Call) (i : ℕ) : Prop :=
  ∃ st, l.b.assembler.pending[c.groupId]? = some st ∧ st.total.toNat = c.total ∧
    st.firstSeq = seqNum c.first ∧ (st.part (i - c.first)).isSome

structure Kept (l : Link) (D : Finset ℕ) : Prop where
  plain : ∀ i ∈ l.received, ∀ c, l.Numbered c i → c.ch = CH_RELIABLE_ORDERED →
    ¬ c.Fragmented → i ∈ D
  part : ∀ i ∈ l.received, ∀ c, l.Numbered c i → c.Fragmented → i ∈ D ∨ l.HeldPart c i
  incomplete : ∀ (g : U16) (st : FragState), l.b.assembler.pending[g]? = some st →
    ∃ j < st.total.toNat, st.part j = none
  closed : ∀ i ∈ D, ∀ c, l.Numbered c i → c.Fragmented → groupNums c.first c.total ⊆ D
  short : l.b.assembler.completed.length ≤ COMPLETED_CAP
  /-- A remembered group of age `d` has been followed by at most `d` groups. -/
  aged : ∀ d g, ofAge l.b.assembler.completed d = some g →
    ∃ c i, l.Numbered c i ∧ c.Fragmented ∧ c.groupId = g ∧ c.first ∈ D ∧
      (l.startsFrom D (c.first + 32767)).card ≤ d

theorem kept_start (a b : Opening) : Kept (start a b) ∅ where
  plain i hi := absurd hi (Finset.notMem_empty i)
  part i hi := absurd hi (Finset.notMem_empty i)
  incomplete g st hg := by
    rw [show (start a b).b.assembler.pending = ∅ from rfl, Std.ExtTreeMap.getElem?_empty] at hg
    cases hg
  closed i hi := absurd hi (Finset.notMem_empty i)
  short := Nat.zero_le _
  aged d g hg := by
    rw [show (start a b).b.assembler.completed = [] from rfl] at hg
    cases hg

variable {hmac4 : Hmac} {cfg : SessionTableConfig} {l l' : Link} {c : Call} {i : ℕ} {D : Finset ℕ}
  {bytes : Bytes}

theorem Numbered.unique {c' : Call} (h : l.Numbered c i) (h' : l.Numbered c' i) : c = c' := by
  obtain ⟨e, he, rfl⟩ := h
  obtain ⟨e', he', rfl⟩ := h'
  rw [he] at he'
  cases he'
  rfl

/-- In a log without failures a fragmented call has at most 64 fragments, and their total is not
narrowed. -/
theorem Whole.total_eq (h : Whole l) (hw : Wired cfg l) (hc : l.Numbered c i) (hf : c.Fragmented) :
    c.total = c.count ∧ c.count ≤ 64 ∧ c.first ≤ i ∧ i < c.first + c.total := by
  obtain ⟨e, he, rfl⟩ := hc
  have h64 : e.call.count ≤ 64 := (h.count i e he).resolve_right (not_not.2 hf)
  have hcount : e.call.count = fragmentCount e.call.payload := if_pos hf
  have htotal : e.call.total = e.call.count := by
    rw [hcount]
    exact Nat.mod_eq_of_lt (by omega)
  obtain ⟨h1, h2, -⟩ := hw.number i e he
  exact ⟨htotal, h64, h1, by omega⟩

theorem Whole.decodes (h : Whole l) (hw : Wired cfg l) (hc : l.Numbered c i) (hf : c.Fragmented) :
    c.Decodes i := by
  obtain ⟨h1, h2, h3, h4⟩ := h.total_eq hw hc hf
  exact ⟨hf, by omega, by omega⟩

/-! ## The memory of completed groups -/

/-- A group that has not been buffered is not among the completed ones. -/
theorem not_completed_of_new (hs : Sound cfg l D) (hg : Grouped l) (hwh : Whole l) (hk : Kept l D)
    (hc : l.Numbered c i) (hf : c.Fragmented) (hi : i ∉ D) (hnear : i ≤ l.pos + 32766) :
    c.groupId ∉ l.b.assembler.completed := by
  intro hmem
  obtain ⟨d, hd⟩ := exists_ofAge_of_mem hmem
  obtain ⟨v, j, hv, hvf, hvg, hvD, hcard⟩ := hk.aged d _ hd
  have hlen := ofAge_lt_length hd
  have hshort := hk.short
  have hcap : COMPLETED_CAP = 128 := rfl
  have hw := hs.wired
  have hR := hs.receiving
  obtain ⟨-, -, hfi, hit⟩ := hwh.total_eq hw hc hf
  have hfirst : c.first ∉ D := by
    intro hcD
    exact hi (hk.closed _ hcD c (hw.numbered_first hc) hf (mem_groupNums.2 ⟨hfi, hit⟩))
  have hcpos : l.pos ≤ c.first := by
    by_contra hlt
    exact hfirst (mem_of_lt_front (by rw [← hR.front]; omega))
  have hvpos : v.first ≤ l.pos + 32766 := by
    obtain ⟨hr, e, he, hch⟩ := hR.buffered _ hvD
    exact hR.near _ hr e he hch
  have hne : v.first ≠ c.first := fun h => hfirst (h ▸ hvD)
  have hiso := hwh.isolated
  have hmod := hg.mod_eq hv hc hvf hf hvg
  have hsv := startsGroup_of_numbered hw hv hvf
  have hsc := startsGroup_of_numbered hw hc hf
  rcases Nat.lt_or_gt_of_ne hne with hlt | hlt
  · -- a whole turn of group ids lies between the two, most of it delivered and completed since
    have hgap := count_gap hsv hlt hmod
    have h1 := count_add_le hiso l.pos (c.first - l.pos)
    rw [Nat.add_sub_cancel' hcpos] at h1
    have h2 := count_add_le hiso v.first 32767
    have h3 : Nat.count l.StartsGroup l.pos ≤ Nat.count l.StartsGroup (v.first + 32767) +
        (l.startsFrom D (v.first + 32767)).card := by
      refine count_le_add_card fun k hk1 hk2 hks => ?_
      exact Finset.mem_filter.2 ⟨mem_of_lt_front (by rw [← hR.front]; exact hk2), hks, hk1⟩
    omega
  · have hgap := count_gap hsc hlt hmod.symm
    have h1 := count_add_le hiso c.first (v.first - c.first)
    rw [Nat.add_sub_cancel' hlt.le] at h1
    omega

/-- A fragment that has not been buffered is taken in. -/
theorem accepts_of_new (hs : Sound cfg l D) (hg : Grouped l) (hwh : Whole l) (hk : Kept l D)
    (ha : l.b.state = .Active) (hc : l.Numbered c i) (hf : c.Fragmented) (hi : i ∉ D)
    (hnear : l.Near i) : l.Accepts i c := by
  have hR := hs.receiving
  refine ⟨isActive_iff.2 ha, hwh.decodes hs.wired hc hf, ?_⟩
  rintro (hm | hm)
  · have hlt :=
      (hR.window.mem_seqs (i := i) (by have := hnear.1; omega) (by have := hnear.2; omega)).1 hm
    exact hi (mem_of_lt_front (by rw [← hR.front]; exact hlt.1))
  · exact not_completed_of_new hs hg hwh hk hc hf hi hnear.2 hm

/-! ## Quiet steps -/

theorem Numbered.back (hlog : ∀ (i : ℕ) (e : Sent), l.log[i]? = some e → l'.log[i]? = some e)
    (hi : i < l.log.length) (h : l'.Numbered c i) : l.Numbered c i := by
  obtain ⟨e, he, hc⟩ := h
  have hold : l.log[i]? = some l.log[i] := List.getElem?_eq_getElem hi
  rw [hlog i _ hold] at he
  cases he
  exact ⟨_, hold, hc⟩

theorem startsGroup_congr (hlog : ∀ (i : ℕ) (e : Sent), l.log[i]? = some e → l'.log[i]? = some e)
    (hi : i < l.log.length) : l'.StartsGroup i ↔ l.StartsGroup i := by
  have hold : l.log[i]? = some l.log[i] := List.getElem?_eq_getElem hi
  unfold StartsGroup
  rw [hold, hlog i _ hold]

theorem lt_of_received (hR : Receiving l D) (hi : i ∈ l.received) : i < l.log.length := by
  obtain ⟨e, he, -⟩ := hR.logged i hi
  exact (List.getElem?_eq_some_iff.1 he).1

theorem Kept.quiet (h : Kept l D) (hR : Receiving l D) (hq : Quiet l l')
    (hp : l'.b.assembler.pending = l.b.assembler.pending) : Kept l' D where
  plain := by
    intro i hi c hc
    rw [hq.received] at hi
    exact h.plain i hi c (hc.back hq.log (lt_of_received hR hi))
  part := by
    intro i hi c hc hf
    rw [hq.received] at hi
    unfold HeldPart
    rw [hp]
    exact h.part i hi c (hc.back hq.log (lt_of_received hR hi)) hf
  incomplete := by
    intro g st hg
    rw [hp] at hg
    exact h.incomplete g st hg
  closed := by
    intro i hi c hc
    exact h.closed i hi c (hc.back hq.log (lt_of_received hR (hR.buffered i hi).1))
  short := by rw [hq.completed]; exact h.short
  aged := by
    intro d g hd
    rw [hq.completed] at hd
    obtain ⟨c, i, hc, hf, hg, hD, hcard⟩ := h.aged d g hd
    refine ⟨c, i, hc.mono hq.log, hf, hg, hD, ?_⟩
    have hsame : l'.startsFrom D (c.first + 32767) = l.startsFrom D (c.first + 32767) := by
      refine Finset.filter_congr fun k hk => ?_
      rw [startsGroup_congr hq.log (lt_of_received hR (hR.buffered k hk).1)]
    rw [hsame]
    exact hcard

/-! ## Arrivals -/

section Arrival

variable (hs : Sound cfg l D) (hg : Grouped l) (hwh : Whole l) (hk : Kept l D)
  (ha : l.b.state = .Active) (he : l.log[i]? = some ⟨c, some bytes⟩) (hok : l.OrderlyArrival i c)
  (peer : SocketAddr) (now clock : Instant)

include hk ha he in
/-- An arrival that leaves the assembler alone. -/
theorem kept_of_assembler
    (heq : (l.b.receive cfg Stats.new peer bytes now clock).session.assembler = l.b.assembler)
    {D' : Finset ℕ} (hD : D' = D ∨ D' = insert i D ∧ ¬ c.Fragmented)
    (hin : c.ch = CH_RELIABLE_ORDERED → i ∈ D') :
    Kept (l.receiveB cfg i c bytes peer now clock) D' := by
  have hactive : l.b.isActive = true := isActive_iff.2 ha
  set l' := l.receiveB cfg i c bytes peer now clock with hl'
  have hreceived : l'.received = insert i l.received := if_pos hactive
  have hasm : l'.b.assembler = l.b.assembler := heq
  have hnum : l.Numbered c i := ⟨_, he, rfl⟩
  have hsub : D ⊆ D' := by
    rcases hD with rfl | ⟨rfl, -⟩
    · exact Finset.Subset.refl _
    · exact Finset.subset_insert _ _
  refine ⟨fun j hj c' hc' h2 hf => ?_, fun j hj c' hc' hf => ?_, ?_, fun j hj c' hc' hf => ?_, ?_,
    fun d g hd => ?_⟩
  · rw [hreceived] at hj
    rcases Finset.mem_insert.1 hj with rfl | hj
    · rw [Numbered.unique hc' hnum] at h2
      exact hin h2
    · exact hsub (hk.plain j hj c' hc' h2 hf)
  · rw [hreceived] at hj
    unfold HeldPart
    rw [hasm]
    rcases Finset.mem_insert.1 hj with rfl | hj
    · rw [Numbered.unique hc' hnum] at hf
      exact Or.inl (hin hf.1)
    · exact (hk.part j hj c' hc' hf).imp_left fun h => hsub h
  · rw [hasm]
    exact hk.incomplete
  · rcases hD with rfl | ⟨rfl, hcf⟩
    · exact hk.closed j hj c' hc' hf
    · rcases Finset.mem_insert.1 hj with rfl | hj
      · rw [Numbered.unique hc' hnum] at hf
        exact absurd hf hcf
      · exact (hk.closed j hj c' hc' hf).trans hsub
  · rw [hasm]
    exact hk.short
  · rw [hasm] at hd
    obtain ⟨v, j, hv, hvf, hvg, hvD, hcard⟩ := hk.aged d g hd
    refine ⟨v, j, hv, hvf, hvg, hsub hvD, ?_⟩
    have hsame : l'.startsFrom D' (v.first + 32767) = l.startsFrom D (v.first + 32767) := by
      rcases hD with rfl | ⟨rfl, hcf⟩
      · rfl
      · have hno : ¬ l.StartsGroup i := by
          rintro ⟨e, hei, -, hef⟩
          rw [he] at hei
          cases hei
          exact hcf hef
        unfold startsFrom
        rw [Finset.filter_insert, if_neg fun h => hno h.1]
        rfl
    rw [hsame]
    exact hcard

include hs hg hwh he hok in
/-- Two calls that share a group id near the position are one. -/
theorem call_eq_near (hf : c.Fragmented) (hacc : l.Accepts i c) (hhi : i ≤ l.pos + 32766)
    {c' : Call} {j : ℕ} (hj : j ∈ l.received) (hjD : j ∉ D) (hc' : l.Numbered c' j)
    (hf' : c'.Fragmented) (hgid : c'.groupId = c.groupId) : c' = c := by
  have hw := hs.wired
  have hR := hs.receiving
  have hnum : l.Numbered c i := ⟨_, he, rfl⟩
  obtain ⟨-, h64, hfi, -⟩ := hwh.total_eq hw hnum hf
  obtain ⟨ht', h64', hfj, hjt⟩ := hwh.total_eq hw hc' hf'
  have hlo : l.pos ≤ c.first := not_lt.1 fun hlt => hok.fresh ⟨hacc, hlt⟩
  have hjpos : l.pos ≤ j := by
    by_contra hlt
    exact hjD (mem_of_lt_front (by rw [← hR.front]; omega))
  obtain ⟨e, hje, hec⟩ := hc'
  have hjnear := hR.near j hj e hje (by rw [hec]; exact hf'.1)
  exact call_eq_of_group hw hg ⟨e, hje, hec⟩ hnum hf' hf hgid (by omega) (by omega)

include hs hg hwh hk he hok in
/-- The chunks held before are held with the fragment that arrives. -/
theorem heldPart_stored (hf : c.Fragmented) (hacc : l.Accepts i c) (hhi : i ≤ l.pos + 32766)
    {st : FragState} (ht : st.total.toNat = c.total) (hfs : st.firstSeq = seqNum c.first)
    (hparts : ∀ j, st.part j = l.b.heldWith (c.fragment i) j)
    (hpend : l'.b.assembler.pending = l.b.assembler.pending.insert c.groupId st) {c' : Call} {j : ℕ}
    (hj : j ∈ insert i l.received) (hjD : j ∉ D) (hc' : l.Numbered c' j) (hf' : c'.Fragmented) :
    l'.HeldPart c' j := by
  have hnum : l.Numbered c i := ⟨_, he, rfl⟩
  obtain ⟨htot, h64, hfi, hit⟩ := hwh.total_eq hs.wired hnum hf
  have hno : (c.fragment i).fragNo.toNat = i - c.first := Nat.mod_eq_of_lt (by omega)
  unfold HeldPart
  rw [hpend, Map.getElem?_insert]
  rcases Finset.mem_insert.1 hj with rfl | hj
  · rw [Numbered.unique hc' hnum, if_pos rfl]
    refine ⟨st, rfl, ht, hfs, ?_⟩
    rw [hparts]
    unfold Session.heldWith FragmentAssembler.withChunk
    rw [if_pos hno.symm]
    rfl
  · obtain ⟨st₀, hst₀, ht₀, hfs₀, hpart₀⟩ := (hk.part j hj c' hc' hf').resolve_left hjD
    by_cases hgid : c'.groupId = c.groupId
    · obtain rfl := call_eq_near hs hg hwh he hok hf hacc hhi hj hjD hc' hf' hgid
      rw [if_pos rfl]
      refine ⟨st, rfl, ht, hfs, ?_⟩
      rw [hparts]
      unfold Session.heldWith FragmentAssembler.withChunk
      by_cases hn : j - c'.first = (c'.fragment i).fragNo.toNat
      · rw [if_pos hn]
        rfl
      · rw [if_neg hn]
        unfold FragmentAssembler.collected
        rw [show (c'.fragment i).groupId = c'.groupId from rfl, hst₀]
        dsimp only
        rw [if_pos ⟨BitVec.eq_of_toNat_eq (by rw [ht₀, Call.total_fragment]), hfs₀⟩]
        exact hpart₀
    · rw [if_neg fun h => hgid h.symm]
      exact ⟨st₀, hst₀, ht₀, hfs₀, hpart₀⟩

include hs hg hwh hk ha he hok in
/-- A fragment that is stored. -/
theorem kept_stored (hf : c.Fragmented) (hacc : l.Accepts i c)
    (hnc : ¬ l.b.Completes (c.fragment i)) {st : FragState} (ht : st.total.toNat = c.total)
    (hfs : st.firstSeq = seqNum c.first) (hparts : ∀ j, st.part j = l.b.heldWith (c.fragment i) j)
    (hasm : (l.receiveB cfg i c bytes peer now clock).b.assembler =
      ⟨l.b.assembler.pending.insert c.groupId st, l.b.assembler.completed⟩) :
    Kept (l.receiveB cfg i c bytes peer now clock) D := by
  have hnum : l.Numbered c i := ⟨_, he, rfl⟩
  have hnear := hok.near ha hf.1
  set l' := l.receiveB cfg i c bytes peer now clock with hl'
  have hreceived : l'.received = insert i l.received := if_pos (isActive_iff.2 ha)
  have hpend : l'.b.assembler.pending = l.b.assembler.pending.insert c.groupId st :=
    congrArg FragmentAssembler.pending hasm
  refine ⟨fun j hj c' hc' h2 hf' => ?_, fun j hj c' hc' hf' => ?_, fun g st' hgs => ?_,
    hk.closed, ?_, fun d g hd => ?_⟩
  · rw [hreceived] at hj
    rcases Finset.mem_insert.1 hj with rfl | hj
    · rw [Numbered.unique hc' hnum] at hf'
      exact absurd hf hf'
    · exact hk.plain j hj c' hc' h2 hf'
  · by_cases hjD : j ∈ D
    · exact Or.inl hjD
    · rw [hreceived] at hj
      exact Or.inr
        (heldPart_stored hs hg hwh hk he hok hf hacc hnear.2 ht hfs hparts hpend hj hjD hc' hf')
  · rw [hpend, Map.getElem?_insert] at hgs
    split_ifs at hgs with hgc
    · cases hgs
      have hnc' : ¬ ∀ j < (c.fragment i).total.toNat, (l.b.heldWith (c.fragment i) j).isSome := hnc
      push Not at hnc'
      obtain ⟨j, hj, hnone⟩ := hnc'
      rw [Call.total_fragment] at hj
      refine ⟨j, by rw [ht]; exact hj, ?_⟩
      rw [hparts]
      exact Option.not_isSome_iff_eq_none.1 hnone
    · exact hk.incomplete g st' hgs
  · rw [hasm]
    exact hk.short
  · rw [hasm] at hd
    exact hk.aged d g hd

/-- Every number of a completed group belongs to its call. -/
theorem numbered_group (hnum : l.Numbered c i)
    (hall : ∀ j < c.total, j = i - c.first ∨ l.Got c (c.first + j)) (hfi : c.first ≤ i) :
    ∀ j ∈ groupNums c.first c.total, l.Numbered c j := by
  intro j hj
  rw [mem_groupNums] at hj
  rcases hall (j - c.first) (by omega) with hji | ⟨-, hn⟩
  · rw [show j = i by omega]
    exact hnum
  · rw [show c.first + (j - c.first) = j by omega] at hn
    exact hn

include hs hwh he in
/-- The numbers of a completed group are near the position. -/
theorem near_group (hf : c.Fragmented) (hhi : i ≤ l.pos + 32766)
    (hall : ∀ j < c.total, j = i - c.first ∨ l.Got c (c.first + j)) {k : ℕ}
    (hk : k ∈ groupNums c.first c.total) : k ≤ l.pos + 32766 := by
  have hnum : l.Numbered c i := ⟨_, he, rfl⟩
  obtain ⟨-, -, hfi, -⟩ := hwh.total_eq hs.wired hnum hf
  obtain ⟨e, hke, hce⟩ := numbered_group hnum hall hfi k hk
  rw [mem_groupNums] at hk
  rcases hall (k - c.first) (by omega) with hki | ⟨hr, -⟩
  · omega
  · rw [show c.first + (k - c.first) = k by omega] at hr
    exact hs.receiving.near k hr e hke (by rw [hce]; exact hf.1)

/-- Of a completed group only its first number starts a group. -/
theorem card_startsFrom_group (hgroup : ∀ j ∈ groupNums c.first c.total, l.Numbered c j) (k : ℕ) :
    (l.startsFrom (D ∪ groupNums c.first c.total) k).card ≤ (l.startsFrom D k).card + 1 := by
  have hsub : l.startsFrom (D ∪ groupNums c.first c.total) k ⊆
      insert c.first (l.startsFrom D k) := by
    intro n hn
    obtain ⟨hnD, hns, hnk⟩ := Finset.mem_filter.1 hn
    rcases Finset.mem_union.1 hnD with hnD | hnD
    · exact Finset.mem_insert_of_mem (Finset.mem_filter.2 ⟨hnD, hns, hnk⟩)
    · obtain ⟨e, hne, hfirst, -⟩ := hns
      have hcall : e.call = c := Numbered.unique ⟨e, hne, rfl⟩ (hgroup n hnD)
      rw [hcall] at hfirst
      rw [hfirst]
      exact Finset.mem_insert_self _ _
  calc _ ≤ (insert c.first (l.startsFrom D k)).card := Finset.card_le_card hsub
    _ ≤ (l.startsFrom D k).card + 1 := Finset.card_insert_le _ _

include hs hwh hk he in
/-- The memory of completed groups, with one more. -/
theorem aged_completed (hf : c.Fragmented) (hlo : l.pos ≤ c.first) (hhi : i ≤ l.pos + 32766)
    (hall : ∀ j < c.total, j = i - c.first ∨ l.Got c (c.first + j)) {d : ℕ} {g : U16}
    (hd : ofAge (remember COMPLETED_CAP l.b.assembler.completed c.groupId) d = some g) :
    ∃ v j, l.Numbered v j ∧ v.Fragmented ∧ v.groupId = g ∧ v.first ∈ D ∪ groupNums c.first c.total ∧
      (l.startsFrom (D ∪ groupNums c.first c.total) (v.first + 32767)).card ≤ d := by
  have hnum : l.Numbered c i := ⟨_, he, rfl⟩
  obtain ⟨-, -, hfi, hit⟩ := hwh.total_eq hs.wired hnum hf
  rcases ofAge_remember hd with ⟨rfl, rfl⟩ | ⟨e, rfl, hde⟩
  · -- the group itself: no number that is buffered is so far ahead of its first one
    refine ⟨c, i, hnum, hf, rfl, Finset.mem_union_right _ (mem_groupNums.2 ⟨le_rfl, by omega⟩), ?_⟩
    rw [Nat.le_zero, Finset.card_eq_zero, Finset.eq_empty_iff_forall_notMem]
    intro k hkm
    obtain ⟨hkD, -, hkl⟩ := Finset.mem_filter.1 hkm
    rcases Finset.mem_union.1 hkD with hkD | hkD
    · obtain ⟨hr, e, hke, hch⟩ := hs.receiving.buffered k hkD
      have hle := hs.receiving.near k hr e hke hch
      omega
    · have hle := near_group hs hwh he hf hhi hall hkD
      omega
  · obtain ⟨v, j, hv, hvf, hvg, hvD, hcard⟩ := hk.aged e g hde
    refine ⟨v, j, hv, hvf, hvg, Finset.mem_union_left _ hvD, ?_⟩
    calc (l.startsFrom (D ∪ groupNums c.first c.total) (v.first + 32767)).card
        ≤ (l.startsFrom D (v.first + 32767)).card + 1 :=
          card_startsFrom_group (numbered_group hnum hall hfi) _
      _ ≤ e + 1 := Nat.add_le_add_right hcard 1

include hs hg hwh hk ha he hok in
/-- A fragment that completes its group. -/
theorem kept_completed (hf : c.Fragmented) (hacc : l.Accepts i c)
    (hall : ∀ j < c.total, j = i - c.first ∨ l.Got c (c.first + j))
    (hasm : (l.receiveB cfg i c bytes peer now clock).b.assembler =
      ⟨l.b.assembler.pending.erase c.groupId,
        remember COMPLETED_CAP l.b.assembler.completed c.groupId⟩) :
    Kept (l.receiveB cfg i c bytes peer now clock) (D ∪ groupNums c.first c.total) := by
  have hw := hs.wired
  have hnum : l.Numbered c i := ⟨_, he, rfl⟩
  have hnear := hok.near ha hf.1
  obtain ⟨-, -, hfi, hit⟩ := hwh.total_eq hw hnum hf
  set l' := l.receiveB cfg i c bytes peer now clock with hl'
  have hreceived : l'.received = insert i l.received := if_pos (isActive_iff.2 ha)
  have hpend : l'.b.assembler.pending = l.b.assembler.pending.erase c.groupId :=
    congrArg FragmentAssembler.pending hasm
  refine ⟨fun j hj c' hc' h2 hf' => ?_, fun j hj c' hc' hf' => ?_, fun g st' hgs => ?_,
    fun j hj c' hc' hf' => ?_, ?_, fun d g hd => ?_⟩
  · rw [hreceived] at hj
    rcases Finset.mem_insert.1 hj with rfl | hj
    · rw [Numbered.unique hc' hnum] at hf'
      exact absurd hf hf'
    · exact Finset.mem_union_left _ (hk.plain j hj c' hc' h2 hf')
  · rw [hreceived] at hj
    rcases Finset.mem_insert.1 hj with rfl | hj
    · exact Or.inl (Finset.mem_union_right _ (mem_groupNums.2 ⟨hfi, hit⟩))
    · by_cases hjD : j ∈ D
      · exact Or.inl (Finset.mem_union_left _ hjD)
      obtain ⟨st₀, hst₀, ht₀, hfs₀, hpart₀⟩ := (hk.part j hj c' hc' hf').resolve_left hjD
      by_cases hgid : c'.groupId = c.groupId
      · obtain rfl := call_eq_near hs hg hwh he hok hf hacc hnear.2 hj hjD hc' hf' hgid
        obtain ⟨-, -, hfj, hjt⟩ := hwh.total_eq hw hc' hf'
        exact Or.inl (Finset.mem_union_right _ (mem_groupNums.2 ⟨hfj, hjt⟩))
      · right
        unfold HeldPart
        rw [hpend, Map.getElem?_erase, if_neg fun h => hgid h.symm]
        exact ⟨st₀, hst₀, ht₀, hfs₀, hpart₀⟩
  · rw [hpend, Map.getElem?_erase] at hgs
    split_ifs at hgs
    exact hk.incomplete g st' hgs
  · rcases Finset.mem_union.1 hj with hj | hj
    · exact (hk.closed j hj c' hc' hf').trans Finset.subset_union_left
    · rw [Numbered.unique hc' (numbered_group hnum hall hfi j hj)]
      exact Finset.subset_union_right
  · rw [hasm]
    exact length_remember_le _ _ _
  · rw [hasm] at hd
    have hlo : l.pos ≤ c.first := not_lt.1 fun hlt => hok.fresh ⟨hacc, hlt⟩
    exact aged_completed hs hwh hk he hf hlo hnear.2 hall hd

include hs hg hwh hk ha he hok in
/-- A fragment. -/
theorem kept_fragment (hf : c.Fragmented) :
    Kept (l.receiveB cfg i c bytes peer now clock) (l.grown i c D) := by
  have hactive : l.b.isActive = true := isActive_iff.2 ha
  have hgrown : l.grown i c D =
      if l.Accepts i c ∧ l.b.Completes (c.fragment i) then D ∪ groupNums c.first c.total
          else D := by
    unfold grown
    rw [if_neg (by rw [hactive]; exact fun h => h.elim Bool.noConfusion fun h => h hf.1),
      if_neg (not_not.2 hf)]
  rcases fragment_cases hs.wired hs.assembled ha he hf.1 hf hok.own peer now clock with
    ⟨hacc, hview, -⟩ | ⟨hacc, hnc, st, ht, hfs, hparts, hview, -⟩ |
      ⟨hacc, hcomp, hall, s, hview, -, hses, -⟩
  · -- ignored: it has been buffered before
    rw [hgrown, if_neg fun h => hacc h.1]
    refine kept_of_assembler hk ha he peer now clock (congrArg ReceiverView.assembler hview)
      (Or.inl rfl) fun _ => ?_
    by_contra hi
    exact hacc (accepts_of_new hs hg hwh hk ha ⟨_, he, rfl⟩ hf hi (hok.near ha hf.1))
  · rw [hgrown, if_neg fun h => hnc h.2]
    exact kept_stored hs hg hwh hk ha he hok peer now clock hf hacc hnc ht hfs hparts
      (congrArg ReceiverView.assembler hview)
  · rw [hgrown, if_pos ⟨hacc, hcomp⟩]
    refine kept_completed hs hg hwh hk ha he hok peer now clock hf hacc hall ?_
    show (l.b.receive cfg Stats.new peer bytes now clock).session.assembler = _
    rw [hses, (deliverCh2InOrder_same s []).2]
    exact congrArg ReceiverView.assembler hview

include hs hg hwh hk ha he hok in
/-- **An arrival loses nothing.** -/
theorem kept_arrival : Kept (l.receiveB cfg i c bytes peer now clock) (l.grown i c D) := by
  have hactive : l.b.isActive = true := isActive_iff.2 ha
  by_cases hf : c.Fragmented
  · exact kept_fragment hs hg hwh hk ha he hok peer now clock hf
  have heq := assembler_receive_of_plain ha hs.wired he hf peer now clock
  unfold grown
  by_cases h2 : c.ch = CH_RELIABLE_ORDERED
  · rw [if_neg (by rw [hactive]; exact fun h => h.elim Bool.noConfusion fun h => h h2), if_pos hf]
    exact kept_of_assembler hk ha he peer now clock heq (Or.inr ⟨rfl, hf⟩)
      fun _ => Finset.mem_insert_self _ _
  · rw [if_pos (Or.inr h2)]
    exact kept_of_assembler hk ha he peer now clock heq (Or.inl rfl) fun h => absurd h h2

end Arrival

/-! ## Every run -/

/-- `maintain_reliable` finds no stale group at `b`. -/
def KeepsGroups (l : Link) : Action → Prop
  | .resendB now => (l.b.assembler.cleanup now).pending = l.b.assembler.pending
  | _ => True

instance (l : Link) : (x : Action) → Decidable (l.KeepsGroups x)
  | .resendB now => inferInstanceAs (Decidable ((l.b.assembler.cleanup now).pending = _))
  | .sendA .. | .recvA .. | .resendA _ | .idleA _ | .arrive .. | .ackB .. | .sendB .. | .idleB _ =>
    instDecidableTrue

theorem pending_step {x : Action} (hx : ∀ i peer now clock, x ≠ .arrive i peer now clock)
    (hkeep : l.KeepsGroups x) :
    (l.step hmac4 cfg x).b.assembler.pending = l.b.assembler.pending := by
  cases x with
  | sendA ch msgId payload now => rfl
  | recvA peer header frames now clock => rfl
  | resendA now => rfl
  | idleA now => rfl
  | arrive i peer now clock => exact absurd rfl (hx i peer now clock)
  | ackB peer header now clock =>
    exact congrArg (fun v => v.assembler.pending)
      (receiverView_no_frames l.b _ peer header now clock)
  | sendB ch msgId payload now =>
    exact congrArg (fun v => v.assembler.pending)
      (receiverView_pack hmac4 cfg l.b ch msgId payload now)
  | resendB now => exact hkeep
  | idleB now => exact congrArg (fun v => v.assembler.pending) (receiverView_maintain cfg l.b now)

/-- The invariants of a run in which no call fails and no group is dropped. -/
structure Complete (cfg : SessionTableConfig) (l : Link) (D : Finset ℕ) : Prop where
  sound : Sound cfg l D
  grouped : Grouped l
  whole : Whole l
  kept : Kept l D

theorem complete_start (a b : Opening) : Complete cfg (start a b) ∅ :=
  ⟨sound_start a b, grouped_start a b, whole_start a b, kept_start a b⟩

theorem complete_step (hmac4 : Hmac) (h : Complete cfg l D) {x : Action} (hx : l.Orderly x)
    (hkeep : l.KeepsGroups x) (hfail : (l.step hmac4 cfg x).failed = false) :
    Complete cfg (l.step hmac4 cfg x) (l.bufferedAfter D x) where
  sound := sound_step hmac4 h.sound hx
  grouped := grouped_step h.sound.wired h.grouped x
  whole := whole_step h.sound.wired h.whole hfail
  kept := by
    rcases step_cases hmac4 cfg l D x with
      hq | ⟨heq, hD⟩ | ⟨i, c, bytes, peer, now, clock, rfl, he, heq, hD⟩
    · rw [bufferedAfter_of_quiet hq]
      exact h.kept.quiet h.sound.receiving (quiet_step hmac4 h.sound.wired hq)
        (pending_step hq hkeep)
    · rw [heq, hD]
      exact h.kept
    · rw [heq, hD]
      by_cases ha : l.b.state = .Active
      · exact kept_arrival h.sound h.grouped h.whole h.kept ha he (hx c bytes he) peer now clock
      · have hact : l.b.isActive = false := Bool.eq_false_iff.2 fun h => ha (isActive_iff.1 h)
        have hgrown : l.grown i c D = D := if_pos (Or.inl hact)
        rw [hgrown]
        refine h.kept.quiet h.sound.receiving
          (quiet_receiveB_inactive ha i c bytes peer now clock) ?_
        exact congrArg (fun v => v.assembler.pending)
          (receiverView_receive_inactive cfg Stats.new peer bytes now clock ha).1

/-- When every number of a Ch2 call has been received, the call is buffered. -/
theorem Complete.mem_of_received (h : Complete cfg l D) (hc : l.Numbered c i)
    (h2 : c.ch = CH_RELIABLE_ORDERED)
    (hall : ∀ j < c.count, c.first + j ∈ l.received) : i ∈ D := by
  have hw := h.sound.wired
  have hi : i ∈ l.received := by
    obtain ⟨e, he, rfl⟩ := hc
    obtain ⟨h1, h2, -⟩ := hw.number i e he
    have := hall (i - e.call.first) (by omega)
    rw [Nat.add_sub_cancel' h1] at this
    exact this
  by_cases hf : c.Fragmented
  swap
  · exact h.kept.plain i hi c hc h2 hf
  obtain ⟨htot, -, hfi, hit⟩ := h.whole.total_eq hw hc hf
  -- a chunk that is missing would be that of a received number
  rcases h.kept.part i hi c hc hf with hD | ⟨st, hst, ht, -, -⟩
  · exact hD
  obtain ⟨j, hj, hnone⟩ := h.kept.incomplete _ st hst
  rw [ht] at hj
  obtain ⟨e, he, rfl⟩ := hc
  have hnumj := h.whole.numbers i e he j (by omega)
  rcases h.kept.part _ (hall j (by omega)) _ hnumj hf with hD | ⟨st', hst', -, -, hsome⟩
  · exact h.kept.closed _ hD _ hnumj hf (mem_groupNums.2 ⟨hfi, hit⟩)
  · rw [hst] at hst'
    cases hst'
    rw [Nat.add_sub_cancel_left, hnone] at hsome
    cases hsome

end Link

end SoupEngine
