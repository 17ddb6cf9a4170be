import SoupEngine.Link.Quiet

/-!
# What the assembler of the receiver holds

`Assembled`: whatever is pending at `b` belongs to one call, whose first number `owner` knows, and
every chunk of it is that of a received fragment of this call. It is kept by every action but a
fragment that is put together with those of another message (`Mixes`). `fragment_cases` then says
what a fragment does to `b`.
-/

namespace SoupEngine

open BoundedMemory Release

attribute [local irreducible] remember

namespace Link

/-- Number `i` was given out for the call. -/
def Numbered (l : Link) (c : Call) (i : ℕ) : Prop := ∃ e : Sent, l.log[i]? = some e ∧ e.call = c

/-- `b` has received number `i` of the call. -/
def Got (l : Link) (c : Call) (i : ℕ) : Prop := i ∈ l.received ∧ l.Numbered c i

/-- What is pending under a group id belongs to a call. -/
structure Holds (l : Link) (g : U16) (st : FragState) (c : Call) : Prop where
  numbered : l.Numbered c c.first
  ordered : c.ch = CH_RELIABLE_ORDERED
  owner : l.owner g = c.first
  group : c.groupId = g
  fragmented : c.Fragmented
  total : st.total.toNat = c.total
  total_le : c.total ≤ 64
  firstSeq : st.firstSeq = seqNum c.first
  part : ∀ j x, st.part j = some x →
    x = chunk FRAGMENT_THRESHOLD c.payload j ∧ l.Got c (c.first + j)

def Assembled (l : Link) : Prop :=
  ∀ (g : U16) (st : FragState), l.b.assembler.pending[g]? = some st → ∃ c, l.Holds g st c

variable {cfg : SessionTableConfig} {l l' : Link} {c : Call} {i : ℕ} {bytes : Bytes}
  {peer : SocketAddr} {now clock : Instant}

theorem Numbered.mono (hlog : ∀ (i : ℕ) (e : Sent), l.log[i]? = some e → l'.log[i]? = some e)
    (h : l.Numbered c i) : l'.Numbered c i := by
  obtain ⟨e, he, hc⟩ := h
  exact ⟨e, hlog i e he, hc⟩

theorem Got.mono (hlog : ∀ (i : ℕ) (e : Sent), l.log[i]? = some e → l'.log[i]? = some e)
    (hr : l.received ⊆ l'.received) (h : l.Got c i) : l'.Got c i :=
  ⟨hr h.1, h.2.mono hlog⟩

theorem Holds.mono {g : U16} {st : FragState}
    (hlog : ∀ (i : ℕ) (e : Sent), l.log[i]? = some e → l'.log[i]? = some e)
    (hr : l.received ⊆ l'.received) (ho : l'.owner g = l.owner g) (h : l.Holds g st c) :
    l'.Holds g st c where
  numbered := h.numbered.mono hlog
  ordered := h.ordered
  owner := ho.trans h.owner
  group := h.group
  fragmented := h.fragmented
  total := h.total
  total_le := h.total_le
  firstSeq := h.firstSeq
  part := by
    intro j x hx
    exact ⟨(h.part j x hx).1, (h.part j x hx).2.mono hlog hr⟩

theorem Assembled.quiet (h : l.Assembled) (hq : Quiet l l') : l'.Assembled := by
  intro g st hg
  obtain ⟨c, hc⟩ := h g st (hq.pending g st hg)
  exact ⟨c, hc.mono hq.log hq.received.ge (congrFun hq.owner g)⟩

theorem assembled_start (a b : Opening) : (start a b).Assembled := by
  intro g st hg
  rw [show (start a b).b.assembler.pending = ∅ from rfl, Std.ExtTreeMap.getElem?_empty] at hg
  cases hg

/-- The first number of a call that has a number. -/
theorem Wired.numbered_first (h : Wired cfg l) (hc : l.Numbered c i) : l.Numbered c c.first := by
  obtain ⟨e, he, rfl⟩ := hc
  exact h.block i e he _ le_rfl (h.number i e he).1

theorem Wired.eq_of_numbered (h : Wired cfg l) {c' : Call} {j : ℕ} (hc : l.Numbered c i)
    (hc' : l.Numbered c' j) (hf : c.first = c'.first) : c = c' := by
  obtain ⟨e, he, rfl⟩ := hc
  obtain ⟨e', he', rfl⟩ := hc'
  exact h.call_eq he he' hf

/-! ## The chunks held towards a fragment -/

section Held

variable (hw : Wired cfg l) (hA : l.Assembled) (hc : l.Numbered c i) (hok : ¬ l.Mixes i c)
  (hacc : l.Accepts i c)

include hw hA hc hok hacc in
/-- What the arriving fragment joins is its own group. -/
theorem holds_of_joins {st : FragState} (hst : l.b.assembler.pending[c.groupId]? = some st)
    (ht : st.total = (c.fragment i).total) (hf : st.firstSeq = (c.fragment i).firstSeq) :
    l.Holds c.groupId st c := by
  obtain ⟨c', hc'⟩ := hA _ st hst
  have howner : l.owner c.groupId = c.first := by
    by_contra hne
    exact hok ⟨hacc, ⟨st, hst, ht, hf⟩, hne⟩
  have heq : c' = c := hw.eq_of_numbered hc'.numbered hc (hc'.owner.symm.trans howner)
  rw [← heq]
  rw [← heq] at hc'
  exact hc'

include hw hA hc hok hacc in
theorem collected_sound {j : ℕ} {x : Bytes}
    (hx : l.b.assembler.collected c.groupId (c.fragment i).firstSeq (c.fragment i).total j =
      some x) :
    x = chunk FRAGMENT_THRESHOLD c.payload j ∧ l.Got c (c.first + j) := by
  unfold FragmentAssembler.collected at hx
  cases hst : l.b.assembler.pending[c.groupId]? with
  | none => rw [hst] at hx; cases hx
  | some st =>
    rw [hst] at hx
    dsimp only at hx
    split_ifs at hx with hm
    exact (holds_of_joins hw hA hc hok hacc hst hm.1 hm.2).part j x hx

include hw hA hc hok hacc in
theorem heldWith_sound (hi : i < c.first + 256) {j : ℕ} {x : Bytes}
    (hx : l.b.heldWith (c.fragment i) j = some x) :
    x = chunk FRAGMENT_THRESHOLD c.payload j ∧ (j = i - c.first ∨ l.Got c (c.first + j)) := by
  have hno : (c.fragment i).fragNo.toNat = i - c.first := Nat.mod_eq_of_lt (by omega)
  have hgo : (c.fragment i).groupId = c.groupId := rfl
  unfold Session.heldWith FragmentAssembler.withChunk at hx
  rw [hno, hgo] at hx
  split_ifs at hx with hj
  · refine ⟨?_, Or.inl hj⟩
    cases hcol :
      l.b.assembler.collected c.groupId (c.fragment i).firstSeq (c.fragment i).total j with
    | none =>
      rw [hcol] at hx
      cases hx
      rw [hj]
      rfl
    | some y =>
      rw [hcol] at hx
      cases hx
      exact (collected_sound hw hA hc hok hacc hcol).1
  · obtain ⟨h1, h2⟩ := collected_sound hw hA hc hok hacc hx
    exact ⟨h1, Or.inr h2⟩

end Held

/-! ## A fragment -/

/-- What a fragment that completes its group leaves for delivery. -/
def Session.withGroup (s : Session) (c : Call) (total : U8) : ReceiverView :=
  { s.receiverView with
    assembler := ⟨s.assembler.pending.erase c.groupId,
      remember COMPLETED_CAP s.assembler.completed c.groupId⟩
    ch2 := { s.ch2View with
      reorder := insertGroup s.reorder (seqNum c.first) total (c.msgId, c.reassembled) } }

/-- **A fragment of a call.** It is ignored, kept with the others of its call, or completes them. -/
theorem fragment_cases (hw : Wired cfg l) (hA : l.Assembled) (ha : l.b.state = .Active)
    (he : l.log[i]? = some ⟨c, some bytes⟩) (h2 : c.ch = CH_RELIABLE_ORDERED) (hf : c.Fragmented)
    (hok : ¬ l.Mixes i c) (peer : SocketAddr) (now clock : Instant) :
    let rx := l.b.receive cfg Stats.new peer bytes now clock
    (¬ l.Accepts i c ∧ rx.session.receiverView = l.b.receiverView ∧ rx.events = []) ∨
    (l.Accepts i c ∧ ¬ l.b.Completes (c.fragment i) ∧
      ∃ st : FragState, st.total.toNat = c.total ∧ st.firstSeq = seqNum c.first ∧
        (∀ j, st.part j = l.b.heldWith (c.fragment i) j) ∧
        rx.session.receiverView = { l.b.receiverView with
          assembler := ⟨l.b.assembler.pending.insert c.groupId st, l.b.assembler.completed⟩ } ∧
        rx.events = []) ∨
    (l.Accepts i c ∧ l.b.Completes (c.fragment i) ∧
      (∀ j < c.total, j = i - c.first ∨ l.Got c (c.first + j)) ∧
      ∃ s : Session, s.receiverView = Session.withGroup l.b c (c.fragment i).total ∧
        s.sessId = l.b.sessId ∧ rx.session = (deliverCh2InOrder s []).1 ∧
        rx.events = (deliverCh2InOrder s []).2) := by
  obtain ⟨header, hcar⟩ := hw.carried i _ bytes he rfl
  obtain ⟨hfirst, hcount, h64⟩ := hw.number i _ he
  have hfirst' : c.first ≤ i := hfirst
  have h64' : i ≤ c.first + 64 := h64
  have hflag := hcar.flag.2 hf
  obtain ⟨hs, hev⟩ := receive_ch2 Stats.new peer now clock ha hcar h2
  dsimp only
  rw [hs, hev]
  set p := l.b.prepared peer header now with hp
  have hactive : l.b.isActive = true := isActive_iff.2 ha
  have hnum : l.Numbered c i := ⟨_, he, rfl⟩
  rcases Call.decodeFragment_frame hf h64' with ⟨hdec, hfr⟩ | ⟨hdec, e, hfr⟩
  · rcases handleCh2_fragment (s := p) now [] hflag hfr with
      ⟨hrem, heq⟩ | ⟨hrem, hnc, st, ht, hfs, hparts, heq⟩ | ⟨hrem, hall, heq⟩
    · rw [hcar.seq] at hrem
      rw [heq]
      exact Or.inl ⟨fun hacc => hacc.2.2 hrem, rfl, rfl⟩
    · rw [hcar.seq] at hrem
      rw [heq]
      refine Or.inr (Or.inl ⟨⟨hactive, hdec, hrem⟩, hnc, st, ?_, hfs, hparts, rfl, rfl⟩)
      rw [ht, Call.total_fragment]
    · rw [hcar.seq] at hrem
      have hacc : l.Accepts i c := ⟨hactive, hdec, hrem⟩
      have hsound : ∀ j < c.total, l.b.heldWith (c.fragment i) j =
          some (chunk FRAGMENT_THRESHOLD c.payload j) ∧
            (j = i - c.first ∨ l.Got c (c.first + j)) := by
        intro j hj
        rw [← Call.total_fragment c i] at hj
        obtain ⟨x, hx⟩ := Option.isSome_iff_exists.1 (hall j hj)
        have hx' : l.b.heldWith (c.fragment i) j = some x := hx
        obtain ⟨h1, h2⟩ := heldWith_sound hw hA hnum hok hacc (by omega) hx'
        exact ⟨h1 ▸ hx', h2⟩
      have hfull : ((List.range (c.fragment i).total.toNat).flatMap fun j =>
          (p.heldWith (c.fragment i) j).getD []) = c.reassembled := by
        unfold Call.reassembled
        rw [if_pos hf, ← flatMap_chunk_take, Call.total_fragment]
        refine List.flatMap_congr fun j hj => ?_
        show (l.b.heldWith (c.fragment i) j).getD [] = _
        rw [(hsound j (List.mem_range.1 hj)).1]
        rfl
      rw [heq, hfull]
      refine Or.inr (Or.inr ⟨hacc, hall, fun j hj => (hsound j hj).2, _, ?_, ?_, rfl, rfl⟩)
      · rfl
      · rfl
  · rw [handleCh2_malformed now [] hflag hfr]
    exact Or.inl ⟨fun hacc => hdec hacc.2.1, rfl, rfl⟩

/-! ## Every arrival -/

/-- A number of another channel or a plain Ch2 number does not touch the assembler. -/
theorem assembler_receive_of_plain (ha : l.b.state = .Active) (hw : Wired cfg l)
    (he : l.log[i]? = some ⟨c, some bytes⟩) (hf : ¬ c.Fragmented) (peer : SocketAddr)
    (now clock : Instant) :
    (l.b.receive cfg Stats.new peer bytes now clock).session.assembler = l.b.assembler := by
  obtain ⟨header, hcar⟩ := hw.carried i _ bytes he rfl
  by_cases h2 : c.ch = CH_RELIABLE_ORDERED
  · have hflag : header.flags &&& FLAG_FRAGMENT = 0 := not_not.1 fun h => hf (hcar.flag.1 h)
    obtain ⟨hs, -⟩ := receive_ch2 Stats.new peer now clock ha hcar h2
    rw [hs]
    unfold handleCh2
    split_ifs with h1 h2
    · rfl
    · rfl
    · exact absurd hflag (by assumption)
    · exact (deliverCh2InOrder_same _ _).2
  · by_cases h3 : c.ch = CH_RELIABLE_UNORDERED
    · exact congrArg ReceiverView.assembler (receive_ch3 Stats.new peer now clock ha hcar h3).1
    · exact congrArg ReceiverView.assembler
        (receive_unreliable Stats.new peer now clock ha hcar h2 h3).1

theorem received_subset (l : Link) (i : ℕ) (c : Call) (bytes : Bytes) (peer : SocketAddr)
    (now clock : Instant) : l.received ⊆ (l.receiveB cfg i c bytes peer now clock).received := by
  show l.received ⊆ if l.b.isActive then insert i l.received else l.received
  split_ifs
  · exact Finset.subset_insert _ _
  · exact subset_rfl

/-- **The assembler.** An arrival that mixes nothing keeps it. -/
theorem assembled_receiveB (hw : Wired cfg l) (hA : l.Assembled)
    (he : l.log[i]? = some ⟨c, some bytes⟩) (hok : ¬ l.Mixes i c) (peer : SocketAddr)
    (now clock : Instant) : (l.receiveB cfg i c bytes peer now clock).Assembled := by
  by_cases ha : l.b.state = .Active
  swap
  · exact hA.quiet (quiet_receiveB_inactive ha i c bytes peer now clock)
  have hactive : l.b.isActive = true := isActive_iff.2 ha
  have hnum : l.Numbered c i := ⟨_, he, rfl⟩
  set l' := l.receiveB cfg i c bytes peer now clock with hl'
  have hsub : l.received ⊆ l'.received := received_subset l i c bytes peer now clock
  have hlog : ∀ (i : ℕ) (e : Sent), l.log[i]? = some e → l'.log[i]? = some e := fun _ _ h => h
  have hown : l'.owner = if l.Accepts i c ∧ ¬ l.Joins i c then
      Function.update l.owner c.groupId c.first else l.owner := rfl
  have hasm : l'.b.assembler =
    (l.b.receive cfg Stats.new peer bytes now clock).session.assembler := rfl
  -- groups under other ids are not touched
  have hother : ∀ (g : U16) (st : FragState), g ≠ c.groupId →
      l.b.assembler.pending[g]? = some st → ∃ c', l'.Holds g st c' := by
    intro g st hg hst
    obtain ⟨c', hc'⟩ := hA g st hst
    refine ⟨c', hc'.mono hlog hsub ?_⟩
    rw [hown]
    split_ifs
    · exact Function.update_of_ne hg _ _
    · rfl
  -- without a fragment being accepted nothing changes
  have hkeep : l'.b.assembler = l.b.assembler → ¬ l.Accepts i c → l'.Assembled := by
    intro heq hacc g st hg
    rw [heq] at hg
    obtain ⟨c', hc'⟩ := hA g st hg
    refine ⟨c', hc'.mono hlog hsub ?_⟩
    rw [hown, if_neg fun h => hacc h.1]
  by_cases hf : c.Fragmented
  swap
  · exact hkeep (hasm.trans (assembler_receive_of_plain ha hw he hf peer now clock))
      fun hacc => hf hacc.2.1.1
  have h2 : c.ch = CH_RELIABLE_ORDERED := hf.1
  rcases fragment_cases hw hA ha he h2 hf hok peer now clock with
    ⟨hacc, hview, -⟩ | ⟨hacc, -, st, ht, hfs, hparts, hview, -⟩ | ⟨hacc, -, -, s, hview, -, hs, -⟩
  · exact hkeep (hasm.trans (congrArg ReceiverView.assembler hview)) hacc
  · have heq : l'.b.assembler =
        ⟨l.b.assembler.pending.insert c.groupId st, l.b.assembler.completed⟩ :=
      hasm.trans (congrArg ReceiverView.assembler hview)
    intro g st' hg
    rw [heq] at hg
    change (l.b.assembler.pending.insert c.groupId st)[g]? = some st' at hg
    rw [Std.ExtTreeMap.getElem?_insert] at hg
    split_ifs at hg with hgc
    · have hge : c.groupId = g := Std.LawfulEqOrd.eq_of_compare hgc
      cases hg
      subst hge
      have h64 : i ≤ c.first + 64 := (hw.number i _ he).2.2
      have hfi : c.first ≤ i := (hw.number i _ he).1
      refine ⟨c, ⟨(hw.numbered_first hnum).mono hlog, h2, ?_, rfl, hf, ht, hacc.2.1.2.1, hfs, ?_⟩⟩
      · rw [hown]
        by_cases hj : l.Joins i c
        · rw [if_neg fun h => h.2 hj]
          by_contra hne
          exact hok ⟨hacc, hj, hne⟩
        · rw [if_pos ⟨hacc, hj⟩, Function.update_self]
      · intro j x hx
        rw [hparts] at hx
        obtain ⟨h1, hj | hg⟩ := heldWith_sound hw hA hnum hok hacc (by omega) hx
        · refine ⟨h1, ?_, ?_⟩
          · show _ ∈ if l.b.isActive then insert i l.received else l.received
            rw [if_pos hactive, show c.first + j = i by omega]
            exact Finset.mem_insert_self _ _
          · rw [show c.first + j = i by omega]
            exact hnum
        · exact ⟨h1, hg.mono hlog hsub⟩
    · have hne : g ≠ c.groupId := fun h => hgc (by rw [h]; exact Std.ReflCmp.compare_self)
      exact hother g st' hne hg
  · have heq : l'.b.assembler = ⟨l.b.assembler.pending.erase c.groupId,
        remember COMPLETED_CAP l.b.assembler.completed c.groupId⟩ := by
      rw [hasm, hs, (deliverCh2InOrder_same s []).2]
      exact congrArg ReceiverView.assembler hview
    intro g st' hg
    rw [heq] at hg
    change (l.b.assembler.pending.erase c.groupId)[g]? = some st' at hg
    rw [Std.ExtTreeMap.getElem?_erase] at hg
    split_ifs at hg with hgc
    have hne : g ≠ c.groupId := fun h => hgc (by rw [h]; exact Std.ReflCmp.compare_self)
    exact hother g st' hne hg

end Link

end SoupEngine
