import SoupEngine.Lib.Release
import SoupEngine.Session.Ch2

/-!
# The delivery window of Ch2

Items `0, 1, 2, …` are buffered for Ch2 under the numbers `seqNum i`. `Window slot D p` says that
the items of `D` have been buffered so far, item `i` with the entry `slot i`, and that those below
`p` have been delivered. Delivery moves `p` to the front of `D` (`deliverLoop_window`), buffering
adds to `D`; together they make the reorder buffer an in-order release of `D`.
-/

namespace SoupEngine

open BoundedMemory Release

attribute [local irreducible] remember

/-- The fields of a session that in-order delivery works on. -/
structure Ch2View where
  next : Option U16
  max : U16
  seqs : List U16
  reorder : Map U16 (U16 × Bytes)

def Session.ch2View (s : Session) : Ch2View :=
  ⟨s.ch2Next, s.deliveredMax, s.deliveredSeqs, s.reorder⟩

/-- The events of the items `p, …, q - 1`. -/
def release (sessId : U64) (slot : ℕ → U16 × Bytes) (p q : ℕ) : List SessionEvent :=
  (List.range' p (q - p)).flatMap fun i => deliveryEvents sessId (slot i)

structure Window (slot : ℕ → U16 × Bytes) (D : Finset ℕ) (p : ℕ) (v : Ch2View) : Prop where
  next : v.next = some (seqNum p)
  max : v.max = seqNum (p - 1)
  seqs : v.seqs = ((List.range p).map seqNum).rtake DELIVERED_CAP
  le : p ≤ front D
  lt : ∀ i ∈ D, i < p + 65536
  /-- Within one turn of the number space the buffer holds the entries of `D`. -/
  reorder : ∀ i, p ≤ i → i < p + 65536 →
    v.reorder[seqNum i]? = if i ∈ D then some (slot i) else none

/-- A new session has buffered nothing. -/
theorem window_create (slot : ℕ → U16 × Bytes) (connId : U32) (sessId : U64) (peer : SocketAddr)
    (secret : U64) (token : Bytes) (now : Instant) :
    Window slot ∅ 0 (Session.create connId sessId peer secret token now).ch2View where
  next := rfl
  max := rfl
  seqs := rfl
  le := Nat.zero_le _
  lt i hi := absurd hi (Finset.notMem_empty i)
  reorder i _ _ := by
    rw [if_neg (Finset.notMem_empty i)]
    exact Std.ExtTreeMap.getElem?_empty

section Release

variable {sessId : U64} {slot : ℕ → U16 × Bytes}

theorem release_self (p : ℕ) : release sessId slot p p = [] := by
  unfold release; rw [Nat.sub_self]; rfl

theorem release_append {p q r : ℕ} (hpq : p ≤ q) (hqr : q ≤ r) :
    release sessId slot p q ++ release sessId slot q r = release sessId slot p r := by
  unfold release
  rw [← List.flatMap_append]
  congr 1
  obtain ⟨m, rfl⟩ := Nat.exists_eq_add_of_le hpq
  obtain ⟨n, rfl⟩ := Nat.exists_eq_add_of_le hqr
  rw [show p + m - p = m by omega, show p + m + n - (p + m) = n by omega,
    show p + m + n - p = m + n by omega, ← List.range'_append, Nat.one_mul]

theorem release_succ (slot : ℕ → U16 × Bytes) (p : ℕ) :
    release sessId slot p (p + 1) = deliveryEvents sessId (slot p) := by
  unfold release
  rw [show p + 1 - p = 1 by omega]
  simp [List.range'_one]

end Release

namespace Window

variable {slot : ℕ → U16 × Bytes} {D : Finset ℕ} {p : ℕ} {v : Ch2View}

/-- The numbers remembered as delivered are the last 512 before the position. -/
theorem mem_seqs (h : Window slot D p v) {i : ℕ} (hlo : p ≤ i + 65024) (hhi : i < p + 65024) :
    seqNum i ∈ v.seqs ↔ i < p ∧ p ≤ i + 512 := by
  rw [h.seqs, mem_rtake_map_range]
  have hcap : DELIVERED_CAP = 512 := rfl
  constructor
  · rintro ⟨j, hj, hcj, he⟩
    have : j = i := (seqNum_inj (by omega) (by omega)).1 he
    subst this
    omega
  · rintro ⟨hi, hc⟩
    exact ⟨i, hi, by omega, rfl⟩

theorem contains (h : Window slot D p v) {i : ℕ} (hlo : p ≤ i) (hhi : i < p + 65536) :
    v.reorder.contains (seqNum i) = decide (i ∈ D) := by
  rw [Std.ExtTreeMap.contains_eq_isSome_getElem?, h.reorder i hlo hhi]
  by_cases hi : i ∈ D
  · simp [hi]
  · simp [hi]

/-- A delivered number is found in the buffer only as the number of an item one turn later. -/
theorem contains_old (h : Window slot D p v) {i : ℕ} (hi : i < p) (hlo : p ≤ i + 65536) :
    v.reorder.contains (seqNum i) = decide (i + 65536 ∈ D) := by
  rw [← seqNum_wrap i]
  exact h.contains hlo (by omega)

/-! ## Buffering -/

/-- Buffering item `i`. -/
theorem insert (h : Window slot D p v) {i : ℕ} (hlo : p ≤ i) (hhi : i < p + 65536) :
    Window slot (Insert.insert i D) p
      { v with reorder := v.reorder.insert (seqNum i) (slot i) } where
  next := h.next
  max := h.max
  seqs := h.seqs
  le := h.le.trans (front_mono (Finset.subset_insert i D))
  lt j hj := by
    rcases Finset.mem_insert.1 hj with rfl | hj
    · exact hhi
    · exact h.lt j hj
  reorder j hj hj' := by
    rw [Map.getElem?_insert]
    by_cases hij : i = j
    · subst hij
      rw [if_pos rfl, if_pos (Finset.mem_insert_self i D)]
    · have hne : seqNum i ≠ seqNum j := fun he =>
        hij ((seqNum_inj (by omega) (by omega)).1 he)
      rw [if_neg hne, h.reorder j hj hj']
      simp only [Finset.mem_insert, Ne.symm hij, false_or]

/-- Items buffered with the same entry. -/
theorem congr_slot (h : Window slot D p v) {slot' : ℕ → U16 × Bytes}
    (hs : ∀ i ∈ D, slot' i = slot i) : Window slot' D p v where
  next := h.next
  max := h.max
  seqs := h.seqs
  le := h.le
  lt := h.lt
  reorder i hlo hhi := by
    rw [h.reorder i hlo hhi]
    by_cases hi : i ∈ D
    · rw [if_pos hi, if_pos hi, hs i hi]
    · rw [if_neg hi, if_neg hi]

end Window

/-! ## Fragment groups -/

section Group

variable {m : Map U16 (U16 × Bytes)} {g : ℕ}

/-- The placeholders of the first `n` numbers of a group. -/
theorem getElem?_placeholders {n : ℕ} (hn : n ≤ 65536) {j : ℕ} (hgj : g ≤ j) (hjg : j < g + 65536) :
    ((List.range n).foldl (fun m i => if seqNum g + BitVec.ofNat 16 i ≠ seqNum g then
      m.insert (seqNum g + BitVec.ofNat 16 i) placeholder else m) m)[seqNum j]? =
      if g < j ∧ j < g + n then some placeholder else m[seqNum j]? := by
  induction n with
  | zero => rw [if_neg (by omega)]; rfl
  | succ n ih =>
    have hadd : seqNum g + BitVec.ofNat 16 n = seqNum (g + n) := seqNum_add g n
    rw [List.range_succ, List.foldl_append, List.foldl_cons, List.foldl_nil, hadd]
    by_cases h0 : n = 0
    · subst h0
      rw [if_neg (by simp), ih (by omega)]
      congr 1
      apply propext; omega
    · have hne : seqNum (g + n) ≠ seqNum g := fun he => by
        have := (seqNum_inj (by omega) (by omega)).1 he
        omega
      rw [if_pos hne, Map.getElem?_insert]
      by_cases hj : g + n = j
      · subst hj
        rw [if_pos rfl, if_pos (by omega)]
      · have hne' : seqNum (g + n) ≠ seqNum j := fun he =>
          hj ((seqNum_inj (by omega) (by omega)).1 he)
        rw [if_neg hne', ih (by omega)]
        congr 1
        apply propext; omega

/-- The entries of a group: its message at the first number, placeholders at the others. -/
theorem getElem?_insertGroup {total : U8} {e : U16 × Bytes} {j : ℕ} (hgj : g ≤ j)
    (hjg : j < g + 65536) :
    (insertGroup m (seqNum g) total e)[seqNum j]? =
      if j = g then some e else if j < g + total.toNat then some placeholder else m[seqNum j]? := by
  have ht := total.isLt
  unfold insertGroup
  rw [Map.getElem?_insert]
  by_cases hj : j = g
  · subst hj
    rw [if_pos rfl, if_pos rfl]
  · have hne : seqNum g ≠ seqNum j := fun he =>
      hj ((seqNum_inj (by omega) (by omega)).1 he).symm
    rw [if_neg hne, if_neg hj, getElem?_placeholders (by omega) hgj hjg]
    congr 1
    apply propext; omega

end Group

/-- The numbers of a group. -/
def groupNums (first total : ℕ) : Finset ℕ := Finset.Ico first (first + total)

@[simp] theorem mem_groupNums {first total i : ℕ} :
    i ∈ groupNums first total ↔ first ≤ i ∧ i < first + total := Finset.mem_Ico

/-- Buffering the message of a group. -/
theorem Window.insertGroup {slot : ℕ → U16 × Bytes} {D : Finset ℕ} {p : ℕ} {v : Ch2View}
    (h : Window slot D p v) {g : ℕ} (total : U8) {e : U16 × Bytes} (hlo : p ≤ g)
    (hhi : g + total.toNat ≤ p + 65536) (ht : 0 < total.toNat) (hg : slot g = e)
    (hs : ∀ i, g < i → i < g + total.toNat → slot i = placeholder) :
    Window slot (D ∪ groupNums g total.toNat) p
      { v with reorder := SoupEngine.insertGroup v.reorder (seqNum g) total e } where
  next := h.next
  max := h.max
  seqs := h.seqs
  le := h.le.trans (front_mono Finset.subset_union_left)
  lt i hi := by
    rcases Finset.mem_union.1 hi with hi | hi
    · exact h.lt i hi
    · rw [mem_groupNums] at hi; omega
  reorder i hi hi' := by
    have ht' := total.isLt
    by_cases hgi : g ≤ i
    · rw [getElem?_insertGroup hgi (by omega), h.reorder i hi hi']
      simp only [Finset.mem_union, mem_groupNums, hgi, true_and]
      by_cases hig : i = g
      · subst hig
        rw [if_pos rfl, if_pos (Or.inr (by omega)), hg]
      · rw [if_neg hig]
        by_cases hit : i < g + total.toNat
        · rw [if_pos hit, if_pos (Or.inr hit), hs i (by omega) hit]
        · rw [if_neg hit]
          simp only [hit, or_false]
    · -- below the group: one turn later the number is past it
      have hwrap : seqNum i = seqNum (i + 65536) := (seqNum_wrap i).symm
      rw [hwrap, getElem?_insertGroup (by omega) (by omega), if_neg (by omega), if_neg (by omega),
        ← hwrap, h.reorder i hi hi']
      simp only [Finset.mem_union, mem_groupNums, hgi, false_and, or_false]

/-! ## Delivery -/

section Deliver

variable {slot : ℕ → U16 × Bytes} {D : Finset ℕ} {p : ℕ}

/-- Consuming the entry at the position moves the position on. -/
theorem Window.consume {s : Session} (h : Window slot D p s.ch2View) (hp : p ∈ D) :
    Window slot D (p + 1) (s.consume (seqNum p)).ch2View where
  next := by
    show some (seqNum p + 1) = _
    rw [seqNum_succ]
  max := by rw [Nat.add_sub_cancel]; rfl
  seqs := by
    show remember DELIVERED_CAP s.ch2View.seqs (seqNum p) = _
    rw [h.seqs, remember_rtake_range]
  le := by
    have hne : p ≠ front D := fun he => front_not_mem D (he ▸ hp)
    have := h.le
    omega
  lt i hi := by have := h.lt i hi; omega
  reorder i hi hi' := by
    show (s.reorder.erase (seqNum p))[seqNum i]? = _
    rw [Map.getElem?_erase]
    by_cases hwrap : i = p + 65536
    · have hnot : i ∉ D := fun hmem => by have := h.lt i hmem; omega
      rw [hwrap, seqNum_wrap, if_pos rfl, if_neg (hwrap ▸ hnot)]
    · have hne : seqNum p ≠ seqNum i := fun he => by
        have := (seqNum_inj (by omega) (by omega)).1 he
        omega
      rw [if_neg hne]
      exact h.reorder i (by omega) (by omega)

/-- **Delivery.** With enough rounds the loop delivers up to the first missing item. -/
theorem deliverLoop_window {rounds : ℕ} {s : Session} (events : List SessionEvent)
    (h : Window slot D p s.ch2View) (hr : s.reorder.size ≤ rounds) :
    Window slot D (front D) (deliverLoop rounds (seqNum p) s events).1.ch2View ∧
      (deliverLoop rounds (seqNum p) s events).2 =
        events ++ release s.sessId slot p (front D) := by
  have hget : s.reorder[seqNum p]? = if p ∈ D then some (slot p) else none :=
    h.reorder p le_rfl (by omega)
  -- a missing item ends the loop, with or without rounds left
  have hstop : p ∉ D → Window slot D (front D) s.ch2View ∧
      events = events ++ release s.sessId slot p (front D) := by
    intro hp
    have hfront : front D = p := le_antisymm (front_le hp) h.le
    rw [hfront, release_self, List.append_nil]
    exact ⟨h, rfl⟩
  induction rounds generalizing p s events with
  | zero =>
    have hempty : s.reorder = ∅ :=
      Std.ExtTreeMap.eq_empty_iff_size_eq_zero.2 (Nat.le_zero.1 hr)
    refine hstop fun hp => ?_
    rw [if_pos hp, hempty, Std.ExtTreeMap.getElem?_empty] at hget
    cases hget
  | succ rounds ih =>
    unfold deliverLoop
    rw [hget]
    by_cases hp : p ∈ D
    · rw [if_pos hp]
      have hmem : seqNum p ∈ s.reorder := by
        rw [Std.ExtTreeMap.mem_iff_isSome_getElem?, hget, if_pos hp]; rfl
      have hsize : (s.consume (seqNum p)).reorder.size ≤ rounds := by
        show (s.reorder.erase (seqNum p)).size ≤ rounds
        rw [Std.ExtTreeMap.size_erase, if_pos (Std.ExtTreeMap.contains_iff_mem.2 hmem)]
        omega
      have h' := h.consume hp
      have hnext : seqNum p + 1 = seqNum (p + 1) := seqNum_succ p
      dsimp only
      rw [hnext]
      have := ih (events ++ deliveryEvents s.sessId (slot p)) h' hsize
        (h'.reorder (p + 1) le_rfl (by omega)) fun hp' => by
          have hfront : front D = p + 1 := le_antisymm (front_le hp') h'.le
          rw [hfront, release_self, List.append_nil]
          exact ⟨h', rfl⟩
      refine ⟨this.1, this.2.trans ?_⟩
      show events ++ deliveryEvents s.sessId (slot p) ++ release s.sessId slot (p + 1) (front D) = _
      rw [List.append_assoc, ← release_succ slot p, release_append (by omega) h'.le]
    · rw [if_neg hp]
      exact hstop hp

theorem deliverCh2InOrder_window {s : Session} (events : List SessionEvent)
    (h : Window slot D p s.ch2View) :
    Window slot D (front D) (deliverCh2InOrder s events).1.ch2View ∧
      (deliverCh2InOrder s events).2 = events ++ release s.sessId slot p (front D) := by
  have hn : s.ch2Next = some (seqNum p) := h.next
  unfold deliverCh2InOrder
  rw [hn]
  exact deliverLoop_window events h le_rfl

end Deliver

/-! ## Frame -/

/-- `t` is `s` with other Ch2 receive state. -/
def SameOutsideCh2 (s t : Session) : Prop :=
  t = { s with
    assembler := t.assembler
    reorder := t.reorder
    ch2Next := t.ch2Next
    deliveredMax := t.deliveredMax
    deliveredSeqs := t.deliveredSeqs }

theorem SameOutsideCh2.trans {s t u : Session} (h : SameOutsideCh2 s t) (h' : SameOutsideCh2 t u) :
    SameOutsideCh2 s u := by
  unfold SameOutsideCh2 at h h' ⊢
  rw [h] at h'
  exact h'

theorem deliverLoop_same (rounds : ℕ) (next : U16) (s : Session) (events : List SessionEvent) :
    SameOutsideCh2 s (deliverLoop rounds next s events).1 ∧
      (deliverLoop rounds next s events).1.assembler = s.assembler := by
  induction rounds generalizing next s events with
  | zero => exact ⟨rfl, rfl⟩
  | succ rounds ih =>
    unfold deliverLoop
    cases s.reorder[next]? with
    | none => exact ⟨rfl, rfl⟩
    | some e =>
      obtain ⟨h1, h2⟩ := ih (next + 1) (s.consume next) (events ++ deliveryEvents s.sessId e)
      exact ⟨SameOutsideCh2.trans (show SameOutsideCh2 s (s.consume next) from rfl) h1, h2⟩

theorem deliverCh2InOrder_same (s : Session) (events : List SessionEvent) :
    SameOutsideCh2 s (deliverCh2InOrder s events).1 ∧
      (deliverCh2InOrder s events).1.assembler = s.assembler := by
  unfold deliverCh2InOrder
  cases s.ch2Next with
  | none => exact ⟨rfl, rfl⟩
  | some next => exact deliverLoop_same _ next s events

end SoupEngine
