import Mathlib.Data.List.Sort
import Mathlib.Tactic

/-!
# Sorted lists with room for so many

A list in the strict order of a key takes a new element in front of the first greater one, which is
`List.orderedInsert` (`insertIdx_findIdx`). A full list gives up its head for it (`keep`).
`Greatest` says that a list holds the greatest elements of a collection; it determines the list
(`Greatest.unique`), and `keep` preserves it exactly if the element that is given up is a least one
(`Greatest.keep_iff`).
-/

namespace BoundedSort

variable {α κ : Type*} [LinearOrder κ] (key : α → κ)

/-- In the strict order of the keys. -/
def Increasing (xs : List α) : Prop := xs.Pairwise fun a b => key a < key b

/-- The element in its place. -/
def put (x : α) (xs : List α) : List α := xs.orderedInsert (fun a b => key a ≤ key b) x

/-- The element in its place, in a list that may have `k` elements. -/
def keep (k : ℕ) (x : α) (xs : List α) : List α := put key x (if k ≤ xs.length then xs.tail else xs)

variable {key} {k : ℕ} {x : α} {xs ys es es' : List α}

theorem mem_put {a : α} : a ∈ put key x xs ↔ a = x ∨ a ∈ xs := List.mem_orderedInsert _

@[simp] theorem length_put : (put key x xs).length = xs.length + 1 :=
  List.orderedInsert_length _ _ _

/-- In front of the first greater one. -/
theorem insertIdx_findIdx {gt : α → Bool} (h : ∀ a ∈ xs, gt a = true ↔ key x ≤ key a) :
    xs.insertIdx (xs.findIdx gt) x = put key x xs := by
  induction xs with
  | nil => rfl
  | cons a xs ih =>
    obtain ⟨ha, hxs⟩ := List.forall_mem_cons.1 h
    unfold put at ih ⊢
    rw [List.findIdx_cons, List.orderedInsert_cons]
    by_cases hle : key x ≤ key a
    · rw [if_pos hle, ha.2 hle]
      rfl
    · have hgt : gt a = false := by
        rw [← Bool.not_eq_true]
        exact fun hg => hle (ha.1 hg)
      rw [if_neg hle, hgt, cond_false, List.insertIdx_succ_cons, ih hxs]

theorem mem_of_mem_keep {a : α} (h : a ∈ keep key k x xs) : a = x ∨ a ∈ xs := by
  refine (mem_put.1 h).imp_right fun h => ?_
  split_ifs at h
  · exact List.mem_of_mem_tail h
  · exact h

theorem length_keep (hk : 0 < k) (h : xs.length ≤ k) : (keep key k x xs).length ≤ k := by
  unfold keep
  rw [length_put]
  split_ifs with hfull
  · rw [List.length_tail]
    omega
  · omega

theorem Increasing.tail (h : Increasing key xs) : Increasing key xs.tail := List.Pairwise.tail h

theorem Increasing.nodup (h : Increasing key xs) : xs.Nodup :=
  List.Pairwise.imp (fun hab heq => (heq ▸ hab).false) h

/-- An element with a new key gets into the order. -/
theorem Increasing.put (h : Increasing key xs) (hx : ∀ a ∈ xs, key a ≠ key x) :
    Increasing key (put key x xs) := by
  have hle : (BoundedSort.put key x xs).Pairwise fun a b => key a ≤ key b :=
    have : Std.Total fun a b : α => key a ≤ key b := ⟨fun a b => le_total _ _⟩
    have : IsTrans α fun a b => key a ≤ key b := ⟨fun a b c => le_trans⟩
    List.Pairwise.orderedInsert x xs (h.imp le_of_lt)
  have hne : (BoundedSort.put key x xs).Pairwise fun a b => key a ≠ key b := by
    refine ((List.perm_orderedInsert _ x xs).pairwise_iff fun hab => Ne.symm hab).2 ?_
    exact List.pairwise_cons.2 ⟨fun a ha => (hx a ha).symm, h.imp fun hab => hab.ne⟩
  exact (hle.and hne).imp fun hab => lt_of_le_of_ne hab.1 hab.2

theorem Increasing.keep (h : Increasing key xs) (hx : ∀ a ∈ xs, key a ≠ key x) :
    Increasing key (keep key k x xs) := by
  unfold BoundedSort.keep
  split_ifs
  · exact h.tail.put fun a ha => hx a (List.mem_of_mem_tail ha)
  · exact h.put hx

/-! ## The greatest elements -/

variable (key) in
/-- `ys` is the `k` greatest elements of `es` in their order, or all if there are not so many. -/
structure Greatest (k : ℕ) (es ys : List α) : Prop where
  increasing : Increasing key ys
  subset : ys ⊆ es
  length : ys.length = min k es.length
  greater : ∀ a ∈ es, a ∉ ys → ∀ b ∈ ys, key a < key b

/-- The greatest elements of a collection do not depend on the order it is listed in. -/
theorem Greatest.unique (h : Greatest key k es xs) (h' : Greatest key k es' ys) (hp : es.Perm es') :
    xs = ys := by
  have hlen : xs.length = ys.length := by rw [h.length, h'.length, hp.length_eq]
  have hsub : xs ⊆ ys := by
    intro a ha
    by_contra hna
    obtain ⟨b, hb, hnb⟩ : ∃ b ∈ ys, b ∉ xs := by
      by_contra! hall
      have hperm := (List.subperm_of_subset h'.increasing.nodup hall).perm_of_length_le hlen.le
      exact hna (hperm.mem_iff.2 ha)
    -- each of the two would be less than the other
    have hab : key a < key b := h'.greater a (hp.mem_iff.1 (h.subset ha)) hna b hb
    have hba : key b < key a := h.greater b (hp.mem_iff.2 (h'.subset hb)) hnb a ha
    exact lt_asymm hab hba
  have hperm := (List.subperm_of_subset h.increasing.nodup hsub).perm_of_length_le hlen.ge
  exact hperm.eq_of_pairwise (fun a b _ _ hab hba => absurd hba (lt_asymm hab)) h.increasing
    h'.increasing

/-- As long as there is room nothing is left out. -/
theorem Greatest.mem_of_lt (h : Greatest key k es ys) (hlt : ys.length < k) : es ⊆ ys := by
  have hlen := h.length
  have hperm := (List.subperm_of_subset h.increasing.nodup h.subset).perm_of_length_le (by omega)
  exact fun a ha => hperm.mem_iff.2 ha

/-- With room for it the new element is one of the greatest. -/
theorem Greatest.put_of_lt (h : Greatest key k es ys) (hlt : ys.length < k)
    (hx : ∀ a ∈ es, key a ≠ key x) :
    Greatest key k (es ++ [x]) (put key x ys) where
  increasing := h.increasing.put fun a ha => hx a (h.subset ha)
  subset := by
    intro a ha
    rcases mem_put.1 ha with rfl | ha
    · exact List.mem_append_right _ (List.mem_singleton.2 rfl)
    · exact List.mem_append_left _ (h.subset ha)
  length := by
    have hlen := h.length
    rw [length_put, List.length_append, List.length_singleton]
    omega
  greater := by
    intro a ha hna
    rw [mem_put, not_or] at hna
    rcases List.mem_append.1 ha with ha | ha
    · exact absurd (h.mem_of_lt hlt ha) hna.2
    · exact absurd (List.mem_singleton.1 ha) hna.1

/-- In a full list the new element takes the place of a lesser head. -/
theorem Greatest.put_rest {old : α} {rest : List α} (h : Greatest key k es (old :: rest))
    (hfull : k ≤ (old :: rest).length) (hx : ∀ a ∈ es, key a ≠ key x) (hlt : key old < key x) :
    Greatest key k (es ++ [x]) (put key x rest) where
  increasing := h.increasing.tail.put fun a ha => hx a (h.subset (List.mem_cons_of_mem _ ha))
  subset := by
    intro a ha
    rcases mem_put.1 ha with rfl | ha
    · exact List.mem_append_right _ (List.mem_singleton.2 rfl)
    · exact List.mem_append_left _ (h.subset (List.mem_cons_of_mem _ ha))
  length := by
    have hlen := h.length
    rw [List.length_cons] at hlen hfull
    rw [length_put, List.length_append, List.length_singleton]
    omega
  greater := by
    intro a ha hna b hb
    rw [mem_put, not_or] at hna
    -- what is left out is the old head, or was left out before
    have haes : a ∈ es := by
      rcases List.mem_append.1 ha with ha | ha
      · exact ha
      · exact absurd (List.mem_singleton.1 ha) hna.1
    have hle : key a ≤ key old := by
      by_cases haold : a = old
      · exact (congrArg key haold).le
      · refine (h.greater a haes ?_ old List.mem_cons_self).le
        rw [List.mem_cons, not_or]
        exact ⟨haold, hna.2⟩
    rcases mem_put.1 hb with rfl | hb
    · exact hle.trans_lt hlt
    · exact hle.trans_lt ((List.pairwise_cons.1 h.increasing).1 b hb)

/-- If the head is greater than the new element, it should have stayed. -/
theorem Greatest.lt_of_put_rest {old : α} {rest : List α} (h : Greatest key k es (old :: rest))
    (hx : ∀ a ∈ es, key a ≠ key x) (h' : Greatest key k (es ++ [x]) (put key x rest)) :
    key old < key x := by
  have hold : old ∈ es := h.subset List.mem_cons_self
  refine h'.greater old (List.mem_append_left _ hold) ?_ x (mem_put.2 (.inl rfl))
  rw [mem_put]
  rintro (heq | hmem)
  · exact hx old hold (congrArg key heq)
  · exact ((List.pairwise_cons.1 h.increasing).1 old hmem).false

/-- **Overflow.** The greatest elements are kept exactly if the head of a full list is less than the
new element. -/
theorem Greatest.keep_iff (h : Greatest key k es ys) (hk : 0 < k) (hx : ∀ a ∈ es, key a ≠ key x) :
    Greatest key k (es ++ [x]) (keep key k x ys) ↔
      (k ≤ ys.length → ∀ a ∈ ys.head?, key a < key x) := by
  unfold keep
  by_cases hfull : k ≤ ys.length
  · rw [if_pos hfull]
    simp only [hfull, forall_const]
    cases ys with
    | nil => exact absurd hfull (Nat.not_le.2 hk)
    | cons old rest =>
      constructor
      · intro h' a ha
        obtain rfl : old = a := Option.some.inj ha
        exact h.lt_of_put_rest hx h'
      · intro hlt
        exact h.put_rest hfull hx (hlt old rfl)
  · rw [if_neg hfull]
    simp only [hfull, false_implies, iff_true]
    exact h.put_of_lt (Nat.not_le.1 hfull) hx

end BoundedSort
