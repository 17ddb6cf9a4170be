import Mathlib.Data.List.DropRight
import Mathlib.Tactic

/-!
# Insertion sort by swaps

`sift gt j` moves the element at position `j` towards the front past the elements that are greater.
It looks at the element before it without asking whether there is one, and fails (`none`) when the
element gets to the front. So sorting succeeds exactly if the first element is a least one
(`sort_eq_none`, `sort_sorts`), and then the result is the stable order of the keys, which is unique
(`Sorts.unique`).
-/

namespace InsertionSort

variable {α κ : Type*}

/-- Move the element at position `j` towards the front, past all that are greater. -/
def sift (gt : α → α → Bool) : ℕ → List α → Option (List α)
  | 0, _ => none
  | j + 1, xs =>
    match xs[j]?, xs[j + 1]? with
    | some a, some b => if gt a b then sift gt j ((xs.set j b).set (j + 1) a) else some xs
    | _, _ => none

/-- Sift the elements from position `i` on, `n` of them. -/
def sortFrom (gt : α → α → Bool) : ℕ → ℕ → List α → Option (List α)
  | 0, _, xs => some xs
  | n + 1, i, xs => (sift gt i xs).bind (sortFrom gt n (i + 1))

/-- Sift every element but the first. -/
def sort (gt : α → α → Bool) (xs : List α) : Option (List α) := sortFrom gt (xs.length - 1) 1 xs

theorem sift_append (gt : α → α → Bool) (pre : List α) (x : α) (suf : List α) :
    sift gt pre.length (pre ++ x :: suf) =
      if pre.rdropWhile (gt · x) = [] then none
      else some (pre.rdropWhile (gt · x) ++ x :: (pre.rtakeWhile (gt · x) ++ suf)) := by
  induction pre using List.reverseRecOn generalizing suf with
  | nil => rfl
  | append_singleton pre a ih =>
    have ha : (pre ++ [a] ++ x :: suf)[pre.length]? = some a := by simp
    have hx : (pre ++ [a] ++ x :: suf)[pre.length + 1]? = some x := by simp
    rw [List.length_append, List.length_singleton, sift, ha, hx]
    dsimp only
    by_cases hgt : gt a x = true
    · have hswap : ((pre ++ [a] ++ x :: suf).set pre.length x).set (pre.length + 1) a =
          pre ++ x :: (a :: suf) := by simp
      rw [if_pos hgt, hswap, ih]
      simp only [List.rdropWhile_concat, List.rtakeWhile_concat, hgt, if_true, List.append_assoc,
        List.singleton_append]
    · rw [if_neg hgt]
      simp only [List.rdropWhile_concat, List.rtakeWhile_concat, hgt,
        List.append_ne_nil_of_right_ne_nil, if_false, ne_eq, List.cons_ne_nil, not_false_eq_true,
        List.nil_append, Bool.false_eq_true]

/-! ## Stable order -/

variable [LinearOrder κ] (key : α → κ)

/-- `ys` is `xs` in the order of the keys, elements with equal keys in their old order. -/
structure Sorts (xs ys : List α) : Prop where
  sorted : ys.Pairwise fun a b => key a ≤ key b
  stable : ∀ k, ys.filter (key · = k) = xs.filter (key · = k)

variable {key} {xs xs' ys ys' : List α}

theorem Sorts.perm (h : Sorts key xs ys) : ys.Perm xs := by
  classical
  refine List.perm_iff_count.2 fun a => ?_
  have hcount : ∀ zs : List α, zs.count a = (zs.filter (key · = key a)).count a := by
    intro zs
    exact (List.count_filter (by simp)).symm
  rw [hcount ys, h.stable, ← hcount]

/-- Sorted lists with the same elements of every key, in the same order, are equal. -/
theorem eq_of_filter_eq (h : ys.Pairwise fun a b => key a ≤ key b)
    (h' : ys'.Pairwise fun a b => key a ≤ key b)
    (heq : ∀ k, ys.filter (key · = k) = ys'.filter (key · = k)) : ys = ys' := by
  induction ys generalizing ys' with
  | nil =>
    cases ys' with
    | nil => rfl
    | cons b bs =>
      have := heq (key b)
      rw [List.filter_cons_of_pos (by simp)] at this
      cases this
  | cons a as ih =>
    have ha : a ∈ ys' := by
      have hmem : a ∈ (a :: as).filter (key · = key a) :=
        List.mem_filter.2 ⟨List.mem_cons_self, by simp⟩
      rw [heq] at hmem
      exact (List.mem_filter.1 hmem).1
    cases ys' with
    | nil => cases ha
    | cons b bs =>
      have hb : b ∈ a :: as := by
        have hmem : b ∈ (b :: bs).filter (key · = key b) :=
          List.mem_filter.2 ⟨List.mem_cons_self, by simp⟩
        rw [← heq] at hmem
        exact (List.mem_filter.1 hmem).1
      obtain ⟨hle, has⟩ := List.pairwise_cons.1 h
      obtain ⟨hle', hbs⟩ := List.pairwise_cons.1 h'
      have hkey : key a = key b := by
        refine le_antisymm ?_ ?_
        · rcases List.mem_cons.1 hb with rfl | hb
          · exact le_rfl
          · exact hle b hb
        · rcases List.mem_cons.1 ha with rfl | ha
          · exact le_rfl
          · exact hle' a ha
      have hhead := heq (key a)
      rw [List.filter_cons_of_pos (by simp), List.filter_cons_of_pos (by simp [hkey])] at hhead
      obtain ⟨rfl, -⟩ := List.cons.inj hhead
      rw [ih has hbs fun k => ?_]
      have hk := heq k
      by_cases hak : key a = k
      · rw [List.filter_cons_of_pos (by simp [hak]), List.filter_cons_of_pos (by simp [hak])] at hk
        exact (List.cons.inj hk).2
      · rw [List.filter_cons_of_neg (by simp [hak]), List.filter_cons_of_neg (by simp [hak])] at hk
        exact hk

/-- **Uniqueness.** Lists that agree key by key have one stable order. -/
theorem Sorts.unique (h : Sorts key xs ys) (h' : Sorts key xs' ys')
    (heq : ∀ k, xs.filter (key · = k) = xs'.filter (key · = k)) : ys = ys' :=
  eq_of_filter_eq h.sorted h'.sorted fun k => by rw [h.stable, h'.stable, heq]

/-! ## What sifting does to a sorted front -/

theorem pairwise_rdropWhile_append {pre : List α} {x : α}
    (h : pre.Pairwise fun a b => key a ≤ key b) :
    (∀ a ∈ pre.rdropWhile (fun a => decide (key x < key a)), key a ≤ key x) ∧
      ∀ a ∈ pre.rtakeWhile (fun a => decide (key x < key a)), key x < key a := by
  refine ⟨fun a ha => ?_, fun a ha => by simpa using List.mem_rtakeWhile_imp ha⟩
  have hne : pre.rdropWhile (fun a => decide (key x < key a)) ≠ [] := List.ne_nil_of_mem ha
  have hlast := List.rdropWhile_last_not (fun a => decide (key x < key a)) pre hne
  have hsub : (pre.rdropWhile fun a => decide (key x < key a)).Pairwise fun a b => key a ≤ key b :=
    h.sublist (List.rdropWhile_prefix _ _).sublist
  rw [decide_eq_true_iff, not_lt] at hlast
  refine le_trans ?_ hlast
  rw [← List.dropLast_append_getLast hne] at hsub ha
  rcases List.mem_append.1 ha with ha | ha
  · exact (List.pairwise_append.1 hsub).2.2 a ha _ (List.mem_singleton.2 rfl)
  · rw [List.mem_singleton.1 ha]

/-- The element gets to the front exactly if it is less than the first one. -/
theorem rdropWhile_eq_nil {a : α} {pre : List α} {x : α}
    (h : (a :: pre).Pairwise fun a b => key a ≤ key b) :
    (a :: pre).rdropWhile (fun a => decide (key x < key a)) = [] ↔ key x < key a := by
  rw [List.rdropWhile_eq_nil_iff]
  constructor
  · intro hall
    simpa using hall a List.mem_cons_self
  · intro hlt b hb
    rcases List.mem_cons.1 hb with rfl | hb
    · simpa using hlt
    · simpa using lt_of_lt_of_le hlt ((List.pairwise_cons.1 h).1 b hb)

theorem sorts_insert {zs pre : List α} {x : α} (h : Sorts key zs pre) :
    Sorts key (zs ++ [x]) (pre.rdropWhile (fun a => decide (key x < key a)) ++
      x :: pre.rtakeWhile (fun a => decide (key x < key a))) := by
  obtain ⟨hle, hlt⟩ := pairwise_rdropWhile_append h.sorted (x := x)
  set p := fun a => decide (key x < key a) with hp
  have hsplit : pre.rdropWhile p ++ pre.rtakeWhile p = pre := List.rdropWhile_append_rtakeWhile
  have hsorted := h.sorted
  rw [← hsplit, List.pairwise_append] at hsorted
  refine ⟨?_, fun k => ?_⟩
  · rw [List.pairwise_append, List.pairwise_cons]
    refine ⟨hsorted.1, ⟨fun b hb => (hlt b hb).le, hsorted.2.1⟩, fun a ha b hb => ?_⟩
    rcases List.mem_cons.1 hb with rfl | hb
    · exact hle a ha
    · exact hsorted.2.2 a ha b hb
  · have hold := h.stable k
    rw [← hsplit, List.filter_append] at hold
    rw [List.filter_append, List.filter_append, ← hold, List.filter_cons]
    by_cases hk : key x = k
    · have hnil : (pre.rtakeWhile p).filter (key · = k) = [] := by
        refine List.filter_eq_nil_iff.2 fun a ha => ?_
        have := hlt a ha
        simp only [decide_eq_true_eq]
        intro he
        rw [he, ← hk] at this
        exact lt_irrefl _ this
      simp [hk, hnil]
    · simp [hk]

/-! ## Sorting -/

/-- An element that is not less than the first one finds its place behind it. -/
theorem sift_sorted {a : α} {zs pre : List α} {x : α} (h : Sorts key zs (a :: pre))
    (hx : key a ≤ key x) (suf : List α) :
    ∃ pre', sift (fun a b => decide (key b < key a)) (a :: pre).length (a :: pre ++ x :: suf) =
        some (a :: pre' ++ suf) ∧
      Sorts key (zs ++ [x]) (a :: pre') ∧ (a :: pre').length = (a :: pre).length + 1 := by
  have hne : (a :: pre).rdropWhile (fun a => decide (key x < key a)) ≠ [] := fun hnil =>
    not_lt.2 hx ((rdropWhile_eq_nil h.sorted).1 hnil)
  obtain ⟨front, hfront⟩ : ∃ front,
      (a :: pre).rdropWhile (fun a => decide (key x < key a)) = a :: front := by
    obtain ⟨t, ht⟩ := List.rdropWhile_prefix (fun a => decide (key x < key a)) (a :: pre)
    cases hd : (a :: pre).rdropWhile (fun a => decide (key x < key a)) with
    | nil => exact absurd hd hne
    | cons b bs =>
      rw [hd] at ht
      exact ⟨bs, by rw [(List.cons.inj ht).1]⟩
  have hins := sorts_insert (x := x) h
  have hlen := congrArg List.length (List.rdropWhile_append_rtakeWhile
    (p := fun a => decide (key x < key a)) (l := a :: pre))
  rw [hfront] at hins hlen
  refine ⟨front ++ x :: (a :: pre).rtakeWhile fun a => decide (key x < key a), ?_, hins, ?_⟩
  · rw [sift_append, if_neg hne, hfront]
    simp
  · simp only [List.length_append, List.length_cons] at hlen ⊢
    omega

/-- From a sorted front that starts with a least element, sorting succeeds. -/
theorem sortFrom_sorts {n : ℕ} {a : α} {zs pre t : List α} (h : Sorts key zs (a :: pre))
    (hn : t.length = n) (hmin : ∀ b ∈ t, key a ≤ key b) :
    ∃ ys, sortFrom (fun a b => decide (key b < key a)) n (a :: pre).length (a :: pre ++ t) =
      some ys ∧
      Sorts key (zs ++ t) ys := by
  induction n generalizing zs pre t with
  | zero =>
    obtain rfl := List.length_eq_zero_iff.1 hn
    rw [List.append_nil, List.append_nil]
    exact ⟨_, rfl, h⟩
  | succ n ih =>
    obtain _ | ⟨x, t⟩ := t
    · cases hn
    obtain ⟨pre', hsift, hsorts, hlen⟩ := sift_sorted h (hmin x List.mem_cons_self) t
    obtain ⟨ys, hys, h'⟩ := ih hsorts (Nat.succ.inj hn) fun b hb =>
      hmin b (List.mem_cons_of_mem _ hb)
    rw [hlen] at hys
    rw [sortFrom, hsift, Option.bind_some]
    exact ⟨ys, hys, by rw [List.append_assoc] at h'; exact h'⟩

/-- An element that is less than the first one makes sorting fail. -/
theorem sortFrom_eq_none {n : ℕ} {a : α} {zs pre t : List α} (h : Sorts key zs (a :: pre))
    (hn : t.length = n) (hmin : ∃ b ∈ t, key b < key a) :
    sortFrom (fun a b => decide (key b < key a)) n (a :: pre).length (a :: pre ++ t) = none := by
  induction n generalizing zs pre t with
  | zero =>
    obtain rfl := List.length_eq_zero_iff.1 hn
    obtain ⟨b, hb, -⟩ := hmin
    cases hb
  | succ n ih =>
    obtain _ | ⟨x, t⟩ := t
    · cases hn
    obtain ⟨b, hb, hlt⟩ := hmin
    rw [sortFrom]
    rcases lt_or_ge (key x) (key a) with hx | hx
    · rw [sift_append, if_pos ((rdropWhile_eq_nil h.sorted).2 hx)]
      rfl
    · obtain ⟨pre', hsift, hsorts, hlen⟩ := sift_sorted h hx t
      have hb' : b ∈ t := by
        rcases List.mem_cons.1 hb with rfl | hb
        · exact absurd hlt (not_lt.2 hx)
        · exact hb
      have := ih hsorts (Nat.succ.inj hn) ⟨b, hb', hlt⟩
      rw [hlen] at this
      rw [hsift, Option.bind_some]
      exact this

theorem sorts_singleton (a : α) : Sorts key [a] [a] := ⟨List.pairwise_singleton _ _, fun _ => rfl⟩

/-- **Success.** -/
theorem sort_sorts (hmin : ∀ a ∈ xs.head?, ∀ b ∈ xs, key a ≤ key b) :
    ∃ ys, sort (fun a b => decide (key b < key a)) xs = some ys ∧ Sorts key xs ys := by
  cases xs with
  | nil => exact ⟨[], rfl, List.Pairwise.nil, fun _ => rfl⟩
  | cons a xs =>
    exact sortFrom_sorts (sorts_singleton a) (t := xs) rfl
      fun b hb => hmin a rfl b (List.mem_cons_of_mem _ hb)

/-- **Failure.** -/
theorem sort_eq_none (hmin : ¬ ∀ a ∈ xs.head?, ∀ b ∈ xs, key a ≤ key b) :
    sort (fun a b => decide (key b < key a)) xs = none := by
  cases xs with
  | nil => exact absurd (fun a ha => by cases ha) hmin
  | cons a xs =>
    push Not at hmin
    obtain ⟨a', ha', b, hb, hlt⟩ := hmin
    obtain rfl : a = a' := Option.some.inj ha'
    refine sortFrom_eq_none (sorts_singleton a) (t := xs) rfl ⟨b, ?_, hlt⟩
    rcases List.mem_cons.1 hb with rfl | hb
    · exact absurd hlt (lt_irrefl _)
    · exact hb

end InsertionSort
