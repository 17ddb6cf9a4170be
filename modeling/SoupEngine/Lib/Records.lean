import Mathlib.Tactic

/-!
# Records

The records of a list are the items that are greater than everything before them. They are what is
left when only what is newer than the last item taken is taken (`records_concat`, `newest_iff`): a
part of the list, in its order (`records_sublist`), that increases (`records_increasing`).
-/

namespace Records

variable {α : Type*} [LinearOrder α] {xs : List α} {x : α}

/-- The item is taken if it is greater than the last one taken. -/
def push (taken : List α) (x : α) : List α :=
  if taken.getLast?.all (fun y => decide (y < x)) = true then taken ++ [x] else taken

def records (xs : List α) : List α := xs.foldl push []

theorem records_concat (xs : List α) (x : α) : records (xs ++ [x]) = push (records xs) x := by
  unfold records
  rw [List.foldl_append]
  rfl

theorem records_sublist (xs : List α) : (records xs).Sublist xs := by
  induction xs using List.reverseRecOn with
  | nil => exact List.Sublist.refl []
  | append_singleton xs x ih =>
    rw [records_concat]
    unfold push
    split_ifs
    · exact ih.append (List.Sublist.refl [x])
    · exact ih.trans (List.sublist_append_left xs [x])

/-- The last record is the greatest item. -/
theorem exists_le_last {y : α} (hy : y ∈ xs) : ∃ z ∈ (records xs).getLast?, y ≤ z := by
  induction xs using List.reverseRecOn with
  | nil => exact absurd hy List.not_mem_nil
  | append_singleton xs x ih =>
    rw [records_concat]
    unfold push
    split_ifs with hnew
    · refine ⟨x, by rw [List.getLast?_concat]; rfl, ?_⟩
      rcases List.mem_append.1 hy with hold | hx
      · obtain ⟨z, hz, hle⟩ := ih hold
        rw [Option.all_eq_true] at hnew
        exact hle.trans (of_decide_eq_true (hnew z hz)).le
      · exact (List.mem_singleton.1 hx).le
    · rcases List.mem_append.1 hy with hold | hx
      · exact ih hold
      · rw [Bool.not_eq_true, Option.all_eq_false] at hnew
        obtain ⟨z, hz, hge⟩ := hnew
        exact ⟨z, hz, (List.mem_singleton.1 hx).trans_le (not_lt.1 (of_decide_eq_false hge))⟩

/-- What is greater than the last record is greater than everything. -/
theorem newest_iff : (records xs).getLast?.all (fun y => decide (y < x)) = true ↔
    ∀ y ∈ xs, y < x := by
  rw [Option.all_eq_true]
  constructor
  · intro h y hy
    obtain ⟨z, hz, hle⟩ := exists_le_last hy
    exact hle.trans_lt (of_decide_eq_true (h z hz))
  · intro h z hz
    exact decide_eq_true (h z ((records_sublist xs).subset (List.mem_of_getLast? hz)))

theorem records_increasing (xs : List α) : (records xs).Pairwise (· < ·) := by
  induction xs using List.reverseRecOn with
  | nil => exact List.Pairwise.nil
  | append_singleton xs x ih =>
    rw [records_concat]
    unfold push
    split_ifs with hnew
    · refine List.pairwise_append.2 ⟨ih, List.pairwise_singleton _ _, fun y hy z hz => ?_⟩
      rw [List.mem_singleton.1 hz]
      exact newest_iff.1 hnew y ((records_sublist xs).subset hy)
    · exact ih

end Records
