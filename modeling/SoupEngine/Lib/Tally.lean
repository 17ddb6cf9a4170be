import Mathlib.Algebra.BigOperators.Group.List.Basic
import Mathlib.Tactic
import Std.Data.ExtTreeMap

/-!
# Tallies

Something is counted for every value of a finite map, and added up. What is counted for a key goes
in and out of the sum with the key: the lemmas are equations without subtraction.
-/

namespace Tally

open Std

variable {κ β : Type*} {cmp : κ → κ → Ordering} [TransCmp cmp] [LawfulEqCmp cmp]
  {m : ExtTreeMap κ β cmp} {k : κ} {b : β}

/-- The sum over the values. -/
def total (f : β → ℕ) (m : ExtTreeMap κ β cmp) : ℕ := (m.toList.map fun e => f e.2).sum

/-- What a key adds. -/
def share (f : β → ℕ) (m : ExtTreeMap κ β cmp) (k : κ) : ℕ := (m[k]?).elim 0 f

theorem nodup_toList (m : ExtTreeMap κ β cmp) : m.toList.Nodup := by
  refine (ExtTreeMap.distinct_keys_toList (t := m)).imp fun hab => ?_
  rintro rfl
  exact hab (LawfulEqCmp.compare_eq_iff_eq.2 rfl)

/-- An entry and the others. -/
theorem toList_perm (h : m[k]? = some b) : m.toList.Perm ((k, b) :: (m.erase k).toList) := by
  have hmem (e : κ × β) : e ∈ (m.erase k).toList ↔ e.1 ≠ k ∧ m[e.1]? = some e.2 := by
    rw [ExtTreeMap.mem_toList_iff_getElem?_eq_some, ExtTreeMap.getElem?_erase]
    split_ifs with hk
    · exact iff_of_false (fun heq => by cases heq) fun he =>
        he.1 (LawfulEqCmp.compare_eq_iff_eq.1 hk).symm
    · refine (and_iff_right ?_).symm
      rintro rfl
      exact hk (LawfulEqCmp.compare_eq_iff_eq.2 rfl)
  have hnot : (k, b) ∉ (m.erase k).toList := fun he => ((hmem _).1 he).1 rfl
  refine (List.perm_ext_iff_of_nodup (nodup_toList m) (List.nodup_cons.2 ⟨hnot, nodup_toList _⟩)).2
    fun e => ?_
  rw [ExtTreeMap.mem_toList_iff_getElem?_eq_some, List.mem_cons, hmem]
  constructor
  · intro he
    by_cases hk : e.1 = k
    · left
      rw [hk, h] at he
      exact Prod.ext hk (Option.some.inj he).symm
    · exact .inr ⟨hk, he⟩
  · rintro (rfl | he)
    · exact h
    · exact he.2

theorem total_erase (f : β → ℕ) (m : ExtTreeMap κ β cmp) (k : κ) :
    total f (m.erase k) + share f m k = total f m := by
  unfold share
  cases h : m[k]? with
  | none =>
    have hnot : k ∉ m := by
      rw [← ExtTreeMap.isSome_getElem?_iff_mem, h]
      exact Bool.false_ne_true
    have hsame : m.erase k = m := by
      apply ExtTreeMap.ext_getElem?
      intro c
      rw [ExtTreeMap.getElem?_erase]
      split_ifs with hk
      · rw [← LawfulEqCmp.compare_eq_iff_eq.1 hk, h]
      · rfl
    rw [hsame]
    rfl
  | some b =>
    unfold total
    rw [((toList_perm h).map fun e => f e.2).sum_eq, List.map_cons, List.sum_cons]
    exact Nat.add_comm _ _

theorem total_insert (f : β → ℕ) (m : ExtTreeMap κ β cmp) (k : κ) (b : β) :
    total f (m.insert k b) + share f m k = total f m + f b := by
  have hnew : (m.insert k b)[k]? = some b := ExtTreeMap.getElem?_insert_self
  have herase : (m.insert k b).erase k = m.erase k := by
    apply ExtTreeMap.ext_getElem?
    intro c
    rw [ExtTreeMap.getElem?_erase, ExtTreeMap.getElem?_erase, ExtTreeMap.getElem?_insert]
    split_ifs <;> rfl
  have hin := total_erase f (m.insert k b) k
  have hout := total_erase f m k
  rw [herase] at hin
  unfold share at hin
  rw [hnew] at hin
  dsimp only [Option.elim] at hin
  omega

/-- A value that counts the same takes the place of one. -/
theorem total_replace {f : β → ℕ} {b' : β} (h : m[k]? = some b) (hf : f b' = f b) :
    total f (m.insert k b') = total f m := by
  have hinsert := total_insert f m k b'
  unfold share at hinsert
  rw [h] at hinsert
  dsimp only [Option.elim] at hinsert
  omega

omit [LawfulEqCmp cmp] in
theorem total_map {f : β → ℕ} {g : κ → β → β} (h : ∀ k b, f (g k b) = f b) :
    total f (m.map g) = total f m := by
  unfold total
  rw [ExtTreeMap.toList_map, List.map_map]
  refine congrArg List.sum (List.map_congr_left fun e _ => ?_)
  exact h e.1 e.2

omit [LawfulEqCmp cmp] in
theorem total_one (m : ExtTreeMap κ β cmp) : total (fun _ => 1) m = m.size := by
  unfold total
  rw [List.map_const', List.sum_replicate, ExtTreeMap.length_toList, smul_eq_mul, mul_one]

end Tally
