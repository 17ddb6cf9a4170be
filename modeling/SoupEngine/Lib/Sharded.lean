import Mathlib.Data.List.FinRange
import Std.Data.ExtTreeMap

/-!
# A map in parts

A map is spread over parts, and a route says in which part a key is. As long as every key is where
its route says, all that matters of the parts is what is found by the route: two families of parts
in which the same is found have the same entries, whatever their numbers of parts and their routes
(`entries_perm`).
-/

namespace Sharded

variable {κ β : Type*} {cmp : κ → κ → Ordering} [Std.TransCmp cmp] [Std.LawfulEqCmp cmp] {m n : ℕ}
  {route : κ → Fin n} {parts : Fin n → Std.ExtTreeMap κ β cmp}

/-- Every key is in the part that its route gives. -/
def Routed (route : κ → Fin n) (parts : Fin n → Std.ExtTreeMap κ β cmp) : Prop :=
  ∀ i k v, (parts i)[k]? = some v → route k = i

/-- What is found for a key. -/
def find (route : κ → Fin n) (parts : Fin n → Std.ExtTreeMap κ β cmp) (k : κ) : Option β :=
  (parts (route k))[k]?

/-- The entries, part by part. -/
def entries (parts : Fin n → Std.ExtTreeMap κ β cmp) : List (κ × β) :=
  (List.finRange n).flatMap fun i => (parts i).toList

theorem mem_entries (h : Routed route parts) {e : κ × β} :
    e ∈ entries parts ↔ find route parts e.1 = some e.2 := by
  unfold entries find
  rw [List.mem_flatMap]
  constructor
  · rintro ⟨i, -, he⟩
    have hi := Std.ExtTreeMap.mem_toList_iff_getElem?_eq_some.1 he
    rw [h i e.1 e.2 hi]
    exact hi
  · intro he
    exact ⟨route e.1, List.mem_finRange _, Std.ExtTreeMap.mem_toList_iff_getElem?_eq_some.2 he⟩

theorem nodup_entries (h : Routed route parts) : (entries parts).Nodup := by
  unfold entries
  rw [List.nodup_flatMap]
  constructor
  · intro i _
    refine (Std.ExtTreeMap.distinct_keys_toList (t := parts i)).imp fun hab => ?_
    rintro rfl
    exact hab (Std.LawfulEqCmp.compare_eq_iff_eq.2 rfl)
  · refine (List.nodup_finRange n).imp fun hij => ?_
    intro e hi hj
    refine hij ?_
    rw [← h _ e.1 e.2 (Std.ExtTreeMap.mem_toList_iff_getElem?_eq_some.1 hi),
      ← h _ e.1 e.2 (Std.ExtTreeMap.mem_toList_iff_getElem?_eq_some.1 hj)]

/-- The entries are those that are found. -/
theorem entries_perm {route' : κ → Fin m} {parts' : Fin m → Std.ExtTreeMap κ β cmp}
    (h : Routed route parts) (h' : Routed route' parts')
    (hfind : ∀ k, find route parts k = find route' parts' k) :
    (entries parts).Perm (entries parts') := by
  rw [List.perm_ext_iff_of_nodup (nodup_entries h) (nodup_entries h')]
  intro e
  rw [mem_entries h, mem_entries h', hfind]

end Sharded
