import Mathlib.Data.List.Nodup
import Mathlib.Data.List.Basic
import Mathlib.Logic.Function.Basic

/-!
# Custody

Items that are handed from one place to another, each place with a list of what it has. `own` says
of every item where it is, if it is anywhere; then no item is in two lists, or twice in one.
-/

open Function

variable {β κ γ : Type*} {own : β → Option κ} {lists lists' : κ → List β} {k : κ} {b : β}

/-- Every place has the items that are there, each once. -/
structure Custody (own : β → Option κ) (lists : κ → List β) : Prop where
  nodup : ∀ k, (lists k).Nodup
  mem_iff : ∀ k b, b ∈ lists k ↔ own b = some k

namespace Custody

theorem notMem (h : Custody own lists) (hb : own b ≠ some k) : b ∉ lists k :=
  fun hmem => hb ((h.mem_iff k b).1 hmem)

/-- What changes elsewhere does not change what a place shows. -/
theorem map_congr (h : Custody own lists) (hb : own b ≠ some k) {f g : β → γ}
    (hfg : ∀ c, c ≠ b → f c = g c) :
    (lists k).map f = (lists k).map g := by
  apply List.map_congr_left
  intro c hc
  apply hfg
  rintro rfl
  exact h.notMem hb hc

/-- An item goes from where it was, if anywhere, to another place. -/
theorem move [DecidableEq β] (h : Custody own lists) (hb : own b ≠ some k)
    (hto : (lists' k).Perm (b :: lists k))
    (hfrom : ∀ k', own b = some k' → lists' k' = (lists k').erase b) (hother : ∀ k', k' ≠ k →
      own b ≠ some k' → lists' k' = lists k') : Custody (update own b (some k)) lists' := by
  have hleft (k' : κ) (hk : k' ≠ k) : (lists' k').Nodup ∧ ∀ c, c ∈ lists' k' ↔
      c ≠ b ∧ c ∈ lists k' := by
    by_cases howned : own b = some k'
    · rw [hfrom k' howned]
      exact ⟨(h.nodup k').erase b, fun c => (h.nodup k').mem_erase_iff⟩
    · rw [hother k' hk howned]
      refine ⟨h.nodup k', fun c => ⟨fun hc => ⟨?_, hc⟩, And.right⟩⟩
      rintro rfl
      exact h.notMem howned hc
  constructor
  · intro k'
    by_cases hk : k' = k
    · subst hk
      exact hto.nodup_iff.2 (List.nodup_cons.2 ⟨h.notMem hb, h.nodup k'⟩)
    · exact (hleft k' hk).1
  · intro k' c
    by_cases hk : k' = k
    · subst hk
      rw [hto.mem_iff, List.mem_cons]
      by_cases hc : c = b
      · subst hc
        rw [update_self]
        exact iff_of_true (.inl rfl) rfl
      · rw [update_of_ne hc, or_iff_right hc, h.mem_iff]
    · rw [(hleft k' hk).2]
      by_cases hc : c = b
      · subst hc
        rw [update_self]
        exact iff_of_false (fun hmem => hmem.1 rfl) fun heq => hk (Option.some.inj heq).symm
      · rw [update_of_ne hc, and_iff_right hc, h.mem_iff]

end Custody
