import SoupEngine.Session.Window

/-!
# What waits for delivery

A property of all entries of the reorder buffer stays one of those that still wait, and holds of
those that are delivered (`Buffers.deliverCh2InOrder`).
-/

namespace SoupEngine

open BoundedMemory

attribute [local irreducible] remember

/-- Every entry of the reorder buffer has the property. -/
def Buffers (P : U16 × Bytes → Prop) (reorder : Map U16 (U16 × Bytes)) : Prop :=
  ∀ (n : U16) (e : U16 × Bytes), reorder[n]? = some e → P e

section Buffers

variable {P : U16 × Bytes → Prop} {E : SessionEvent → Prop} {reorder : Map U16 (U16 × Bytes)}
  {s : Session} {events : List SessionEvent}

theorem buffers_empty : Buffers P ∅ := by
  intro n e he
  rw [Std.ExtTreeMap.getElem?_empty] at he
  cases he

theorem Buffers.insert (h : Buffers P reorder) (m : U16) {e : U16 × Bytes} (he : P e) :
    Buffers P (reorder.insert m e) := by
  intro n e' he'
  rw [Std.ExtTreeMap.getElem?_insert] at he'
  split_ifs at he'
  · cases he'
    exact he
  · exact h n e' he'

theorem Buffers.erase (h : Buffers P reorder) (m : U16) : Buffers P (reorder.erase m) := by
  intro n e he
  rw [Std.ExtTreeMap.getElem?_erase] at he
  split_ifs at he
  exact h n e he

theorem Buffers.insertGroup (h : Buffers P reorder) (gseq : U16) (total : U8) (hP : P placeholder)
    {e : U16 × Bytes} (he : P e) : Buffers P (insertGroup reorder gseq total e) := by
  unfold SoupEngine.insertGroup
  refine Buffers.insert ?_ gseq he
  generalize List.range total.toNat = is
  induction is generalizing reorder with
  | nil => exact h
  | cons i is ih =>
    rw [List.foldl_cons]
    split_ifs
    · exact ih (h.insert _ hP)
    · exact ih h

theorem forall_mem_append {xs ys : List SessionEvent} (hx : ∀ x ∈ xs, E x) (hy : ∀ y ∈ ys, E y) :
    ∀ x ∈ xs ++ ys, E x := fun x h => (List.mem_append.1 h).elim (hx x) (hy x)

variable (hs : Buffers P s.reorder) (hE : ∀ e, P e → ∀ x ∈ deliveryEvents s.sessId e, E x)
  (hev : ∀ x ∈ events, E x)

include hs hE hev

theorem Buffers.deliverLoop (rounds : ℕ) (next : U16) :
    Buffers P (deliverLoop rounds next s events).1.reorder ∧
      ∀ x ∈ (deliverLoop rounds next s events).2, E x := by
  induction rounds generalizing next s events with
  | zero => exact ⟨hs, hev⟩
  | succ n ih =>
    unfold SoupEngine.deliverLoop
    cases he : s.reorder[next]? with
    | none => exact ⟨hs, hev⟩
    | some e =>
      have hconsume : Buffers P (s.consume next).reorder := hs.erase next
      exact ih hconsume hE (forall_mem_append hev (hE e (hs next e he))) (next + 1)

theorem Buffers.deliverCh2InOrder :
    Buffers P (deliverCh2InOrder s events).1.reorder ∧ ∀ x ∈ (deliverCh2InOrder s events).2,
    E x := by
  unfold SoupEngine.deliverCh2InOrder
  cases s.ch2Next with
  | none => exact ⟨hs, hev⟩
  | some next => exact hs.deliverLoop hE hev _ next

end Buffers

end SoupEngine
