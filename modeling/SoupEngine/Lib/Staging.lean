import SoupEngine.Lib.TransitionSystem

/-!
# A queue with a stage

Entries go to a queue directly, or are staged and follow when the stage is flushed. The queue takes
or drops each entry. Every entry has keys. `inOrder_iff`: so the entries of every key are in the
order of their issue exactly if no entry that the queue takes goes past a staged one with a common
key that it is going to take.
-/

namespace Staging

open TransitionSystem

variable {κ : Type*}

/-- Entries are numbered in the order of their issue. -/
structure Entry (κ : Type*) where
  no : ℕ
  keys : List κ

structure Stage (κ : Type*) where
  /-- The number of the next entry. -/
  next : ℕ
  staged : List (Entry κ)
  queue : List (Entry κ)

inductive Op (κ : Type*)
  | stage (keys : List κ)
  | direct (keys : List κ)
  | flush

def start : Stage κ := ⟨0, [], []⟩

variable (takes : ℕ → Bool)

/-- What the queue takes of some entries. -/
def taken (es : List (Entry κ)) : List (Entry κ) := es.filter fun e => takes e.no

def step (s : Stage κ) : Op κ → Stage κ
  | .stage keys => { s with staged := s.staged ++ [⟨s.next, keys⟩], next := s.next + 1 }
  | .direct keys => { s with queue := s.queue ++ taken takes [⟨s.next, keys⟩], next := s.next + 1 }
  | .flush => { s with queue := s.queue ++ taken takes s.staged, staged := [] }

/-- The queue after the next flush. -/
def settled (s : Stage κ) : List (Entry κ) := s.queue ++ taken takes s.staged

/-- The entries of every key are in order, in the queue and in what the stage is going to add to
it. -/
def InOrder [DecidableEq κ] (s : Stage κ) : Prop :=
  ∀ k, ((settled takes s).filter fun e => k ∈ e.keys).Pairwise fun a b => a.no < b.no

/-- No entry goes past a staged one. -/
def Behind (s : Stage κ) : Op κ → Prop
  | .direct keys => takes s.next = true → ∀ e ∈ taken takes s.staged, ∀ k ∈ keys, k ∉ e.keys
  | _ => True

/-- The entries so far have smaller numbers than the next one. -/
def Numbered (s : Stage κ) : Prop := ∀ e, e ∈ s.queue ∨ e ∈ s.staged → e.no < s.next

variable {takes} {s : Stage κ}

theorem mem_taken {es : List (Entry κ)} {e : Entry κ} : e ∈ taken takes es ↔
    e ∈ es ∧ takes e.no = true :=
  List.mem_filter

theorem taken_singleton (e : Entry κ) : taken takes [e] = if takes e.no = true then [e]
    else [] := by
  unfold taken
  rw [List.filter_singleton]
  cases takes e.no <;> rfl

theorem mem_of_mem_settled {e : Entry κ} (he : e ∈ settled takes s) : e ∈ s.queue ∨ e ∈ s.staged :=
  (List.mem_append.1 he).imp_right fun h => (mem_taken.1 h).1

theorem Numbered.step (h : Numbered s) (op : Op κ) : Numbered (step takes s op) := by
  cases op with
  | stage keys =>
    rintro e (he | he)
    · exact Nat.lt_succ_of_lt (h e (Or.inl he))
    · rcases List.mem_append.1 he with he | he
      · exact Nat.lt_succ_of_lt (h e (Or.inr he))
      · rw [List.mem_singleton.1 he]
        exact Nat.lt_succ_self _
  | direct keys =>
    rintro e (he | he)
    · rcases List.mem_append.1 he with he | he
      · exact Nat.lt_succ_of_lt (h e (Or.inl he))
      · rw [List.mem_singleton.1 (mem_taken.1 he).1]
        exact Nat.lt_succ_self _
    · exact Nat.lt_succ_of_lt (h e (Or.inr he))
  | flush =>
    rintro e (he | he)
    · exact h e (mem_of_mem_settled he)
    · exact absurd he List.not_mem_nil

theorem Numbered.foldl (h : Numbered s) (ops : List (Op κ)) :
    Numbered (ops.foldl (Staging.step takes) s) := by
  induction ops generalizing s with
  | nil => exact h
  | cons op ops ih => exact ih (h.step op)

theorem numbered_start : Numbered (start : Stage κ) := by
  rintro e (he | he) <;> exact absurd he List.not_mem_nil

/-! ## What a step adds -/

theorem settled_stage (keys : List κ) :
    settled takes (step takes s (.stage keys)) =
      settled takes s ++ taken takes [⟨s.next, keys⟩] := by
  show s.queue ++ taken takes (s.staged ++ [⟨s.next, keys⟩]) = _
  unfold settled taken
  rw [List.filter_append, List.append_assoc]

/-- A direct entry comes between the queue and the stage. -/
theorem settled_direct (keys : List κ) :
    settled takes (step takes s (.direct keys)) =
      s.queue ++ taken takes [⟨s.next, keys⟩] ++ taken takes s.staged := rfl

theorem settled_flush : settled takes (step takes s .flush) = settled takes s := List.append_nil _

variable [DecidableEq κ]

/-- A new entry at the end. -/
theorem pairwise_concat {l : List (Entry κ)} {e : Entry κ} {k : κ} (hno : ∀ a ∈ l, a.no < e.no)
    (h : (l.filter fun a => k ∈ a.keys).Pairwise fun a b => a.no < b.no) :
    ((l ++ taken takes [e]).filter fun a => k ∈ a.keys).Pairwise fun a b => a.no < b.no := by
  rw [List.filter_append]
  refine List.pairwise_append.2 ⟨h, ?_, ?_⟩
  · rw [taken_singleton]
    refine List.Pairwise.filter _ ?_
    split_ifs
    · exact List.pairwise_singleton _ _
    · exact List.Pairwise.nil
  · intro a ha b hb
    rw [List.mem_singleton.1 (mem_taken.1 (List.mem_filter.1 hb).1).1]
    exact hno a (List.mem_filter.1 ha).1

theorem InOrder.step (h : InOrder takes s) (hn : Numbered s) {op : Op κ} (hop : Behind takes s op) :
    InOrder takes (step takes s op) := by
  intro k
  cases op with
  | stage keys =>
    rw [settled_stage]
    exact pairwise_concat (fun a ha => hn a (mem_of_mem_settled ha)) (h k)
  | flush =>
    rw [settled_flush]
    exact h k
  | direct keys =>
    rw [settled_direct]
    by_cases hk : takes s.next = true ∧ k ∈ keys
    · -- nothing on the stage has the key
      have hnone : (taken takes s.staged).filter (fun e => k ∈ e.keys) = [] := by
        refine List.filter_eq_nil_iff.2 fun e he hke => ?_
        exact hop hk.1 e he k hk.2 (of_decide_eq_true hke)
      have hqueue : (s.queue.filter fun e => k ∈ e.keys).Pairwise fun a b => a.no < b.no := by
        have hall := h k
        unfold settled at hall
        rw [List.filter_append] at hall
        exact (List.pairwise_append.1 hall).1
      rw [List.filter_append, hnone, List.append_nil]
      exact pairwise_concat (fun a ha => hn a (Or.inl ha)) hqueue
    · -- the new entry is dropped, or has not the key
      have hnone : (taken takes [(⟨s.next, keys⟩ : Entry κ)]).filter (fun e => k ∈ e.keys) =
          [] := by
        refine List.filter_eq_nil_iff.2 fun e he hke => hk ?_
        obtain ⟨hmem, htake⟩ := mem_taken.1 he
        obtain rfl := List.mem_singleton.1 hmem
        exact ⟨htake, of_decide_eq_true hke⟩
      rw [List.filter_append, List.filter_append, hnone, List.append_nil, ← List.filter_append]
      exact h k

/-- An entry that goes past a staged one is out of order. -/
theorem behind_of_inOrder (hn : Numbered s) {op : Op κ} (h : InOrder takes (step takes s op)) :
    Behind takes s op := by
  cases op with
  | stage keys => trivial
  | flush => trivial
  | direct keys =>
    intro htake e he k hk hke
    have hall := h k
    rw [settled_direct, taken_singleton, if_pos htake, List.filter_append, List.filter_append]
      at hall
    have hnew : (⟨s.next, keys⟩ : Entry κ) ∈ [(⟨s.next, keys⟩ : Entry κ)].filter
        (fun e => k ∈ e.keys) :=
      List.mem_filter.2 ⟨List.mem_singleton_self _, decide_eq_true hk⟩
    have hold : e ∈ (taken takes s.staged).filter fun e => k ∈ e.keys :=
      List.mem_filter.2 ⟨he, decide_eq_true hke⟩
    have hlt : s.next < e.no :=
      (List.pairwise_append.1 hall).2.2 _ (List.mem_append_right _ hnew) e hold
    exact Nat.lt_asymm hlt (hn e (Or.inr (mem_taken.1 he).1))

theorem inOrder_start : InOrder takes (start : Stage κ) := fun _ => List.Pairwise.nil

/-- What is in order after a step was so before. -/
theorem inOrder_of_step {op : Op κ} (h : InOrder takes (step takes s op)) : InOrder takes s := by
  intro k
  refine (h k).sublist (List.Sublist.filter _ ?_)
  cases op with
  | stage keys =>
    rw [settled_stage]
    exact List.sublist_append_left _ _
  | direct keys =>
    rw [settled_direct]
    exact (List.sublist_append_left _ _).append (List.Sublist.refl _)
  | flush =>
    rw [settled_flush]

theorem inOrder_of_foldl {ops : List (Op κ)} (h : InOrder takes (ops.foldl (step takes) s)) :
    InOrder takes s := by
  induction ops generalizing s with
  | nil => exact h
  | cons op ops ih => exact inOrder_of_step (ih h)

/-- The entries of every key stay in order if and only if no entry goes past a staged one with a
common key. -/
theorem inOrder_iff (hn : Numbered s) (h : InOrder takes s) {ops : List (Op κ)} :
    InOrder takes (ops.foldl (step takes) s) ↔ Allowed (step takes) (Behind takes) s ops := by
  induction ops generalizing s with
  | nil => exact iff_of_true h trivial
  | cons op ops ih =>
    constructor
    · intro hall
      have hop : Behind takes s op := behind_of_inOrder hn (inOrder_of_foldl hall)
      exact ⟨hop, (ih (hn.step op) (h.step hn hop)).1 hall⟩
    · rintro ⟨hop, hops⟩
      exact (ih (hn.step op) (h.step hn hop)).2 hops

end Staging
