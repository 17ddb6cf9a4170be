import Mathlib.Tactic

/-!
# Scripts

A script asks calls of its environment, and goes on with the answers until it is done or panics. An
environment that answers only part of the calls runs it (`run`); `Gives` is what it may come to with
any answers. A machine whose moves are scripts is driven over a list of inputs (`drive`, `Drives`).
Where the calls that are answered have only one possible answer, the two agree
(`drive_eq_some_iff`), and no other answers lead elsewhere (`Drives.unique`).
-/

/-- A computation that asks calls of `C`; the answers to `c` are of the type `R c`. -/
inductive Script {C : Type} (R : C → Type) (α : Type)
  | done (a : α)
  | panic
  | ask (c : C) (next : R c → Script R α)

namespace Script

variable {C α β σ ι : Type} {R : C → Type}

def map (f : α → β) : Script R α → Script R β
  | .done a => .done (f a)
  | .panic => .panic
  | .ask c next => .ask c fun r => (next r).map f

/-- The script in an environment; a call that is not answered is a panic. -/
def run (answer : (c : C) → Option (R c)) : Script R α → Option α
  | .done a => some a
  | .panic => none
  | .ask c next =>
    match answer c with
    | none => none
    | some r => (next r).run answer

/-- With some answers the script asks these calls and is done. -/
inductive Gives : Script R α → List C → α → Prop
  | done (a : α) : Gives (.done a) [] a
  | ask {c : C} {next : R c → Script R α} (r : R c) {asked : List C} {a : α}
    (h : Gives (next r) asked a) :
    Gives (.ask c next) (c :: asked) a

/-- A machine that is driven over inputs in an environment. -/
def drive (answer : (c : C) → Option (R c)) (move : σ → ι → Script R σ) : σ → List ι → Option σ
  | s, [] => some s
  | s, i :: is =>
    match (move s i).run answer with
    | none => none
    | some s => drive answer move s is

/-- With some answers the machine asks these calls over the inputs, and comes to this state. -/
inductive Drives (move : σ → ι → Script R σ) : σ → List ι → List C → σ → Prop
  | nil (s : σ) : Drives move s [] [] s
  | cons {s s' s'' : σ} {i : ι} {is : List ι} {asked asked' : List C}
    (h : (move s i).Gives asked s') (hrest : Drives move s' is asked' s'') :
    Drives move s (i :: is) (asked ++ asked') s''

variable {answer : (c : C) → Option (R c)} {move : σ → ι → Script R σ}

theorem drive_append (s : σ) (is js : List ι) :
    drive answer move s (is ++ js) = (drive answer move s is).bind fun s =>
      drive answer move s js := by
  induction is generalizing s with
  | nil => rfl
  | cons i is ih =>
    rw [List.cons_append, drive, drive]
    cases (move s i).run answer with
    | none => rfl
    | some t => exact ih t

theorem gives_of_run {p : Script R α} {a : α} (h : p.run answer = some a) :
    ∃ asked, p.Gives asked a ∧ ∀ c ∈ asked, (answer c).isSome := by
  induction p with
  | done b =>
    obtain rfl := Option.some.inj h
    exact ⟨[], .done b, List.forall_mem_nil _⟩
  | panic => cases h
  | ask c next ih =>
    unfold run at h
    cases hc : answer c with
    | none =>
      rw [hc] at h
      cases h
    | some r =>
      rw [hc] at h
      obtain ⟨asked, hgives, hall⟩ := ih r h
      refine ⟨c :: asked, .ask r hgives, List.forall_mem_cons.2 ⟨?_, hall⟩⟩
      rw [hc]
      rfl

section Determined

variable (hone : ∀ c, (answer c).isSome → Subsingleton (R c))
include hone

theorem run_of_gives {p : Script R α} {asked : List C} {a : α} (h : p.Gives asked a)
    (hall : ∀ c ∈ asked, (answer c).isSome) : p.run answer = some a := by
  induction h with
  | done a => rfl
  | @ask c next r asked a h ih =>
    obtain ⟨hc, hrest⟩ := List.forall_mem_cons.1 hall
    obtain ⟨r', hr'⟩ := Option.isSome_iff_exists.1 hc
    have hsame : r' = r := (hone c hc).elim r' r
    unfold run
    rw [hr', hsame]
    exact ih hrest

/-- Where only calls of one possible answer are asked, the script comes to nothing else. -/
theorem Gives.unique {p : Script R α} {asked asked' : List C} {a b : α} (h : p.Gives asked a)
    (hall : ∀ c ∈ asked, (answer c).isSome) (h' : p.Gives asked' b) : a = b := by
  induction h generalizing asked' with
  | done a =>
    cases h'
    rfl
  | @ask c next r asked a h ih =>
    obtain ⟨hc, hrest⟩ := List.forall_mem_cons.1 hall
    cases h' with
    | ask r' h' =>
      obtain rfl : r' = r := (hone c hc).elim r' r
      exact ih hrest h'

/-- A machine gets through its inputs exactly if it asks nothing but what is answered. -/
theorem drive_eq_some_iff {s s' : σ} {is : List ι} :
    drive answer move s is = some s' ↔
      ∃ asked, Drives move s is asked s' ∧ ∀ c ∈ asked, (answer c).isSome := by
  constructor
  · intro h
    induction is generalizing s with
    | nil =>
      obtain rfl := Option.some.inj h
      exact ⟨[], .nil s, List.forall_mem_nil _⟩
    | cons i is ih =>
      unfold drive at h
      cases hrun : (move s i).run answer with
      | none =>
        rw [hrun] at h
        cases h
      | some t =>
        rw [hrun] at h
        obtain ⟨asked, hgives, hall⟩ := gives_of_run hrun
        obtain ⟨asked', hdrives, hall'⟩ := ih h
        exact ⟨asked ++ asked', .cons hgives hdrives, List.forall_mem_append.2 ⟨hall, hall'⟩⟩
  · rintro ⟨asked, h, hall⟩
    induction h with
    | nil s => rfl
    | cons h hrest ih =>
      obtain ⟨hfirst, hlast⟩ := List.forall_mem_append.1 hall
      unfold drive
      rw [run_of_gives hone h hfirst]
      exact ih hlast

theorem Drives.unique {s t t' : σ} {is : List ι} {asked asked' : List C}
    (h : Drives move s is asked t) (hall : ∀ c ∈ asked, (answer c).isSome)
    (h' : Drives move s is asked' t') : t = t' := by
  induction h generalizing asked' with
  | nil s =>
    cases h'
    rfl
  | cons h hrest ih =>
    obtain ⟨hfirst, hlast⟩ := List.forall_mem_append.1 hall
    cases h' with
    | cons h' hrest' =>
      obtain rfl := h.unique hone hfirst h'
      exact ih hlast hrest'

end Determined

/-- Inputs that leave the machine as it is can be left out. -/
theorem Drives.filter {P : ι → Bool}
    (hidle : ∀ (s : σ) (i : ι) (asked : List C) (s' : σ), P i = false →
      (move s i).Gives asked s' → s' = s)
    {s s' : σ} {is : List ι} {asked : List C} (h : Drives move s is asked s') :
    ∃ asked', Drives move s (is.filter P) asked' s' ∧ ∀ c ∈ asked', c ∈ asked := by
  induction h with
  | nil s => exact ⟨[], .nil s, fun c hc => hc⟩
  | @cons s t s' i is asked rest h hrest ih =>
    obtain ⟨asked', hdrives, hsub⟩ := ih
    by_cases hi : P i = true
    · rw [List.filter_cons_of_pos hi]
      refine ⟨asked ++ asked', .cons h hdrives, fun c hc => ?_⟩
      rcases List.mem_append.1 hc with hc | hc
      · exact List.mem_append_left rest hc
      · exact List.mem_append_right asked (hsub c hc)
    · rw [List.filter_cons_of_neg hi]
      obtain rfl := hidle s i asked t (Bool.eq_false_of_not_eq_true hi) h
      exact ⟨asked', hdrives, fun c hc => List.mem_append_right asked (hsub c hc)⟩

end Script
