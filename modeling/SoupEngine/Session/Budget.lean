import SoupEngine.Session.Operations
import SoupEngine.Lib.RateWindow
import SoupEngine.Lib.TransitionSystem

/-!
# The budget of a session

`check_budget` keeps the admissions of the last second. In every period of a second the admitted
bytes are within the budget if and only if no sum of bytes overflows so far that it seems small
again (`budgeted_iff`).
-/

namespace SoupEngine

open RateWindow TransitionSystem

/-- A call of `check_budget`. -/
structure BudgetCall where
  bytes : U64
  now : Instant
  deriving DecidableEq

namespace BudgetCall

def size (x : BudgetCall) : ℕ := x.bytes.toNat

/-- What the window keeps of an admission. -/
def entry (x : BudgetCall) : Instant × U64 := (x.now, x.bytes)

end BudgetCall

/-- A second. -/
abbrev SECOND : Duration := Duration.fromSecs 1

/-- Bytes in a second. -/
def budgetBytes (kbps : U16) : ℕ := kbps.toNat * 125

namespace Session

/-- The session after a call. -/
def check (s : Session) (x : BudgetCall) : Session := (s.checkBudget x.bytes x.now).1

/-- The calls that return `true`. -/
def admitted (s : Session) : List BudgetCall → List BudgetCall
  | [] => []
  | x :: xs =>
    (if (s.checkBudget x.bytes x.now).2 = true then [x] else []) ++ (s.check x).admitted xs

/-- The bytes that the window counts at a time. -/
def used (s : Session) (now : Instant) : ℕ :=
  ((s.bytesWindow.filter fun e => now < e.1 + SECOND).map fun e => e.2.toNat).sum

/-- The sum of bytes does not overflow. -/
def Sums (s : Session) (x : BudgetCall) : Prop := s.used x.now + x.size < 2 ^ 64

instance (s : Session) (x : BudgetCall) : Decidable (s.Sums x) := by
  unfold Sums
  infer_instance

/-- The admitted bytes of every period of a second are within the budget, and what is refused does
not fit into the second that ends with it. -/
structure Budgeted (s : Session) (kbps : U16) (calls : List BudgetCall) : Prop where
  starting : ∀ a, load BudgetCall.now BudgetCall.size (fun t => a ≤ t ∧ t < a + SECOND)
    (s.admitted calls) ≤ budgetBytes kbps
  ending : ∀ a, load BudgetCall.now BudgetCall.size (fun t => a < t ∧ t ≤ a + SECOND)
    (s.admitted calls) ≤ budgetBytes kbps
  refused : ∀ xs x ys, calls = xs ++ x :: ys →
    ((xs.foldl check s).checkBudget x.bytes x.now).2 = false →
    budgetBytes kbps <
      load BudgetCall.now BudgetCall.size (fun t => x.now < t + SECOND ∧ t ≤ x.now)
        (s.admitted xs) + x.size

section Calls

variable {s : Session} {kbps : U16} {calls xs : List BudgetCall} {x : BudgetCall} {now : Instant}

theorem admitted_append (s : Session) (xs ys : List BudgetCall) :
    s.admitted (xs ++ ys) = s.admitted xs ++ (xs.foldl check s).admitted ys := by
  induction xs generalizing s with
  | nil => rfl
  | cons x xs ih =>
    show _ ++ (s.check x).admitted (xs ++ ys) = (_ ++ (s.check x).admitted xs) ++ _
    rw [ih, List.append_assoc]
    rfl

theorem admitted_concat (s : Session) (xs : List BudgetCall) (x : BudgetCall) :
    s.admitted (xs ++ [x]) =
      s.admitted xs ++ if ((xs.foldl check s).checkBudget x.bytes x.now).2 = true then [x]
      else [] := by
  rw [admitted_append]
  show _ ++ (_ ++ []) = _
  rw [List.append_nil]

theorem admitted_sublist (s : Session) (calls : List BudgetCall) :
    (s.admitted calls).Sublist calls := by
  induction calls generalizing s with
  | nil => exact List.Sublist.refl []
  | cons x xs ih =>
    show ((if _ then [x] else []) ++ _).Sublist (x :: xs)
    split_ifs
    · exact (ih _).cons_cons x
    · exact (ih _).cons x

theorem budgetKbps_check (s : Session) (x : BudgetCall) :
    (s.check x).budgetKbps = s.budgetKbps := by
  unfold check checkBudget
  split
  · rfl
  · dsimp only
    split_ifs
    · rfl
    · rfl

theorem budgetKbps_foldl (s : Session) (xs : List BudgetCall) :
    (xs.foldl check s).budgetKbps = s.budgetKbps := by
  induction xs generalizing s with
  | nil => rfl
  | cons x xs ih => exact (ih (s.check x)).trans (budgetKbps_check s x)

theorem toNat_sum (l : List U64) : l.sum.toNat = (l.map BitVec.toNat).sum % 2 ^ 64 := by
  induction l with
  | nil => rfl
  | cons b l ih =>
    calc (b :: l).sum.toNat = (b.toNat + l.sum.toNat) % 2 ^ 64 := by
          rw [List.sum_cons, BitVec.toNat_add]
      _ = (b.toNat + (l.map BitVec.toNat).sum) % 2 ^ 64 := by rw [ih, Nat.add_mod_mod]
      _ = ((b :: l).map BitVec.toNat).sum % 2 ^ 64 := by rw [List.map_cons, List.sum_cons]

theorem le_sub_iff {w : ℕ} (hw : 0 < w) (n t : ℕ) : w ≤ n - t ↔ ¬ n < t + w := by omega

/-- What is taken from the front of a window in the order of time. -/
theorem dropWhile_window {l : List (Instant × U64)} (h : l.Pairwise fun e f => e.1 ≤ f.1)
    (now : Instant) :
    (l.dropWhile fun e => decide (SECOND ≤ now - e.1)) = l.filter fun e => now < e.1 + SECOND := by
  have hold : (fun e : Instant × U64 => decide (SECOND ≤ now - e.1)) =
      fun e => !decide (now < e.1 + SECOND) := by
    funext e
    rw [← decide_not]
    exact decide_eq_decide.2 (le_sub_iff (by decide) now e.1)
  rw [hold]
  exact dropWhile_eq_recent h

/-- What a call does, with a window in the order of time. -/
theorem checkBudget_spec (hb : s.budgetKbps = some kbps)
    (hw : s.bytesWindow.Pairwise fun e f => e.1 ≤ f.1) (x : BudgetCall) :
    ((s.checkBudget x.bytes x.now).2 = true ↔ (s.used x.now + x.size) % 2 ^ 64 ≤ budgetBytes kbps) ∧
      (s.check x).bytesWindow = (s.bytesWindow.filter fun e => x.now < e.1 + SECOND) ++
        if (s.checkBudget x.bytes x.now).2 = true then [x.entry] else [] := by
  have hbudget : (kbps.setWidth 64 * 125 : U64).toNat = budgetBytes kbps := by
    have hlt := kbps.isLt
    rw [BitVec.toNat_mul, BitVec.toNat_setWidth]
    show kbps.toNat % 2 ^ 64 * 125 % 2 ^ 64 = kbps.toNat * 125
    omega
  have hsum : (((s.bytesWindow.filter fun e => x.now < e.1 + SECOND).map
      Prod.snd).sum + x.bytes).toNat = (s.used x.now + x.size) % 2 ^ 64 := by
    rw [BitVec.toNat_add, toNat_sum, List.map_map, Nat.mod_add_mod]
    rfl
  have heq : s.checkBudget x.bytes x.now =
      if (kbps.setWidth 64 * 125 : U64) <
          ((s.bytesWindow.filter fun e => x.now < e.1 + SECOND).map Prod.snd).sum + x.bytes then
        ({ s with bytesWindow := s.bytesWindow.filter fun e => x.now < e.1 + SECOND }, false)
      else
        ({ s with bytesWindow := (s.bytesWindow.filter fun e => x.now < e.1 + SECOND) ++
          [(x.now, x.bytes)] }, true) := by
    unfold checkBudget
    rw [hb]
    dsimp only
    rw [dropWhile_window hw]
  unfold check
  split_ifs at heq with hover
  · have hlt := BitVec.lt_def.1 hover
    rw [hbudget, hsum] at hlt
    have hno : (s.checkBudget x.bytes x.now).2 = false := congrArg Prod.snd heq
    rw [congrArg Prod.fst heq, hno]
    exact ⟨iff_of_false nofun (not_le.2 hlt), (List.append_nil _).symm⟩
  · have hle := BitVec.not_lt.1 hover
    rw [BitVec.le_def, hbudget, hsum] at hle
    have hok : (s.checkBudget x.bytes x.now).2 = true := congrArg Prod.snd heq
    rw [congrArg Prod.fst heq, hok]
    exact ⟨iff_of_true rfl hle, rfl⟩

/-- The window after calls in the order of time holds what has been admitted in the last second. -/
structure Windowed (s : Session) (xs : List BudgetCall) (s' : Session) : Prop where
  sorted : s'.bytesWindow.Pairwise fun e f => e.1 ≤ f.1
  recent : ∀ n, (∀ x ∈ xs, x.now ≤ n) → (s'.bytesWindow.filter fun e => n < e.1 + SECOND) =
    (recent BudgetCall.now SECOND n (s.admitted xs)).map BudgetCall.entry

theorem filter_entries (n : Instant) (xs : List BudgetCall) :
    ((xs.map BudgetCall.entry).filter fun e => n < e.1 + SECOND) =
      (recent BudgetCall.now SECOND n xs).map BudgetCall.entry := by
  rw [List.filter_map]
  rfl

theorem windowed_foldl (hb : s.budgetKbps = some kbps) (hempty : s.bytesWindow = [])
    (h : Timely BudgetCall.now xs) : Windowed s xs (xs.foldl check s) := by
  induction xs using List.reverseRecOn with
  | nil =>
    refine ⟨?_, fun n _ => ?_⟩
    · show s.bytesWindow.Pairwise _
      rw [hempty]
      exact List.Pairwise.nil
    · show s.bytesWindow.filter _ = _
      rw [hempty]
      rfl
  | append_singleton xs x ih =>
    have hxs := ih h.left
    have hle := h.le_last
    have hspec := (checkBudget_spec ((budgetKbps_foldl s xs).trans hb) hxs.sorted x).2
    rw [hxs.recent x.now hle] at hspec
    have hwindow : ((xs ++ [x]).foldl check s).bytesWindow =
        ((recent BudgetCall.now SECOND x.now (s.admitted xs)) ++
          if ((xs.foldl check s).checkBudget x.bytes x.now).2 = true then [x]
              else []).map BudgetCall.entry := by
      rw [List.foldl_append, List.map_append, apply_ite (List.map BudgetCall.entry)]
      exact hspec
    have hsub : ((recent BudgetCall.now SECOND x.now (s.admitted xs)) ++
        if ((xs.foldl check s).checkBudget x.bytes x.now).2 = true then [x]
            else []).Sublist (xs ++ [x]) := by
      refine (List.filter_sublist.trans (admitted_sublist s xs)).append ?_
      split_ifs
      · exact List.Sublist.refl _
      · exact List.nil_sublist _
    refine ⟨?_, fun n hn => ?_⟩
    · rw [hwindow]
      exact List.pairwise_map.2 (h.sublist hsub)
    · have hxn : x.now ≤ n := hn x (List.mem_append_right xs (List.mem_singleton_self x))
      rw [hwindow, filter_entries, admitted_concat]
      unfold recent
      rw [List.filter_append, List.filter_append]
      congr 2
      exact recent_recent hxn

/-- What a call counts after calls in the order of time. -/
theorem used_foldl (hb : s.budgetKbps = some kbps) (hempty : s.bytesWindow = [])
    (h : Timely BudgetCall.now (xs ++ [x])) : (xs.foldl check s).used x.now =
      ((recent BudgetCall.now SECOND x.now (s.admitted xs)).map BudgetCall.size).sum := by
  unfold used
  rw [(windowed_foldl hb hempty h.left).recent x.now h.le_last, List.map_map]
  rfl

/-- The second that ends with a call, as one that starts. -/
theorem load_second (h : ∀ y ∈ xs, y.now ≤ now) :
    ((recent BudgetCall.now SECOND now xs).map BudgetCall.size).sum ≤
      load BudgetCall.now BudgetCall.size
        (fun t => now + 1 - SECOND ≤ t ∧ t < now + 1 - SECOND + SECOND) xs := by
  rw [← load_eq_recent]
  refine load_mono fun y hy hrecent => ?_
  have hle := h y hy
  exact ⟨Nat.sub_le_iff_le_add.2 hrecent, Nat.lt_of_lt_of_le (Nat.lt_succ_of_le hle) (le_tsub_add)⟩

theorem used_le (hb : s.budgetKbps = some kbps) (hempty : s.bytesWindow = [])
    (h : Timely BudgetCall.now (xs ++ [x]))
    (hstart : ∀ a, load BudgetCall.now BudgetCall.size (fun t => a ≤ t ∧ t < a + SECOND)
      (s.admitted xs) ≤ budgetBytes kbps) : (xs.foldl check s).used x.now ≤ budgetBytes kbps := by
  rw [used_foldl hb hempty h]
  refine (load_second fun y hy => ?_).trans (hstart _)
  exact h.le_last y ((admitted_sublist s xs).subset hy)

theorem budgetBytes_lt (kbps : U16) : budgetBytes kbps < 2 ^ 24 := by
  have hlt := kbps.isLt
  unfold budgetBytes
  omega

/-- Without overflow the admissions are limited. -/
theorem limited_of_allowed (hb : s.budgetKbps = some kbps) (hempty : s.bytesWindow = [])
    (h : Timely BudgetCall.now xs) (hallowed : Allowed check Sums s xs) :
    Limited BudgetCall.now BudgetCall.size SECOND (budgetBytes kbps) (s.admitted xs) := by
  induction xs using List.reverseRecOn with
  | nil => exact fun as x bs heq => absurd (congrArg List.length heq) (by simp [admitted])
  | append_singleton xs x ih =>
    obtain ⟨hxs, hx⟩ := allowed_concat.1 hallowed
    have hspec := (checkBudget_spec ((budgetKbps_foldl s xs).trans hb)
      (windowed_foldl hb hempty h.left).sorted x).1
    rw [admitted_concat]
    split_ifs with hok
    · refine (ih h.left hxs).concat ?_
      have hle := hspec.1 hok
      rw [Nat.mod_eq_of_lt hx, used_foldl hb hempty h] at hle
      exact hle
    · rw [List.append_nil]
      exact ih h.left hxs

/-- What does not fit is all that is refused. -/
theorem refused_of_timely (hb : s.budgetKbps = some kbps) (hempty : s.bytesWindow = [])
    (h : Timely BudgetCall.now (xs ++ [x]))
    (hno : ((xs.foldl check s).checkBudget x.bytes x.now).2 = false) :
    budgetBytes kbps <
      load BudgetCall.now BudgetCall.size (fun t => x.now < t + SECOND ∧ t ≤ x.now)
        (s.admitted xs) + x.size := by
  have hspec := (checkBudget_spec ((budgetKbps_foldl s xs).trans hb)
    (windowed_foldl hb hempty h.left).sorted x).1
  have hover : budgetBytes kbps < ((xs.foldl check s).used x.now + x.size) % 2 ^ 64 := by
    refine not_le.1 fun hle => ?_
    rw [hspec.2 hle] at hno
    cases hno
  have hused : (xs.foldl check s).used x.now ≤
      load BudgetCall.now BudgetCall.size (fun t => x.now < t + SECOND ∧ t ≤ x.now)
        (s.admitted xs) := by
    rw [used_foldl hb hempty h, ← load_eq_recent]
    exact load_mono fun y hy hrecent => ⟨hrecent, h.le_last y ((admitted_sublist s xs).subset hy)⟩
  calc budgetBytes kbps < ((xs.foldl check s).used x.now + x.size) % 2 ^ 64 := hover
    _ ≤ (xs.foldl check s).used x.now + x.size := Nat.mod_le _ _
    _ ≤ _ := Nat.add_le_add_right hused _

theorem budgeted_of_allowed (hb : s.budgetKbps = some kbps) (hempty : s.bytesWindow = [])
    (h : Timely BudgetCall.now calls) (hallowed : Allowed check Sums s calls) :
    Budgeted s kbps calls := by
  have hlim := limited_of_allowed hb hempty h hallowed
  have htimely : Timely BudgetCall.now (s.admitted calls) := h.sublist (admitted_sublist s calls)
  refine ⟨fun a => load_le htimely hlim ?_, fun a => load_le htimely hlim ?_,
    fun xs x ys heq hno => ?_⟩
  · exact fun t u ht hu => hu.2.trans_le (Nat.add_le_add_right ht.1 _)
  · exact fun t u ht hu => hu.2.trans_lt (Nat.add_lt_add_right ht.1 _)
  · have heq' : calls = (xs ++ [x]) ++ ys := by
      rw [heq, List.append_assoc]
      rfl
    exact refused_of_timely hb hempty (heq' ▸ h).left hno

theorem Budgeted.left {ys : List BudgetCall} (h : Budgeted s kbps (xs ++ ys)) :
    Budgeted s kbps xs := by
  have hle {P : ℕ → Prop} [DecidablePred P] :
      load BudgetCall.now BudgetCall.size P (s.admitted xs) ≤
      load BudgetCall.now BudgetCall.size P (s.admitted (xs ++ ys)) := by
    rw [admitted_append, load_append]
    exact Nat.le_add_right _ _
  refine ⟨fun a => hle.trans (h.starting a), fun a => hle.trans (h.ending a), fun as x bs heq => ?_⟩
  refine h.refused as x (bs ++ ys) ?_
  rw [heq, List.append_assoc]
  rfl

theorem allowed_of_budgeted (hb : s.budgetKbps = some kbps) (hempty : s.bytesWindow = [])
    (h : Timely BudgetCall.now calls) (hbudget : Budgeted s kbps calls) :
    Allowed check Sums s calls := by
  induction calls using List.reverseRecOn with
  | nil => trivial
  | append_singleton xs x ih =>
    refine allowed_concat.2 ⟨ih h.left hbudget.left, ?_⟩
    have hused := used_le hb hempty h hbudget.left.starting
    have hlt := budgetBytes_lt kbps
    have hsize : x.size < 2 ^ 64 := x.bytes.isLt
    have hspec := (checkBudget_spec ((budgetKbps_foldl s xs).trans hb)
      (windowed_foldl hb hempty h.left).sorted x).1
    unfold Sums
    by_contra hover
    -- the sum overflows and is small, so the call is admitted
    have hok : ((xs.foldl check s).checkBudget x.bytes x.now).2 = true := by
      refine hspec.2 ?_
      rw [Nat.mod_eq_sub_mod (not_lt.1 hover), Nat.mod_eq_of_lt (by omega)]
      omega
    have hload := hbudget.starting (x.now + 1 - SECOND)
    rw [admitted_concat, if_pos hok, load_append, load_singleton, if_pos] at hload
    · have hrecent := load_second fun y hy =>
        h.le_last y ((admitted_sublist s xs).subset hy)
      rw [← used_foldl hb hempty h] at hrecent
      omega
    · exact ⟨Nat.sub_le_iff_le_add.2 (Nat.succ_le_of_lt (Nat.lt_add_of_pos_right (by decide))),
        Nat.lt_of_lt_of_le (Nat.lt_succ_self _) (le_tsub_add)⟩

/-- Messages of real sizes do not overflow. -/
theorem budgeted_of_small (hb : s.budgetKbps = some kbps) (hempty : s.bytesWindow = [])
    (h : Timely BudgetCall.now calls) (hsmall : ∀ x ∈ calls, x.size < 2 ^ 63) :
    Budgeted s kbps calls := by
  refine budgeted_of_allowed hb hempty h ?_
  induction calls using List.reverseRecOn with
  | nil => trivial
  | append_singleton xs x ih =>
    have hxs := ih h.left fun y hy => hsmall y (List.mem_append_left [x] hy)
    have hused := used_le hb hempty h (budgeted_of_allowed hb hempty h.left hxs).starting
    have hlt := budgetBytes_lt kbps
    have hx := hsmall x (List.mem_append_right xs (List.mem_singleton_self x))
    refine allowed_concat.2 ⟨hxs, ?_⟩
    unfold Sums
    omega

end Calls

/-- **The budget.** For calls in the order of time on a session with a budget: in every period of a
second the admitted bytes are within the budget, and only what does not fit into the last second is
refused, if and only if no call makes the sum of bytes overflow. -/
theorem budgeted_iff (s : Session) (kbps : U16) (hb : s.budgetKbps = some kbps)
    (hempty : s.bytesWindow = []) (calls : List BudgetCall) (h : Timely BudgetCall.now calls) :
    Budgeted s kbps calls ↔ Allowed check Sums s calls :=
  ⟨allowed_of_budgeted hb hempty h, budgeted_of_allowed hb hempty h⟩

/-- A session with a budget of 8 kbit/s. -/
def slowSession : Session := { Session.create 1 1 (.V4 0 0) 0 [] 0 with budgetKbps := some 8 }

/-- Of two messages of 600 bytes one is admitted. -/
theorem budgeted_iff_two : Budgeted slowSession 8 [⟨600, 0⟩, ⟨600, 5⟩] :=
  (budgeted_iff slowSession 8 rfl rfl [⟨600, 0⟩, ⟨600, 5⟩] (by simp [Timely])).2 (by decide +kernel)

/-- A call with the largest number of bytes is admitted after one byte. -/
theorem budget_overflows : ¬ Budgeted slowSession 8 [⟨1, 0⟩, ⟨BitVec.allOnes 64, 0⟩] := by
  intro h
  have hload := h.starting 0
  exact absurd hload (by decide +kernel)

end Session

end SoupEngine
