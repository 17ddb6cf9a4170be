import Mathlib.Tactic

/-!
# Reading exactly so many symbols

A stream comes in pieces, and ends with an empty piece or after the last one. `readExact n` takes
`n` symbols off it or fails. What it reads depends on what arrives before the end, not on how that
is cut into pieces (`readExact_of_le`, `readExact_of_lt`).
-/

namespace ExactRead

variable {α : Type*}

/-- The symbols that come before the end of the stream. -/
def arrived : List (List α) → List α
  | [] => []
  | [] :: _ => []
  | (a :: piece) :: pieces => a :: piece ++ arrived pieces

/-- Take `n` symbols off the stream. -/
def readExact (n : ℕ) : List (List α) → Option (List α × List (List α))
  | [] => if n = 0 then some ([], []) else none
  | piece :: pieces =>
    if n = 0 then some ([], piece :: pieces)
    else if piece.length = 0 then none
    else if n < piece.length then some (piece.take n, piece.drop n :: pieces)
    else (readExact (n - piece.length) pieces).map fun r => (piece ++ r.1, r.2)

theorem arrived_cons {piece : List α} (h : piece ≠ []) (pieces : List (List α)) :
    arrived (piece :: pieces) = piece ++ arrived pieces := by
  cases piece with
  | nil => exact absurd rfl h
  | cons a piece => rfl

theorem length_arrived_le (pieces : List (List α)) :
    (arrived pieces).length ≤ pieces.flatten.length := by
  induction pieces with
  | nil => exact le_rfl
  | cons piece pieces ih =>
    cases piece with
    | nil => exact Nat.zero_le _
    | cons a piece =>
      rw [arrived_cons (List.cons_ne_nil a piece), List.flatten_cons, List.length_append,
        List.length_append]
      exact Nat.add_le_add_left ih _

/-- Enough arrives: the first symbols are read, and the others are left. -/
theorem readExact_of_le {pieces : List (List α)} {n : ℕ} (h : n ≤ (arrived pieces).length) :
    ∃ rest, readExact n pieces = some ((arrived pieces).take n, rest) ∧
      arrived rest = (arrived pieces).drop n := by
  induction pieces generalizing n with
  | nil =>
    obtain rfl : n = 0 := Nat.le_zero.1 h
    exact ⟨[], if_pos rfl, rfl⟩
  | cons piece pieces ih =>
    unfold readExact
    by_cases hn : n = 0
    · subst hn
      exact ⟨piece :: pieces, if_pos rfl, rfl⟩
    have hne : piece ≠ [] := by
      rintro rfl
      exact hn (Nat.le_zero.1 h)
    have hlen : piece.length ≠ 0 := fun h0 => hne (List.length_eq_zero_iff.1 h0)
    rw [arrived_cons hne, List.length_append] at h
    rw [if_neg hn, if_neg hlen, arrived_cons hne]
    by_cases hlt : n < piece.length
    · refine ⟨piece.drop n :: pieces, ?_, ?_⟩
      · rw [if_pos hlt, List.take_append_of_le_length hlt.le]
      · have hdrop : piece.drop n ≠ [] := List.drop_eq_nil_iff.not.2 (by omega)
        rw [arrived_cons hdrop, List.drop_append_of_le_length hlt.le]
    · obtain ⟨rest, hread, hrest⟩ := ih (n := n - piece.length) (by omega)
      refine ⟨rest, ?_, ?_⟩
      · rw [if_neg hlt, hread, Option.map_some, List.take_append,
          List.take_of_length_le (not_lt.1 hlt)]
      · rw [hrest, List.drop_append, List.drop_of_length_le (not_lt.1 hlt), List.nil_append]

/-- Less arrives: the read fails. -/
theorem readExact_of_lt {pieces : List (List α)} {n : ℕ} (h : (arrived pieces).length < n) :
    readExact n pieces = none := by
  induction pieces generalizing n with
  | nil => exact if_neg (by omega)
  | cons piece pieces ih =>
    unfold readExact
    rw [if_neg (by omega)]
    by_cases hlen : piece.length = 0
    · exact if_pos hlen
    have hne : piece ≠ [] := fun h0 => hlen (List.length_eq_zero_iff.2 h0)
    rw [arrived_cons hne, List.length_append] at h
    rw [if_neg hlen, if_neg (by omega), ih (by omega), Option.map_none]

end ExactRead
