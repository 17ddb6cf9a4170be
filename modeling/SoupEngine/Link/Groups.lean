import SoupEngine.Lib.Sparse
import SoupEngine.Link.Assembled

/-!
# Group ids

The fragmented calls are numbered in the order they are made; the group id is this number modulo
`2 ^ 16` (`Grouped`). While no call fails, every call has all its numbers and at most 64 fragments
(`Whole`), so that calls whose first numbers are less than `2 ^ 16` apart have different group ids
(`call_eq_of_group`).
-/

namespace SoupEngine

open Sparse

namespace Link

/-- Number `i` is the first one of a fragmented call. -/
def StartsGroup (l : Link) (i : ℕ) : Prop :=
  ∃ e ∈ l.log[i]?, e.call.first = i ∧ e.call.Fragmented

instance (l : Link) : DecidablePred l.StartsGroup := by
  intro i
  unfold StartsGroup
  infer_instance

/-- How many fragmented calls have their first number before `i`. -/
def groups (l : Link) (i : ℕ) : ℕ := Nat.count l.StartsGroup i

structure Grouped (l : Link) : Prop where
  next : l.a.fragGroupId = BitVec.ofNat 16 (l.groups l.log.length)
  group : ∀ (i : ℕ) (e : Sent), l.log[i]? = some e → e.call.Fragmented →
    e.call.groupId = BitVec.ofNat 16 (l.groups e.call.first)

/-- Every call has all its numbers. -/
structure Whole (l : Link) : Prop where
  datagram : ∀ (i : ℕ) (e : Sent), l.log[i]? = some e → e.datagram.isSome
  count : ∀ (i : ℕ) (e : Sent), l.log[i]? = some e → e.call.count ≤ 64 ∨ ¬ e.call.Fragmented
  numbers : ∀ (i : ℕ) (e : Sent), l.log[i]? = some e →
    ∀ j < e.call.count, l.Numbered e.call (e.call.first + j)

variable {hmac4 : Hmac} {cfg : SessionTableConfig} {l l' : Link} {c : Call} {i : ℕ}

theorem grouped_start (a b : Opening) : Grouped (start a b) where
  next := rfl
  group i e he := by cases he

theorem whole_start (a b : Opening) : Whole (start a b) where
  datagram i e he := by cases he
  count i e he := by cases he
  numbers i e he := by cases he

/-- A longer log has the same groups where it agrees. -/
theorem groups_congr {n : ℕ} (h : ∀ i < n, l'.log[i]? = l.log[i]?) : l'.groups n = l.groups n := by
  unfold groups
  induction n with
  | zero => rfl
  | succ n ih =>
    have hn : l'.StartsGroup n ↔ l.StartsGroup n := by
      unfold StartsGroup
      rw [h n (Nat.lt_succ_self n)]
    rw [Nat.count_succ, Nat.count_succ, ih fun i hi => h i (Nat.lt_succ_of_lt hi)]
    simp only [hn]

section Send

variable {m taken : ℕ} {datagram : ℕ → Bytes}

theorem grouped_send (hw : Wired cfg l) (h : Grouped l)
    (hs : SendSpec hmac4 cfg l l' c m taken datagram) (hc : c.first = l.log.length)
    (hg : c.groupId = l.a.fragGroupId) (ht : 0 < taken) : Grouped l' := by
  have hold : l'.groups l.log.length = l.groups l.log.length :=
    groups_congr fun i hi => hs.log_old hi
  have hfirst : l'.StartsGroup l.log.length ↔ c.Fragmented := by
    unfold StartsGroup
    have hnew := hs.log_new (j := 0) ht
    rw [Nat.add_zero] at hnew
    rw [hnew]
    constructor
    · rintro ⟨e, he, -, hf⟩
      cases he
      exact hf
    · exact fun hf => ⟨_, rfl, hc, hf⟩
  have hrest : ∀ j, 0 < j → j < taken → ¬ l'.StartsGroup (l.log.length + j) := by
    rintro j hpos hj ⟨e, he, hfe, -⟩
    rw [hs.log_new hj] at he
    cases he
    have : c.first = l.log.length + j := hfe
    omega
  have hcount : ∀ t, t < taken → l'.groups (l.log.length + (t + 1)) =
      l.groups l.log.length + if c.Fragmented then 1 else 0 := by
    intro t
    induction t with
    | zero =>
      intro _
      show Nat.count _ (l.log.length + 1) = _
      rw [Nat.count_succ]
      show l'.groups _ + _ = _
      rw [hold]
      simp only [hfirst]
    | succ t ih =>
      intro hlt
      show Nat.count _ (l.log.length + (t + 1) + 1) = _
      rw [Nat.count_succ, if_neg (hrest (t + 1) (by omega) hlt), Nat.add_zero]
      exact ih (by omega)
  refine ⟨?_, fun i e he hf => ?_⟩
  · have hn := hcount (taken - 1) (by omega)
    rw [show taken - 1 + 1 = taken by omega] at hn
    rw [hs.length_log, hs.groupId, hn, h.next]
    split_ifs
    · exact (BitVec.ofNat_add _ _).symm
    · rfl
  · rcases hs.log_cases he with ⟨hi, he⟩ | ⟨j, -, -, rfl⟩
    · have hle : e.call.first ≤ i := (hw.number i e he).1
      rw [groups_congr fun k hk => hs.log_old (by omega)]
      exact h.group i e he hf
    · show c.groupId = BitVec.ofNat 16 (l'.groups c.first)
      rw [hg, hc, hold, h.next]

theorem whole_send (h : Whole l) (hs : SendSpec hmac4 cfg l l' c m taken datagram)
    (hc : c.first = l.log.length) (hfail : l'.failed = false) : Whole l' := by
  rcases hs.outcome with ⟨hm, rfl, -⟩ | ⟨-, -, hbad, -⟩
  swap
  · rw [hfail] at hbad
    cases hbad
  refine ⟨fun i e he => ?_, fun i e he => ?_, fun i e he j hj => ?_⟩
  · rcases hs.log_cases he with ⟨-, he⟩ | ⟨j, hj, -, rfl⟩
    · exact h.datagram i e he
    · show (if j < taken then some (datagram j) else none).isSome = true
      rw [if_pos hj]
      rfl
  · rcases hs.log_cases he with ⟨-, he⟩ | ⟨j, hj, -, rfl⟩
    · exact h.count i e he
    · by_cases hf : c.Fragmented
      · left
        have hroom := hs.room 0 (by rw [hf.1]; rfl) (by omega)
        have hcap : RETRANSMIT_QUEUE_CAP = 64 := rfl
        show c.count ≤ 64
        omega
      · exact Or.inr hf
  · rcases hs.log_cases he with ⟨hi, he⟩ | ⟨k, -, -, rfl⟩
    · obtain ⟨e', he', hce⟩ := h.numbers i e he j hj
      exact ⟨e', by rw [hs.log_old (List.getElem?_eq_some_iff.1 he').1]; exact he', hce⟩
    · have hj' : j < c.count := hj
      show l'.Numbered c (c.first + j)
      rw [hc]
      exact ⟨_, hs.log_new (by omega), rfl⟩

end Send

/-! ## Every run -/

theorem Grouped.congr (h : Grouped l) (hl : l'.log = l.log)
    (hg : l'.a.fragGroupId = l.a.fragGroupId) : Grouped l' := by
  have hgroups : ∀ n, l'.groups n = l.groups n := fun n => groups_congr fun i _ => by rw [hl]
  refine ⟨by rw [hg, hl, hgroups]; exact h.next, fun i e he hf => ?_⟩
  rw [hl] at he
  rw [hgroups]
  exact h.group i e he hf

theorem Whole.congr (h : Whole l) (hl : l'.log = l.log) : Whole l' := by
  refine ⟨?_, ?_, ?_⟩
  · rw [hl]; exact h.datagram
  · rw [hl]; exact h.count
  · unfold Numbered
    rw [hl]
    exact h.numbers

theorem taken_pos {m taken : ℕ} {datagram : ℕ → Bytes}
    (hs : SendSpec hmac4 cfg l l' c m taken datagram) : 0 < taken := by
  have hcount : 0 < c.count := by
    unfold Call.count
    split_ifs with hf
    · have := two_le_fragmentCount hf.2
      omega
    · exact Nat.one_pos
  rcases hs.outcome with ⟨hm, rfl, -⟩ | ⟨-, rfl, -⟩
  · omega
  · omega

theorem grouped_step (hw : Wired cfg l) (h : Grouped l) (x : Action) :
    Grouped (l.step hmac4 cfg x) := by
  by_cases hx : ∀ ch msgId payload now, x ≠ .sendA ch msgId payload now
  · obtain ⟨hl, hg⟩ := log_step_of_not_send hmac4 cfg l hx
    exact h.congr hl hg
  · push Not at hx
    obtain ⟨ch, msgId, payload, now, rfl⟩ := hx
    show Grouped (l.send hmac4 cfg ch msgId payload now)
    by_cases ha : l.a.state = .Active
    · obtain ⟨m, taken, datagram, hs⟩ := send_spec hmac4 cfg hw.sendSeq ch msgId payload now ha
      exact grouped_send hw h hs rfl rfl (taken_pos hs)
    · rw [send_inactive ch msgId payload now ha]
      exact h

theorem whole_step (hw : Wired cfg l) (h : Whole l) {x : Action}
    (hfail : (l.step hmac4 cfg x).failed = false) : Whole (l.step hmac4 cfg x) := by
  by_cases hx : ∀ ch msgId payload now, x ≠ .sendA ch msgId payload now
  · exact h.congr (log_step_of_not_send hmac4 cfg l hx).1
  · push Not at hx
    obtain ⟨ch, msgId, payload, now, rfl⟩ := hx
    show Whole (l.send hmac4 cfg ch msgId payload now)
    by_cases ha : l.a.state = .Active
    · obtain ⟨m, taken, datagram, hs⟩ := send_spec hmac4 cfg hw.sendSeq ch msgId payload now ha
      exact whole_send h hs rfl hfail
    · rw [send_inactive ch msgId payload now ha]
      exact h

/-! ## Distances -/

theorem startsGroup_of_numbered (hw : Wired cfg l) (hc : l.Numbered c i) (hf : c.Fragmented) :
    l.StartsGroup c.first := by
  obtain ⟨e, he, hce⟩ := hw.numbered_first hc
  exact ⟨e, he, by rw [hce], by rw [hce]; exact hf⟩

theorem Whole.isolated (h : Whole l) : Isolated l.StartsGroup := by
  rintro i ⟨e, he, hfirst, hf⟩ ⟨e', he', hfirst', -⟩
  have hcount : 2 ≤ e.call.count := by
    unfold Call.count
    rw [if_pos hf]
    exact two_le_fragmentCount hf.2
  obtain ⟨d, hd, hce⟩ := h.numbers i e he 1 (by omega)
  rw [hfirst] at hd
  rw [he'] at hd
  cases hd
  rw [hce] at hfirst'
  omega

theorem Grouped.mod_eq (h : Grouped l) {c c' : Call} {j : ℕ} (hc : l.Numbered c i)
    (hc' : l.Numbered c' j) (hf : c.Fragmented) (hf' : c'.Fragmented)
    (hg : c.groupId = c'.groupId) :
    l.groups c.first % 2 ^ 16 = l.groups c'.first % 2 ^ 16 := by
  obtain ⟨e, he, rfl⟩ := hc
  obtain ⟨e', he', rfl⟩ := hc'
  rw [h.group i e he hf, h.group j e' he' hf'] at hg
  have := congrArg BitVec.toNat hg
  rw [BitVec.toNat_ofNat, BitVec.toNat_ofNat] at this
  exact this

/-- Calls with one group id whose first numbers are less than a turn apart are the same. -/
theorem call_eq_of_group (hw : Wired cfg l) (h : Grouped l) {c' : Call} {j : ℕ}
    (hc : l.Numbered c i) (hc' : l.Numbered c' j) (hf : c.Fragmented) (hf' : c'.Fragmented)
    (hg : c.groupId = c'.groupId) (h1 : c.first < c'.first + 65536)
    (h2 : c'.first < c.first + 65536) :
    c = c' := by
  refine hw.eq_of_numbered hc hc' ?_
  exact count_mod_inj (startsGroup_of_numbered hw hc hf) (startsGroup_of_numbered hw hc' hf')
    (h.mod_eq hc hc' hf hf' hg) h1 h2

end Link

end SoupEngine
