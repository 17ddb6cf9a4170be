import SoupEngine.Lib.TransitionSystem
import SoupEngine.Session.State

/-!
# What the receive window records

`recv_seq` is to be the newest number recorded, and bit `b - 1` of `recv_bits` is to say whether the
number `b` before it has been recorded (`Exact`). A step of one keeps this. Ahead by more than one,
the window moves as if the number before the new one had been recorded, and the mark of the old
`recv_seq` is lost; and a new session looks as if 0 had been recorded (`exact_iff`).
-/

namespace SoupEngine

open SerialNumber TransitionSystem

/-- The newest of the numbers, which have arrived from the last one to the first. -/
def newest : List U16 → Option U16
  | [] => none
  | n :: ns =>
    match newest ns with
    | none => some n
    | some m => if seqLt m n then some n else some m

theorem newest_mem {ns : List U16} {m : U16} (h : newest ns = some m) : m ∈ ns := by
  induction ns with
  | nil => cases h
  | cons n ns ih =>
    unfold newest at h
    cases hns : newest ns with
    | none =>
      rw [hns] at h
      cases h
      exact List.mem_cons_self
    | some k =>
      rw [hns] at h
      dsimp only at h
      split_ifs at h
      · cases h
        exact List.mem_cons_self
      · exact List.mem_cons_of_mem n (ih (hns.trans h))

theorem newest_eq_none {ns : List U16} (h : newest ns = none) : ns = [] := by
  cases ns with
  | nil => rfl
  | cons n ns =>
    unfold newest at h
    split at h
    · cases h
    · split_ifs at h

/-- The receive window of a session, with the numbers recorded in it, the last one first. -/
structure Recorder where
  recvSeq : U16
  recvBits : U32
  recorded : List U16

namespace Recorder

/-- Nothing has been recorded. -/
def of (s : Session) : Recorder := ⟨s.recvSeq, s.recvBits, []⟩

def step (r : Recorder) (seq : U16) : Recorder :=
  ⟨(recordSeq r.recvSeq r.recvBits seq).1, (recordSeq r.recvSeq r.recvBits seq).2,
    seq :: r.recorded⟩

/-- The window says what has been recorded. -/
structure Exact (r : Recorder) : Prop where
  newest : ∀ n ∈ newest r.recorded, r.recvSeq = n
  bits : ∀ b, 1 ≤ b → b ≤ 32 →
    (r.recvBits.getLsbD (b - 1) = true ↔ r.recvSeq - BitVec.ofNat 16 b ∈ r.recorded)

/-- The number is less than half of the number space away. -/
def InWindow (r : Recorder) (seq : U16) : Prop := (dist seq r.recvSeq).natAbs ≤ 2 ^ 15 - 1

/-- The first number is 0, and a later one is at most one ahead; or it is beyond the bitmap, and of
the 32 numbers before it the last one has been recorded, an earlier time, and no other. -/
def Follows (r : Recorder) (seq : U16) : Prop :=
  if r.recorded = [] then seq = 0
  else dist seq r.recvSeq ≤ 1 ∨
    32 < dist seq r.recvSeq ∧ seq - 1 ∈ r.recorded ∧
      ∀ b, 2 ≤ b → b ≤ 32 → seq - BitVec.ofNat 16 b ∉ r.recorded

instance (r : Recorder) (seq : U16) : Decidable (r.InWindow seq) := by
  unfold InWindow
  infer_instance

variable {r : Recorder} {seq : U16}

/-! ## Distances -/

theorem dist_mem (x y : U16) : -2 ^ 15 ≤ dist x y ∧ dist x y < 2 ^ 15 :=
  ⟨BitVec.le_toInt _, BitVec.toInt_lt⟩

/-- The number `b` before `x`. -/
theorem sub_eq_iff {x y : U16} {b : ℕ} (hb : b < 2 ^ 15) : x - BitVec.ofNat 16 b = y ↔
    dist x y = b := by
  have hval : (BitVec.ofNat 16 b).toInt = b := by
    rw [BitVec.toInt_ofNat', Int.bmod_eq_of_le (by omega) (by omega)]
  unfold SerialNumber.dist
  constructor
  · rintro rfl
    rw [sub_sub_self, hval]
  · intro h
    have heq : x - y = BitVec.ofNat 16 b := BitVec.eq_of_toInt_eq (h.trans hval.symm)
    rw [← heq, sub_sub_self]

/-- The way back. -/
theorem dist_swap {x y : U16} (h : dist x y ≠ -2 ^ 15) : dist y x = - dist x y := by
  have hneg : y - x = -(x - y) := (neg_sub x y).symm
  unfold SerialNumber.dist at h ⊢
  rw [hneg, BitVec.toInt_neg_of_ne_intMin]
  intro hmin
  rw [hmin] at h
  exact h (by decide)

/-! ## One call -/

theorem recordSeq_fst {recvSeq : U16} (recvBits : U32) {seq : U16} (h : dist seq recvSeq ≤ 0) :
    (recordSeq recvSeq recvBits seq).1 = recvSeq := by
  unfold recordSeq
  dsimp only
  rw [if_pos (show (seq - recvSeq).toInt ≤ 0 from h)]
  split_ifs <;> rfl

/-- A number that is not newer is marked, if it is within the bitmap. -/
theorem recordSeq_behind {recvSeq : U16} (recvBits : U32) {seq : U16} (h : dist seq recvSeq ≤ 0)
    (h' : dist seq recvSeq ≠ -2 ^ 15) :
    ∀ b, 1 ≤ b → b ≤ 32 → ((recordSeq recvSeq recvBits seq).2.getLsbD (b - 1) = true ↔
      recvBits.getLsbD (b - 1) = true ∨ dist recvSeq seq = b) := by
  have hswap := dist_swap h'
  have hneg : (-(seq - recvSeq)).toInt = dist recvSeq seq :=
    congrArg BitVec.toInt (neg_sub seq recvSeq)
  have hmsb : (-(seq - recvSeq)).msb = false := by
    rw [BitVec.msb_eq_toInt, hneg]
    exact decide_eq_false (by omega)
  have hback : ((-(seq - recvSeq)).signExtend 32).toNat = (dist recvSeq seq).toNat := by
    rw [BitVec.signExtend_eq_setWidth_of_msb_false hmsb, BitVec.toNat_setWidth_of_le (by decide),
      ← hneg, BitVec.toInt_eq_toNat_of_msb hmsb]
    rfl
  unfold recordSeq
  dsimp only
  rw [if_pos (show (seq - recvSeq).toInt ≤ 0 from h)]
  generalize ((-(seq - recvSeq)).signExtend 32) = back at hback ⊢
  have h1 : (1 : U32) ≤ back ↔ 1 ≤ back.toNat := BitVec.le_def
  have h32 : back ≤ (32 : U32) ↔ back.toNat ≤ 32 := BitVec.le_def
  split_ifs with hin
  · rw [h1, h32] at hin
    have hsub : (back - 1).toNat = back.toNat - 1 := BitVec.toNat_sub_of_le (h1.2 hin.1)
    intro b hb hb'
    rw [BitVec.getLsbD_or, BitMask.getLsbD_one_shiftLeft, Bool.or_eq_true, Bool.and_eq_true,
      decide_eq_true_eq, decide_eq_true_eq, hsub]
    exact or_congr Iff.rfl (by omega)
  · rw [h1, h32] at hin
    intro b hb hb'
    rw [or_iff_left]
    omega

/-- A newer number shifts the bitmap, and marks the number before it. -/
theorem recordSeq_ahead {recvSeq : U16} (recvBits : U32) {seq : U16} (h : 0 < dist seq recvSeq) :
    (recordSeq recvSeq recvBits seq).1 = seq ∧
      ∀ b, 1 ≤ b → b ≤ 32 → ((recordSeq recvSeq recvBits seq).2.getLsbD (b - 1) = true ↔
        b = 1 ∨ dist seq recvSeq < b ∧
        recvBits.getLsbD (b - 1 - (dist seq recvSeq).toNat) = true) := by
  unfold recordSeq
  dsimp only
  rw [if_neg (show ¬ (seq - recvSeq).toInt ≤ 0 from not_le.2 h)]
  refine ⟨rfl, fun b hb hb' => ?_⟩
  show (ite _ _ _ : U32).getLsbD _ = true ↔ _
  have hone : (1#32).getLsbD (b - 1) = true ↔ b = 1 := by
    rw [BitVec.getLsbD_one, Bool.and_eq_true, decide_eq_true_eq, decide_eq_true_eq]
    omega
  change 0 < (seq - recvSeq).toInt at h
  change _ ↔ b = 1 ∨ (seq - recvSeq).toInt < b ∧
    recvBits.getLsbD (b - 1 - (seq - recvSeq).toInt.toNat) = true
  generalize (seq - recvSeq).toInt = d at h ⊢
  split_ifs with hfar
  · rw [show (1 : U32) = 1#32 from rfl, hone, or_iff_left]
    omega
  · have hshift : min d.toNat 32 = d.toNat := by omega
    rw [show (1 : U32) = 1#32 from rfl, BitVec.getLsbD_or, BitVec.getLsbD_shiftLeft,
      Bool.or_eq_true, hone, or_comm, hshift, Bool.and_eq_true, Bool.and_eq_true, decide_eq_true_eq,
      Bool.not_eq_true', decide_eq_false_iff_not]
    refine or_congr Iff.rfl (and_congr_left' ?_)
    omega

/-- A number is not among the 65535 before it. -/
theorem sub_mem_cons {b : ℕ} (hb : 1 ≤ b) (hb' : b ≤ 32) {ns : List U16} :
    seq - BitVec.ofNat 16 b ∈ seq :: ns ↔ seq - BitVec.ofNat 16 b ∈ ns := by
  rw [List.mem_cons, or_iff_right]
  rw [sub_eq_iff (by omega)]
  unfold SerialNumber.dist
  rw [sub_self]
  show ¬ (0 : ℤ) = b
  omega

/-- The first number. -/
theorem exact_step_first (hnone : r.recorded = []) (hseq : r.recvSeq = 0) (hbits : r.recvBits = 0) :
    (r.step seq).Exact ↔ seq = 0 := by
  have hnewest : newest (r.step seq).recorded = some seq := by
    show newest (seq :: r.recorded) = _
    rw [hnone]
    rfl
  constructor
  · intro h
    have hrecv : (r.step seq).recvSeq = seq := h.newest seq hnewest
    rcases le_or_gt (dist seq r.recvSeq) 0 with hle | hlt
    · rw [← hrecv]
      exact (recordSeq_fst r.recvBits hle).trans hseq
    · -- the number before the first one is marked
      have hmark := (recordSeq_ahead r.recvBits hlt).2 1 le_rfl (by decide)
      have hmem := (h.bits 1 le_rfl (by decide)).1 (hmark.2 (Or.inl rfl))
      rw [hrecv] at hmem
      have hmem' : seq - BitVec.ofNat 16 1 ∈ r.recorded := (sub_mem_cons le_rfl (by decide)).1 hmem
      rw [hnone] at hmem'
      cases hmem'
  · rintro rfl
    obtain ⟨recvSeq, recvBits, recorded⟩ := r
    dsimp only at hnone hseq hbits
    subst hnone hseq hbits
    refine ⟨fun n hn => ?_, fun b hb hb' => ?_⟩
    · rw [hnewest] at hn
      cases hn
      rfl
    · refine iff_of_false ?_ fun h => ?_
      · show ¬ (0#32).getLsbD (b - 1) = true
        rw [BitVec.getLsbD_zero]
        exact Bool.false_ne_true
      · exact absurd ((sub_mem_cons hb hb').1 h) List.not_mem_nil

section Later

variable (h : r.Exact) (hsome : r.recorded ≠ [])

include h hsome

theorem newest_recorded : newest r.recorded = some r.recvSeq := by
  cases hn : newest r.recorded with
  | none => exact absurd (newest_eq_none hn) hsome
  | some m => rw [h.newest m hn]

theorem newest_step (seq : U16) :
    newest (r.step seq).recorded = some (if dist r.recvSeq seq < 0 then seq else r.recvSeq) := by
  show newest (seq :: r.recorded) = _
  unfold newest
  rw [newest_recorded h hsome]
  unfold seqLt
  dsimp only
  split_ifs with h1 h2 h3
  · rfl
  · exact absurd (of_decide_eq_true h1) h2
  · exact absurd (decide_eq_true h3) h1
  · rfl

/-- A number that is not newer. -/
theorem exact_step_behind (hle : dist seq r.recvSeq ≤ 0) : (r.step seq).Exact ↔ r.InWindow seq := by
  have hmem := dist_mem seq r.recvSeq
  have hrecv : (r.step seq).recvSeq = r.recvSeq := recordSeq_fst r.recvBits hle
  have hnewest := newest_step h hsome seq
  constructor
  · intro he
    unfold InWindow
    by_contra hfar
    have hmin : seq - r.recvSeq = BitVec.intMin 16 := by
      apply BitVec.eq_of_toInt_eq
      show dist seq r.recvSeq = _
      rw [BitVec.toInt_intMin]
      omega
    have hneg : dist r.recvSeq seq < 0 := by
      unfold SerialNumber.dist
      rw [← neg_sub, hmin]
      decide
    rw [if_pos hneg] at hnewest
    have heq := he.newest seq hnewest
    rw [hrecv] at heq
    rw [heq, sub_self] at hmin
    exact absurd hmin (by decide)
  · intro hin
    unfold InWindow at hin
    have hmin : dist seq r.recvSeq ≠ -2 ^ 15 := by omega
    have hswap := dist_swap hmin
    rw [if_neg (by omega)] at hnewest
    refine ⟨fun n hn => ?_, fun b hb hb' => ?_⟩
    · rw [hnewest] at hn
      cases hn
      exact hrecv
    · rw [hrecv]
      refine (recordSeq_behind r.recvBits hle hmin b hb hb').trans ?_
      show _ ↔ _ ∈ seq :: r.recorded
      rw [List.mem_cons, sub_eq_iff (by omega), h.bits b hb hb', or_comm]

/-- A newer number. -/
theorem exact_step_ahead (hlt : 0 < dist seq r.recvSeq) : (r.step seq).Exact ↔ r.Follows seq := by
  obtain ⟨hrecv, hbits⟩ := recordSeq_ahead r.recvBits hlt
  change (r.step seq).recvSeq = seq at hrecv
  have hmem := dist_mem seq r.recvSeq
  have hswap : dist r.recvSeq seq = - dist seq r.recvSeq := dist_swap (by omega)
  have hnewest := newest_step h hsome seq
  rw [if_pos (by omega)] at hnewest
  obtain ⟨d, hd⟩ := Int.eq_ofNat_of_zero_le hlt.le
  have hold : seq - BitVec.ofNat 16 d = r.recvSeq := (sub_eq_iff (by omega)).2 hd
  have hself : r.recvSeq ∈ r.recorded := newest_mem (newest_recorded h hsome)
  rw [hd, Int.toNat_natCast] at hbits
  have hiff : (r.step seq).Exact ↔ ∀ b : ℕ, 1 ≤ b → b ≤ 32 →
      (b = 1 ∨ (d : ℤ) < b ∧ r.recvBits.getLsbD (b - 1 - d) = true ↔
        seq - BitVec.ofNat 16 b ∈ r.recorded) := by
    constructor
    · intro he b hb hb'
      calc (b = 1 ∨ (d : ℤ) < b ∧ r.recvBits.getLsbD (b - 1 - d) = true)
          ↔ (r.step seq).recvBits.getLsbD (b - 1) = true := (hbits b hb hb').symm
        _ ↔ (r.step seq).recvSeq - BitVec.ofNat 16 b ∈ (r.step seq).recorded := he.bits b hb hb'
        _ ↔ seq - BitVec.ofNat 16 b ∈ r.recorded := by
            rw [hrecv]
            exact sub_mem_cons hb hb'
    · intro hall
      refine ⟨fun n hn => ?_, fun b hb hb' => ?_⟩
      · rw [hnewest] at hn
        cases hn
        exact hrecv
      · rw [hrecv]
        calc (r.step seq).recvBits.getLsbD (b - 1) = true
            ↔ b = 1 ∨ (d : ℤ) < b ∧ r.recvBits.getLsbD (b - 1 - d) = true := hbits b hb hb'
          _ ↔ seq - BitVec.ofNat 16 b ∈ r.recorded := hall b hb hb'
          _ ↔ seq - BitVec.ofNat 16 b ∈ (r.step seq).recorded := (sub_mem_cons hb hb').symm
  rw [hiff]
  unfold Follows
  rw [if_neg hsome, hd]
  constructor
  · intro hall
    by_cases h1 : d ≤ 1
    · exact Or.inl (by omega)
    · have hfar : 32 < d := by
        by_contra hnear
        -- the old `recv_seq` has no mark
        rcases (hall d (by omega) (by omega)).2 (hold ▸ hself) with hone | hlater
        · omega
        · omega
      refine Or.inr ⟨by omega, (hall 1 le_rfl (by decide)).1 (Or.inl rfl), fun b hb hb' hin => ?_⟩
      rcases (hall b (by omega) hb').2 hin with hone | hlater
      · omega
      · omega
  · rintro (hone | ⟨hfar, hlast, hnone⟩) b hb hb'
    · obtain rfl : d = 1 := by omega
      rcases Nat.eq_or_lt_of_le hb with rfl | hgt
      · rw [hold]
        exact iff_of_true (Or.inl rfl) hself
      · have hshift : seq - BitVec.ofNat 16 b = r.recvSeq - BitVec.ofNat 16 (b - 1) := by
          rw [← hold, sub_sub, ← BitVec.ofNat_add, Nat.add_sub_cancel' hb]
        rw [hshift, ← h.bits (b - 1) (by omega) (by omega), or_iff_right (by omega)]
        exact and_iff_right (by omega)
    · rcases Nat.eq_or_lt_of_le hb with rfl | hgt
      · exact iff_of_true (Or.inl rfl) hlast
      · refine iff_of_false ?_ (hnone b hgt hb')
        rintro (hone | hlater)
        · omega
        · omega

end Later

/-- A window that nothing has been recorded in is that of a new session. -/
def Fresh (r : Recorder) : Prop := r.recorded = [] → r.recvSeq = 0 ∧ r.recvBits = 0

/-- **One call.** -/
theorem exact_step (hfresh : r.Fresh) (h : r.Exact) : (r.step seq).Exact ↔
    r.InWindow seq ∧ r.Follows seq := by
  have hmem := dist_mem seq r.recvSeq
  by_cases hnone : r.recorded = []
  · obtain ⟨hseq, hbits⟩ := hfresh hnone
    rw [exact_step_first hnone hseq hbits]
    unfold Follows InWindow
    rw [if_pos hnone, hseq]
    refine (and_iff_right_of_imp ?_).symm
    rintro rfl
    decide
  rcases le_or_gt (dist seq r.recvSeq) 0 with hle | hlt
  · have hfollows : r.Follows seq := by
      unfold Follows
      rw [if_neg hnone]
      exact Or.inl (by omega)
    rw [exact_step_behind h hnone hle, and_iff_left hfollows]
  · have hin : r.InWindow seq := by
      unfold InWindow
      omega
    rw [exact_step_ahead h hnone hlt, and_iff_right hin]

/-- **What the window says.** From the initial state of a session the window says all along what has
been recorded, as long as no number is too far away and every number follows, and no longer. -/
theorem exact_iff (connId : U32) (sessId : U64) (peer : SocketAddr) (secret : U64) (token : Bytes)
    (now : Instant) (seqs : List U16) :
    (∀ n, ((seqs.take n).foldl step
      (of (Session.create connId sessId peer secret token now))).Exact) ↔
      Allowed step (fun r seq => r.InWindow seq ∧ r.Follows seq)
        (of (Session.create connId sessId peer secret token now)) seqs := by
  refine forall_take_iff_allowed (I := Exact) (K := Fresh) ?_ ?_ (fun _ h => h) ?_ ?_ ?_
  · refine ⟨fun n hn => (nomatch hn), fun b _ _ => iff_of_false ?_ List.not_mem_nil⟩
    show ¬ (0#32).getLsbD (b - 1) = true
    rw [BitVec.getLsbD_zero]
    exact Bool.false_ne_true
  · exact fun _ => ⟨rfl, rfl⟩
  · exact fun r seq _ hnone => absurd hnone (List.cons_ne_nil _ _)
  · exact fun r seq hfresh h hok => (exact_step hfresh h).2 hok
  · exact fun r seq hfresh h he => (exact_step hfresh h).1 he

/-- 0 is recorded, then 2: the window says that 1 has been recorded, and that 0 has not. -/
theorem exact_skips :
    ¬ ∀ (connId : U32) (sessId : U64) (peer : SocketAddr) (secret : U64) (token : Bytes)
    (now : Instant) (seqs : List U16),
    Allowed step InWindow (of (Session.create connId sessId peer secret token now)) seqs →
      (seqs.foldl step (of (Session.create connId sessId peer secret token now))).Exact := by
  intro h
  have hexact := h 1 1 (.V4 0 0) 0 [] 0 [0, 2] (by decide)
  exact absurd ((hexact.bits 1 le_rfl (by decide)).1 (by decide)) (by decide)

end Recorder

end SoupEngine
