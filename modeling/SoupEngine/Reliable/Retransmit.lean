import Mathlib.Data.List.TakeWhile
import SoupEngine.Lib.SerialNumber
import SoupEngine.Lib.BitMask
import SoupEngine.Protocol.Types
import SoupEngine.Reliable.Millis

/-!
# The retransmit queue

One queue for each reliable channel: the datagrams sent and not yet acknowledged, oldest first.
`onAck` pops acknowledged entries from the front only, so an entry leaves the queue after every
older one.
-/

namespace SoupEngine

open SerialNumber

/-- `seq_newer(a, b)`: `a` is newer than `b`, safe under wraparound. -/
def seqNewer (a b : U16) : Bool := decide (0 < dist a b)

/-- `seq_lt(a, b)`: `a` is older than `b`. -/
def seqLt (a b : U16) : Bool := decide (dist a b < 0)

/-- Whether `seq` is confirmed by `(ack, ack_bits)`: delivered in order, or marked in the bitmap of
the 32 numbers after `ack`. -/
def isAcked (seq ack : U16) (ackBits : U32) : Bool :=
  if !seqNewer seq ack then
    true
  else
    let ahead := seq - ack
    if 1 ≤ ahead ∧ ahead ≤ 32 then
      decide (ackBits &&& (1#32 <<< (ahead - 1).toNat) ≠ 0)
    else
      false

structure PendingPacket where
  seq : U16
  sentAt : Instant
  datagram : Bytes
  deriving DecidableEq

structure RetransmitQueue where
  entries : List PendingPacket
  skipCount : Map U16 U8

/-- What `on_ack` returns. -/
structure AckResult where
  acked : List U16
  rttSample : Option ℚ
  fastRetransmit : List Bytes

namespace RetransmitQueue

def new : RetransmitQueue := ⟨[], ∅⟩

def len (q : RetransmitQueue) : ℕ := q.entries.length

/-- Enqueue a datagram; the error means the connection is to be dropped. -/
def push (q : RetransmitQueue) (seq : U16) (datagram : Bytes) (now : Instant) :
    RetransmitQueue × Except Error Unit :=
  if RETRANSMIT_QUEUE_CAP ≤ q.entries.length then
    (q, .error (.Protocol s!"重传队列溢出(上限 {RETRANSMIT_QUEUE_CAP}),断开连接"))
  else
    ({ q with entries := q.entries ++ [⟨seq, now, datagram⟩] }, .ok ())

/-- The first part of `on_ack`: an unacknowledged front is counted as skipped, and resent from the
second time on. -/
def countSkip (q : RetransmitQueue) (ack : U16) (ackBits : U32) : Map U16 U8 × List Bytes :=
  match q.entries.head? with
  | none => (q.skipCount, [])
  | some front =>
    if isAcked front.seq ack ackBits then
      (q.skipCount, [])
    else
      let n := (q.skipCount[front.seq]?).getD 0 + 1
      (q.skipCount.insert front.seq n, if 2 ≤ n then [front.datagram] else [])

/-- The second part of `on_ack`: pop acknowledged entries from the front. -/
def popAcked (ack : U16) (ackBits : U32) (now : Instant) :
    List PendingPacket → Map U16 U8 → List PendingPacket × Map U16 U8 × List U16 × Option ℚ
  | [], skip => ([], skip, [], none)
  | front :: rest, skip =>
    if isAcked front.seq ack ackBits then
      let (entries, skip, acked, sample) := popAcked ack ackBits now rest (skip.erase front.seq)
      (entries, skip, front.seq :: acked,
        some (sample.getD (Duration.asMillisF64 (now - front.sentAt))))
    else
      (front :: rest, skip, [], none)

/-- Process an acknowledgement: drop confirmed entries, sample the round trip of the last one, and
resend a skipped front. -/
def onAck (q : RetransmitQueue) (ack : U16) (ackBits : U32) (now : Instant) :
    RetransmitQueue × AckResult :=
  let (skip, fast) := q.countSkip ack ackBits
  let (entries, skip, acked, sample) := popAcked ack ackBits now q.entries skip
  (⟨entries, skip⟩, ⟨acked, sample, fast⟩)

/-- The entries whose RTO has passed, which are sent again and timed anew. -/
def retransmitDue (q : RetransmitQueue) (now : Instant) (rto : Duration) :
    RetransmitQueue × List (U16 × Bytes) :=
  ({ q with entries := q.entries.map fun e => if rto ≤ now - e.sentAt then { e with sentAt := now }
   else e },
   (q.entries.filter fun e => decide (rto ≤ now - e.sentAt)).map fun e => (e.seq, e.datagram))

end RetransmitQueue

/-! ## Comparisons of numbers -/

/-- The number of item `i` on the wire. -/
def seqNum (i : ℕ) : U16 := num 16 i

@[simp] theorem toNat_seqNum (i : ℕ) : (seqNum i).toNat = i % 65536 := toNat_num i

theorem seqNum_add (i j : ℕ) : seqNum i + seqNum j = seqNum (i + j) := num_add i j

theorem seqNum_succ (i : ℕ) : seqNum i + 1 = seqNum (i + 1) := num_succ i

theorem seqNum_wrap (i : ℕ) : seqNum (i + 65536) = seqNum i := num_add_two_pow i

section Window

variable {i j : ℕ}

theorem seqNum_inj (hij : i < j + 65536) (hji : j < i + 65536) : seqNum i = seqNum j ↔ i = j :=
  num_inj hij hji

theorem seqNum_sub (hji : j ≤ i) (hij : i < j + 65536) : (seqNum i - seqNum j).toNat = i - j :=
  toNat_num_sub hji hij

theorem dist_seqNum (hlo : j ≤ i + 32768) (hhi : i < j + 32768) :
    dist (seqNum i) (seqNum j) = (i : ℤ) - j :=
  dist_num (by norm_num; omega) (by norm_num; omega) (by norm_num)

theorem seqNewer_num (hlo : j ≤ i + 32768) (hhi : i < j + 32768) :
    seqNewer (seqNum i) (seqNum j) = decide (j < i) := by
  unfold seqNewer
  rw [dist_seqNum hlo hhi]
  congr 1
  apply propext; omega

theorem seqLt_num (hlo : j ≤ i + 32768) (hhi : i < j + 32768) :
    seqLt (seqNum i) (seqNum j) = decide (i < j) := by
  unfold seqLt
  rw [dist_seqNum hlo hhi]
  congr 1
  apply propext; omega

end Window

/-- What an acknowledgement taken at position `k` (so `ack` is the number before `k`) says about
number `i`, as long as `i` is less than half of the number space ahead of it. -/
theorem isAcked_num {i k : ℕ} {ack : U16} {bits : U32} (hack : ack + 1 = seqNum k)
    (hlo : k ≤ i + 32769) (hhi : i ≤ k + 32766) :
    isAcked (seqNum i) ack bits = true ↔
      i < k ∨ (k ≤ i ∧ i < k + 32 ∧ bits.getLsbD (i - k) = true) := by
  have hk : ack = seqNum (k + 65535) := by
    have h : seqNum (k + 65535) + 1 = seqNum k := by
      rw [seqNum_succ, show k + 65535 + 1 = k + 65536 by omega, seqNum_wrap]
    exact (BitVec.add_left_inj 1).1 (hack.trans h.symm)
  have hnewer : seqNewer (seqNum (i + 65536)) (seqNum (k + 65535)) = decide (k ≤ i) := by
    rw [seqNewer_num (by omega) (by omega)]
    congr 1
    apply propext; omega
  unfold isAcked
  rw [← seqNum_wrap i, hk, hnewer]
  by_cases hki : k ≤ i
  · have hahead : (seqNum (i + 65536) - seqNum (k + 65535)).toNat = i - k + 1 := by
      rw [seqNum_sub (by omega) (by omega)]
      omega
    have hsub : (seqNum (i + 65536) - seqNum (k + 65535) - 1).toNat = i - k := by
      rw [BitVec.toNat_sub, hahead, show (1 : U16).toNat = 1 from rfl]
      omega
    have h1 : (1 : U16) ≤ seqNum (i + 65536) - seqNum (k + 65535) := by
      rw [BitVec.le_def, hahead, show (1 : U16).toNat = 1 from rfl]
      omega
    have h32 : seqNum (i + 65536) - seqNum (k + 65535) ≤ 32 ↔ i < k + 32 := by
      rw [BitVec.le_def, hahead, show (32 : U16).toNat = 32 from rfl]
      omega
    rw [if_neg (by simp [hki])]
    simp only [h1, h32, true_and, hsub, BitMask.and_one_shiftLeft_ne_zero]
    by_cases hw : i < k + 32
    · rw [if_pos hw, decide_eq_true_eq]
      exact ⟨fun h => Or.inr ⟨hki, hw, h⟩, fun h => h.elim (fun h => by omega) (fun h => h.2.2)⟩
    · rw [if_neg hw]
      constructor
      · intro h; cases h
      · rintro (h | ⟨-, h, -⟩) <;> omega
  · rw [if_pos (by simp [hki])]
    exact iff_of_true rfl (Or.inl (by omega))

theorem seqNum_ahead {i k : ℕ} (h : k ≤ i) : seqNum i = seqNum (k + (i - k) % 65536) := by
  apply BitVec.eq_of_toNat_eq
  rw [toNat_seqNum, toNat_seqNum]
  omega

/-- What it says about a number however far ahead: only the distance within the number space
counts. -/
theorem isAcked_ahead {i k : ℕ} {ack : U16} {bits : U32} (hack : ack + 1 = seqNum k) (hki : k ≤ i) :
    isAcked (seqNum i) ack bits = true ↔
      32767 ≤ (i - k) % 65536 ∨ (i - k) % 65536 < 32 ∧ bits.getLsbD ((i - k) % 65536) = true := by
  rw [seqNum_ahead hki]
  have hd : (i - k) % 65536 < 65536 := Nat.mod_lt _ (by norm_num)
  generalize (i - k) % 65536 = d at hd ⊢
  by_cases hfar : d < 32767
  · rw [isAcked_num hack (by omega) (by omega), Nat.add_sub_cancel_left]
    constructor
    · rintro (h | ⟨-, h, hbit⟩)
      · omega
      · exact Or.inr ⟨by omega, hbit⟩
    · rintro (h | ⟨h, hbit⟩)
      · omega
      · exact Or.inr ⟨by omega, by omega, hbit⟩
  · -- the number looks older than `ack`
    have hwrap : ack + 1 = seqNum (k + 65536) := hack.trans (seqNum_wrap k).symm
    rw [isAcked_num hwrap (by omega) (by omega)]
    exact iff_of_true (Or.inl (by omega)) (Or.inl (by omega))

/-! ## What the operations do to the entries -/

namespace RetransmitQueue

/-- The numbers and datagrams waiting for an acknowledgement, without their timers. -/
def contents (q : RetransmitQueue) : List (U16 × Bytes) :=
  q.entries.map fun e => (e.seq, e.datagram)

@[simp] theorem contents_new : new.contents = [] := rfl

theorem length_contents (q : RetransmitQueue) : q.contents.length = q.entries.length :=
  List.length_map _

theorem popAcked_fst (ack : U16) (bits : U32) (now : Instant) (es : List PendingPacket)
    (skip : Map U16 U8) :
    (popAcked ack bits now es skip).1 = es.dropWhile fun e => isAcked e.seq ack bits := by
  induction es generalizing skip with
  | nil => rfl
  | cons e es ih =>
    unfold popAcked
    rw [List.dropWhile_cons]
    split_ifs
    · exact ih _
    · rfl

/-- An entry that is not acknowledged stays. -/
theorem mem_dropWhile_of_not {α : Type*} {p : α → Bool} {xs : List α} {x : α} (hx : x ∈ xs)
    (hp : ¬ p x = true) : x ∈ xs.dropWhile p := by
  rw [← List.takeWhile_append_dropWhile (l := xs) (p := p), List.mem_append] at hx
  exact hx.resolve_left fun hm => hp (List.mem_takeWhile_imp hm)

/-- `onAck` pops the longest acknowledged prefix. -/
theorem contents_onAck (q : RetransmitQueue) (ack : U16) (bits : U32) (now : Instant) :
    (q.onAck ack bits now).1.contents = q.contents.dropWhile fun e => isAcked e.1 ack bits := by
  unfold contents
  show List.map _ (popAcked ack bits now q.entries _).1 = _
  rw [popAcked_fst, List.dropWhile_map]
  rfl

/-- A fast retransmission is the datagram of an entry. -/
theorem mem_fastRetransmit {q : RetransmitQueue} {ack : U16} {bits : U32} {now : Instant}
    {d : Bytes} (h : d ∈ (q.onAck ack bits now).2.fastRetransmit) :
    ∃ seq, (seq, d) ∈ q.contents := by
  have h' : d ∈ (q.countSkip ack bits).2 := h
  unfold countSkip at h'
  cases hq : q.entries with
  | nil => rw [hq] at h'; cases h'
  | cons e es =>
    rw [hq] at h'
    simp only [List.head?_cons] at h'
    split_ifs at h' with ha hn
    · cases h'
    · rw [List.mem_singleton] at h'
      exact ⟨e.seq, by unfold contents; rw [hq, h']; exact List.mem_cons_self⟩
    · cases h'

@[simp] theorem contents_retransmitDue (q : RetransmitQueue) (now : Instant) (rto : Duration) :
    (q.retransmitDue now rto).1.contents = q.contents := by
  unfold contents retransmitDue
  rw [List.map_map]
  apply List.map_congr_left
  intro e _
  simp only [Function.comp_apply]
  split_ifs <;> rfl

/-- What is resent is what is stored. -/
theorem mem_retransmitDue {q : RetransmitQueue} {now : Instant} {rto : Duration} {x : U16 × Bytes}
    (h : x ∈ (q.retransmitDue now rto).2) : x ∈ q.contents := by
  obtain ⟨e, he, rfl⟩ := List.mem_map.1 h
  exact List.mem_map.2 ⟨e, (List.mem_filter.1 he).1, rfl⟩

/-- What a `push` does: below the cap the datagram is stored, at the cap nothing changes. -/
theorem push_cases (q : RetransmitQueue) (seq : U16) (d : Bytes) (now : Instant) :
    (q.len < RETRANSMIT_QUEUE_CAP ∧ (q.push seq d now).2 = .ok () ∧
        (q.push seq d now).1.contents = q.contents ++ [(seq, d)]) ∨
      (RETRANSMIT_QUEUE_CAP ≤ q.len ∧ (∃ e, (q.push seq d now).2 = .error e) ∧
        (q.push seq d now).1 = q) := by
  unfold push len
  by_cases h : RETRANSMIT_QUEUE_CAP ≤ q.entries.length
  · right; rw [if_pos h]; exact ⟨h, ⟨_, rfl⟩, rfl⟩
  · left; rw [if_neg h]; exact ⟨not_le.1 h, rfl, by unfold contents; rw [List.map_append]; rfl⟩

end RetransmitQueue

end SoupEngine
