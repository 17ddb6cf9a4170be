import SoupEngine.Lib.Checked
import SoupEngine.Session.Fragments
import SoupEngine.Session.Slots

/-!
# Datagrams under overflow checks

The way of a datagram in a build with overflow checks, `none` where an operation overflows or an
index is out of bounds. Two operations can overflow: the negation of the distance to a number half
of the number space away (`recordSeqChecked_guards`), and the byte that counts how often the front
of a queue has been skipped (`onAckChecked_guards`). Everything else agrees with the build that
wraps around.
-/

namespace SoupEngine

open BoundedMemory Checked

attribute [local irreducible] remember

/-! ## The receive window -/

/-- `record_seq`. -/
def recordSeqChecked (recvSeq : U16) (recvBits : U32) (seq : U16) : Option (U16 × U32) :=
  let diff := seq - recvSeq
  if diff.toInt ≤ 0 then do
    let opposite ← Checked.neg diff
    let back : U32 := opposite.signExtend 32
    if 1 ≤ back ∧ back ≤ 32 then do
      let n ← Checked.sub back 1
      let bit ← Checked.shl 1#32 n.toNat
      some (recvSeq, recvBits ||| bit)
    else
      some (recvSeq, recvBits)
  else do
    let shift := min diff.toInt.toNat 32
    let bits ← if shift = 32 then some 1 else (Checked.shl recvBits shift).map (· ||| 1)
    some (seq, bits)

/-- The number is half of the number space away. -/
def Opposite (recvSeq seq : U16) : Prop := seq - recvSeq = BitVec.intMin 16

instance (recvSeq seq : U16) : Decidable (Opposite recvSeq seq) := by
  unfold Opposite; infer_instance

theorem recordSeqChecked_guards (recvSeq : U16) (recvBits : U32) (seq : U16) :
    Guards (Opposite recvSeq seq) (recordSeqChecked recvSeq recvBits seq)
      (recordSeq recvSeq recvBits seq) := by
  unfold recordSeqChecked recordSeq Opposite
  dsimp only
  generalize seq - recvSeq = diff
  by_cases hle : diff.toInt ≤ 0
  · rw [if_pos hle, if_pos hle]
    refine (guards_neg diff (by decide)).map ?_
    split_ifs with hback
    · have hbit : ((-diff).signExtend 32 - 1 : U32).toNat < 32 := by
        have h1 := BitVec.le_def.1 hback.1
        have h2 := BitVec.le_def.1 hback.2
        rw [BitVec.toNat_sub_of_le hback.1]
        rw [show (32 : U32).toNat = 32 from rfl] at h2
        rw [show (1 : U32).toNat = 1 from rfl] at h1 ⊢
        omega
      rw [sub_of_le hback.1]
      show (Checked.shl 1#32 _ >>= fun bit => some (recvSeq, recvBits ||| bit)) = _
      rw [shl_of_lt hbit]
      rfl
    · rfl
  · rw [if_neg hle, if_neg hle]
    refine (guards_some ?_).congr ⟨False.elim, fun h => ?_⟩
    · split_ifs with hshift
      · rfl
      · have hlt : min diff.toInt.toNat 32 < 32 := lt_of_le_of_ne (min_le_right _ _) hshift
        rw [shl_of_lt hlt]
        rfl
    · rw [h] at hle
      exact hle (by decide)

/-- Once recorded, the number is not opposite. -/
theorem recordSeq_settled {recvSeq seq : U16} (h : ¬ Opposite recvSeq seq) (recvBits : U32) :
    ¬ Opposite (recordSeq recvSeq recvBits seq).1 seq := by
  unfold recordSeq
  dsimp only
  split_ifs
  · exact h
  · exact h
  all_goals
    show ¬ seq - seq = _
    rw [BitVec.sub_self]
    decide

/-! ## Acknowledgements -/

/-- `is_acked`. -/
def isAckedChecked (seq ack : U16) (ackBits : U32) : Option Bool :=
  if !seqNewer seq ack then
    some true
  else do
    let ahead := seq - ack
    if 1 ≤ ahead ∧ ahead ≤ 32 then do
      let n ← Checked.sub ahead 1
      let bit ← Checked.shl 1#32 n.toNat
      some (decide (ackBits &&& bit ≠ 0))
    else
      some false

theorem isAckedChecked_eq (seq ack : U16) (ackBits : U32) :
    isAckedChecked seq ack ackBits = some (isAcked seq ack ackBits) := by
  unfold isAckedChecked isAcked
  dsimp only
  generalize seq - ack = ahead
  split_ifs with hnewer hahead
  · rfl
  · have hbit : (ahead - 1).toNat < 32 := by
      have h1 := BitVec.le_def.1 hahead.1
      have h2 := BitVec.le_def.1 hahead.2
      rw [BitVec.toNat_sub_of_le hahead.1]
      rw [show (32 : U16).toNat = 32 from rfl] at h2
      rw [show (1 : U16).toNat = 1 from rfl] at h1 ⊢
      omega
    rw [sub_of_le hahead.1]
    show (Checked.shl 1#32 _ >>= fun bit => some (decide (ackBits &&& bit ≠ 0))) = _
    rw [shl_of_lt hbit]
    rfl
  · rfl

namespace RetransmitQueue

/-- The first part of `on_ack`. -/
def countSkipChecked (q : RetransmitQueue) (ack : U16) (ackBits : U32) :
    Option (Map U16 U8 × List Bytes) :=
  match q.entries.head? with
  | none => some (q.skipCount, [])
  | some front => do
    let acked ← isAckedChecked front.seq ack ackBits
    if acked then
      some (q.skipCount, [])
    else do
      let n ← Checked.add ((q.skipCount[front.seq]?).getD 0) 1
      some (q.skipCount.insert front.seq n, if 2 ≤ n then [front.datagram] else [])

/-- The second part of `on_ack`. -/
def popAckedChecked (ack : U16) (ackBits : U32) (now : Instant) :
    List PendingPacket → Map U16 U8 → Option (List PendingPacket × Map U16 U8 × List U16 × Option ℚ)
  | [], skip => some ([], skip, [], none)
  | front :: rest, skip => do
    let acked ← isAckedChecked front.seq ack ackBits
    if acked then do
      let (entries, skip, acked, sample) ← popAckedChecked ack ackBits now rest
        (skip.erase front.seq)
      some (entries, skip, front.seq :: acked,
        some (sample.getD (Duration.asMillisF64 (now - front.sentAt))))
    else
      some (front :: rest, skip, [], none)

/-- `on_ack`. -/
def onAckChecked (q : RetransmitQueue) (ack : U16) (ackBits : U32) (now : Instant) :
    Option (RetransmitQueue × AckResult) := do
  let (skip, fast) ← q.countSkipChecked ack ackBits
  let (entries, skip, acked, sample) ← popAckedChecked ack ackBits now q.entries skip
  some (⟨entries, skip⟩, ⟨acked, sample, fast⟩)

/-- The front is passed over by the acknowledgement, after 255 times before. -/
def SkipFull (q : RetransmitQueue) (ack : U16) (ackBits : U32) : Prop :=
  ∃ front ∈ q.entries.head?, isAcked front.seq ack ackBits = false ∧
    q.skipCount[front.seq]? = some 255

instance (q : RetransmitQueue) (ack : U16) (ackBits : U32) :
    Decidable (q.SkipFull ack ackBits) := by
  unfold SkipFull
  infer_instance

theorem popAckedChecked_eq (ack : U16) (ackBits : U32) (now : Instant) (es : List PendingPacket)
    (skip : Map U16 U8) :
    popAckedChecked ack ackBits now es skip = some (popAcked ack ackBits now es skip) := by
  induction es generalizing skip with
  | nil => rfl
  | cons front rest ih =>
    unfold popAckedChecked popAcked
    rw [isAckedChecked_eq]
    show (if isAcked front.seq ack ackBits then _ else _) = _
    split_ifs
    · rw [ih]
      rfl
    · rfl

/-- The count of a skipped front is at the end of its byte. -/
theorem skipFull_iff (o : Option U8) : 2 ^ 8 ≤ (o.getD 0).toNat + (1 : U8).toNat ↔
    o = some 255 := by
  cases o with
  | none => decide
  | some n =>
    have hlt := n.isLt
    rw [Option.getD_some, show (1 : U8).toNat = 1 from rfl, Option.some_inj, ← BitVec.toNat_inj,
      show (255 : U8).toNat = 255 from rfl]
    omega

theorem countSkipChecked_guards (q : RetransmitQueue) (ack : U16) (ackBits : U32) :
    Guards (q.SkipFull ack ackBits) (q.countSkipChecked ack ackBits) (q.countSkip ack ackBits) := by
  unfold countSkipChecked countSkip SkipFull
  cases q.entries.head? with
  | none =>
    refine (guards_some rfl).congr ⟨False.elim, ?_⟩
    rintro ⟨front, hfront, -⟩
    cases hfront
  | some front =>
    dsimp only
    rw [isAckedChecked_eq]
    show Guards _ (if isAcked front.seq ack ackBits then _ else _) _
    by_cases hacked : isAcked front.seq ack ackBits = true
    · rw [if_pos hacked, if_pos hacked]
      refine (guards_some rfl).congr ⟨False.elim, ?_⟩
      rintro ⟨x, hx, hfalse, -⟩
      cases hx
      rw [hacked] at hfalse
      cases hfalse
    · rw [if_neg hacked, if_neg hacked]
      have hcount := guards_add ((q.skipCount[front.seq]?).getD 0) 1
      refine Guards.congr (hcount.map ?_) ((skipFull_iff _).trans ⟨fun h => ?_, ?_⟩)
      · rfl
      · exact ⟨front, rfl, Bool.eq_false_iff.2 hacked, h⟩
      · rintro ⟨x, hx, -, h⟩
        cases hx
        exact h

theorem onAckChecked_guards (q : RetransmitQueue) (ack : U16) (ackBits : U32) (now : Instant) :
    Guards (q.SkipFull ack ackBits) (q.onAckChecked ack ackBits now) (q.onAck ack ackBits now) := by
  refine (q.countSkipChecked_guards ack ackBits).map ?_
  unfold onAck
  rcases q.countSkip ack ackBits with ⟨skip, fast⟩
  show (popAckedChecked ack ackBits now q.entries skip >>= _) = _
  rw [popAckedChecked_eq]
  rfl

end RetransmitQueue

/-! ## Fragments -/

/-- `FragmentAssembler::push`; it indexes the parts of the group by the number of the fragment. -/
def FragmentAssembler.pushChecked (a : FragmentAssembler) (groupId firstSeq : U16)
    (fragNo total : U8) (chunk : Bytes) (now : Instant) :
    Option (FragmentAssembler × Option (U16 × Bytes)) :=
  if groupId ∈ a.completed then
    some (a, none)
  else do
    let st ← ((a.entry groupId firstSeq total now).parts[fragNo.toNat]?).map fun _ =>
      (a.entry groupId firstSeq total now).store fragNo chunk
    if st.isComplete then
      some (⟨a.pending.erase groupId, remember COMPLETED_CAP a.completed groupId⟩,
        some (st.firstSeq, st.concat))
    else
      some ({ a with pending := a.pending.insert groupId st }, none)

/-- A group that takes a fragment has the total of the fragment. -/
theorem FragmentAssembler.total_entry (a : FragmentAssembler) (groupId firstSeq : U16) (total : U8)
    (now : Instant) : (a.entry groupId firstSeq total now).total = total := by
  unfold entry
  cases a.pending[groupId]? with
  | none => rfl
  | some st =>
    dsimp only
    split_ifs with h
    · rfl
    · exact not_not.1 (not_or.1 h).1

/-- The number of a decoded fragment is an index of its group. -/
theorem FragmentAssembler.pushChecked_eq (a : FragmentAssembler) (groupId firstSeq : U16)
    {fragNo total : U8} (chunk : Bytes) (now : Instant) (h : fragNo < total) :
    a.pushChecked groupId firstSeq fragNo total chunk now =
      some (a.push groupId firstSeq fragNo total chunk now) := by
  have hindex : fragNo.toNat < (a.entry groupId firstSeq total now).parts.length := by
    rw [(a.entry groupId firstSeq total now).length_parts, a.total_entry]
    exact h
  unfold pushChecked push
  rw [List.getElem?_eq_getElem hindex]
  split_ifs with hdone
  · rfl
  · dsimp only
    show (if _ then _ else _) = _
    split_ifs
    · rfl
    · rfl

/-- `handle_ch2`. -/
def handleCh2Checked (s : Session) (header : DatagramHeader) (f : FrameRef) (now : Instant)
    (events : List SessionEvent) : Option (Session × List SessionEvent) :=
  if header.seq ∈ s.deliveredSeqs then
    some (s, events)
  else if header.flags &&& FLAG_FRAGMENT = 0 ∧ seqLt header.seq s.deliveredMax = true ∧
      ¬ s.reorder.contains header.seq then
    some (s, events)
  else if header.flags &&& FLAG_FRAGMENT ≠ 0 then
    match decodeFragment f.body with
    | .error _ => some (s, events)
    | .ok fr => do
      match ← s.assembler.pushChecked fr.groupId fr.firstSeq fr.fragNo fr.total fr.chunk now with
      | (assembler, none) => some ({ s with assembler }, events)
      | (assembler, some (gseq, full)) =>
        some (deliverCh2InOrder
          { s with assembler, reorder := insertGroup s.reorder gseq fr.total (f.msgId, full) }
            events)
  else
    some (deliverCh2InOrder
      { s with reorder := s.reorder.insert header.seq (f.msgId, f.body) } events)

theorem handleCh2Checked_eq (s : Session) (header : DatagramHeader) (f : FrameRef) (now : Instant)
    (events : List SessionEvent) :
    handleCh2Checked s header f now events = some (handleCh2 s header f now events) := by
  unfold handleCh2Checked handleCh2
  split_ifs
  · rfl
  · rfl
  · cases hdec : decodeFragment f.body with
    | error e => rfl
    | ok fr =>
      dsimp only
      rw [s.assembler.pushChecked_eq fr.groupId fr.firstSeq fr.chunk now
        (decodeFragment_ok hdec).2.2]
      show (match s.assembler.push fr.groupId fr.firstSeq fr.fragNo fr.total fr.chunk now with
        | (assembler, none) => _
        | (assembler, some (gseq, full)) => _) = _
      rcases s.assembler.push fr.groupId fr.firstSeq fr.fragNo fr.total fr.chunk now with
        ⟨assembler, _ | ⟨gseq, full⟩⟩
      · rfl
      · rfl
  · rfl

/-! ## The acknowledgement that is sent -/

namespace Session

/-- One round of the loop of `compute_ack`. -/
def ackRound (s : Session) (ack : U16) (bits : U32) (i : U32) : Option U32 :=
  if s.ackSees (ack + i.setWidth 16) then do
    let n ← Checked.sub i 1
    let bit ← Checked.shl 1#32 n.toNat
    some (bits ||| bit)
  else
    some bits

/-- `compute_ack`. -/
def computeAckChecked (s : Session) : Option (U16 × U32) := do
  let ack := s.ch2Next.getD 0 - 1
  let bits ← ((List.range 32).map fun k => BitVec.ofNat 32 (k + 1)).foldlM (s.ackRound ack) 0
  some (ack, bits)

theorem ackRound_eq (s : Session) (ack : U16) (bits : U32) {k : ℕ} (hk : k < 32) :
    s.ackRound ack bits (BitVec.ofNat 32 (k + 1)) =
      some (if s.ackSees (ack + BitVec.ofNat 16 (k + 1)) then bits ||| (1#32 <<< k) else bits) := by
  have hnum : (BitVec.ofNat 32 (k + 1)).toNat = k + 1 := by
    rw [BitVec.toNat_ofNat]
    exact Nat.mod_eq_of_lt (by omega)
  have hle : (1 : U32) ≤ BitVec.ofNat 32 (k + 1) := by
    rw [BitVec.le_def, hnum]
    exact Nat.le_add_left 1 k
  have hpred : (BitVec.ofNat 32 (k + 1) - 1).toNat = k := by
    rw [BitVec.toNat_sub_of_le hle, hnum]
    rfl
  have hwidth : (BitVec.ofNat 32 (k + 1)).setWidth 16 = BitVec.ofNat 16 (k + 1) :=
    BitVec.eq_of_toNat_eq (by rw [BitVec.toNat_setWidth, hnum, BitVec.toNat_ofNat])
  unfold ackRound
  rw [hwidth]
  split_ifs
  · rw [sub_of_le hle]
    show (Checked.shl 1#32 _ >>= fun bit => some (bits ||| bit)) = _
    rw [hpred, shl_of_lt hk]
    rfl
  · rfl

theorem computeAckChecked_eq (s : Session) : s.computeAckChecked = some s.computeAck := by
  unfold computeAckChecked computeAck BitMask.setWhere
  dsimp only
  rw [List.foldlM_map, foldlM_some (g := fun bits k =>
    if s.ackSees (s.ch2Next.getD 0 - 1 + BitVec.ofNat 16 (k + 1)) then bits ||| (1#32 <<< k)
      else bits)]
  · rfl
  · intro bits k hk
    exact s.ackRound_eq _ bits (List.mem_range.1 hk)

end Session

end SoupEngine
