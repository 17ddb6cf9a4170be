import SoupEngine.Basic
import SoupEngine.Lib.InsertionSort

/-!
# The jitter buffer of the SDK

Input of a player waits in the jitter buffer of the room until it is due, and is then delivered in
the order of `(clientTick, player)`. Every modelled function that gives buffers back to the read
pool returns them in the order of the calls of `Put`.
-/

namespace SoupEngine.Sdk

abbrev PlayerID := U32
abbrev Tick := U32
abbrev InputSeq := U16

/-- A buffer of the read pool. -/
abbrev BufId := ℕ

def inputHeaderLen : ℕ := 8

/-- The size that `lastPayload` is allocated with. -/
def lastPayloadCap : ℕ := 2048

structure JitterEntry where
  clientTick : U32
  seq : InputSeq
  payload : Bytes
  /-- The buffer that `payload` is a slice of. -/
  raw : Option BufId
  due : Tick
  deriving DecidableEq

def jitterDepth (base : ℕ) (rtt : U16) : ℕ :=
  let d := base + rtt.toNat / 60
  if d < 2 then 2 else if 5 < d then 5 else d

def seqNewer (a b : InputSeq) : Bool := decide (0 < (a - b).toInt)

/-- What a room keeps of a player. -/
structure PState where
  sess : U64
  rtt : U16
  loss : U16
  lastSeq : InputSeq
  hasInput : Bool
  jbuf : List JitterEntry
  jcap : ℕ
  jdepth : ℕ
  lastPayload : Bytes
  lastPayloadLen : ℕ
  lastRecvSnap : Tick
  baselineRing : List Tick
  baselineCap : ℕ
  /-- The bytes of snapshots in this second. -/
  bytesOut : U32
  /-- 0, 1 or 2. -/
  degrade : ℕ
  forceKeyframe : Bool

namespace PState

/-- The entry is put in the order of `seq`, unless it is old or a duplicate; a full buffer drops its
head for it. -/
def insertJitter (st : PState) (e : JitterEntry) : PState × List BufId × Bool :=
  if st.hasInput = true ∧ ¬ seqNewer e.seq st.lastSeq then
    (st, e.raw.toList, false)
  else if ∃ x ∈ st.jbuf, x.seq = e.seq then
    (st, e.raw.toList, false)
  else
    let evicted := if st.jcap ≤ st.jbuf.length then st.jbuf.head?.bind JitterEntry.raw else none
    let jbuf := if st.jcap ≤ st.jbuf.length then st.jbuf.tail else st.jbuf
    let pos := jbuf.findIdx fun x => seqNewer x.seq e.seq
    ({ st with jbuf := jbuf.insertIdx pos e }, evicted.toList, true)

/-- `copy(dst, src)` with its result: the number of bytes copied. -/
def copyInto (dst src : Bytes) : Bytes × ℕ :=
  (src.take dst.length ++ dst.drop src.length, min dst.length src.length)

/-- The head of the buffer is delivered. -/
def consume (st : PState) (head : JitterEntry) : PState :=
  { st with
    lastPayload := (copyInto st.lastPayload head.payload).1
    lastPayloadLen := (copyInto st.lastPayload head.payload).2
    lastSeq := head.seq
    hasInput := true }

/-- The loop over the buffer, whose remaining entries are given: as long as the head is due and next
in sequence it is taken. -/
def drainLoop (tick : Tick) : List JitterEntry → PState → PState × List JitterEntry
  | [], st => ({ st with jbuf := [] }, [])
  | head :: rest, st =>
    if tick < head.due then
      ({ st with jbuf := head :: rest }, [])
    else if st.hasInput = true ∧ head.seq ≠ st.lastSeq + 1 then
      ({ st with jbuf := head :: rest }, [])
    else
      let (st', taken) := drainLoop tick rest (st.consume head)
      (st', head :: taken)

end PState

structure PendingDeliver where
  player : PlayerID
  clientTick : U32
  seq : InputSeq
  payload : Bytes
  /-- The pooled buffer that `payload` is a slice of, unless it is a slice of `lastPayload`. -/
  raw : Option BufId
  deriving DecidableEq

/-- The loop condition of the insertion sort on `pend[j-1]` and `pend[j]`. -/
def pendingAfter (a b : PendingDeliver) : Bool :=
  decide (b.clientTick < a.clientTick) || decide (a.clientTick = b.clientTick) && decide
    (b.player < a.player)

/-- The insertion sort. In `j > 0 && x || y` the `&&` binds first, so `y` looks at `pend[j-1]` also
when `j` is 0, which panics. -/
def sortPending (pend : List PendingDeliver) : Option (List PendingDeliver) :=
  InsertionSort.sort pendingAfter pend

namespace PState

def freshDeliver (p : PlayerID) (e : JitterEntry) : PendingDeliver :=
  ⟨p, e.clientTick, e.seq, e.payload, e.raw⟩

/-- The last input again, when the buffer is empty. -/
def repeated (st : PState) (tick : Tick) (p : PlayerID) : List PendingDeliver :=
  if st.jbuf = [] ∧ 0 < st.lastPayloadLen then
    [⟨p, tick, st.lastSeq, st.lastPayload.take st.lastPayloadLen, none⟩]
  else []

/-- What one tick does with the buffer of a player. -/
def deliver (st : PState) (tick : Tick) (p : PlayerID) :
    PState × List PendingDeliver × List BufId :=
  let (st', taken) := drainLoop tick st.jbuf st
  (st', taken.map (freshDeliver p) ++ st'.repeated tick p, taken.filterMap JitterEntry.raw)

end PState

end SoupEngine.Sdk
