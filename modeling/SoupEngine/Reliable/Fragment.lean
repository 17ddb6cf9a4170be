import SoupEngine.Lib.BoundedMemory
import SoupEngine.Protocol.Types

/-!
# Fragmentation and reassembly

A payload over the threshold travels as fragments, each a reliable frame of its own. The assembler
collects the fragments of a group under its `group_id` and returns the payload with the last one.
-/

namespace SoupEngine

open BoundedMemory

def FRAGMENT_TIMEOUT : Duration := Duration.fromSecs 10
/-- Upper bound of the number of fragments in a group. -/
def MAX_FRAGMENTS : U8 := 64
/-- Payloads over this length are fragmented. -/
def FRAGMENT_THRESHOLD : ℕ := 1100
/-- `group u16 + first_seq u16 + frag_no u8 + total u8`. -/
def FRAG_HEADER_LEN : ℕ := 6
/-- How many completed groups are remembered. -/
def COMPLETED_CAP : ℕ := 128

/-! ## Splitting -/

def divCeil (n d : ℕ) : ℕ := (n + d - 1) / d

/-- The `i`-th chunk of `payload.chunks(size)`. -/
def chunk (size : ℕ) (payload : Bytes) (i : ℕ) : Bytes := (payload.drop (i * size)).take size

/-- `payload.chunks(size)`. -/
def chunks (size : ℕ) (payload : Bytes) : List Bytes :=
  (List.range (divCeil payload.length size)).map (chunk size payload)

def encodeFragment (groupId firstSeq : U16) (fragNo total : U8) (chunk : Bytes) : Bytes :=
  leBytes groupId ++ leBytes firstSeq ++ [fragNo] ++ [total] ++ chunk

/-- Cut a payload into fragment bodies. The number of fragments and the index of a fragment are
narrowed to a byte. -/
def split (payload : Bytes) (groupId firstSeq : U16) (maxChunk : ℕ) : List Bytes :=
  let total : U8 := BitVec.ofNat 8 (max (divCeil payload.length maxChunk) 1)
  (chunks maxChunk payload).mapIdx fun i chunk =>
    encodeFragment groupId firstSeq (BitVec.ofNat 8 i) total chunk

structure Fragment where
  groupId : U16
  firstSeq : U16
  fragNo : U8
  total : U8
  chunk : Bytes
  deriving DecidableEq

def decodeFragment (body : Bytes) : Except Error Fragment :=
  if body.length < FRAG_HEADER_LEN then
    .error (.Protocol "分片 body 过短")
  else
    let groupId := fromLe 16 (slice body 0 2)
    let firstSeq := fromLe 16 (slice body 2 4)
    let fragNo := fromLe 8 (slice body 4 5)
    let total := fromLe 8 (slice body 5 6)
    if total = 0 ∨ MAX_FRAGMENTS < total ∨ total ≤ fragNo then
      .error (.Protocol s!"非法分片参数: frag_no={fragNo.toNat} total={total.toNat}")
    else
      .ok ⟨groupId, firstSeq, fragNo, total, body.drop FRAG_HEADER_LEN⟩

/-! ## Reassembly -/

/-- The fragments of one group collected so far, `none` where one is missing. -/
structure FragState where
  total : U8
  firstSeq : U16
  parts : List (Option Bytes)
  lastUpdate : Instant
  length_parts : parts.length = total.toNat
  deriving DecidableEq

namespace FragState

/-- A group of which no fragment has arrived. -/
def fresh (total : U8) (firstSeq : U16) (now : Instant) : FragState :=
  ⟨total, firstSeq, List.replicate total.toNat none, now, List.length_replicate⟩

/-- Put a chunk in its slot unless the slot is taken. -/
def store (st : FragState) (fragNo : U8) (chunk : Bytes) : FragState :=
  { st with
    parts := if st.parts[fragNo.toNat]? = some none then st.parts.set fragNo.toNat (some chunk)
      else st.parts
    length_parts := by split_ifs <;> simp [st.length_parts] }

/-- Every fragment has arrived. -/
def isComplete (st : FragState) : Bool := st.parts.all Option.isSome

/-- The chunks in order. -/
def concat (st : FragState) : Bytes := st.parts.flatMap fun p => p.getD []

end FragState

structure FragmentAssembler where
  pending : Map U16 FragState
  completed : List U16

namespace FragmentAssembler

def new : FragmentAssembler := ⟨∅, []⟩

/-- The state of a group when a fragment of it arrives: what is pending under its id, or a fresh
group where nothing is pending or it disagrees on the total or the first number. -/
def entry (a : FragmentAssembler) (groupId firstSeq : U16) (total : U8) (now : Instant) :
    FragState :=
  match a.pending[groupId]? with
  | none => FragState.fresh total firstSeq now
  | some st =>
    if st.total ≠ total ∨ st.firstSeq ≠ firstSeq then FragState.fresh total firstSeq now
    else { st with lastUpdate := now }

/-- Push a fragment. With the last fragment of a group, its first number and the payload. -/
def push (a : FragmentAssembler) (groupId firstSeq : U16) (fragNo total : U8) (chunk : Bytes)
    (now : Instant) : FragmentAssembler × Option (U16 × Bytes) :=
  if groupId ∈ a.completed then
    -- a retransmitted fragment of a completed group
    (a, none)
  else
    let st := (a.entry groupId firstSeq total now).store fragNo chunk
    if st.isComplete then
      (⟨a.pending.erase groupId, remember COMPLETED_CAP a.completed groupId⟩,
        some (st.firstSeq, st.concat))
    else
      ({ a with pending := a.pending.insert groupId st }, none)

/-- Drop the groups that have not been completed in time. -/
def cleanup (a : FragmentAssembler) (now : Instant) : FragmentAssembler :=
  { a with pending := a.pending.filter fun _ st => decide (now - st.lastUpdate < FRAGMENT_TIMEOUT) }

end FragmentAssembler

/-! ## The fragment codec -/

theorem slice_body (g f : U16) (n t : U8) (c : Bytes) :
    slice (encodeFragment g f n t c) 0 2 = leBytes g ∧
      slice (encodeFragment g f n t c) 2 4 = leBytes f ∧
      slice (encodeFragment g f n t c) 4 5 = [n] ∧ slice (encodeFragment g f n t c) 5 6 = [t] ∧
      (encodeFragment g f n t c).drop FRAG_HEADER_LEN = c :=
  ⟨rfl, rfl, rfl, rfl, rfl⟩

@[simp] theorem length_encodeFragment (g f : U16) (n t : U8) (c : Bytes) :
    (encodeFragment g f n t c).length = FRAG_HEADER_LEN + c.length := by
  simp [encodeFragment, FRAG_HEADER_LEN]; omega

/-- `decodeFragment` on an encoded fragment: rejected exactly when the total is not within
`1..=MAX_FRAGMENTS` or the index is not below it. -/
theorem decodeFragment_encodeFragment (g f : U16) (n t : U8) (c : Bytes) :
    decodeFragment (encodeFragment g f n t c) =
      if t = 0 ∨ MAX_FRAGMENTS < t ∨ t ≤ n then
        .error (.Protocol s!"非法分片参数: frag_no={n.toNat} total={t.toNat}")
      else
        .ok ⟨g, f, n, t, c⟩ := by
  obtain ⟨h0, h1, h2, h3, h4⟩ := slice_body g f n t c
  have hn : fromLe 8 [n] = n := by rw [← leBytes_byte, fromLe_leBytes (by norm_num)]
  have ht : fromLe 8 [t] = t := by rw [← leBytes_byte, fromLe_leBytes (by norm_num)]
  unfold decodeFragment
  rw [if_neg (by rw [length_encodeFragment]; omega), h0, h1, h2, h3, h4,
    fromLe_leBytes (by norm_num), fromLe_leBytes (by norm_num), hn, ht]

/-- A decoded fragment has an index below its total. -/
theorem decodeFragment_ok {body : Bytes} {fr : Fragment} (h : decodeFragment body = .ok fr) :
    fr.total ≠ 0 ∧ fr.total ≤ MAX_FRAGMENTS ∧ fr.fragNo < fr.total := by
  unfold decodeFragment at h
  dsimp only at h
  split_ifs at h with hl hp
  cases h
  rw [not_or, not_or, BitVec.not_lt, BitVec.not_le] at hp
  exact hp

end SoupEngine
