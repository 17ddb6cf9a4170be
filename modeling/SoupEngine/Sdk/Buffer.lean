import SoupEngine.Sdk.Room
import SoupEngine.Protocol.FrameBody

/-!
# Outgoing buffers of the SDK

A room writes a frame in a buffer from the pool, whose bytes may be anything: `Begin*` writes the
head, at offsets counted by hand, `Put*` the payload, and `Commit` the length. The buffer holds at
every moment what has been written so far (`Holds`).
-/

namespace SoupEngine.Sdk

def FrameSend : U8 := 0x81
def FrameMulticast : U8 := 0x82

/-- `len(data)` and `cap(data)` are the same. -/
structure Buffer where
  data : Bytes
  /-- Where the payload begins. -/
  off : ℕ
  /-- The length of the payload. -/
  len : ℕ
  multi : Bool
  closed : Bool
  invalid : Bool

/-- `copy(data[i:], bs)`, and what `PutUint16` and the like do. -/
def patch (data : Bytes) (i : ℕ) (bs : Bytes) : Bytes :=
  data.take i ++ bs.take (data.length - i) ++ data.drop (i + bs.length)

namespace Buffer

def reset (b : Buffer) (off : ℕ) (multi : Bool) : Buffer where
  data := if b.data.length < off then List.replicate off 0 else b.data
  off
  len := 0
  multi
  closed := false
  invalid := false

def grow (b : Buffer) (n : ℕ) : Buffer :=
  let need := b.off + b.len + n
  if need ≤ b.data.length then b
  else { b with data := b.data.take (b.off + b.len) ++
    List.replicate (need * 2 - (b.off + b.len)) 0 }

/-- The bytes are written behind the payload. -/
def put (b : Buffer) (bs : Bytes) : Buffer :=
  let b := b.grow bs.length
  { b with data := patch b.data (b.off + b.len) bs, len := b.len + bs.length }

def PutU8 (b : Buffer) (v : U8) : Buffer := b.put [v]

def PutU16 (b : Buffer) (v : U16) : Buffer := b.put (leBytes v)

def PutU32 (b : Buffer) (v : U32) : Buffer := b.put (leBytes v)

def PutI16 (b : Buffer) (v : U16) : Buffer := b.PutU16 v

/-- The bytes of the loop of `PutVarint`. -/
def uvarint (u : ℕ) : Bytes :=
  if u < 0x80 then [BitVec.ofNat 8 u] else (BitVec.ofNat 8 u ||| 0x80) :: uvarint (u / 128)

/-- `uint64(v)<<1 ^ uint64(v>>63)`. -/
def zigzag (v : U64) : U64 := (v <<< 1) ^^^ v.sshiftRight 63

def PutVarint (b : Buffer) (v : U64) : Buffer := (uvarint (zigzag v).toNat).foldl PutU8 b

/-- The quantised value, which comes of a multiplication of floats, is given. -/
def PutFixed16 (b : Buffer) (q : U16) : Buffer := b.PutI16 q

/-- The quantised angle is given. -/
def PutAngle (b : Buffer) (q : U16) : Buffer := b.PutU16 q

def PutBytes (b : Buffer) (p : Bytes) : Buffer := (b.PutU16 (BitVec.ofNat 16 p.length)).put p

end Buffer

/-- A call of one of the `Put*`. -/
inductive Put
  | U8 (v : SoupEngine.U8)
  | U16 (v : SoupEngine.U16)
  | U32 (v : SoupEngine.U32)
  | I16 (v : SoupEngine.U16)
  | Varint (v : U64)
  | Fixed16 (q : SoupEngine.U16)
  | Angle (q : SoupEngine.U16)
  | Bytes (p : SoupEngine.Bytes)

namespace Put

def run (b : Buffer) : Put → Buffer
  | U8 v => b.PutU8 v
  | U16 v => b.PutU16 v
  | U32 v => b.PutU32 v
  | I16 v => b.PutI16 v
  | Varint v => b.PutVarint v
  | Fixed16 q => b.PutFixed16 q
  | Angle q => b.PutAngle q
  | Bytes p => b.PutBytes p

/-- The bytes that the call writes. -/
def bytes : Put → SoupEngine.Bytes
  | U8 v => [v]
  | U16 v | I16 v | Fixed16 v | Angle v => leBytes v
  | U32 v => leBytes v
  | Varint v => Buffer.uvarint (Buffer.zigzag v).toNat
  | Bytes p => leBytes (BitVec.ofNat 16 p.length) ++ p

end Put

/-- What is written in a buffer one after the other. -/
def writeAll (ps : List Put) (b : Buffer) : Buffer := ps.foldl Put.run b

def payloadOf (ps : List Put) : Bytes := ps.flatMap Put.bytes

/-! ## The context of a room -/

/-- The length of the head of a `Send` frame. -/
def sendHeadLen : ℕ := 16

def multicastHeadLen (n : ℕ) : ℕ := 9 + 8 * n

/-- The sessions, written one after the other from here on. -/
def writeSessions (sessions : List U64) (data : Bytes) (idx : ℕ) : Bytes :=
  match sessions with
  | [] => data
  | sess :: rest => writeSessions rest (patch data idx (leBytes sess)) (idx + 8)

/-- The head of a `Multicast` frame, with its count and its sessions. -/
def beginMulti (b : Buffer) (n : ℕ) (sessions : List U64) (ch : U8) (msg : U16) : Buffer :=
  let off := multicastHeadLen n
  let b := b.reset off true
  if n = 0 then { b with invalid := true }
  else
    let data := patch b.data 4 [FrameMulticast]
    let data := patch data 5 [BitVec.ofNat 8 n]
    let data := writeSessions sessions data 6
    let data := patch data (off - 3) [ch]
    let data := patch data (off - 2) (leBytes msg)
    { b with data }

namespace Room

/-- The sessions of those of the players who are online. -/
def sessions (r : Room) (players : List PlayerID) : List U64 :=
  players.filterMap fun p => (r.players[p]?).map PState.sess

/-- `RoomCtx.BeginSend`, with a buffer of the pool. -/
def BeginSend (r : Room) (b : Buffer) (player : PlayerID) (ch : U8) (msg : U16) : Buffer :=
  let b := b.reset sendHeadLen false
  match r.players[player]? with
  | none => { b with invalid := true }
  | some st =>
    let data := patch b.data 4 [FrameSend]
    let data := patch data 5 (leBytes st.sess)
    let data := patch data 13 [ch]
    let data := patch data 14 (leBytes msg)
    { b with data }

/-- `RoomCtx.BeginMulticast`. -/
def BeginMulticast (r : Room) (b : Buffer) (players : List PlayerID) (ch : U8) (msg : U16) :
    Buffer :=
  beginMulti b (players.countP fun p => decide (p ∈ r.players)) (r.sessions players) ch msg

/-- `RoomCtx.BeginBroadcast`; the map of players is walked in this order. -/
def BeginBroadcast (r : Room) (b : Buffer) (order : List PlayerID) (ch : U8) (msg : U16) : Buffer :=
  beginMulti b r.players.size (r.sessions order) ch msg

end Room

/-- `RoomCtx.Commit` and `flushOutbox`: the bytes that the outbox gets. -/
def Commit (b : Buffer) : Option Bytes :=
  if b.closed = true then none
  else if b.invalid = true then none
  else some ((patch b.data 0 (leBytes (BitVec.ofNat 32 (b.off + b.len - 5)))).take (b.off + b.len))

/-! ## What a buffer holds -/

theorem patch_eq {data bs : Bytes} {i : ℕ} (h : i + bs.length ≤ data.length) :
    patch data i bs = data.take i ++ bs ++ data.drop (i + bs.length) := by
  have htake : bs.take (data.length - i) = bs := List.take_of_length_le (by omega)
  unfold patch
  rw [htake]

theorem length_patch {data bs : Bytes} {i : ℕ} (h : i + bs.length ≤ data.length) :
    (patch data i bs).length = data.length := by
  rw [patch_eq h, List.length_append, List.length_append, List.length_take, List.length_drop]
  omega

/-- Bytes written behind a known front. -/
theorem patch_front {data front : Bytes} (bs : Bytes) {i : ℕ} (hfront : front <+: data)
    (hi : front.length = i) (hlen : i + bs.length ≤ data.length) :
    front ++ bs <+: patch data i bs := by
  have htake : data.take i = front := by rw [← hi]; exact (List.prefix_iff_eq_take.1 hfront).symm
  rw [patch_eq hlen, htake]
  exact List.prefix_append _ _

/-- The sessions behind a known front. -/
theorem writeSessions_front (sessions : List U64) {data front : Bytes} {i : ℕ}
    (hfront : front <+: data) (hi : front.length = i)
    (hlen : i + 8 * sessions.length ≤ data.length) :
    front ++ sessions.flatMap leBytes <+: writeSessions sessions data i ∧
      (writeSessions sessions data i).length = data.length := by
  induction sessions generalizing data front i with
  | nil => exact ⟨by rwa [List.flatMap_nil, List.append_nil], rfl⟩
  | cons sess rest ih =>
    rw [List.length_cons] at hlen
    have hbytes : (leBytes sess).length = 8 := length_leBytes sess
    have hfirst : front ++ leBytes sess <+: patch data i (leBytes sess) :=
      patch_front _ hfront hi (by omega)
    have hsame : (patch data i (leBytes sess)).length = data.length := length_patch (by omega)
    obtain ⟨hall, hlast⟩ := ih hfirst (by rw [List.length_append, hi, hbytes]) (by omega)
    refine ⟨?_, hlast.trans hsame⟩
    rw [List.flatMap_cons, ← List.append_assoc]
    exact hall

namespace Buffer

/-- The buffer has the head and the payload in front. -/
structure Holds (b : Buffer) (head payload : Bytes) : Prop where
  off : head.length = b.off
  len : payload.length = b.len
  front : head ++ payload <+: b.data

theorem length_reset (b : Buffer) (off : ℕ) (multi : Bool) :
    off ≤ (b.reset off multi).data.length := by
  unfold reset
  dsimp only
  split_ifs with h
  · rw [List.length_replicate]
  · exact Nat.le_of_not_lt h

variable {b : Buffer} {head payload : Bytes}

theorem Holds.room (h : b.Holds head payload) : b.off + b.len ≤ b.data.length := by
  have hle := h.front.length_le
  rwa [List.length_append, h.off, h.len] at hle

theorem Holds.grow (h : b.Holds head payload) (n : ℕ) :
    (b.grow n).Holds head payload ∧ b.off + b.len + n ≤ (b.grow n).data.length := by
  unfold Buffer.grow
  dsimp only
  split_ifs with hfit
  · exact ⟨h, hfit⟩
  · have hroom := h.room
    have htake : b.data.take (b.off + b.len) = head ++ payload := by
      rw [← h.off, ← h.len, ← List.length_append]
      exact (List.prefix_iff_eq_take.1 h.front).symm
    refine ⟨⟨h.off, h.len, ?_⟩, ?_⟩
    · dsimp only
      rw [htake]
      exact List.prefix_append _ _
    · dsimp only
      rw [List.length_append, List.length_take, List.length_replicate]
      omega

/-- `put` appends to the payload. -/
theorem Holds.put (h : b.Holds head payload) (bs : Bytes) :
    (b.put bs).Holds head (payload ++ bs) := by
  obtain ⟨hgrown, hroom⟩ := h.grow bs.length
  have hoff : (b.grow bs.length).off = b.off := by rw [← hgrown.off, h.off]
  have hlen : (b.grow bs.length).len = b.len := by rw [← hgrown.len, h.len]
  refine ⟨hgrown.off, ?_, ?_⟩
  · show (payload ++ bs).length = (b.grow bs.length).len + bs.length
    rw [List.length_append, hgrown.len]
  · show head ++ (payload ++ bs) <+:
      patch (b.grow bs.length).data ((b.grow bs.length).off + (b.grow bs.length).len) bs
    rw [← List.append_assoc]
    refine patch_front bs hgrown.front ?_ ?_
    · rw [List.length_append, hgrown.off, hgrown.len]
    · rw [hoff, hlen]
      exact hroom

theorem invalid_put (b : Buffer) (bs : Bytes) : (b.put bs).invalid = b.invalid := by
  unfold put grow
  dsimp only
  split_ifs <;> rfl

theorem closed_put (b : Buffer) (bs : Bytes) : (b.put bs).closed = b.closed := by
  unfold put grow
  dsimp only
  split_ifs <;> rfl

end Buffer

/-- A call hands its bytes to `put` in pieces. -/
theorem Put.run_eq (p : Put) : ∃ pieces : List SoupEngine.Bytes, pieces.flatten = p.bytes ∧
    ∀ b, p.run b = pieces.foldl Buffer.put b := by
  cases p with
  | U8 v => exact ⟨[[v]], rfl, fun _ => rfl⟩
  | U16 v => exact ⟨[leBytes v], List.append_nil _, fun _ => rfl⟩
  | U32 v => exact ⟨[leBytes v], List.append_nil _, fun _ => rfl⟩
  | I16 v => exact ⟨[leBytes v], List.append_nil _, fun _ => rfl⟩
  | Varint v =>
    refine ⟨(Buffer.uvarint (Buffer.zigzag v).toNat).map fun x => [x], ?_, fun b => ?_⟩
    · rw [← List.flatMap_def, List.flatMap_singleton']
      rfl
    · rw [List.foldl_map]
      rfl
  | Fixed16 q => exact ⟨[leBytes q], List.append_nil _, fun _ => rfl⟩
  | Angle q => exact ⟨[leBytes q], List.append_nil _, fun _ => rfl⟩
  | Bytes p => exact ⟨[leBytes (BitVec.ofNat 16 p.length), p], by simp [Put.bytes], fun _ => rfl⟩

theorem writeAll_eq (ps : List Put) : ∃ pieces : List Bytes, pieces.flatten = payloadOf ps ∧
    ∀ b, writeAll ps b = pieces.foldl Buffer.put b := by
  induction ps with
  | nil => exact ⟨[], rfl, fun _ => rfl⟩
  | cons p ps ih =>
    obtain ⟨first, hfirst, hrun⟩ := p.run_eq
    obtain ⟨rest, hrest, hall⟩ := ih
    refine ⟨first ++ rest, ?_, fun b => ?_⟩
    · rw [List.flatten_append, hfirst, hrest]
      rfl
    · rw [List.foldl_append, ← hrun, ← hall]
      rfl

/-- Whatever `put` keeps is kept. -/
theorem foldl_put {β : Type} {f : Buffer → β} (hput : ∀ b bs, f (Buffer.put b bs) = f b)
    (pieces : List Bytes) (b : Buffer) : f (pieces.foldl Buffer.put b) = f b := by
  induction pieces generalizing b with
  | nil => rfl
  | cons bs rest ih => exact (ih (b.put bs)).trans (hput b bs)

theorem invalid_writeAll (ps : List Put) (b : Buffer) : (writeAll ps b).invalid = b.invalid := by
  obtain ⟨pieces, -, hall⟩ := writeAll_eq ps
  rw [hall]
  exact foldl_put Buffer.invalid_put pieces b

theorem closed_writeAll (ps : List Put) (b : Buffer) : (writeAll ps b).closed = b.closed := by
  obtain ⟨pieces, -, hall⟩ := writeAll_eq ps
  rw [hall]
  exact foldl_put Buffer.closed_put pieces b

theorem holds_foldl_put {b : Buffer} {head payload : Bytes} (h : b.Holds head payload)
    (pieces : List Bytes) : (pieces.foldl Buffer.put b).Holds head (payload ++ pieces.flatten) := by
  induction pieces generalizing b payload with
  | nil => rwa [List.flatten_nil, List.append_nil]
  | cons bs rest ih =>
    rw [List.flatten_cons, ← List.append_assoc]
    exact ih (h.put bs)

/-- Behind the head comes what has been written. -/
theorem holds_writeAll {b : Buffer} {head : Bytes} (h : b.Holds head []) (ps : List Put) :
    (writeAll ps b).Holds head (payloadOf ps) := by
  obtain ⟨pieces, hbytes, hall⟩ := writeAll_eq ps
  have hheld := holds_foldl_put h pieces
  rwa [List.nil_append, hbytes, ← hall] at hheld

/-! ## Frames -/

/-- What is put on the outbox is the frame whose type and body the buffer holds behind four
bytes. -/
theorem Commit_eq {b : Buffer} {front head payload : Bytes} {ty : U8}
    (h : b.Holds (front ++ ty :: head) payload) (hfront : front.length = 4)
    (hclosed : b.closed = false) (hinvalid : b.invalid = false) :
    Commit b = some (Frame.bytes ⟨ty, head ++ payload⟩) := by
  obtain ⟨tail, hdata⟩ := h.front
  have hoff : b.off = 5 + head.length := by
    rw [← h.off, List.length_append, hfront, List.length_cons]
    omega
  have hbody : b.off + b.len - 5 = (head ++ payload).length := by
    rw [hoff, ← h.len, List.length_append]
    omega
  have hpatch (bs : Bytes) (hbs : bs.length = 4) :
      patch b.data 0 bs = (bs ++ [ty] ++ (head ++ payload)) ++ tail := by
    have hfit : 0 + bs.length ≤ b.data.length := by
      rw [← hdata]
      simp [hfront, hbs]
    rw [patch_eq hfit, List.take_zero, List.nil_append, Nat.zero_add, hbs, ← hdata]
    simp [hfront]
  unfold Commit
  rw [if_neg (by rw [hclosed]; decide), if_neg (by rw [hinvalid]; decide), hbody,
    hpatch _ (length_leBytes _), List.take_left']
  · rfl
  · rw [List.length_append, List.length_append, length_leBytes, List.length_singleton,
      List.length_append, hoff, ← h.len]
    omega

/-! ## Heads -/

/-- The first four bytes of a buffer are left as they are. -/
theorem take_four {data : Bytes} (h : 4 ≤ data.length) : (data.take 4).length = 4 := by
  rw [List.length_take]
  omega

theorem holds_BeginSend {r : Room} {player : PlayerID} {st : PState}
    (hst : r.players[player]? = some st) (b : Buffer) (ch : U8) (msg : U16) :
      ∃ front : Bytes, front.length = 4 ∧
      (r.BeginSend b player ch msg).Holds
        (front ++ FrameSend :: (leBytes st.sess ++ [ch] ++ leBytes msg)) [] := by
  have hroom : 16 ≤ (b.reset sendHeadLen false).data.length :=
    Buffer.length_reset b sendHeadLen false
  have hfront : ((b.reset sendHeadLen false).data.take 4).length = 4 := take_four (by omega)
  have hsess : (leBytes st.sess).length = 8 := length_leBytes st.sess
  have hmsg : (leBytes msg).length = 2 := length_leBytes msg
  unfold Room.BeginSend
  dsimp only
  rw [hst]
  dsimp only
  generalize hdata : (b.reset sendHeadLen false).data = data at hroom hfront
  -- the writes follow one another
  have h4 := patch_front [FrameSend] (List.take_prefix 4 data) hfront (by simp; omega)
  have hl4 : (patch data 4 [FrameSend]).length = data.length := length_patch (by simp; omega)
  have h5 := patch_front (i := 5) (leBytes st.sess) h4 (by simp; omega) (by omega)
  have hl5 : (patch (patch data 4 [FrameSend]) 5 (leBytes st.sess)).length = data.length :=
    (length_patch (by omega)).trans hl4
  have h13 := patch_front (i := 13) [ch] h5 (by simp [hsess]; omega) (by simp; omega)
  have hl13 : (patch (patch (patch data 4 [FrameSend]) 5 (leBytes st.sess)) 13 [ch]).length =
      data.length :=
    (length_patch (by simp; omega)).trans hl5
  have h14 := patch_front (i := 14) (leBytes msg) h13 (by simp [hsess]; omega) (by omega)
  refine ⟨data.take 4, hfront, ?_, rfl, ?_⟩
  · show _ = 16
    simp
    omega
  · simpa using h14

theorem holds_beginMulti {sessions : List U64} {n : ℕ} (hn : sessions.length = n) (hpos : n ≠ 0)
    (b : Buffer) (ch : U8) (msg : U16) : ∃ front : Bytes, front.length = 4 ∧
      (beginMulti b n sessions ch msg).Holds
        (front ++ FrameMulticast :: ([BitVec.ofNat 8 n] ++ sessions.flatMap leBytes ++ [ch] ++
          leBytes msg)) [] := by
  have hroom : 9 + 8 * n ≤ (b.reset (multicastHeadLen n) true).data.length :=
    Buffer.length_reset b (multicastHeadLen n) true
  have hfront : ((b.reset (multicastHeadLen n) true).data.take 4).length = 4 := take_four (by omega)
  have hsessions : (sessions.flatMap leBytes).length = 8 * n := by
    rw [← hn]
    exact Frame.length_flatMap_leBytes sessions
  have hmsg : (leBytes msg).length = 2 := length_leBytes msg
  have hch : multicastHeadLen n - 3 = 6 + 8 * n := by unfold multicastHeadLen; omega
  have hoff : multicastHeadLen n - 2 = 7 + 8 * n := by unfold multicastHeadLen; omega
  unfold beginMulti
  dsimp only
  rw [if_neg hpos, hch, hoff]
  generalize hdata : (b.reset (multicastHeadLen n) true).data = data at hroom hfront
  -- the writes follow one another
  have h4 := patch_front [FrameMulticast] (List.take_prefix 4 data) hfront (by simp; omega)
  have hl4 : (patch data 4 [FrameMulticast]).length = data.length := length_patch (by simp; omega)
  have h5 := patch_front (i := 5) [BitVec.ofNat 8 n] h4 (by simp; omega) (by simp; omega)
  have hl5 : (patch (patch data 4 [FrameMulticast]) 5 [BitVec.ofNat 8 n]).length = data.length :=
    (length_patch (by simp; omega)).trans hl4
  obtain ⟨h6, hl6⟩ := writeSessions_front (i := 6) sessions h5 (by simp; omega) (by omega)
  have hch' := patch_front (i := 6 + 8 * n) [ch] h6 (by simp [hsessions]; omega) (by simp; omega)
  have hlch : (patch
      (writeSessions sessions (patch (patch data 4 [FrameMulticast]) 5 [BitVec.ofNat 8 n]) 6)
        (6 + 8 * n) [ch]).length = data.length :=
          calc _ = (writeSessions sessions
                (patch (patch data 4 [FrameMulticast]) 5 [BitVec.ofNat 8 n]) 6).length :=
                length_patch (by simp; omega)
            _ = (patch (patch data 4 [FrameMulticast]) 5 [BitVec.ofNat 8 n]).length := hl6
            _ = data.length := hl5
  have hall :=
    patch_front (i := 7 + 8 * n) (leBytes msg) hch' (by simp [hsessions]; omega) (by omega)
  refine ⟨data.take 4, hfront, ?_, rfl, ?_⟩
  · show _ = 9 + 8 * n
    simp [hsessions]
    omega
  · simpa using hall

end SoupEngine.Sdk
