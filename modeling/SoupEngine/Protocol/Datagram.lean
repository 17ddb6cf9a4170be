import SoupEngine.Protocol.Types

/-!
# The client datagram

`encode` packs a header and a list of frames, `decode` parses a datagram back. Every rejected input
is an `Err`; `decode_encode` is the round trip.
-/

namespace SoupEngine

/-- Length of the fixed header. -/
def HEADER_LEN : ℕ := 16

structure DatagramHeader where
  version : U8
  flags : U8
  connId : U32
  seq : U16
  ack : U16
  ackBits : U32
  deriving DecidableEq

structure FrameRef where
  ch : U8
  msgId : U16
  body : Bytes
  deriving DecidableEq

/-! ## Encoding -/

/-- The loop of `encode` that checks the frames and adds up the datagram length. -/
def encodeChecks (total : ℕ) : List FrameRef → Except Error ℕ
  | [] => .ok total
  | f :: fs =>
    if 3 < f.ch then
      .error (.Protocol s!"非法通道 ch={f.ch.toNat}")
    else if 0x0FFF < f.msgId then
      .error (.Protocol s!"msg_id 超出 12bit: {f.msgId.toNat}")
    else
      -- a slice is shorter than `isize::MAX`, so the checked additions never fail
      if MTU < total + 4 + f.body.length then
        .error (.Protocol s!"数据报超过 MTU({MTU}): 聚合后 {total + 4 + f.body.length} 字节")
      else
        encodeChecks (total + 4 + f.body.length) fs

def headerBytes (h : DatagramHeader) : Bytes :=
  leBytes MAGIC ++ [h.version] ++ [h.flags] ++ leBytes h.connId ++ leBytes h.seq ++ leBytes h.ack ++
    leBytes h.ackBits

def frameBytes (f : FrameRef) : Bytes :=
  leBytes ((f.msgId <<< 4) ||| f.ch.setWidth 16) ++
    leBytes (BitVec.ofNat 16 f.body.length) ++ f.body

/-- `encode(header, frames, out)`: the new contents of `out` and the result. -/
def encode (header : DatagramHeader) (frames : List FrameRef) (out : Bytes) :
    Bytes × Except Error ℕ :=
  if header.version ≠ VERSION then
    (out, .error (.Protocol
      s!"版本不匹配: 期望 {VERSION.toNat}, 收到 {header.version.toNat}"))
  else
    match encodeChecks HEADER_LEN frames with
    | .error e => (out, .error e)
    | .ok _ =>
      let out' := out ++ headerBytes header ++ frames.flatMap frameBytes
      (out', .ok (out'.length - out.length))

/-! ## Decoding -/

/-- The frame loop of `decode` on the bytes that are left; every round consumes at least four, so
the number of bytes bounds the rounds. -/
def decodeFrames : ℕ → Bytes → Except Error (List FrameRef)
  | 0, _ => .ok []
  | rounds + 1, buf =>
    if buf.length = 0 then
      .ok []
    else if buf.length < 4 then
      .error (.Protocol s!"帧头不完整: 剩余 {buf.length} 字节 < 4")
    else
      let head := fromLe 16 (buf.take 2)
      let ch := (head &&& 0x000F).setWidth 8
      let msgId := head >>> 4
      let len := (fromLe 16 ((buf.drop 2).take 2)).toNat
      if 3 < ch then
        .error (.Protocol s!"非法通道 ch={ch.toNat}")
      else if buf.length < 4 + len then
        .error (.Protocol s!"帧体越界: 声明 {len} 字节, 实际剩余 {buf.length - 4}")
      else
        match decodeFrames rounds (buf.drop (4 + len)) with
        | .error e => .error e
        | .ok fs => .ok (⟨ch, msgId, (buf.drop 4).take len⟩ :: fs)

def decode (buf : Bytes) : Except Error (DatagramHeader × List FrameRef) :=
  if buf.length < HEADER_LEN then
    .error (.Protocol s!"数据报过短: {buf.length} < 头部 {HEADER_LEN}")
  else if MTU < buf.length then
    .error (.Protocol s!"数据报超过 MTU({MTU}): {buf.length}")
  else
    let magic := fromLe 16 (slice buf 0 2)
    if magic ≠ MAGIC then
      .error (.Protocol s!"魔数错误: 0x{hex04 magic} != 0x{hex04 MAGIC}")
    else
      let version := fromLe 8 (slice buf 2 3)
      if version ≠ VERSION then
        .error (.Protocol s!"版本不匹配: 期望 {VERSION.toNat}, 收到 {version.toNat}")
      else
        let header : DatagramHeader :=
          { version
            flags := fromLe 8 (slice buf 3 4)
            connId := fromLe 32 (slice buf 4 8)
            seq := fromLe 16 (slice buf 8 10)
            ack := fromLe 16 (slice buf 10 12)
            ackBits := fromLe 32 (slice buf 12 16) }
        match decodeFrames (buf.length - HEADER_LEN) (buf.drop HEADER_LEN) with
        | .error e => .error e
        | .ok frames => .ok (header, frames)

/-! ## Lengths -/

@[simp] theorem length_headerBytes (h : DatagramHeader) : (headerBytes h).length = HEADER_LEN := by
  simp [headerBytes, HEADER_LEN]

@[simp] theorem length_frameBytes (f : FrameRef) : (frameBytes f).length = 4 + f.body.length := by
  simp [frameBytes]; omega

/-- A frame that `encode` takes. -/
def FrameRef.Valid (f : FrameRef) : Prop := f.ch ≤ 3 ∧ f.msgId ≤ 0x0FFF

instance (f : FrameRef) : Decidable f.Valid := by unfold FrameRef.Valid; infer_instance

/-- The checks pass exactly for valid frames that fit the datagram. -/
theorem encodeChecks_eq_ok {total n : ℕ} {frames : List FrameRef} (ht : total ≤ MTU) :
    encodeChecks total frames = .ok n ↔
      (∀ f ∈ frames, f.Valid) ∧ n = total + (frames.flatMap frameBytes).length ∧ n ≤ MTU := by
  induction frames generalizing total with
  | nil =>
    simp only [encodeChecks, List.flatMap_nil, List.length_nil, Nat.add_zero, List.not_mem_nil,
      false_implies, implies_true, true_and, Except.ok.injEq]
    constructor
    · rintro rfl; exact ⟨rfl, ht⟩
    · exact fun h => h.1.symm
  | cons f fs ih =>
    unfold encodeChecks
    rw [List.forall_mem_cons, List.flatMap_cons, List.length_append, length_frameBytes]
    split_ifs with hch hid hmtu
    · constructor
      · intro h; cases h
      · rintro ⟨⟨hf, -⟩, -, -⟩; exact absurd hch (BitVec.not_lt.2 hf.1)
    · constructor
      · intro h; cases h
      · rintro ⟨⟨hf, -⟩, -, -⟩; exact absurd hid (BitVec.not_lt.2 hf.2)
    · constructor
      · intro h; cases h
      · rintro ⟨-, hn, hm⟩; omega
    · rw [ih (by omega)]
      constructor
      · rintro ⟨hv, hn, hm⟩
        exact ⟨⟨⟨BitVec.not_lt.1 hch, BitVec.not_lt.1 hid⟩, hv⟩, by omega, hm⟩
      · rintro ⟨⟨-, hv⟩, hn, hm⟩
        exact ⟨hv, by omega, hm⟩

/-! ## Round trip -/

theorem head_toNat {f : FrameRef} (hf : f.Valid) :
    ((f.msgId <<< 4) ||| f.ch.setWidth 16).toNat = f.msgId.toNat * 16 + f.ch.toNat := by
  obtain ⟨hch, hid⟩ := hf
  have hch' : f.ch.toNat ≤ 3 := hch
  have hid' : f.msgId.toNat ≤ 0x0FFF := hid
  rw [BitVec.toNat_or, BitVec.toNat_shiftLeft, BitVec.toNat_setWidth,
    Nat.mod_eq_of_lt (show f.ch.toNat < 2 ^ 16 by omega), Nat.shiftLeft_eq,
    Nat.mod_eq_of_lt (show f.msgId.toNat * 2 ^ 4 < 2 ^ 16 by omega), Nat.mul_comm,
    ← Nat.two_pow_add_eq_or_of_lt (show f.ch.toNat < 2 ^ 4 by omega)]
  omega

theorem head_ch {f : FrameRef} (hf : f.Valid) :
    ((((f.msgId <<< 4) ||| f.ch.setWidth 16) &&& 0x000F).setWidth 8 : U8) = f.ch := by
  have hch : f.ch.toNat ≤ 3 := hf.1
  apply BitVec.eq_of_toNat_eq
  rw [BitVec.toNat_setWidth, BitVec.toNat_and, head_toNat hf]
  show ((f.msgId.toNat * 16 + f.ch.toNat) &&& (2 ^ 4 - 1)) % 2 ^ 8 = f.ch.toNat
  rw [Nat.and_two_pow_sub_one_eq_mod]
  omega

theorem head_msgId {f : FrameRef} (hf : f.Valid) :
    ((f.msgId <<< 4) ||| f.ch.setWidth 16) >>> 4 = f.msgId := by
  have hch : f.ch.toNat ≤ 3 := hf.1
  apply BitVec.eq_of_toNat_eq
  rw [BitVec.toNat_ushiftRight, head_toNat hf, Nat.shiftRight_eq_div_pow]
  omega

/-- The frame loop reads the frames back one by one. -/
theorem decodeFrames_flatMap {rounds : ℕ} {frames : List FrameRef} (hv : ∀ f ∈ frames, f.Valid)
    (hlen : (frames.flatMap frameBytes).length ≤ rounds) (hr : rounds ≤ MTU) :
    decodeFrames rounds (frames.flatMap frameBytes) = .ok frames := by
  induction frames generalizing rounds with
  | nil =>
    cases rounds with
    | zero => rfl
    | succ r => rfl
  | cons f fs ih =>
    rw [List.forall_mem_cons] at hv
    rw [List.flatMap_cons, List.length_append, length_frameBytes] at hlen
    have hmtu : MTU = 1200 := rfl
    obtain ⟨r, rfl⟩ : ∃ r, rounds = r + 1 := ⟨rounds - 1, by omega⟩
    set head : U16 := (f.msgId <<< 4) ||| f.ch.setWidth 16 with hhead
    set len : U16 := BitVec.ofNat 16 f.body.length with hl
    have hlenNat : len.toNat = f.body.length := by
      rw [hl, BitVec.toNat_ofNat, Nat.mod_eq_of_lt (by omega)]
    set buf : Bytes := (f :: fs).flatMap frameBytes with hbuf
    have hb : buf = leBytes head ++ (leBytes len ++ (f.body ++ fs.flatMap frameBytes)) := by
      rw [hbuf, List.flatMap_cons, frameBytes, List.append_assoc, List.append_assoc]
    have h2 : (leBytes head).length = 2 := length_leBytes head
    have h2' : (leBytes len).length = 2 := length_leBytes len
    have t1 : buf.take 2 = leBytes head := by
      rw [hb, List.take_left' h2]
    have d1 : buf.drop 2 = leBytes len ++ (f.body ++ fs.flatMap frameBytes) := by
      rw [hb, List.drop_left' h2]
    have t2 : (buf.drop 2).take 2 = leBytes len := by
      rw [d1, List.take_left' h2']
    have d2 : buf.drop 4 = f.body ++ fs.flatMap frameBytes := by
      rw [show (4 : ℕ) = 2 + 2 from rfl, ← List.drop_drop, d1, List.drop_left' h2']
    have d3 : buf.drop (4 + f.body.length) = fs.flatMap frameBytes := by
      rw [← List.drop_drop, d2, List.drop_left' rfl]
    have hbl : buf.length = 4 + f.body.length + (fs.flatMap frameBytes).length := by
      rw [hbuf, List.flatMap_cons, List.length_append, length_frameBytes]
    unfold decodeFrames
    rw [if_neg (by omega), if_neg (by omega), t1, t2, fromLe_leBytes (by norm_num),
      fromLe_leBytes (by norm_num), hlenNat]
    simp only [hhead]
    rw [head_ch hv.1, head_msgId hv.1, if_neg (BitVec.not_lt.2 hv.1.1), if_neg (by omega), d3,
      ih hv.2 (by omega) (by omega), d2, List.take_left' rfl]

/-- What a successful `encode` returns. -/
theorem encode_eq_ok {h : DatagramHeader} {frames : List FrameRef} {out bytes : Bytes} {n : ℕ}
    (he : encode h frames out = (bytes, .ok n)) :
    h.version = VERSION ∧ (∀ f ∈ frames, f.Valid) ∧
      bytes = out ++ headerBytes h ++ frames.flatMap frameBytes ∧
      HEADER_LEN + (frames.flatMap frameBytes).length ≤ MTU := by
  unfold encode at he
  split_ifs at he with hver
  · cases he
  · cases hc : encodeChecks HEADER_LEN frames with
    | error e => rw [hc] at he; cases he
    | ok m =>
      rw [hc] at he
      obtain ⟨hv, hm, hle⟩ := (encodeChecks_eq_ok (by decide)).1 hc
      refine ⟨not_not.1 hver, hv, ?_, hm ▸ hle⟩
      exact (Prod.mk.inj he).1.symm

/-- A header of the right version and valid frames within the MTU are encoded. -/
theorem encode_ok {h : DatagramHeader} {frames : List FrameRef} (out : Bytes)
    (hver : h.version = VERSION) (hv : ∀ f ∈ frames, f.Valid)
    (hle : HEADER_LEN + (frames.flatMap frameBytes).length ≤ MTU) :
    ∃ n, encode h frames out = (out ++ headerBytes h ++ frames.flatMap frameBytes, .ok n) := by
  have hc := (encodeChecks_eq_ok (show HEADER_LEN ≤ MTU by decide)).2 ⟨hv, rfl, hle⟩
  unfold encode
  rw [if_neg (not_not.2 hver), hc]
  exact ⟨_, rfl⟩

/-- A datagram without frames. -/
theorem encode_no_frames {h : DatagramHeader} (hver : h.version = VERSION) :
    ∃ n, encode h [] [] = (headerBytes h, .ok n) := by
  obtain ⟨n, hn⟩ := @encode_ok h [] [] hver (fun f hf => absurd hf List.not_mem_nil) (by decide)
  refine ⟨n, hn.trans ?_⟩
  rw [List.flatMap_nil, List.append_nil, List.nil_append]

/-- A failing `encode` leaves the buffer alone. -/
theorem encode_error {h : DatagramHeader} {frames : List FrameRef} {out bytes : Bytes} {e : Error}
    (he : encode h frames out = (bytes, .error e)) : bytes = out := by
  unfold encode at he
  split_ifs at he
  · exact (Prod.mk.inj he).1.symm
  · cases hc : encodeChecks HEADER_LEN frames with
    | error e => rw [hc] at he; exact (Prod.mk.inj he).1.symm
    | ok m => rw [hc] at he; cases he

/-- **Round trip.** `decode` reads back the header and the frames of every encoded datagram. -/
theorem decode_encode {h : DatagramHeader} {frames : List FrameRef} {bytes : Bytes} {n : ℕ}
    (he : encode h frames [] = (bytes, .ok n)) : decode bytes = .ok (h, frames) := by
  obtain ⟨hver, hv, rfl, hle⟩ := encode_eq_ok he
  rw [List.nil_append]
  set tail : Bytes := frames.flatMap frameBytes with htail
  set buf : Bytes := headerBytes h ++ tail with hbuf
  have hb : buf = leBytes MAGIC ++ (leBytes h.version ++ (leBytes h.flags ++ (leBytes h.connId ++
      (leBytes h.seq ++ (leBytes h.ack ++ (leBytes h.ackBits ++ tail)))))) := by
    rw [hbuf, headerBytes, leBytes_byte, leBytes_byte]
    simp only [List.append_assoc]
  have hlen : buf.length = HEADER_LEN + tail.length := by
    rw [hbuf, List.length_append, length_headerBytes]
  have s0 : slice buf 0 2 = leBytes MAGIC := by rw [hb]; rfl
  have s2 : slice buf 2 3 = leBytes h.version := by rw [hb]; rfl
  have s3 : slice buf 3 4 = leBytes h.flags := by rw [hb]; rfl
  have s4 : slice buf 4 8 = leBytes h.connId := by rw [hb]; rfl
  have s8 : slice buf 8 10 = leBytes h.seq := by rw [hb]; rfl
  have s10 : slice buf 10 12 = leBytes h.ack := by rw [hb]; rfl
  have s12 : slice buf 12 16 = leBytes h.ackBits := by rw [hb]; rfl
  have hd : buf.drop HEADER_LEN = tail := by rw [hb]; rfl
  have hr : buf.length - HEADER_LEN = tail.length := by omega
  have hfr : decodeFrames tail.length tail = .ok frames :=
    decodeFrames_flatMap hv le_rfl (by omega)
  unfold decode
  rw [if_neg (by omega), if_neg (by omega), s0, s2, s3, s4, s8, s10, s12, hd, hr, hfr]
  simp only [fromLe_leBytes (show 8 ∣ 8 by norm_num), fromLe_leBytes (show 8 ∣ 16 by norm_num),
    fromLe_leBytes (show 8 ∣ 32 by norm_num), hver, ne_eq, not_true_eq_false, if_false]
  rw [← hver]

/-! ## What is accepted -/

/-- The message id is what is left of the frame head above its four channel bits. -/
theorem msgId_le (head : U16) : head >>> 4 ≤ 0x0FFF := by
  show (head >>> 4).toNat ≤ 4095
  rw [BitVec.toNat_ushiftRight, Nat.shiftRight_eq_div_pow]
  have := head.isLt
  omega

/-- The frame loop accepts valid frames only. -/
theorem decodeFrames_valid {rounds : ℕ} {buf : Bytes} {frames : List FrameRef}
    (h : decodeFrames rounds buf = .ok frames) : ∀ f ∈ frames, f.Valid := by
  induction rounds generalizing buf frames with
  | zero =>
    cases h
    simp
  | succ r ih =>
    unfold decodeFrames at h
    split_ifs at h with h0
    · cases h
      simp
    · dsimp only at h
      split_ifs at h with hch hlen
      cases hr : decodeFrames r (buf.drop (4 + (fromLe 16 ((buf.drop 2).take 2)).toNat)) with
      | error e => rw [hr] at h; cases h
      | ok fs =>
        rw [hr] at h
        cases h
        rw [List.forall_mem_cons]
        exact ⟨⟨BitVec.not_lt.1 hch, msgId_le _⟩, ih hr⟩

theorem decode_valid {buf : Bytes} {header : DatagramHeader} {frames : List FrameRef}
    (h : decode buf = .ok (header, frames)) : ∀ f ∈ frames, f.Valid := by
  unfold decode at h
  dsimp only at h
  split_ifs at h
  cases hr : decodeFrames (buf.length - HEADER_LEN) (buf.drop HEADER_LEN) with
  | error e => rw [hr] at h; cases h
  | ok fs =>
    rw [hr] at h
    cases h
    exact decodeFrames_valid hr

/-- The frames come out of the bytes one after the other. -/
theorem decodeFrames_total {rounds : ℕ} {buf : Bytes} {frames : List FrameRef}
    (h : decodeFrames rounds buf = .ok frames) :
    (frames.map fun f => f.body.length + 4).sum ≤ buf.length := by
  induction rounds generalizing buf frames with
  | zero =>
    cases h
    exact Nat.zero_le _
  | succ r ih =>
    unfold decodeFrames at h
    split_ifs at h with h0
    · cases h
      exact Nat.zero_le _
    · dsimp only at h
      split_ifs at h with hch hlen
      cases hr : decodeFrames r (buf.drop (4 + (fromLe 16 ((buf.drop 2).take 2)).toNat)) with
      | error e => rw [hr] at h; cases h
      | ok fs =>
        rw [hr] at h
        cases h
        have htail := ih hr
        rw [List.length_drop] at htail
        simp only [List.map_cons, List.sum_cons, List.length_take, List.length_drop]
        omega

/-- The bodies come out of the bytes. -/
theorem decodeFrames_length {rounds : ℕ} {buf : Bytes} {frames : List FrameRef}
    (h : decodeFrames rounds buf = .ok frames) : ∀ f ∈ frames, 4 + f.body.length ≤ buf.length := by
  intro f hf
  have hmem : f.body.length + 4 ∈ frames.map fun f => f.body.length + 4 :=
    List.mem_map.2 ⟨f, hf, rfl⟩
  have hle := List.single_le_sum (fun _ _ => Nat.zero_le _) _ hmem
  have htotal := decodeFrames_total h
  omega

theorem decode_total {buf : Bytes} {header : DatagramHeader} {frames : List FrameRef}
    (h : decode buf = .ok (header, frames)) :
    HEADER_LEN + (frames.map fun f => f.body.length + 4).sum ≤ buf.length := by
  unfold decode at h
  dsimp only at h
  split_ifs at h with hlo hhi
  cases hr : decodeFrames (buf.length - HEADER_LEN) (buf.drop HEADER_LEN) with
  | error e => rw [hr] at h; cases h
  | ok fs =>
    rw [hr] at h
    cases h
    have htotal := decodeFrames_total hr
    rw [List.length_drop] at htotal
    omega

theorem decode_length {buf : Bytes} {header : DatagramHeader} {frames : List FrameRef}
    (h : decode buf = .ok (header, frames)) :
    ∀ f ∈ frames, HEADER_LEN + 4 + f.body.length ≤ MTU := by
  unfold decode at h
  dsimp only at h
  split_ifs at h with hlo hhi
  cases hr : decodeFrames (buf.length - HEADER_LEN) (buf.drop HEADER_LEN) with
  | error e => rw [hr] at h; cases h
  | ok fs =>
    rw [hr] at h
    cases h
    intro f hf
    have := decodeFrames_length hr f hf
    rw [List.length_drop] at this
    omega

end SoupEngine
