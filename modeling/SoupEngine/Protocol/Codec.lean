import SoupEngine.Protocol.Datagram

/-!
# Datagrams and their bytes

`decode` accepts exactly what `encode` writes: the frame loop gives the frames back whose bytes it
has consumed, and the header is read from the places where it is written (`datagram_codec`).
-/

namespace SoupEngine

/-! ## Words and slices -/

theorem leBytes_fromLe {w : ℕ} (hw : 8 ∣ w) {bs : Bytes} (h : bs.length = w / 8) :
    leBytes (fromLe w bs) = bs := by
  obtain ⟨n, rfl⟩ := hw
  have hlen : bs.length = n := by rw [h, Nat.mul_div_cancel_left n (by norm_num)]
  have hlt := LittleEndian.ofBytes_lt bs
  rw [hlen, show (256 : ℕ) = 2 ^ 8 by norm_num, ← pow_mul] at hlt
  unfold leBytes fromLe
  rw [BitVec.toNat_ofNat, Nat.mod_eq_of_lt hlt, Nat.mul_div_cancel_left n (by norm_num), ← hlen]
  exact LittleEndian.toBytes_ofBytes bs

theorem length_slice (buf : Bytes) {lo hi : ℕ} (h : hi ≤ buf.length) :
    (slice buf lo hi).length = hi - lo := by
  unfold slice
  rw [List.length_drop, List.length_take, min_eq_left h]

/-- Two slices side by side. -/
theorem slice_append (buf : Bytes) {lo mid hi : ℕ} (h1 : lo ≤ mid) (h2 : mid ≤ hi) :
    slice buf lo mid ++ slice buf mid hi = slice buf lo hi := by
  have hleft : slice buf lo mid = (slice buf lo hi).take (mid - lo) := by
    unfold slice
    rw [List.take_drop, List.take_take, Nat.add_sub_cancel' h1, min_eq_left h2]
  have hright : slice buf mid hi = (slice buf lo hi).drop (mid - lo) := by
    unfold slice
    rw [List.drop_drop, Nat.add_sub_cancel' h1]
  rw [hleft, hright, List.take_append_drop]

/-! ## The frame loop -/

/-- A frame head is put together again. -/
theorem head_eq {head : U16} {body : Bytes} (hch : ¬ 3 < (head &&& 0x000F).setWidth 8) :
    (((head >>> 4) <<< 4) ||| ((head &&& 0x000F).setWidth 8 : U8).setWidth 16) = head := by
  have hv : FrameRef.Valid ⟨(head &&& 0x000F).setWidth 8, head >>> 4, body⟩ :=
    ⟨BitVec.not_lt.1 hch, msgId_le head⟩
  apply BitVec.eq_of_toNat_eq
  rw [head_toNat hv]
  show (head >>> 4).toNat * 16 + ((head &&& 0x000F).setWidth 8 : U8).toNat = head.toNat
  rw [BitVec.toNat_setWidth, BitVec.toNat_and, BitVec.toNat_ushiftRight, Nat.shiftRight_eq_div_pow]
  show head.toNat / 2 ^ 4 * 16 + (head.toNat &&& (2 ^ 4 - 1)) % 2 ^ 8 = head.toNat
  rw [Nat.and_two_pow_sub_one_eq_mod]
  omega

/-- The first frame of the bytes and what is left. -/
theorem frameBytes_append {buf : Bytes} (h4 : ¬ buf.length < 4)
    (hch : ¬ 3 < (fromLe 16 (buf.take 2) &&& 0x000F).setWidth 8)
    (hlen : ¬ buf.length < 4 + (fromLe 16 ((buf.drop 2).take 2)).toNat) :
    frameBytes ⟨(fromLe 16 (buf.take 2) &&& 0x000F).setWidth 8, fromLe 16 (buf.take 2) >>> 4,
        (buf.drop 4).take (fromLe 16 ((buf.drop 2).take 2)).toNat⟩ ++
      buf.drop (4 + (fromLe 16 ((buf.drop 2).take 2)).toNat) = buf := by
  set len : U16 := fromLe 16 ((buf.drop 2).take 2) with hl
  have hbody : ((buf.drop 4).take len.toNat).length = len.toNat := by
    rw [List.length_take, List.length_drop]
    omega
  have htake : (buf.take 2).length = 16 / 8 := by
    rw [List.length_take]
    omega
  have htake' : ((buf.drop 2).take 2).length = 16 / 8 := by
    rw [List.length_take, List.length_drop]
    omega
  unfold frameBytes
  dsimp only
  rw [@head_eq _ [] hch, hbody, BitVec.ofNat_toNat, BitVec.setWidth_eq, hl,
    leBytes_fromLe (by norm_num) htake, leBytes_fromLe (by norm_num) htake', ← hl]
  calc buf.take 2 ++ (buf.drop 2).take 2 ++ (buf.drop 4).take len.toNat ++
        buf.drop (4 + len.toNat)
      = buf.take 2 ++ ((buf.drop 2).take 2 ++ buf.drop (2 + 2)) := by
        rw [List.append_assoc, List.append_assoc, ← List.drop_drop, List.take_append_drop]
    _ = buf.take 2 ++ buf.drop 2 := by rw [← List.drop_drop, List.take_append_drop]
    _ = buf := List.take_append_drop 2 buf

/-- The frame loop has consumed the bytes of the frames that it returns. -/
theorem decodeFrames_eq {rounds : ℕ} {buf : Bytes} {frames : List FrameRef}
    (hr : buf.length ≤ rounds) (h : decodeFrames rounds buf = .ok frames) :
    frames.flatMap frameBytes = buf := by
  induction rounds generalizing buf frames with
  | zero =>
    cases h
    exact (List.length_eq_zero_iff.1 (Nat.le_zero.1 hr)).symm
  | succ r ih =>
    unfold decodeFrames at h
    split_ifs at h with h0 h4
    · cases h
      exact (List.length_eq_zero_iff.1 h0).symm
    · dsimp only at h
      split_ifs at h with hch hlen
      cases hrest : decodeFrames r (buf.drop (4 + (fromLe 16 ((buf.drop 2).take 2)).toNat)) with
      | error e =>
        rw [hrest] at h
        cases h
      | ok fs =>
        rw [hrest] at h
        cases h
        have htail := ih (by rw [List.length_drop]; omega) hrest
        rw [List.flatMap_cons, htail]
        exact frameBytes_append h4 hch hlen

/-! ## The datagram -/

/-- The header fields stand where `decode` reads them. -/
theorem headerBytes_slices {buf : Bytes} (hlen : HEADER_LEN ≤ buf.length)
    (hmagic : fromLe 16 (slice buf 0 2) = MAGIC) :
    headerBytes ⟨fromLe 8 (slice buf 2 3), fromLe 8 (slice buf 3 4), fromLe 32 (slice buf 4 8),
      fromLe 16 (slice buf 8 10), fromLe 16 (slice buf 10 12), fromLe 32 (slice buf 12 16)⟩ =
      buf.take HEADER_LEN := by
  have h16 : 16 ≤ buf.length := hlen
  have hword {w lo hi : ℕ} (hw : 8 ∣ w) (hhi : hi ≤ 16) (hd : hi - lo = w / 8) :
      leBytes (fromLe w (slice buf lo hi)) = slice buf lo hi :=
    leBytes_fromLe hw (by rw [length_slice buf (hhi.trans h16), hd])
  unfold headerBytes
  rw [← hmagic, ← leBytes_byte, ← leBytes_byte, hword (by norm_num) (by norm_num) rfl,
    hword (by norm_num) (by norm_num) rfl, hword (by norm_num) (by norm_num) rfl,
    hword (by norm_num) (by norm_num) rfl, hword (by norm_num) (by norm_num) rfl,
    hword (by norm_num) (by norm_num) rfl, hword (by norm_num) (by norm_num) rfl]
  rw [slice_append buf (by norm_num) (by norm_num), slice_append buf (by norm_num) (by norm_num),
    slice_append buf (by norm_num) (by norm_num), slice_append buf (by norm_num) (by norm_num),
    slice_append buf (by norm_num) (by norm_num), slice_append buf (by norm_num) (by norm_num)]
  rfl

/-- An accepted datagram consists of the bytes of its header and of its frames. -/
theorem decode_eq {buf : Bytes} {header : DatagramHeader} {frames : List FrameRef}
    (h : decode buf = .ok (header, frames)) :
    header.version = VERSION ∧ buf = headerBytes header ++ frames.flatMap frameBytes ∧
      buf.length ≤ MTU := by
  unfold decode at h
  dsimp only at h
  split_ifs at h with hlo hhi hmagic hver
  cases hr : decodeFrames (buf.length - HEADER_LEN) (buf.drop HEADER_LEN) with
  | error e =>
    rw [hr] at h
    cases h
  | ok fs =>
    rw [hr] at h
    cases h
    have htail := decodeFrames_eq (by rw [List.length_drop]) hr
    refine ⟨not_not.1 hver, ?_, not_lt.1 hhi⟩
    rw [headerBytes_slices (not_lt.1 hlo) (not_not.1 hmagic), htail, List.take_append_drop]

theorem length_flatMap_frameBytes (frames : List FrameRef) :
    (frames.flatMap frameBytes).length = (frames.map fun f => 4 + f.body.length).sum := by
  rw [List.length_flatMap]
  exact congrArg List.sum (List.map_congr_left fun f _ => length_frameBytes f)

/-- **The codec.** `decode` returns a header and frames exactly when `encode` appends these bytes
for them; and `encode` fails exactly on another version, a wrong channel or message id, or more
bytes than the MTU, and then leaves the buffer as it was. -/
theorem datagram_codec (header : DatagramHeader) (frames : List FrameRef) (out buf : Bytes) :
    (decode buf = .ok (header, frames) ↔
        encode header frames out = (out ++ buf, .ok buf.length)) ∧
      ((∃ e, (encode header frames out).2 = .error e) ↔
        header.version ≠ VERSION ∨ (∃ f ∈ frames, 3 < f.ch ∨ 0x0FFF < f.msgId) ∨
          MTU < HEADER_LEN + (frames.map fun f => 4 + f.body.length).sum) ∧
      ∀ e, (encode header frames out).2 = .error e → (encode header frames out).1 = out := by
  refine ⟨⟨fun h => ?_, fun h => ?_⟩, ⟨fun h => ?_, fun h => ?_⟩, fun e he => ?_⟩
  · obtain ⟨hver, hbuf, hle⟩ := decode_eq h
    have hlen : HEADER_LEN + (frames.flatMap frameBytes).length = buf.length := by
      rw [hbuf, List.length_append, length_headerBytes]
    have hc := (encodeChecks_eq_ok (show HEADER_LEN ≤ MTU by decide)).2
      ⟨decode_valid h, rfl, hlen.trans_le hle⟩
    unfold encode
    rw [if_neg (not_not.2 hver), hc]
    dsimp only
    rw [List.append_assoc, ← hbuf, List.length_append, Nat.add_sub_cancel_left]
  · obtain ⟨hver, hv, hbuf, hle⟩ := encode_eq_ok h
    rw [List.append_assoc] at hbuf
    obtain ⟨n, hn⟩ := encode_ok [] hver hv hle
    rw [List.append_cancel_left hbuf]
    exact decode_encode hn
  · obtain ⟨e, he⟩ := h
    by_contra hgood
    push Not at hgood
    obtain ⟨hver, hv, hle⟩ := hgood
    rw [← length_flatMap_frameBytes] at hle
    obtain ⟨n, hn⟩ := encode_ok out hver (fun f hf =>
      ⟨BitVec.not_lt.1 (hv f hf).1, BitVec.not_lt.1 (hv f hf).2⟩) hle
    rw [hn] at he
    cases he
  · cases hr : encode header frames out with
    | mk bytes r =>
      cases r with
      | error e => exact ⟨e, rfl⟩
      | ok n =>
        obtain ⟨hver, hv, -, hle⟩ := encode_eq_ok hr
        rw [length_flatMap_frameBytes] at hle
        rcases h with hne | ⟨f, hf, hch | hid⟩ | hlt
        · exact absurd hver hne
        · exact absurd (hv f hf).1 (BitVec.not_le.2 hch)
        · exact absurd (hv f hf).2 (BitVec.not_le.2 hid)
        · omega
  · exact encode_error (Prod.ext rfl he)

end SoupEngine
