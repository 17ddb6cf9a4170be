import SoupEngine.Lib.StreamDecoder
import SoupEngine.Protocol.Frame
import SoupEngine.Sdk.Frame

/-!
# The read loop

`readLoop` appends what it reads to the accumulated bytes and splits off frames until there is no
whole one; on a frame that does not fit a buffer of the read pool it throws the accumulated bytes
away. Frames written by the engine are read back as they were, however the stream is cut, exactly
when none is larger than such a buffer (`readLoop_iff`).
-/

namespace SoupEngine.Sdk

open StreamDecoder

/-- One round of the inner loop. -/
def splitFrame (acc : Bytes) : Outcome U8 (U8 × Bytes) :=
  match TryDecodeFrame acc maxFrameLen with
  | .ok (typ, body, rest) => .item (typ, body) rest
  | .error .ErrNeedMore => .more
  | .error _ => .bad

/-- `Server.readLoop` on one connection: the frames passed to `dispatch` and what is accumulated,
when the reads have returned these chunks. -/
def readLoop (chunks : List Bytes) : Reader U8 (U8 × Bytes) := run splitFrame chunks

/-- A frame as the SDK names it. -/
def received (f : Frame) : U8 × Bytes := (f.ty, f.body)

/-- The bytes of a frame on the stream. -/
def frameBytes (x : U8 × Bytes) : Bytes := Frame.bytes ⟨x.1, x.2⟩

section

variable {x : U8 × Bytes} {p rest : Bytes}

theorem length_frameBytes (x : U8 × Bytes) :
    (frameBytes x).length = FrameHeaderLen + x.2.length := by
  unfold frameBytes Frame.bytes FrameHeaderLen
  rw [List.length_append, List.length_append, length_leBytes, List.length_singleton]

/-- The header of a frame stands in its first five bytes. -/
theorem header_of_prefix (hx : x.2.length ≤ MAX_FRAME_BODY) (hp : p <+: frameBytes x ++ rest)
    (hlen : FrameHeaderLen ≤ p.length) :
    (fromLe 32 (slice p 0 4)).toNat = x.2.length ∧ p.getD 4 0 = x.1 := by
  obtain ⟨q, hq⟩ := hp
  have h5 : 5 ≤ p.length := hlen
  have hl : (leBytes (BitVec.ofNat 32 x.2.length)).length = 4 := length_leBytes _
  have hmax : MAX_FRAME_BODY = 1048576 := rfl
  have hbytes : frameBytes x ++ rest =
      leBytes (BitVec.ofNat 32 x.2.length) ++ (x.1 :: (x.2 ++ rest)) := by
    unfold frameBytes Frame.bytes
    simp
  have htake : slice p 0 4 = leBytes (BitVec.ofNat 32 x.2.length) := by
    have hpq : (p ++ q).take 4 = p.take 4 := List.take_append_of_le_length (by omega)
    unfold slice
    rw [List.drop_zero, ← hpq, hq, hbytes, List.take_left' hl]
  have hget : p[4]? = some x.1 := by
    have hpq : (p ++ q)[4]? = p[4]? := List.getElem?_append_left (by omega)
    rw [← hpq, hq, hbytes, List.getElem?_append_right (by omega), hl]
    rfl
  rw [htake, fromLe_leBytes (by norm_num), BitVec.toNat_ofNat, Nat.mod_eq_of_lt (by omega)]
  refine ⟨rfl, ?_⟩
  rw [List.getD_eq_getElem?_getD, hget]
  rfl

theorem splitFrame_short (h : p.length < FrameHeaderLen) : splitFrame p = .more := by
  unfold splitFrame TryDecodeFrame
  rw [if_pos h]

/-- A frame that fits is split off. -/
theorem splitFrame_item (hx : x.2.length ≤ MAX_FRAME_BODY) (hfit : x.2.length ≤ maxFrameLen) :
    splitFrame (frameBytes x ++ rest) = .item x rest := by
  have hlen : (frameBytes x ++ rest).length = FrameHeaderLen + x.2.length + rest.length := by
    rw [List.length_append, length_frameBytes]
  obtain ⟨hn, hty⟩ := header_of_prefix hx (List.prefix_refl (frameBytes x ++ rest)) (by omega)
  have htotal : (frameBytes x ++ rest).drop (FrameHeaderLen + x.2.length) = rest :=
    List.drop_left' (length_frameBytes x)
  have hbody : slice (frameBytes x ++ rest) FrameHeaderLen (FrameHeaderLen + x.2.length) = x.2 := by
    unfold slice
    rw [List.take_left' (length_frameBytes x)]
    unfold frameBytes Frame.bytes FrameHeaderLen
    exact List.drop_left' (by rw [List.length_append, length_leBytes]; rfl)
  unfold splitFrame TryDecodeFrame
  rw [if_neg (by omega)]
  dsimp only
  rw [hn, if_neg (by omega), if_neg (by omega), hty, htotal, hbody]

/-- What is not yet a whole frame is waited for, if it may fit. -/
theorem splitFrame_more (hx : x.2.length ≤ MAX_FRAME_BODY) (hfit : x.2.length ≤ maxFrameLen)
    (hp : p <+: frameBytes x) (hlt : p.length < (frameBytes x).length) : splitFrame p = .more := by
  by_cases h : p.length < FrameHeaderLen
  · exact splitFrame_short h
  have hp' : p <+: frameBytes x ++ [] := by rwa [List.append_nil]
  obtain ⟨hn, -⟩ := header_of_prefix hx hp' (by omega)
  rw [length_frameBytes] at hlt
  unfold splitFrame TryDecodeFrame
  rw [if_neg h]
  dsimp only
  rw [hn, if_neg (by omega), if_pos (by omega)]

/-- A frame that does not fit is given up as soon as its header is there. -/
theorem splitFrame_bad (hx : x.2.length ≤ MAX_FRAME_BODY) (hbig : maxFrameLen < x.2.length)
    (hp : p <+: frameBytes x ++ rest) (hlen : FrameHeaderLen ≤ p.length) : splitFrame p = .bad := by
  obtain ⟨hn, -⟩ := header_of_prefix hx hp hlen
  unfold splitFrame TryDecodeFrame
  rw [if_neg (by omega)]
  dsimp only
  rw [hn, if_pos (by omega)]

end

/-- The frames of the engine, and the frames that fit the buffers. -/
theorem framing : Framing splitFrame frameBytes (fun x => x.2.length ≤ MAX_FRAME_BODY)
    (fun x => x.2.length ≤ maxFrameLen) where
  nil := rfl
  ne_nil x _ h := by
    have := congrArg List.length h
    rw [length_frameBytes] at this
    exact absurd this (by unfold FrameHeaderLen; simp)
  item x hx hfit rest := splitFrame_item hx hfit
  short x hx hfit p q hq he := by
    refine splitFrame_more hx hfit ⟨q, he.symm⟩ ?_
    have := List.length_pos_iff.2 hq
    rw [he, List.length_append]
    omega
  bad x hx hbig rest :=
    splitFrame_bad hx (by omega) (List.prefix_refl _) (by
      rw [List.length_append, length_frameBytes]; omega)
  bad_short x hx hbig p q _ he := by
    by_cases h : p.length < FrameHeaderLen
    · exact Or.inl (splitFrame_short h)
    · have hp : p <+: frameBytes x ++ [] := by
        rw [List.append_nil]
        exact ⟨q, he.symm⟩
      exact Or.inr (splitFrame_bad hx (by omega) hp (by omega))

/-- What the engine has written is read back, and nothing thrown away, exactly when every frame fits
a buffer of the read pool. -/
theorem readLoop_iff {frames : List Frame} (h : ∀ f ∈ frames, f.body.length ≤ MAX_FRAME_BODY)
    {chunks : List Bytes} (hc : chunks.flatten = frames.flatMap Frame.bytes) :
    ((readLoop chunks).items = frames.map received ∧ (readLoop chunks).resets = 0) ↔
      ∀ f ∈ frames, f.body.length ≤ maxFrameLen := by
  have hv : ∀ x ∈ frames.map received, x.2.length ≤ MAX_FRAME_BODY := by
    rw [List.forall_mem_map]
    exact h
  have hstream : chunks.flatten = (frames.map received).flatMap frameBytes := by
    rw [hc, List.flatMap_map]
    rfl
  have hg : (∀ x ∈ frames.map received, x.2.length ≤ maxFrameLen) ↔
      ∀ f ∈ frames, f.body.length ≤ maxFrameLen := List.forall_mem_map
  rw [← hg]
  constructor
  · rintro ⟨-, hres⟩
    by_contra hb
    have := framing.run_bad hv hstream hb
    exact absurd hres (Nat.pos_iff_ne_zero.1 this)
  · intro hgood
    obtain ⟨hi, hres, -⟩ := framing.run_good hv hstream hgood
    exact ⟨hi, hres⟩

end SoupEngine.Sdk
