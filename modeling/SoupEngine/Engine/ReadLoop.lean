import SoupEngine.Sdk.ReadLoop

/-!
# Reading frames on both sides

`read_frame` of the engine decodes a frame from what it has read, and reads on when there is no
whole one. It splits a stream as the read loop of the SDK does, as long as the frames fit the
buffers of the SDK (`framing_agrees`).
-/

namespace SoupEngine

open StreamDecoder

namespace UdsReader

/-- What `read_frame` returns, what is left in `read_buf`, and the reads that have not been made. -/
structure ReadFrame where
  result : Except Error (Option Frame)
  read_buf : Bytes
  reads : List Bytes

/-- `read_frame`, when the stream has these reads to give. A read of no bytes, and one after the
last, says that the peer has closed. -/
def read_frame (reads : List Bytes) (read_buf : Bytes) : ReadFrame :=
  match Frame.try_decode read_buf with
  | .error e => ⟨.error e, read_buf, reads⟩
  | .ok (some (frame, rest)) => ⟨.ok (some frame), rest, reads⟩
  | .ok none =>
    if MAX_FRAME_BODY + FRAME_HEADER_LEN < read_buf.length then
      ⟨.error (.Protocol "UDS 帧流缓冲超限"), read_buf, reads⟩
    else
      match reads with
      | [] => ⟨.ok none, read_buf, []⟩
      | chunk :: reads =>
        if chunk.length = 0 then ⟨.ok none, read_buf, reads⟩
          else read_frame reads (read_buf ++ chunk)

/-- The frames that `read_frame` returns call after call, how it ends, and what is left. -/
def read_frames : ℕ → List Bytes → Bytes → List Frame × Except Error Unit × Bytes
  | 0, _, read_buf => ([], .ok (), read_buf)
  | calls + 1, reads, read_buf =>
    match read_frame reads read_buf with
    | ⟨.error e, read_buf, _⟩ => ([], .error e, read_buf)
    | ⟨.ok none, read_buf, _⟩ => ([], .ok (), read_buf)
    | ⟨.ok (some frame), read_buf, reads⟩ =>
      (frame :: (read_frames calls reads read_buf).1, (read_frames calls reads read_buf).2)

/-- `logic_read_loop` up to the end of the stream; a frame has at least one byte. -/
def logic_read_loop (reads : List Bytes) : List Frame × Except Error Unit × Bytes :=
  read_frames (reads.flatten.length + 1) reads []

/-- `try_decode` as a decoder of a stream. -/
def splitUds (buf : Bytes) : Outcome U8 Frame :=
  match Frame.try_decode buf with
  | .ok (some (frame, rest)) => .item frame rest
  | .ok none => .more
  | .error _ => .bad

/-! ## The loop is the reader of a stream -/

theorem length_of_splitUds_more {buf : Bytes} (h : splitUds buf = .more) :
    Frame.try_decode buf = .ok none ∧ buf.length ≤ MAX_FRAME_BODY + FRAME_HEADER_LEN := by
  unfold splitUds at h
  unfold Frame.try_decode at h ⊢
  dsimp only at h ⊢
  split_ifs at h ⊢ with hlen hmax hwhole
  · exact ⟨rfl, by omega⟩
  · exact ⟨rfl, by omega⟩

theorem splitUds_item {buf rest : Bytes} {frame : Frame} (h : splitUds buf = .item frame rest) :
    Frame.try_decode buf = .ok (some (frame, rest)) ∧ rest.length < buf.length := by
  unfold splitUds at h
  unfold Frame.try_decode at h ⊢
  dsimp only at h ⊢
  split_ifs at h ⊢ with hlen hmax hwhole
  cases h
  refine ⟨rfl, ?_⟩
  rw [List.length_drop]
  unfold FRAME_HEADER_LEN at hlen ⊢
  omega

theorem read_frames_some {reads reads' : List Bytes} {read_buf read_buf' : Bytes} {frame : Frame}
    (h : read_frame reads read_buf = ⟨.ok (some frame), read_buf', reads'⟩) (calls : ℕ) :
    read_frames (calls + 1) reads read_buf =
      (frame :: (read_frames calls reads' read_buf').1,
        (read_frames calls reads' read_buf').2) := by
  conv_lhs => unfold read_frames
  rw [h]

theorem read_frames_congr {reads reads' : List Bytes} {read_buf read_buf' : Bytes}
    (h : read_frame reads read_buf = read_frame reads' read_buf') (calls : ℕ) :
    read_frames (calls + 1) reads read_buf = read_frames (calls + 1) reads' read_buf' := by
  unfold read_frames
  rw [h]

/-- The frames that are whole in `read_buf` are returned without a read. -/
theorem read_frames_drain (reads : List Bytes) (rounds : ℕ) (r : Reader U8 Frame)
    (h : (drain splitUds rounds r).resets = r.resets) :
    ∃ ys, (drain splitUds rounds r).items = r.items ++ ys ∧ ∀ calls,
      read_frames (ys.length + calls) reads r.acc =
        (ys ++ (read_frames calls reads (drain splitUds rounds r).acc).1,
          (read_frames calls reads (drain splitUds rounds r).acc).2) := by
  induction rounds generalizing r with
  | zero =>
    exact ⟨[], (List.append_nil _).symm, fun calls => by rw [List.length_nil, Nat.zero_add]; rfl⟩
  | succ n ih =>
    unfold drain at h ⊢
    cases hd : splitUds r.acc with
    | item frame rest =>
      rw [hd] at h
      obtain ⟨ys, hitems, hcalls⟩ := ih _ h
      refine ⟨frame :: ys, ?_, fun calls => ?_⟩
      · dsimp only at hitems ⊢
        rw [hitems, List.append_assoc]
        rfl
      · have hread : read_frame reads r.acc = ⟨.ok (some frame), rest, reads⟩ := by
          unfold read_frame
          rw [(splitUds_item hd).1]
        dsimp only at hcalls ⊢
        rw [List.length_cons, Nat.add_right_comm, read_frames_some hread, hcalls calls,
          List.cons_append]
    | more =>
      exact ⟨[], (List.append_nil _).symm, fun calls => by rw [List.length_nil, Nat.zero_add]; rfl⟩
    | bad =>
      rw [hd] at h
      exact absurd h (Nat.succ_ne_self _)

/-- A reader that waits goes on reading as `read_frame` does. -/
theorem read_frames_foldl {reads : List Bytes} (hne : ∀ c ∈ reads, c ≠ []) (r : Reader U8 Frame)
    (hmore : splitUds r.acc = .more) (h : (reads.foldl (feed splitUds) r).resets = r.resets) :
    ∃ ys, (reads.foldl (feed splitUds) r).items = r.items ++ ys ∧ ∀ calls,
      read_frames (ys.length + (calls + 1)) reads r.acc =
        (ys, .ok (), (reads.foldl (feed splitUds) r).acc) := by
  obtain ⟨htry, hlen⟩ := length_of_splitUds_more hmore
  induction reads generalizing r with
  | nil =>
    refine ⟨[], (List.append_nil _).symm, fun calls => ?_⟩
    rw [List.length_nil, Nat.zero_add]
    unfold read_frames read_frame
    rw [htry]
    dsimp only
    rw [if_neg (by omega)]
    rfl
  | cons c cs ih =>
    rw [List.forall_mem_cons] at hne
    rw [List.foldl_cons] at h ⊢
    have hle := resets_le_foldl splitUds cs (feed splitUds r c)
    have hge := resets_le_drain splitUds (r.acc ++ c).length { r with acc := r.acc ++ c }
    have hfeed : (feed splitUds r c).resets = r.resets := le_antisymm (hle.trans h.le) hge
    obtain ⟨ys, hitems, hcalls⟩ := read_frames_drain cs _ { r with acc := r.acc ++ c } hfeed
    have hwait : splitUds (feed splitUds r c).acc = .more :=
      drain_more rfl (fun _ _ _ hd => (splitUds_item hd).2) le_rfl hfeed
    obtain ⟨zs, hitems', hcalls'⟩ := ih hne.2 _ hwait (h.trans hfeed.symm)
      (length_of_splitUds_more hwait).1 (length_of_splitUds_more hwait).2
    refine ⟨ys ++ zs, ?_, fun calls => ?_⟩
    · have hfirst : (feed splitUds r c).items = r.items ++ ys := hitems
      rw [hitems', hfirst, List.append_assoc]
    · have hread : read_frame (c :: cs) r.acc = read_frame cs (r.acc ++ c) := by
        conv_lhs => unfold read_frame
        rw [htry]
        dsimp only
        rw [if_neg (by omega), if_neg fun h0 => hne.1 (List.length_eq_zero_iff.1 h0)]
      have hall := hcalls (zs.length + (calls + 1))
      have hrest := hcalls' calls
      have hcount : ys.length + (zs.length + (calls + 1)) = ys.length + zs.length + calls + 1 := by
        omega
      rw [hcount] at hall
      rw [List.length_append, Nat.add_assoc, hcount]
      refine (read_frames_congr hread _).trans (hall.trans ?_)
      unfold feed at hrest ⊢
      rw [hrest]

/-- A stream that gives no reason to stop is read as by a reader of streams. -/
theorem logic_read_loop_eq {reads : List Bytes} (hne : ∀ c ∈ reads, c ≠ [])
    (h : (run splitUds reads).resets = 0)
    (hlen : (run splitUds reads).items.length ≤ reads.flatten.length) :
    logic_read_loop reads = ((run splitUds reads).items, .ok (), (run splitUds reads).acc) := by
  obtain ⟨ys, hitems, hcalls⟩ := read_frames_foldl hne .start rfl h
  have hys : (run splitUds reads).items = ys := hitems
  rw [hys] at hlen ⊢
  have hcount : reads.flatten.length + 1 = ys.length + (reads.flatten.length - ys.length + 1) := by
    omega
  unfold logic_read_loop
  rw [hcount]
  exact hcalls _

/-- The engine splits off what the SDK splits off, and waits when the SDK waits. -/
theorem splitFrame_simulates : Simulates Sdk.splitFrame splitUds fun x => ⟨x.1, x.2⟩ where
  item acc x rest h := by
    have hmax : Sdk.maxFrameLen ≤ MAX_FRAME_BODY := by decide
    have hheader : Sdk.FrameHeaderLen = FRAME_HEADER_LEN := rfl
    unfold Sdk.splitFrame Sdk.TryDecodeFrame at h
    dsimp only at h
    unfold splitUds Frame.try_decode
    rw [← hheader]
    split_ifs at h with hlen hcap hwhole
    cases h
    dsimp only
    rw [if_neg hlen, if_neg (by omega), if_neg hwhole]
  more acc h := by
    have hmax : Sdk.maxFrameLen ≤ MAX_FRAME_BODY := by decide
    have hheader : Sdk.FrameHeaderLen = FRAME_HEADER_LEN := rfl
    unfold Sdk.splitFrame Sdk.TryDecodeFrame at h
    dsimp only at h
    unfold splitUds Frame.try_decode
    rw [← hheader]
    dsimp only
    split_ifs at h with hlen hcap hwhole
    · rw [if_pos hlen]
    · rw [if_neg hlen, if_neg (by omega), if_pos hwhole]

end UdsReader

section Agree

variable {frames : List Frame} {chunks : List Bytes}

/-- Some chunks of a stream of frames that fit the buffers of the SDK: both loops have the same
frames, the first ones, and the same bytes left over, with which the rest of the stream goes on. -/
theorem readers_agree (h : ∀ f ∈ frames, f.body.length ≤ Sdk.maxFrameLen)
    (hne : ∀ c ∈ chunks, c ≠ []) {rest : Bytes}
    (hstream : chunks.flatten ++ rest = frames.flatMap Frame.bytes) :
    ∃ ys zs buf, frames = ys ++ zs ∧ buf ++ rest = zs.flatMap Frame.bytes ∧
      UdsReader.logic_read_loop chunks = (ys, .ok (), buf) ∧
      Sdk.readLoop chunks = ⟨buf, ys.map Sdk.received, 0⟩ := by
  have hmax : Sdk.maxFrameLen ≤ MAX_FRAME_BODY := by decide
  have hgood : ∀ x ∈ frames.map Sdk.received, x.2.length ≤ Sdk.maxFrameLen := by
    rw [List.forall_mem_map]
    exact h
  have hvalid : ∀ x ∈ frames.map Sdk.received, x.2.length ≤ MAX_FRAME_BODY := fun x hx =>
    (hgood x hx).trans hmax
  have hpairs : chunks.flatten ++ rest = (frames.map Sdk.received).flatMap Sdk.frameBytes := by
    rw [hstream, List.flatMap_map]
    rfl
  obtain ⟨hres, zs, hsplit, hrest⟩ := Sdk.framing.run_prefix hvalid hgood hpairs
  obtain ⟨ys, zs, rfl, hys, rfl⟩ := List.map_eq_append_iff.1 hsplit
  have hback (fs : List Frame) :
      (fs.map Sdk.received).map (fun x => (⟨x.1, x.2⟩ : Frame)) = fs := by
    rw [List.map_map]
    exact List.map_id fs
  have hsim := UdsReader.splitFrame_simulates.run hres
  have hrun : run UdsReader.splitUds chunks = ⟨(Sdk.readLoop chunks).acc, ys, 0⟩ := by
    rw [hsim]
    unfold Reader.map
    rw [← hys, hback, hres]
    rfl
  have hbytes : (Sdk.readLoop chunks).acc ++ rest = zs.flatMap Frame.bytes := by
    refine hrest.trans ?_
    rw [List.flatMap_map]
    rfl
  refine ⟨ys, zs, (Sdk.readLoop chunks).acc, rfl, hbytes, ?_, ?_⟩
  · have hcount : ys.length ≤ chunks.flatten.length := by
      rw [List.flatMap_append, ← hbytes, ← List.append_assoc, List.append_cancel_right_eq]
        at hstream
      have hle : ys.length ≤ (ys.flatMap Frame.bytes).length := by
        rw [List.length_flatMap]
        have hone := List.length_le_sum_of_one_le (ys.map fun f => f.bytes.length) (by
          intro n hn
          obtain ⟨f, -, rfl⟩ := List.mem_map.1 hn
          unfold Frame.bytes
          rw [List.length_append, List.length_append, List.length_singleton]
          omega)
        rwa [List.length_map] at hone
      rw [hstream, List.length_append]
      omega
    have hloop := UdsReader.logic_read_loop_eq hne (by rw [hrun]) (by rw [hrun]; exact hcount)
    rw [hrun] at hloop
    exact hloop
  · have hacc : (Sdk.readLoop chunks).items = ys.map Sdk.received := hys.symm
    rw [← hacc]
    rw [show (0 : ℕ) = (Sdk.readLoop chunks).resets from hres.symm]

/-- **Framing.** Frames whose bodies fit the buffers of the SDK are written to a stream and the
stream is cut into chunks. Both loops read exactly the frames, fail nowhere and have nothing left
over; and after some of the chunks both have read the first frames and hold the bytes of the next
ones unconsumed. -/
theorem framing_agrees (h : ∀ f ∈ frames, f.body.length ≤ 65536)
    (hwrite : frames.foldlM Frame.write_frame [] = .ok chunks.flatten)
    (hne : ∀ c ∈ chunks, c ≠ []) :
    UdsReader.logic_read_loop chunks = (frames, .ok (), []) ∧
      Sdk.readLoop chunks = ⟨[], frames.map Sdk.received, 0⟩ ∧
      ∀ before after, chunks = before ++ after →
        ∃ ys zs buf, frames = ys ++ zs ∧ buf ++ after.flatten = zs.flatMap Frame.bytes ∧
          UdsReader.logic_read_loop before = (ys, .ok (), buf) ∧
          Sdk.readLoop before = ⟨buf, ys.map Sdk.received, 0⟩ := by
  have hfit : ∀ f ∈ frames, f.body.length ≤ Sdk.maxFrameLen := h
  have hmax : Sdk.maxFrameLen ≤ MAX_FRAME_BODY := by decide
  have hstream : chunks.flatten = frames.flatMap Frame.bytes := by
    rw [Frame.foldlM_write_frame (fun f hf => (hfit f hf).trans hmax)] at hwrite
    exact (Except.ok.inj hwrite).symm
  have hparts (before : List Bytes) (after : List Bytes) (hc : chunks = before ++ after) :
      ∃ ys zs buf, frames = ys ++ zs ∧ buf ++ after.flatten = zs.flatMap Frame.bytes ∧
        UdsReader.logic_read_loop before = (ys, .ok (), buf) ∧
        Sdk.readLoop before = ⟨buf, ys.map Sdk.received, 0⟩ := by
    refine readers_agree hfit (fun c hmem => hne c ?_) ?_
    · rw [hc]
      exact List.mem_append_left _ hmem
    · rw [← hstream, hc, List.flatten_append]
  obtain ⟨ys, zs, buf, hsplit, hrest, huds, hsdk⟩ := hparts chunks [] (List.append_nil _).symm
  -- the reader of the SDK has got all frames
  have hall := ((Sdk.readLoop_iff (fun f hf => (hfit f hf).trans hmax) hstream).2 hfit).1
  rw [hsdk] at hall
  have hlen := congrArg List.length hall
  rw [hsplit, List.length_map, List.length_map, List.length_append] at hlen
  have hzs : zs = [] := List.length_eq_zero_iff.1 (by omega)
  subst hzs
  rw [List.append_nil] at hsplit
  have hbuf : buf = [] := (List.append_eq_nil_iff.1 hrest).1
  subst hsplit hbuf
  exact ⟨huds, hsdk, hparts⟩

/-- Two frames, of which the first chunk has one and a half. -/
theorem framing_agrees_two :
    UdsReader.logic_read_loop [(Frame.bytes ⟨1, [7]⟩ ++ [2, 0, 0]), [0, 5, 8, 9]] =
      ([⟨1, [7]⟩, ⟨5, [8, 9]⟩], .ok (), []) := by
  have hcut :=
    @framing_agrees [⟨1, [7]⟩, ⟨5, [8, 9]⟩] [(Frame.bytes ⟨1, [7]⟩ ++ [2, 0, 0]), [0, 5, 8, 9]]
  refine (hcut ?_ rfl ?_).1
  · simp
  · simp

end Agree

end SoupEngine
