import SoupEngine.Protocol.Types

/-!
# Frames of the logic link

A frame on the stream between the engine and the logic server is a length, a type and a body. Here
are the frames that the engine writes, and the frame splitter of its own side.
-/

namespace SoupEngine

def FRAME_SESSION_OPEN : U8 := 0x01
def FRAME_SESSION_CLOSE : U8 := 0x02
def FRAME_SESSION_RESUME : U8 := 0x03
def FRAME_DATA_UP : U8 := 0x10
def FRAME_SESSION_STATS : U8 := 0x20
def FRAME_OVERLOAD : U8 := 0x2F
def FRAME_ENGINE_HELLO : U8 := 0x30

def FRAME_HEADER_LEN : ℕ := 5

structure Frame where
  ty : U8
  body : Bytes
  deriving DecidableEq

namespace Frame

/-- Split one frame off the front of the stream: `none` if there is not a whole one yet. -/
def try_decode (buf : Bytes) : Except Error (Option (Frame × Bytes)) :=
  if buf.length < FRAME_HEADER_LEN then .ok none
  else
    let len := (fromLe 32 (slice buf 0 4)).toNat
    if MAX_FRAME_BODY < len then .error (.Protocol s!"帧体超限: {len} > {MAX_FRAME_BODY}")
    else
      let total := FRAME_HEADER_LEN + len
      if buf.length < total then .ok none
      else .ok (some (⟨buf.getD 4 0, slice buf FRAME_HEADER_LEN total⟩, buf.drop total))

/-- The bytes that are appended to the stream. -/
def encode (ty : U8) (body : Bytes) : Except Error Bytes :=
  if MAX_FRAME_BODY < body.length then
    .error (.Protocol s!"帧体超限: {body.length} > {MAX_FRAME_BODY}")
  else .ok (leBytes (BitVec.ofNat 32 body.length) ++ [ty] ++ body)

/-- The bytes of a frame on the stream. -/
def bytes (f : Frame) : Bytes := leBytes (BitVec.ofNat 32 f.body.length) ++ [f.ty] ++ f.body

/-- `write_frame`: the stream that has been written with one more frame. -/
def write_frame (out : Bytes) (f : Frame) : Except Error Bytes :=
  (encode f.ty f.body).map (out ++ ·)

def ADDR_LEN : ℕ := 18

/-- An IPv4 address has its four octets in front, an IPv6 address sixteen; the port comes last. -/
def encode_addr : SocketAddr → Bytes
  | .V4 ip port => (leBytes ip).reverse ++ List.replicate 12 0 ++ leBytes port
  | .V6 ip port _ _ => (leBytes ip).reverse ++ leBytes port

def engine_hello (version : U16) (caps : U32) : Frame :=
  ⟨FRAME_ENGINE_HELLO, leBytes version ++ leBytes caps⟩

def session_open (sess_id : U64) (addr : SocketAddr) (token : Bytes) : Frame :=
  ⟨FRAME_SESSION_OPEN, leBytes sess_id ++ encode_addr addr ++
    leBytes (BitVec.ofNat 16 token.length) ++ token⟩

def session_close (sess_id : U64) (reason : U8) : Frame :=
  ⟨FRAME_SESSION_CLOSE, leBytes sess_id ++ [reason]⟩

def session_resume (sess_id : U64) (gap_ms : U32) : Frame :=
  ⟨FRAME_SESSION_RESUME, leBytes sess_id ++ leBytes gap_ms⟩

def data_up (sess_id : U64) (ch : U8) (msg_id : U16) (payload : Bytes) : Frame :=
  ⟨FRAME_DATA_UP, leBytes sess_id ++ [ch] ++ leBytes msg_id ++ payload⟩

def session_stats (sess_id : U64) (rtt_ms loss_permille out_kbps : U16) : Frame :=
  ⟨FRAME_SESSION_STATS, leBytes sess_id ++ leBytes rtt_ms ++ leBytes loss_permille ++
    leBytes out_kbps⟩

def overload (dropped_up dropped_down : U32) : Frame :=
  ⟨FRAME_OVERLOAD, leBytes dropped_up ++ leBytes dropped_down⟩

/-! ## Writing -/

theorem write_frame_ok {f : Frame} (h : f.body.length ≤ MAX_FRAME_BODY) (out : Bytes) :
    write_frame out f = .ok (out ++ f.bytes) := by
  unfold write_frame encode
  rw [if_neg (by omega)]
  rfl

/-- Frames within the limit are written one after the other. -/
theorem foldlM_write_frame {frames : List Frame} (h : ∀ f ∈ frames, f.body.length ≤ MAX_FRAME_BODY)
    (out : Bytes) : frames.foldlM write_frame out = .ok (out ++ frames.flatMap bytes) := by
  induction frames generalizing out with
  | nil => exact congrArg Except.ok (List.append_nil out).symm
  | cons f fs ih =>
    rw [List.forall_mem_cons] at h
    rw [List.foldlM_cons, write_frame_ok h.1, List.flatMap_cons, ← List.append_assoc]
    exact ih h.2 _

end Frame

end SoupEngine
