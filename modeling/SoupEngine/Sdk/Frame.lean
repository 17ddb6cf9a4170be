import SoupEngine.Basic

/-!
# Frames as the SDK reads them

The frame splitter of the read loop, which reads a body into a pooled buffer, and the parsers of the
bodies of the frames from the engine.
-/

namespace SoupEngine.Sdk

def FrameEngineHello : U8 := 0x30
def FrameSessionOpen : U8 := 0x01
def FrameSessionClose : U8 := 0x02
def FrameSessionResume : U8 := 0x03
def FrameDataUp : U8 := 0x10
def FrameSessionStats : U8 := 0x20
def FrameOverload : U8 := 0x2F

def FrameHeaderLen : ℕ := 5

/-- The size of the buffers of the read pool. -/
def maxFrameLen : ℕ := 64 * 1024

inductive FrameError
  | ErrFrameTooLarge
  | ErrNeedMore
  | errShortFrame (what : String)
  deriving DecidableEq

def FrameError.text : FrameError → String
  | ErrFrameTooLarge => "soup: 帧长超过限制"
  | ErrNeedMore => "soup: 帧数据不足"
  | errShortFrame what => "soup: " ++ what ++ " 帧体过短"

/-- Split one frame off the accumulated bytes, with a buffer of `cap` bytes for its body; comes with
the bytes that are left. -/
def TryDecodeFrame (acc : Bytes) (cap : ℕ) : Except FrameError (U8 × Bytes × Bytes) :=
  if acc.length < FrameHeaderLen then .error .ErrNeedMore
  else
    let n := (fromLe 32 (slice acc 0 4)).toNat
    let total := FrameHeaderLen + n
    if cap < n then .error .ErrFrameTooLarge
    else if acc.length < total then .error .ErrNeedMore
    else .ok (acc.getD 4 0, slice acc FrameHeaderLen total, acc.drop total)

def parseEngineHello (body : Bytes) : Except FrameError (U16 × U32) :=
  if body.length < 6 then .error (.errShortFrame "EngineHello")
  else .ok (fromLe 16 (slice body 0 2), fromLe 32 (slice body 2 6))

/-- The session, the bytes of the address, and the token. -/
def parseSessionOpen (body : Bytes) : Except FrameError (U64 × Bytes × Bytes) :=
  let addrLen := 18
  if body.length < 8 + addrLen + 2 then .error (.errShortFrame "SessionOpen")
  else
    let tl := (fromLe 16 (slice body (8 + addrLen) (10 + addrLen))).toNat
    let stop := 10 + addrLen + tl
    if body.length < stop then .error (.errShortFrame "SessionOpen token")
    else .ok (fromLe 64 (slice body 0 8), slice body 8 (8 + addrLen),
      slice body (10 + addrLen) stop)

def parseSessionClose (body : Bytes) : Except FrameError (U64 × U8) :=
  if body.length < 9 then .error (.errShortFrame "SessionClose")
  else .ok (fromLe 64 (slice body 0 8), body.getD 8 0)

def parseSessionResume (body : Bytes) : Except FrameError (U64 × U32) :=
  if body.length < 12 then .error (.errShortFrame "SessionResume")
  else .ok (fromLe 64 (slice body 0 8), fromLe 32 (slice body 8 12))

def parseData (body : Bytes) : Except FrameError (U64 × U8 × U16 × Bytes) :=
  if body.length < 11 then .error (.errShortFrame "Data")
  else .ok (fromLe 64 (slice body 0 8), body.getD 8 0, fromLe 16 (slice body 9 11), body.drop 11)

/-- The session, its round-trip time, its loss and its bandwidth. -/
def parseSessionStats (body : Bytes) : Except FrameError (U64 × U16 × U16 × U16) :=
  if body.length < 14 then .error (.errShortFrame "SessionStats")
  else .ok (fromLe 64 (slice body 0 8), fromLe 16 (slice body 8 10), fromLe 16 (slice body 10 12),
    fromLe 16 (slice body 12 14))

def parseOverload (body : Bytes) : Except FrameError (U32 × U32) :=
  if body.length < 8 then .error (.errShortFrame "Overload")
  else .ok (fromLe 32 (slice body 0 4), fromLe 32 (slice body 4 8))

end SoupEngine.Sdk
