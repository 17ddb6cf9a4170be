import SoupEngine.Basic

/-!
# Protocol constants

The magic numbers, flags, channels, limits and default timeouts of the client protocol.
-/

namespace SoupEngine

def MAGIC : U16 := 0x5A50
def VERSION : U8 := 1
/-- Upper bound of a datagram, in bytes. -/
def MTU : ℕ := 1200

def FLAG_FRAGMENT : U8 := 0b0000_0001
def FLAG_PURE_ACK : U8 := 0b0000_0010
def FLAG_HANDSHAKE : U8 := 0b0000_0100
def FLAG_HMAC : U8 := 0b0001_0000

def CH_UNRELIABLE_UNORDERED : U8 := 0
def CH_UNRELIABLE_SEQUENCED : U8 := 1
def CH_RELIABLE_ORDERED : U8 := 2
def CH_RELIABLE_UNORDERED : U8 := 3

def HANDSHAKE_TIMEOUT : Duration := Duration.fromSecs 3
def IDLE_GRACE : Duration := Duration.fromSecs 5
def RECONNECT_GRACE : Duration := Duration.fromSecs 20
def TIMEOUT_MIN : Duration := Duration.fromMillis 1500
def TIMEOUT_MAX : Duration := Duration.fromSecs 5
def RECONNECT_MIN : Duration := Duration.fromSecs 5
def RECONNECT_MAX : Duration := Duration.fromSecs 20

/-- Upper bound of a retransmit queue. -/
def RETRANSMIT_QUEUE_CAP : ℕ := 64
def RTO_MIN : Duration := Duration.fromMillis 50
def RTO_MAX : Duration := Duration.fromSecs 1

def DEFAULT_SESSION_SHARDS : ℕ := 8

/-- Upper bound of the body of a frame exchanged with the logic server. -/
def MAX_FRAME_BODY : ℕ := 1024 * 1024

end SoupEngine
