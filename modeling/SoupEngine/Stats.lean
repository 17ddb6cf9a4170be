import SoupEngine.Basic

/-!
# Counters
-/

namespace SoupEngine

/-- The counters of the engine; each wraps at `2 ^ 64`. -/
structure Stats where
  sessionsActive : U64
  sessionsHandshaking : U64
  sessionsGrace : U64
  pktIn : U64
  pktOut : U64
  pktBad : U64
  pktBytesIn : U64
  pktBytesOut : U64
  droppedUp : U64
  droppedDown : U64
  natRebind : U64
  logicReconnects : U64
  kicks : U64
  retransmits : U64
  acksSeen : U64
  deriving DecidableEq

namespace Stats

def new : Stats := ⟨0, 0, 0, 0, 0, 0, 0, 0, 0, 0, 0, 0, 0, 0, 0⟩

/-- `stats.pkt_bad.incr()`. -/
def incrPktBad (st : Stats) : Stats := { st with pktBad := st.pktBad + 1 }

end Stats

end SoupEngine
