import Mathlib.Data.Rat.Floor
import SoupEngine.Protocol.Types

/-!
# Round-trip estimation

The Jacobson/Karels estimator. The `f64` arithmetic of the source is exact arithmetic on rationals
here.
-/

namespace SoupEngine

def INITIAL_RTO : Duration := Duration.fromMillis 200

structure RttEstimator where
  srttMs : ℚ
  rttvarMs : ℚ
  sampleCount : U32
  deriving DecidableEq

namespace RttEstimator

def new : RttEstimator := ⟨0, 0, 0⟩

/-- `update(rtt_ms)`; the returned RTO is `rto` of the new estimator. -/
def update (r : RttEstimator) (rttMs : ℚ) : RttEstimator :=
  if rttMs ≤ 0 then
    r
  else
    let sampleCount := r.sampleCount + 1
    if sampleCount = 1 then
      ⟨rttMs, rttMs / 2, sampleCount⟩
    else
      let srttMs := 7 / 8 * r.srttMs + 1 / 8 * rttMs
      ⟨srttMs, 3 / 4 * r.rttvarMs + 1 / 4 * |srttMs - rttMs|, sampleCount⟩

/-- `as_millis() as f64`. -/
def asMillis (d : Duration) : ℚ := (d / 1000000 : ℕ)

/-- The current RTO, clamped to `[RTO_MIN, RTO_MAX]`. -/
def rto (r : RttEstimator) : Duration :=
  if r.sampleCount = 0 then
    INITIAL_RTO
  else
    let rtoMs := min (max (r.srttMs + 4 * r.rttvarMs) (asMillis RTO_MIN)) (asMillis RTO_MAX)
    Duration.fromMillis rtoMs.floor.toNat

/-- The current SRTT in whole milliseconds. -/
def srttMillis (r : RttEstimator) : U16 :=
  BitVec.ofNat 16 (min r.srttMs 0xFFFF).floor.toNat

end RttEstimator

end SoupEngine
