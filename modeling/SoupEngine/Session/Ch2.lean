import SoupEngine.Session.State

/-!
# Ch2, reliable and ordered

An arriving frame goes to the reorder buffer, a fragment by way of the assembler; from the buffer
messages are delivered strictly in the order of their numbers.
-/

namespace SoupEngine

open BoundedMemory

/-- How many delivered Ch2 numbers are remembered. -/
def DELIVERED_CAP : ℕ := 512

/-- The entry that keeps the place of a fragment other than the first. -/
def placeholder : U16 × Bytes := (0xFFFF, [])

/-- The entry of number `next` leaves the reorder buffer. -/
def Session.consume (s : Session) (next : U16) : Session :=
  { s with
    reorder := s.reorder.erase next
    ch2Next := some (next + 1)
    deliveredMax := next
    deliveredSeqs := remember DELIVERED_CAP s.deliveredSeqs next }

/-- The event of a consumed entry; a placeholder has none. -/
def deliveryEvents (sessId : U64) (e : U16 × Bytes) : List SessionEvent :=
  if e.1 ≠ 0xFFFF ∨ e.2 ≠ [] then [.Data sessId CH_RELIABLE_ORDERED e.1 e.2] else []

/-- The loop of `deliver_ch2_in_order`; every round takes an entry out of the reorder buffer, so its
size bounds the rounds. -/
def deliverLoop : ℕ → U16 → Session → List SessionEvent → Session × List SessionEvent
  | 0, _, s, events => (s, events)
  | rounds + 1, next, s, events =>
    match s.reorder[next]? with
    | none => (s, events)
    | some e => deliverLoop rounds (next + 1) (s.consume next) (events ++ deliveryEvents s.sessId e)

/-- Deliver from `ch2_next` on until a number is missing. -/
def deliverCh2InOrder (s : Session) (events : List SessionEvent) : Session × List SessionEvent :=
  match s.ch2Next with
  | none => (s, events)
  | some next => deliverLoop s.reorder.size next s events

/-- The entries of a completed group: its message at the first number, placeholders at the
others. -/
def insertGroup (reorder : Map U16 (U16 × Bytes)) (gseq : U16) (total : U8) (e : U16 × Bytes) :
    Map U16 (U16 × Bytes) :=
  ((List.range total.toNat).foldl
    (fun m i => if gseq + BitVec.ofNat 16 i ≠ gseq
      then m.insert (gseq + BitVec.ofNat 16 i) placeholder else m)
    reorder).insert gseq e

def handleCh2 (s : Session) (header : DatagramHeader) (f : FrameRef) (now : Instant)
    (events : List SessionEvent) : Session × List SessionEvent :=
  if header.seq ∈ s.deliveredSeqs then
    (s, events)
  else if header.flags &&& FLAG_FRAGMENT = 0 ∧ seqLt header.seq s.deliveredMax = true ∧
      ¬ s.reorder.contains header.seq then
    -- behind the window: only a plain frame is judged by its number
    (s, events)
  else if header.flags &&& FLAG_FRAGMENT ≠ 0 then
    match decodeFragment f.body with
    | .error _ => (s, events)
    | .ok fr =>
      match s.assembler.push fr.groupId fr.firstSeq fr.fragNo fr.total fr.chunk now with
      | (assembler, none) => ({ s with assembler }, events)
      | (assembler, some (gseq, full)) =>
        deliverCh2InOrder
          { s with assembler, reorder := insertGroup s.reorder gseq fr.total (f.msgId, full) }
            events
  else
    deliverCh2InOrder { s with reorder := s.reorder.insert header.seq (f.msgId, f.body) } events

end SoupEngine
