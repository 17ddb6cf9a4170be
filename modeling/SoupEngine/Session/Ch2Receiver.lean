import SoupEngine.Lib.TransitionSystem
import SoupEngine.Session.Packet

/-!
# The Ch2 receiver

Plain Ch2 messages `m 0, m 1, …` arrive at a fresh session with any loss, duplication and reordering
within half of the number space around the next message. `ch2_receiver_spec` describes the events
and the acknowledgement at every moment.
-/

namespace SoupEngine

open TransitionSystem Release

/-- A message that travels in one frame; `decode` gives no other message ids. -/
structure PlainMessage where
  msgId : U16
  body : Bytes
  valid : msgId ≤ 0x0FFF

namespace PlainMessage

/-- The entry of the message in the reorder buffer. -/
def entry (m : PlainMessage) : U16 × Bytes := (m.msgId, m.body)

def frame (m : PlainMessage) : FrameRef := ⟨CH_RELIABLE_ORDERED, m.msgId, m.body⟩

def event (sessId : U64) (m : PlainMessage) : SessionEvent :=
  .Data sessId CH_RELIABLE_ORDERED m.msgId m.body

end PlainMessage

/-- A copy of message `index` reaches the session. -/
structure PlainArrival where
  index : ℕ
  peer : SocketAddr
  header : DatagramHeader
  now : Instant
  clock : Instant

structure Ch2Receiver where
  session : Session
  stats : Stats
  events : List SessionEvent
  /-- The messages of which a copy has arrived. -/
  arrived : Finset ℕ

namespace Ch2Receiver

def start (session : Session) : Ch2Receiver := ⟨session, Stats.new, [], ∅⟩

def step (m : ℕ → PlainMessage) (r : Ch2Receiver) (a : PlainArrival) : Ch2Receiver :=
  let rx := handlePacket r.session r.stats a.peer a.header [(m a.index).frame] a.now a.clock
  ⟨rx.session, rx.stats, r.events ++ rx.events, insert a.index r.arrived⟩

/-- The header carries the number of the message, not as a fragment, and the message is at most
32766 away from the number of messages delivered so far. -/
structure InWindow (r : Ch2Receiver) (a : PlainArrival) : Prop where
  seq : a.header.seq = seqNum a.index
  plain : a.header.flags &&& FLAG_FRAGMENT = 0
  late : r.events.length ≤ a.index + 32766
  early : a.index ≤ r.events.length + 32766

instance (r : Ch2Receiver) (a : PlainArrival) : Decidable (InWindow r a) :=
  decidable_of_iff (a.header.seq = seqNum a.index ∧ a.header.flags &&& FLAG_FRAGMENT = 0 ∧
      r.events.length ≤ a.index + 32766 ∧ a.index ≤ r.events.length + 32766)
    ⟨fun h => ⟨h.1, h.2.1, h.2.2.1, h.2.2.2⟩, fun h => ⟨h.seq, h.plain, h.late, h.early⟩⟩

/-! ## The invariant -/

/-- The entries of the messages. -/
def slot (m : ℕ → PlainMessage) (i : ℕ) : U16 × Bytes := (m i).entry

theorem deliveryEvents_slot (sessId : U64) (m : ℕ → PlainMessage) (i : ℕ) :
    deliveryEvents sessId (slot m i) = [(m i).event sessId] := by
  have hne : (m i).msgId ≠ 0xFFFF := fun he => absurd (m i).valid (by rw [he]; decide)
  unfold deliveryEvents
  rw [if_pos (show (slot m i).1 ≠ 0xFFFF ∨ (slot m i).2 ≠ [] from Or.inl hne)]
  rfl

theorem release_slot (sessId : U64) (m : ℕ → PlainMessage) (k : ℕ) :
    release sessId (slot m) 0 k = (List.range k).map fun i => (m i).event sessId := by
  unfold release
  rw [Nat.sub_zero, ← List.range_eq_range', List.map_eq_flatMap]
  simp only [deliveryEvents_slot]

structure Inv (sessId : U64) (m : ℕ → PlainMessage) (r : Ch2Receiver) : Prop where
  window : Window (slot m) r.arrived (front r.arrived) r.session.ch2View
  near : ∀ i ∈ r.arrived, i ≤ front r.arrived + 32766
  active : r.session.state = .Active
  sess : r.session.sessId = sessId
  ch3 : r.session.ch3Seen = []
  events : r.events = release sessId (slot m) 0 (front r.arrived)

section

variable {sessId : U64} {m : ℕ → PlainMessage} {r : Ch2Receiver}

theorem Inv.length_events (h : Inv sessId m r) : r.events.length = front r.arrived := by
  rw [h.events, release_slot, List.length_map, List.length_range]

theorem inv_start (connId : U32) (peer : SocketAddr) (secret : U64) (token : Bytes)
    (now : Instant) :
    Inv sessId m (start (Session.create connId sessId peer secret token now)) where
  window := by
    show Window _ ∅ (front ∅) _
    rw [front_empty]
    exact window_create _ _ _ _ _ _ _
  near := fun i hi => absurd hi (Finset.notMem_empty i)
  active := rfl
  sess := rfl
  ch3 := rfl
  events := by
    show [] = release sessId (slot m) 0 (front ∅)
    rw [front_empty, release_self]

theorem inv_step (h : Inv sessId m r) {a : PlainArrival} (ha : InWindow r a) :
    Inv sessId m (step m r a) := by
  have hlate := ha.late
  have hearly := ha.early
  rw [h.length_events] at hlate hearly
  obtain ⟨rx, hs, he, h1, h2⟩ := handlePacket_single r.stats a.peer a.header a.now a.clock h.active
    (m a.index).frame
  obtain ⟨d1, d2⟩ := dispatchFrame_ch2 a.header a.now rx (show (m a.index).frame.ch = _ from rfl)
  have hview : rx.session.ch2View = r.session.ch2View := by rw [hs]; rfl
  have hsess : rx.session.sessId = sessId := by rw [hs]; exact h.sess
  have hwin : Window (slot m) r.arrived (front r.arrived) rx.session.ch2View := hview ▸ h.window
  obtain ⟨hwin, hev, hsame, -⟩ := handleCh2_plain a.now rx.events hwin ha.plain ha.seq (by omega)
    hearly (fun j hj => by have := h.near j hj; omega)
    (show slot m a.index = ((m a.index).frame.msgId, (m a.index).frame.body) from rfl)
  have hsession : (step m r a).session = _ := h1.trans d1
  have hmono : front r.arrived ≤ front (insert a.index r.arrived) :=
    front_mono (Finset.subset_insert _ _)
  refine ⟨?_, fun i hi => ?_, ?_, ?_, ?_, ?_⟩
  · rw [hsession]
    exact hwin
  · show i ≤ front (insert a.index r.arrived) + 32766
    rcases Finset.mem_insert.1 hi with rfl | hi
    · omega
    · have := h.near i hi
      omega
  · rw [hsession, hsame]
    show rx.session.state = _
    rw [hs]
    exact h.active
  · rw [hsession, hsame]
    exact hsess
  · rw [hsession, hsame]
    show rx.session.ch3Seen = _
    rw [hs]
    exact h.ch3
  · show r.events ++ _ = release sessId (slot m) 0 (front (insert a.index r.arrived))
    rw [h2]
    calc r.events ++ (dispatchFrame a.header a.now rx (m a.index).frame).events
        = release sessId (slot m) 0 (front r.arrived) ++
          release sessId (slot m) (front r.arrived) (front (insert a.index r.arrived)) := by
          rw [d2, hev, he, h.events, List.nil_append, hsess]
      _ = release sessId (slot m) 0 (front (insert a.index r.arrived)) :=
          release_append (Nat.zero_le _) hmono

end

end Ch2Receiver

open Ch2Receiver

/-- **The Ch2 receiver.** At every moment the events are the messages of the longest prefix that has
arrived completely, in order and without repetition, and the acknowledgement is the number before
the first missing message with the bitmap of the 32 numbers from there on. -/
theorem ch2_receiver_spec (m : ℕ → PlainMessage) (connId : U32) (sessId : U64) (peer : SocketAddr)
    (secret : U64) (token : Bytes) (now : Instant) {r : Ch2Receiver}
    (h : Reach (step m) InWindow (start (Session.create connId sessId peer secret token now)) r) :
    r.events = (List.range (front r.arrived)).map (fun i => (m i).event sessId) ∧
      r.session.computeAck.1 = BitVec.ofInt 16 ((front r.arrived : ℤ) - 1) ∧
      ∀ j, 1 ≤ j → j ≤ 32 →
        (r.session.computeAck.2.getLsbD (j - 1) = true ↔ front r.arrived + j - 1 ∈ r.arrived) := by
  have hinv : Inv sessId m r :=
    h.invariant (inv_start connId peer secret token now) fun _ _ hi ha => inv_step hi ha
  obtain ⟨hack, hbits⟩ := computeAck_window hinv.window
  refine ⟨by rw [hinv.events, release_slot], ?_, fun j hj hj' => ?_⟩
  · have hsub : BitVec.ofInt 16 ((front r.arrived : ℤ) - 1) + 1 = seqNum (front r.arrived) := by
      rw [show (1 : U16) = BitVec.ofInt 16 1 from rfl, ← BitVec.ofInt_add, sub_add_cancel,
        BitVec.ofInt_natCast]
      rfl
    exact (BitVec.add_left_inj 1).1 (hack.trans hsub.symm)
  · rw [hbits (j - 1) (by omega), hinv.ch3,
      show front r.arrived + (j - 1) = front r.arrived + j - 1 by omega]
    simp

/-- Message 1 arrives before message 0; both are delivered when message 0 has arrived. -/
theorem ch2_receiver_spec_swapped :
    ∃ r, Reach (step fun i => ⟨7, [BitVec.ofNat 8 i], by decide⟩) InWindow
        (start (Session.create 1 1 (.V4 0 0) 0 [] 0)) r ∧ r.arrived = {0, 1} ∧
      r.events = (List.range (front {0, 1})).map fun i =>
        .Data 1 CH_RELIABLE_ORDERED 7 [BitVec.ofNat 8 i] := by
  let header (i : U16) : DatagramHeader := ⟨VERSION, 0, 1, i, 0, 0⟩
  have h0 : Reach (step fun i => ⟨7, [BitVec.ofNat 8 i], by decide⟩) InWindow
    (start (Session.create 1 1 (.V4 0 0) 0 [] 0)) _ := .start
  have h1 := h0.next ⟨1, .V4 0 0, header 1, 0, 0⟩ (by decide)
  have h2 := h1.next ⟨0, .V4 0 0, header 0, 0, 0⟩ (by decide)
  exact ⟨_, h2, rfl, (ch2_receiver_spec _ _ _ _ _ _ _ h2).1⟩

end SoupEngine
