import SoupEngine.Link.System

/-!
# What packets leave alone

Handling a packet changes the sending side of a session only by acknowledgement processing
(`handlePacket_sender`), and its receiving side only by the dispatch of frames
(`handlePacket_grace`, `handlePacket_no_frames`).
-/

namespace SoupEngine

open BoundedMemory

attribute [local irreducible] remember

/-! ## The sending side -/

/-- The fields of a session that sending works on. -/
structure SenderView where
  state : SessionState
  connId : U32
  sessId : U64
  secret : U64
  sendSeq : U16
  fragGroupId : U16
  retrans : Fin 2 → RetransmitQueue

def Session.senderView (s : Session) : SenderView :=
  ⟨s.state, s.connId, s.sessId, s.secret, s.sendSeq, s.fragGroupId, s.retrans⟩

theorem dispatchFrame_sender (header : DatagramHeader) (now : Instant) (rx : Rx) (f : FrameRef) :
    (dispatchFrame header now rx f).session.senderView = rx.session.senderView := by
  unfold dispatchFrame
  split_ifs
  · rfl
  · rfl
  · rfl
  · show (handleCh2 rx.session header f now rx.events).1.senderView = _
    rw [handleCh2_same rx.session header f now rx.events]
    rfl
  · rfl
  · rfl
  · rfl

theorem handleFrame_sender (header : DatagramHeader) (now : Instant) (rx : Rx) (f : FrameRef) :
    (handleFrame header now rx f).session.senderView = rx.session.senderView := by
  unfold handleFrame
  dsimp only
  rw [dispatchFrame_sender]
  rfl

theorem foldl_handleFrame_sender (header : DatagramHeader) (now : Instant) (frames : List FrameRef)
    (rx : Rx) :
    (frames.foldl (handleFrame header now) rx).session.senderView = rx.session.senderView := by
  induction frames generalizing rx with
  | nil => rfl
  | cons f frames ih => rw [List.foldl_cons, ih, handleFrame_sender]

section Packet

variable {s : Session} (stats : Stats) (peer : SocketAddr) (header : DatagramHeader)
  (frames : List FrameRef) (now clock : Instant)

/-- To its sending side a packet is only the acknowledgement in its header. -/
theorem handlePacket_sender (ha : s.state = .Active) :
    (handlePacket s stats peer header frames now clock).session.senderView =
      { s.senderView with
        retrans := fun qi => ((s.retrans qi).onAck header.ack header.ackBits now).1 } := by
  rw [handlePacket_active stats peer header now clock ha]
  unfold handleActive
  rw [(answerAck_fields peer _).1, foldl_handleFrame_sender]
  rfl

/-- In the grace period a packet only wakes the session. -/
theorem handlePacket_grace {since : Instant} (hg : s.state = .Grace since) :
    (handlePacket s stats peer header frames now clock).session =
        { s with peer, state := .Active, lastRx := now } ∧
      ∃ gap, (handlePacket s stats peer header frames now clock).events =
        [.Resume s.sessId gap] := by
  cases s
  dsimp only at hg
  subst hg
  exact ⟨rfl, _, rfl⟩

/-- A packet without frames is an acknowledgement. -/
theorem handlePacket_no_frames (ha : s.state = .Active) :
    (handlePacket s stats peer header [] now clock).session =
      { s with peer, lastRx := now }.processAck header now := by
  rw [handlePacket_active stats peer header now clock ha]
  exact (answerAck_fields peer _).1

end Packet

end SoupEngine
