import SoupEngine.Session.Delivery
import SoupEngine.Session.Operations
import SoupEngine.Session.Packet

/-!
# Whose events they are

A session keeps its id, and handling a packet reports data or the resumption of its own session. So
the table reports events only of sessions that it holds, or has just opened (`reports_known`).
-/

namespace SoupEngine

open BoundedMemory

attribute [local irreducible] remember

namespace SessionEvent

/-- The session that an event is about. -/
def sessId : SessionEvent → U64
  | .Open sessId _ _ => sessId
  | .Close sessId _ => sessId
  | .Resume sessId _ => sessId
  | .Data sessId _ _ _ => sessId

/-- Data or the resumption of a session. -/
def Talk (id : U64) : SessionEvent → Prop
  | .Resume sessId _ => sessId = id
  | .Data sessId _ _ _ => sessId = id
  | _ => False

/-- Data of a session. -/
def Says (id : U64) : SessionEvent → Prop
  | .Data sessId _ _ _ => sessId = id
  | _ => False

theorem Says.talk {id : U64} {e : SessionEvent} (h : e.Says id) : e.Talk id := by
  cases e with
  | Data _ _ _ _ => exact h
  | _ => exact h.elim

theorem Talk.sessId_eq {id : U64} {e : SessionEvent} (h : e.Talk id) : e.sessId = id := by
  cases e with
  | Open _ _ _ => exact h.elim
  | Close _ _ => exact h.elim
  | Resume _ _ => exact h
  | Data _ _ _ _ => exact h

end SessionEvent

/-- A session of this id, and only its own events. -/
def Rx.Own (id : U64) (rx : Rx) : Prop := rx.session.sessId = id ∧ ∀ e ∈ rx.events, e.Talk id

/-- A session of this id, and only its own data. -/
def Rx.Says (id : U64) (rx : Rx) : Prop := rx.session.sessId = id ∧ ∀ e ∈ rx.events, e.Says id

section Packet

variable {id : U64} {rx : Rx} {s : Session} {header : DatagramHeader} {now : Instant}
  {events : List SessionEvent}

theorem says_deliverCh2InOrder (hs : s.sessId = id) (h : ∀ x ∈ events, x.Says id) :
    (deliverCh2InOrder s events).1.sessId = id ∧ ∀ x ∈ (deliverCh2InOrder s events).2,
    x.Says id := by
  have hwait : Buffers (fun _ => True) s.reorder := fun _ _ _ => trivial
  have hsaid (e : U16 × Bytes) : ∀ x ∈ deliveryEvents s.sessId e, x.Says id := by
    unfold deliveryEvents
    split_ifs
    · intro x hx
      rw [List.mem_singleton.1 hx]
      exact hs
    · exact fun x hx => absurd hx List.not_mem_nil
  refine ⟨?_, (hwait.deliverCh2InOrder (fun e _ => hsaid e) h).2⟩
  rw [(deliverCh2InOrder_same s events).1]
  exact hs

theorem says_handleCh2 (f : FrameRef) (hs : s.sessId = id) (h : ∀ x ∈ events, x.Says id) :
    (handleCh2 s header f now events).1.sessId = id ∧
      ∀ x ∈ (handleCh2 s header f now events).2, x.Says id := by
  unfold handleCh2
  split_ifs
  · exact ⟨hs, h⟩
  · exact ⟨hs, h⟩
  · cases decodeFragment f.body with
    | error e => exact ⟨hs, h⟩
    | ok fr =>
      dsimp only
      rcases s.assembler.push fr.groupId fr.firstSeq fr.fragNo fr.total fr.chunk now with
        ⟨assembler, _ | ⟨gseq, full⟩⟩
      · exact ⟨hs, h⟩
      · exact says_deliverCh2InOrder hs h
  · exact says_deliverCh2InOrder hs h

theorem Rx.Says.dispatchFrame (h : rx.Says id) (f : FrameRef) :
    (dispatchFrame header now rx f).Says id := by
  have hs := h.1
  have hevent : ∀ x ∈ rx.events ++ [frameEvent rx.session f], x.Says id := by
    refine forall_mem_append h.2 fun x hx => ?_
    rw [List.mem_singleton.1 hx]
    exact hs
  unfold SoupEngine.dispatchFrame
  split_ifs
  · exact ⟨hs, hevent⟩
  · exact ⟨hs, hevent⟩
  · exact h
  · exact says_handleCh2 f hs h.2
  · exact h
  · exact ⟨hs, hevent⟩
  · exact h

theorem Rx.Says.foldl {frames : List FrameRef} (h : rx.Says id) :
    (frames.foldl (handleFrame header now) rx).Says id := by
  induction frames generalizing rx with
  | nil => exact h
  | cons f fs ih =>
    refine ih (Rx.Says.dispatchFrame ?_ f)
    exact ⟨h.1, h.2⟩

/-- A packet of an active session. -/
theorem says_handlePacket (stats : Stats) (peer : SocketAddr) (header : DatagramHeader)
    (frames : List FrameRef) (now clock : Instant) (hst : s.state = .Active) :
    (handlePacket s stats peer header frames now clock).Says s.sessId := by
  rw [handlePacket_active stats peer header now clock hst]
  unfold handleActive Rx.Says
  rw [(answerAck_fields peer _).1, (answerAck_fields peer _).2]
  refine Rx.Says.foldl ⟨rfl, fun x hx => ?_⟩
  exact absurd hx List.not_mem_nil

theorem own_handlePacket (s : Session) (stats : Stats) (peer : SocketAddr) (header : DatagramHeader)
    (frames : List FrameRef) (now clock : Instant) :
    (handlePacket s stats peer header frames now clock).Own s.sessId := by
  cases hst : s.state with
  | Grace since =>
    unfold handlePacket
    rw [hst]
    refine ⟨rfl, fun x hx => ?_⟩
    cases List.mem_singleton.1 hx
    rfl
  | Active =>
    have hdata := says_handlePacket stats peer header frames now clock hst
    exact ⟨hdata.1, fun e he => (hdata.2 e he).talk⟩

end Packet

section Table

variable {cfg : SessionTableConfig} {hmac4 : Hmac} {t : SessionTable cfg} {S : U64 → Prop}

variable (t S) in
/-- The ids of the sessions stay among those that are known, if that of an opened one is. -/
theorem preserved_known :
    Preserved hmac4 t PacketGuard.any (S t.nextSessId) (fun s => S s.sessId) where
  create _ _ _ _ _ hS := hS
  packet s stats peer buf header frames now clock hs _ _ := by
    rw [(own_handlePacket s stats peer header frames now clock).1]
    exact hs
  maintain s now hs := by
    unfold Session.maintain
    split_ifs
    · exact hs
    · exact hs
  maintainReliable _ _ hs := hs
  pack s ch msgId payload now hs := by
    have hkeep := @pack_keeps hmac4 cfg (fun s => S s.sessId) (fun _ _ _ _ hs' => hs') s ch msgId
      payload now hs
    exact hkeep
  budget _ _ _ hs := hs

variable (t S) in
theorem reports_known :
    Reports t PacketGuard.any (S t.nextSessId) (fun s => S s.sessId) (fun e => S e.sessId) where
  opened _ _ _ _ _ _ _ hS := hS
  packet s stats peer buf header frames now clock hs _ _ e he := by
    rw [((own_handlePacket s stats peer header frames now clock).2 e he).sessId_eq]
    exact hs
  close _ hs := hs

end Table

end SoupEngine
