import SoupEngine.Session.Overflow

/-!
# Which datagrams end the program

A build with overflow checks does the same with a datagram as one without, unless the packet is
accepted for an active session and has frames at the number opposite to the newest one received, or
passes over the front of a queue for the 256th time (`handleDatagramChecked_guards`). So a run ends
the program just at such a step (`runChecked_iff`).
-/

namespace SoupEngine

open Checked

/-! ## Packets -/

section Packet

variable (s : Session) (stats : Stats) (peer : SocketAddr) (header : DatagramHeader)
  (frames : List FrameRef) (now clock : Instant)

/-- Step 1, acknowledgement processing. -/
def startRxChecked : Option Rx := do
  let (q0, r0) ← (s.retrans 0).onAckChecked header.ack header.ackBits now
  let (q1, r1) ← (s.retrans 1).onAckChecked header.ack header.ackBits now
  some
    { session := { s with
        retrans := fun qi => if qi = 0 then q0 else q1
        rtt :=
          match r1.rttSample.or r0.rttSample with
          | some ms => s.rtt.update ms
          | none => s.rtt }
      stats := { stats with
        acksSeen := stats.acksSeen + BitVec.ofNat 64 (r0.acked.length + r1.acked.length)
        retransmits := stats.retransmits +
          BitVec.ofNat 64 (r0.fastRetransmit ++ r1.fastRetransmit).length }
      events := []
      sent := (r0.fastRetransmit ++ r1.fastRetransmit).map fun bytes => (bytes, peer)
      needAck := false }

/-- The dispatch of one frame by channel; only Ch2 computes. -/
def dispatchFrameChecked (rx : Rx) (f : FrameRef) : Option Rx :=
  if f.ch = CH_RELIABLE_ORDERED then do
    let (session, events) ← handleCh2Checked rx.session header f now rx.events
    some { rx with session, events, needAck := true }
  else
    some (dispatchFrame header now rx f)

/-- One round of the frame loop. -/
def handleFrameChecked (rx : Rx) (f : FrameRef) : Option Rx := do
  let window ← recordSeqChecked rx.session.recvSeq rx.session.recvBits header.seq
  dispatchFrameChecked header now
    { rx with
      session := { rx.session with recvSeq := window.1, recvBits := window.2 }
      stats := { rx.stats with
        pktBytesIn := rx.stats.pktBytesIn + BitVec.ofNat 64 f.body.length } } f

/-- Step 3, the pure ACK for reliable frames. -/
def answerAckChecked (rx : Rx) : Option Rx :=
  if rx.needAck then do
    let (ack, ackBits) ← rx.session.computeAckChecked
    match encode { pureAck rx.session with ack, ackBits } [] [] with
    | (out, .ok _) => some { rx with sent := rx.sent ++ [(out, peer)] }
    | (_, .error _) => some rx
  else
    some rx

/-- The packet of an active session, the address already followed. -/
def handleActiveChecked : Option Rx := do
  let rx ← startRxChecked { s with lastRx := now } stats peer header now
  let rx ← frames.foldlM (handleFrameChecked header now) rx
  answerAckChecked peer rx

/-- `handle_session_packet` on the session found; to resume from the grace period computes
nothing. -/
def handlePacketChecked : Option Rx :=
  match s.state with
  | .Grace _ => some (handlePacket s stats peer header frames now clock)
  | .Active =>
    handleActiveChecked { s with peer }
      (if s.peer ≠ peer then { stats with natRebind := stats.natRebind + 1 }
        else stats) peer header frames
      now

/-- The packet overflows a skip count, or it has a frame and its number is opposite to the
newest. -/
def Session.Overflows : Prop :=
  (∃ qi, (s.retrans qi).SkipFull header.ack header.ackBits) ∨
    frames ≠ [] ∧ Opposite s.recvSeq header.seq

instance : Decidable (s.Overflows header frames) := by unfold Session.Overflows; infer_instance

theorem startRxChecked_guards :
    Guards (∃ qi, (s.retrans qi).SkipFull header.ack header.ackBits)
      (startRxChecked s stats peer header now) (startRx s stats peer header now) := by
  have h0 := (s.retrans 0).onAckChecked_guards header.ack header.ackBits now
  have h1 := (s.retrans 1).onAckChecked_guards header.ack header.ackBits now
  unfold startRxChecked
  refine Guards.congr (h0.bind (h1.map ?_))
    (Fin.exists_fin_two (p := fun qi => (s.retrans qi).SkipFull header.ack header.ackBits)).symm
  have hretrans : (fun qi => if qi = 0 then ((s.retrans 0).onAck header.ack header.ackBits now).1
      else ((s.retrans 1).onAck header.ack header.ackBits now).1) =
      fun qi => ((s.retrans qi).onAck header.ack header.ackBits now).1 := by
    funext qi
    split_ifs with hqi
    · rw [hqi]
    · rw [Fin.eq_one_of_ne_zero qi hqi]
  unfold startRx Session.processAck
  rw [← hretrans]
  rfl

theorem dispatchFrameChecked_eq (rx : Rx) (f : FrameRef) :
    dispatchFrameChecked header now rx f = some (dispatchFrame header now rx f) := by
  unfold dispatchFrameChecked
  split_ifs with hch
  · rw [handleCh2Checked_eq]
    unfold dispatchFrame
    rw [hch, if_neg (by decide), if_neg (by decide), if_pos rfl]
    rfl
  · rfl

/-- The dispatch leaves the receive window alone. -/
theorem dispatchFrame_recvSeq (rx : Rx) (f : FrameRef) :
    (dispatchFrame header now rx f).session.recvSeq = rx.session.recvSeq := by
  unfold dispatchFrame
  split_ifs
  · rfl
  · rfl
  · rfl
  · show (handleCh2 rx.session header f now rx.events).1.recvSeq = _
    rw [handleCh2_same rx.session header f now rx.events]
  · rfl
  · rfl
  · rfl

theorem handleFrameChecked_guards (rx : Rx) (f : FrameRef) :
    Guards (Opposite rx.session.recvSeq header.seq) (handleFrameChecked header now rx f)
      (handleFrame header now rx f) :=
  (recordSeqChecked_guards rx.session.recvSeq rx.session.recvBits header.seq).map
    (dispatchFrameChecked_eq header now _ f)

/-- After one frame the number of the packet has been recorded, so only the first one can fail. -/
theorem foldlM_handleFrame (rx : Rx) (h : ¬ Opposite rx.session.recvSeq header.seq) :
    frames.foldlM (handleFrameChecked header now) rx =
      some (frames.foldl (handleFrame header now) rx) := by
  induction frames generalizing rx with
  | nil => rfl
  | cons f frames ih =>
    have hnext : ¬ Opposite (handleFrame header now rx f).session.recvSeq header.seq := by
      unfold handleFrame
      dsimp only
      rw [dispatchFrame_recvSeq]
      exact recordSeq_settled h rx.session.recvBits
    rw [List.foldlM_cons, (handleFrameChecked_guards header now rx f).agrees h]
    exact ih _ hnext

theorem foldlM_handleFrame_guards (rx : Rx) :
    Guards (frames ≠ [] ∧ Opposite rx.session.recvSeq header.seq)
      (frames.foldlM (handleFrameChecked header now) rx)
        (frames.foldl (handleFrame header now) rx) := by
  constructor
  · rintro ⟨hne, hopp⟩
    obtain ⟨f, fs, rfl⟩ := List.exists_cons_of_ne_nil hne
    rw [List.foldlM_cons, (handleFrameChecked_guards header now rx f).fails hopp]
    rfl
  · intro h
    cases frames with
    | nil => rfl
    | cons f fs =>
      exact foldlM_handleFrame header (f :: fs) now rx fun hopp => h ⟨List.cons_ne_nil f fs, hopp⟩

theorem answerAckChecked_eq (rx : Rx) : answerAckChecked peer rx = some (answerAck peer rx) := by
  unfold answerAckChecked answerAck
  split_ifs
  · rw [Session.computeAckChecked_eq]
    show (match encode (pureAck rx.session) [] [] with
      | (out, .ok _) => some { rx with sent := rx.sent ++ [(out, peer)] }
      | (_, .error _) => some rx) = _
    rcases encode (pureAck rx.session) [] [] with ⟨out, e | n⟩
    · rfl
    · rfl
  · rfl

theorem handleActiveChecked_guards :
    Guards (s.Overflows header frames) (handleActiveChecked s stats peer header frames now)
      (handleActive s stats peer header frames now) := by
  have hstart := startRxChecked_guards { s with lastRx := now } stats peer header now
  have hloop := foldlM_handleFrame_guards header frames now
    (startRx { s with lastRx := now } stats peer header now)
  exact hstart.bind (hloop.map (answerAckChecked_eq peer _))

variable {s} in
theorem handlePacketChecked_active (ha : s.state = .Active) :
    handlePacketChecked s stats peer header frames now clock =
      handleActiveChecked { s with peer }
        (if s.peer ≠ peer then { stats with natRebind := stats.natRebind + 1 }
          else stats) peer header
        frames now := by
  unfold handlePacketChecked
  split
  · rename_i hst
    rw [ha] at hst
    cases hst
  · rfl

theorem handlePacketChecked_guards :
    Guards (s.state = .Active ∧ s.Overflows header frames)
      (handlePacketChecked s stats peer header frames now clock)
      (handlePacket s stats peer header frames now clock) := by
  by_cases ha : s.state = .Active
  · rw [handlePacketChecked_active stats peer header frames now clock ha,
      handlePacket_active stats peer header now clock ha]
    exact (handleActiveChecked_guards { s with peer } _ peer header frames now).congr
      (and_iff_right ha).symm
  · refine (guards_some ?_).congr ⟨False.elim, fun h => ha h.1⟩
    unfold handlePacketChecked
    split
    · rfl
    · exact absurd (by assumption) ha

end Packet

/-! ## Datagrams -/

namespace SessionTable

variable {cfg : SessionTableConfig}

/-- `handle_session_packet`. -/
def handleSessionPacketChecked (t : SessionTable cfg) (peer : SocketAddr) (header : DatagramHeader)
    (frames : List FrameRef) (now clock : Instant) : Option (Handled cfg) :=
  match t.get header.connId with
  | none => some ⟨t.bad, [], []⟩
  | some s => do
    let rx ← handlePacketChecked s t.stats peer header frames now clock
    some ⟨{ t.set header.connId rx.session with stats := rx.stats }, rx.events, rx.sent⟩

/-- A datagram whose HMAC has been dealt with. -/
def handlePlainChecked (t : SessionTable cfg) (peer : SocketAddr) (buf : Bytes)
    (random : Vector U8 8) (now clock : Instant) : Option (Handled cfg) :=
  match decode buf with
  | .error _ => some ⟨t.bad, [], []⟩
  | .ok (header, frames) =>
    let t := { t with stats := { t.stats with pktIn := t.stats.pktIn + 1 } }
    if header.flags &&& FLAG_HANDSHAKE ≠ 0 then some (t.handleHandshake peer frames random now)
    else if header.connId = 0 then some ⟨t.bad, [], []⟩
    else t.handleSessionPacketChecked peer header frames now clock

variable (hmac4 : Hmac)

/-- `handle_datagram`. -/
def handleDatagramChecked (t : SessionTable cfg) (peer : SocketAddr) (buf : Bytes)
    (random : Vector U8 8) (now clock : Instant) : Option (Handled cfg) :=
  match t.verifyHmac hmac4 buf with
  | .Bad => some ⟨t.bad, [], []⟩
  | .NoHmac => t.handlePlainChecked peer buf random now clock
  | .Ok data => t.handlePlainChecked peer data random now clock

/-- The table after an operation and the events it returns, `none` where a datagram ends the
program. -/
def actChecked (t : SessionTable cfg) : TableAction → Option (SessionTable cfg × List SessionEvent)
  | .datagram peer buf random now clock => do
    let r ← t.handleDatagramChecked hmac4 peer buf random now clock
    some (r.table, r.events)
  | x => some (t.act hmac4 x)

/-- The table and all events after a list of operations. -/
def runChecked (t : SessionTable cfg) :
    List TableAction → Option (SessionTable cfg × List SessionEvent)
  | [] => some (t, [])
  | x :: xs => do
    let (t', events) ← t.actChecked hmac4 x
    let (t', later) ← t'.runChecked xs
    some (t', events ++ later)

/-- The packet that the operation handles, if it handles one for an active session, overflows. -/
def Overflows (t : SessionTable cfg) : TableAction → Prop
  | .datagram _ buf _ _ _ => ∃ header frames s, Accepts hmac4 t buf header frames s ∧
      s.state = .Active ∧ s.Overflows header frames
  | _ => False

theorem handleSessionPacketChecked_guards (t : SessionTable cfg) (peer : SocketAddr)
    (header : DatagramHeader) (frames : List FrameRef) (now clock : Instant) :
    Guards (∃ s, t.get header.connId = some s ∧ s.state = .Active ∧ s.Overflows header frames)
      (t.handleSessionPacketChecked peer header frames now clock)
      (t.handleSessionPacket peer header frames now clock) := by
  unfold handleSessionPacketChecked handleSessionPacket
  cases t.get header.connId with
  | none =>
    refine (guards_some rfl).congr ⟨False.elim, ?_⟩
    rintro ⟨s, hs, -⟩
    cases hs
  | some s =>
    refine Guards.congr
      ((handlePacketChecked_guards s t.stats peer header frames now clock).map rfl)
      ⟨fun h => ⟨s, rfl, h⟩, ?_⟩
    rintro ⟨s', hs', h⟩
    cases hs'
    exact h

theorem handlePlainChecked_guards (t : SessionTable cfg) (peer : SocketAddr) (buf : Bytes)
    (random : Vector U8 8) (now clock : Instant) :
    Guards (∃ header frames s, decode buf = .ok (header, frames) ∧
        header.flags &&& FLAG_HANDSHAKE = 0 ∧
        header.connId ≠ 0 ∧ t.get header.connId = some s ∧ s.state = .Active ∧
        s.Overflows header frames)
      (t.handlePlainChecked peer buf random now clock)
        (t.handlePlain peer buf random now clock) := by
  unfold handlePlainChecked handlePlain
  cases hdec : decode buf with
  | error e =>
    refine (guards_some rfl).congr ⟨False.elim, ?_⟩
    rintro ⟨header, frames, s, h, -⟩
    cases h
  | ok r =>
    obtain ⟨header, frames⟩ := r
    dsimp only
    split_ifs with hflag hconn
    · refine (guards_some rfl).congr ⟨False.elim, ?_⟩
      rintro ⟨header', frames', s, h, hplain, -⟩
      cases h
      exact hflag hplain
    · refine (guards_some rfl).congr ⟨False.elim, ?_⟩
      rintro ⟨header', frames', s, h, -, hne, -⟩
      cases h
      exact hne hconn
    · refine (handleSessionPacketChecked_guards _ peer header frames now clock).congr ⟨?_, ?_⟩
      · rintro ⟨s, hget, h⟩
        exact ⟨header, frames, s, rfl, not_not.1 hflag, hconn, hget, h⟩
      · rintro ⟨header', frames', s, h, -, -, hget, hover⟩
        cases h
        exact ⟨s, hget, hover⟩

theorem handleDatagramChecked_guards (t : SessionTable cfg) (peer : SocketAddr) (buf : Bytes)
    (random : Vector U8 8) (now clock : Instant) :
    Guards (t.Overflows hmac4 (.datagram peer buf random now clock))
      (t.handleDatagramChecked hmac4 peer buf random now clock)
      (t.handleDatagram hmac4 peer buf random now clock) := by
  have hplain (data : Bytes) (hreads : t.reads hmac4 buf = (decode data).toOption) :
      Guards (t.Overflows hmac4 (.datagram peer buf random now clock))
        (t.handlePlainChecked peer data random now clock)
          (t.handlePlain peer data random now clock) := by
    refine (handlePlainChecked_guards t peer data random now clock).congr ⟨?_, ?_⟩
    · rintro ⟨header, frames, s, hdec, hflag, hconn, hget, h⟩
      exact ⟨header, frames, s,
        ⟨hreads.trans (congrArg Except.toOption hdec), hflag, hconn, hget⟩, h⟩
    · rintro ⟨header, frames, s, accepts, h⟩
      have hdec := decode_of_toOption (hreads.symm.trans accepts.reads)
      exact ⟨header, frames, s, hdec, accepts.plain, accepts.conn, accepts.get, h⟩
  unfold handleDatagramChecked handleDatagram
  cases hmac : t.verifyHmac hmac4 buf with
  | Bad =>
    refine (guards_some rfl).congr ⟨False.elim, ?_⟩
    rintro ⟨header, frames, s, accepts, -⟩
    have hreads := accepts.reads
    unfold reads at hreads
    rw [hmac] at hreads
    cases hreads
  | NoHmac =>
    refine hplain buf ?_
    unfold reads
    rw [hmac]
  | Ok data =>
    refine hplain data ?_
    unfold reads
    rw [hmac]

/-- **One operation** ends the program just when it overflows, and otherwise does what it does
without checks. -/
theorem actChecked_guards (t : SessionTable cfg) (x : TableAction) :
    Guards (t.Overflows hmac4 x) (t.actChecked hmac4 x) (t.act hmac4 x) := by
  cases x with
  | datagram peer buf random now clock =>
    exact (t.handleDatagramChecked_guards hmac4 peer buf random now clock).map rfl
  | _ => exact guards_some rfl

theorem runChecked_guards (t : SessionTable cfg) (xs : List TableAction) :
    Guards (∃ pre x post, xs = pre ++ x :: post ∧ (t.run hmac4 pre).1.Overflows hmac4 x)
      (t.runChecked hmac4 xs) (t.run hmac4 xs) := by
  induction xs generalizing t with
  | nil =>
    refine (guards_some rfl).congr ⟨False.elim, ?_⟩
    rintro ⟨pre, x, post, h, -⟩
    exact absurd h.symm (List.append_ne_nil_of_right_ne_nil pre (List.cons_ne_nil x post))
  | cons x xs ih =>
    have hact := t.actChecked_guards hmac4 x
    refine Guards.congr (hact.bind ((ih (t.act hmac4 x).1).map rfl)) ⟨?_, ?_⟩
    · rintro (h | ⟨pre, y, post, rfl, h⟩)
      · exact ⟨[], x, xs, rfl, h⟩
      · exact ⟨x :: pre, y, post, rfl, h⟩
    · rintro ⟨_ | ⟨z, pre⟩, y, post, heq, h⟩
      · cases heq
        exact Or.inl h
      · cases heq
        exact Or.inr ⟨pre, y, post, rfl, h⟩

end SessionTable

/-- **Which runs go on.** Under overflow checks, a run from the empty table never ends the program
just when none of its operations overflows where it is done. -/
theorem runChecked_iff (hmac4 : Hmac) (cfg : SessionTableConfig) (xs : List TableAction) :
    ((SessionTable.new : SessionTable cfg).runChecked hmac4 xs).isSome ↔
      ∀ pre x post, xs = pre ++ x :: post →
        ¬ ((SessionTable.new : SessionTable cfg).run hmac4 pre).1.Overflows hmac4 x := by
  rw [(SessionTable.runChecked_guards hmac4 SessionTable.new xs).isSome_iff]
  constructor
  · intro h pre x post hxs hover
    exact h ⟨pre, x, post, hxs, hover⟩
  · rintro h ⟨pre, x, post, hxs, hover⟩
    exact h pre x post hxs hover

/-! ## Two runs that do not go on -/

/-- A packet for the first connection. -/
def packetOf (seq ack : U16) (frames : List FrameRef) : TableAction :=
  .datagram (.V4 0 0) (encode ⟨VERSION, 0, 1, seq, ack, 0⟩ frames []).1 (Vector.replicate 8 0) 0 0

/-- The first packet of a client has the number 0x8000. -/
def oppositeRun : List TableAction := hello ++ [packetOf 0x8000 0 [⟨0, 0, []⟩]]

/-- A client acknowledges 256 times that it has not received the first message. -/
def skippedRun : List TableAction :=
  hello ++ .packOutbound 1 CH_RELIABLE_ORDERED 0 [] 0 :: List.replicate 256 (packetOf 0 0xFFFF [])

theorem runChecked_none :
    (SessionTable.new : SessionTable plainConfig).runChecked noHmac oppositeRun = none ∧
    (SessionTable.new : SessionTable plainConfig).runChecked noHmac skippedRun = none := by
  constructor
  · decide +kernel
  · decide +kernel

end SoupEngine
