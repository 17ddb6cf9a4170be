import SoupEngine.Link.Frames

/-!
# What Ch2 consumes

Whatever datagrams a session is given, forged fragments included, it takes the numbers `0, 1, 2, …`
out of the reorder buffer, one after the other (`ch2_consumes`). Entries may be put anywhere into
the buffer; but they are taken out only at `ch2_next`, and whatever puts an entry in also delivers,
until there is none at `ch2_next`.
-/

namespace SoupEngine

open BoundedMemory

attribute [local irreducible] remember

/-! ## The delivery loop -/

/-- The rounds of the loop of `deliver_ch2_in_order`, with the numbers that it takes out of the
reorder buffer. -/
inductive DeliveryLoop : U16 → Session → List SessionEvent → List U16 → Session →
    List SessionEvent → Prop
  | gap {next : U16} {s : Session} {events : List SessionEvent} (h : s.reorder[next]? = none) :
    DeliveryLoop next s events [] s events
  | round {next : U16} {s t : Session} {events out : List SessionEvent} {e : U16 × Bytes}
    {ns : List U16} (h : s.reorder[next]? = some e)
    (hloop : DeliveryLoop (next + 1) (s.consume next)
      (events ++ deliveryEvents s.sessId e) ns t out) :
    DeliveryLoop next s events (next :: ns) t out

/-- The numbers that so many rounds take. -/
def loopNumbers : ℕ → U16 → Session → List U16
  | 0, _, _ => []
  | rounds + 1, next, s =>
    match s.reorder[next]? with
    | none => []
    | some _ => next :: loopNumbers rounds (next + 1) (s.consume next)

/-- The numbers that `deliver_ch2_in_order` takes. -/
def Session.deliveredNumbers (s : Session) : List U16 :=
  match s.ch2Next with
  | none => []
  | some next => loopNumbers s.reorder.size next s

/-- **The loop ends.** Every round takes an entry out of the reorder buffer. -/
theorem deliveryLoop_deliverLoop {rounds : ℕ} {next : U16} {s : Session}
    (events : List SessionEvent) (h : s.reorder.size ≤ rounds) :
    DeliveryLoop next s events (loopNumbers rounds next s) (deliverLoop rounds next s events).1
      (deliverLoop rounds next s events).2 := by
  induction rounds generalizing next s events with
  | zero =>
    have hempty : s.reorder = ∅ := Std.ExtTreeMap.eq_empty_iff_size_eq_zero.2 (Nat.le_zero.1 h)
    refine .gap ?_
    rw [hempty]
    exact Std.ExtTreeMap.getElem?_empty
  | succ rounds ih =>
    unfold deliverLoop loopNumbers
    cases hget : s.reorder[next]? with
    | none => exact .gap hget
    | some e =>
      have hmem : next ∈ s.reorder := by
        rw [Std.ExtTreeMap.mem_iff_isSome_getElem?, hget]
        rfl
      refine .round hget (ih _ ?_)
      show (s.reorder.erase next).size ≤ rounds
      rw [Std.ExtTreeMap.size_erase, if_pos (Std.ExtTreeMap.contains_iff_mem.2 hmem)]
      omega

theorem deliveryLoop_deliverCh2InOrder {next : U16} {s : Session} (events : List SessionEvent)
    (h : s.ch2Next = some next) :
    DeliveryLoop next s events s.deliveredNumbers (deliverCh2InOrder s events).1
      (deliverCh2InOrder s events).2 := by
  unfold Session.deliveredNumbers deliverCh2InOrder
  rw [h]
  exact deliveryLoop_deliverLoop events le_rfl

/-! ## What has been consumed -/

/-- The numbers consumed so far are `0, 1, 2, …`, and the session has kept count of them. -/
structure Consumed (s : Session) (ns : List U16) : Prop where
  numbers : ns = (List.range ns.length).map seqNum
  next : s.ch2Next = some (seqNum ns.length)
  seqs : s.deliveredSeqs = ns.rtake DELIVERED_CAP
  max : ∀ n ∈ ns.getLast?, s.deliveredMax = n

/-- There is no entry at `ch2_next`. -/
def Gap (s : Session) : Prop := ∀ n ∈ s.ch2Next, s.reorder[n]? = none

section Consumed

variable {s t : Session} {ns ns' : List U16} {next : U16} {events out : List SessionEvent}

theorem Consumed.congr (h : Consumed s ns) (hnext : t.ch2Next = s.ch2Next)
    (hseqs : t.deliveredSeqs = s.deliveredSeqs) (hmax : t.deliveredMax = s.deliveredMax) :
    Consumed t ns :=
  ⟨h.numbers, hnext.trans h.next, hseqs.trans h.seqs, fun n hn => hmax.trans (h.max n hn)⟩

/-- One round. -/
theorem Consumed.consume (h : Consumed s ns) (hnext : s.ch2Next = some next) :
    Consumed (s.consume next) (ns ++ [next]) ∧ (s.consume next).ch2Next = some (next + 1) := by
  have hnum : next = seqNum ns.length := Option.some.inj (hnext.symm.trans h.next)
  refine ⟨⟨?_, ?_, ?_, fun n hn => ?_⟩, rfl⟩
  · rw [List.length_append, List.length_singleton, List.range_succ, List.map_append, ← h.numbers,
      hnum]
    rfl
  · show some (next + 1) = _
    rw [List.length_append, List.length_singleton, hnum, seqNum_succ]
  · show remember DELIVERED_CAP s.deliveredSeqs next = _
    rw [h.seqs, remember_rtake]
  · rw [List.getLast?_concat] at hn
    exact Option.some.inj hn

/-- **A delivery.** -/
theorem DeliveryLoop.consumed (hloop : DeliveryLoop next s events ns' t out) (h : Consumed s ns)
    (hnext : s.ch2Next = some next) : Consumed t (ns ++ ns') ∧ Gap t := by
  induction hloop generalizing ns with
  | gap hget =>
    rw [List.append_nil]
    refine ⟨h, fun n hn => ?_⟩
    cases hnext.symm.trans hn
    exact hget
  | round hget hloop ih =>
    obtain ⟨hcons, hnext'⟩ := h.consume hnext
    rw [List.append_cons]
    exact ih hcons hnext'

end Consumed

/-! ## A frame -/

/-- `handle_ch2` up to the delivery, and whether there is one. -/
def bufferCh2 (s : Session) (header : DatagramHeader) (f : FrameRef) (now : Instant) :
    Session × Bool :=
  if header.seq ∈ s.deliveredSeqs then
    (s, false)
  else if header.flags &&& FLAG_FRAGMENT = 0 ∧ seqLt header.seq s.deliveredMax = true ∧
      ¬ s.reorder.contains header.seq then
    (s, false)
  else if header.flags &&& FLAG_FRAGMENT ≠ 0 then
    match decodeFragment f.body with
    | .error _ => (s, false)
    | .ok fr =>
      match s.assembler.push fr.groupId fr.firstSeq fr.fragNo fr.total fr.chunk now with
      | (assembler, none) => ({ s with assembler }, false)
      | (assembler, some (gseq, full)) =>
        ({ s with assembler, reorder := insertGroup s.reorder gseq fr.total (f.msgId, full) }, true)
  else
    ({ s with reorder := s.reorder.insert header.seq (f.msgId, f.body) }, true)

section Frame

variable (s : Session) (header : DatagramHeader) (f : FrameRef) (now : Instant)

theorem handleCh2_eq (events : List SessionEvent) :
    handleCh2 s header f now events =
      match bufferCh2 s header f now with
      | (s', true) => deliverCh2InOrder s' events
      | (s', false) => (s', events) := by
  unfold handleCh2 bufferCh2
  by_cases h1 : header.seq ∈ s.deliveredSeqs
  · rw [if_pos h1, if_pos h1]
  rw [if_neg h1, if_neg h1]
  by_cases h2 : header.flags &&& FLAG_FRAGMENT = 0 ∧ seqLt header.seq s.deliveredMax = true ∧
      ¬ s.reorder.contains header.seq
  · rw [if_pos h2, if_pos h2]
  rw [if_neg h2, if_neg h2]
  by_cases h3 : header.flags &&& FLAG_FRAGMENT ≠ 0
  · rw [if_pos h3, if_pos h3]
    cases decodeFragment f.body with
    | error err => rfl
    | ok fr =>
      dsimp only
      cases s.assembler.push fr.groupId fr.firstSeq fr.fragNo fr.total fr.chunk now with
      | mk assembler full =>
        cases full with
        | none => rfl
        | some full => rfl
  · rw [if_neg h3, if_neg h3]

/-- Up to the delivery only the assembler and the reorder buffer change, the latter only if there is
one. -/
theorem bufferCh2_spec {s' : Session} {delivers : Bool}
    (h : bufferCh2 s header f now = (s', delivers)) :
    s' = { s with assembler := s'.assembler, reorder := s'.reorder } ∧
      (delivers = false → s'.reorder = s.reorder) := by
  unfold bufferCh2 at h
  split_ifs at h
  · cases h
    exact ⟨rfl, fun _ => rfl⟩
  · cases h
    exact ⟨rfl, fun _ => rfl⟩
  · split at h
    · cases h
      exact ⟨rfl, fun _ => rfl⟩
    · split at h
      · cases h
        exact ⟨rfl, fun _ => rfl⟩
      · cases h
        exact ⟨rfl, fun h => nomatch h⟩
  · cases h
    exact ⟨rfl, fun h => nomatch h⟩

/-- The numbers that a Ch2 frame makes the session consume. -/
def ch2Numbers : List U16 :=
  match bufferCh2 s header f now with
  | (s', true) => s'.deliveredNumbers
  | (_, false) => []

end Frame

/-- The state before the dispatch of a frame: the number is recorded and the bytes are counted. -/
def recorded (header : DatagramHeader) (rx : Rx) (f : FrameRef) : Rx :=
  { rx with
    session := { rx.session with
      recvSeq := (recordSeq rx.session.recvSeq rx.session.recvBits header.seq).1
      recvBits := (recordSeq rx.session.recvSeq rx.session.recvBits header.seq).2 }
    stats := { rx.stats with pktBytesIn := rx.stats.pktBytesIn + BitVec.ofNat 64 f.body.length } }

/-- The numbers that the frames of a packet make the session consume. -/
def framesNumbers (header : DatagramHeader) (now : Instant) : Rx → List FrameRef → List U16
  | _, [] => []
  | rx, f :: fs =>
    (if f.ch = CH_RELIABLE_ORDERED then ch2Numbers (recorded header rx f).session header f now
      else []) ++ framesNumbers header now (handleFrame header now rx f) fs

section Packet

variable {s : Session} {ns : List U16} (header : DatagramHeader) (now : Instant)

theorem handleCh2_consumed (h : Consumed s ns) (hgap : Gap s) (f : FrameRef)
    (events : List SessionEvent) :
    Consumed (handleCh2 s header f now events).1 (ns ++ ch2Numbers s header f now) ∧
      Gap (handleCh2 s header f now events).1 := by
  rw [handleCh2_eq]
  unfold ch2Numbers
  cases hbuffer : bufferCh2 s header f now with
  | mk s' delivers =>
    obtain ⟨hsame, hkeep⟩ := bufferCh2_spec s header f now hbuffer
    have hnext : s'.ch2Next = s.ch2Next := by rw [hsame]
    have hbuffered : Consumed s' ns := h.congr hnext (by rw [hsame]) (by rw [hsame])
    cases delivers with
    | false =>
      dsimp only
      rw [List.append_nil]
      refine ⟨hbuffered, fun n hn => ?_⟩
      rw [hkeep rfl]
      exact hgap n (hnext ▸ hn)
    | true =>
      exact (deliveryLoop_deliverCh2InOrder events hbuffered.next).consumed hbuffered hbuffered.next

theorem handleFrame_consumed {rx : Rx} (h : Consumed rx.session ns) (hgap : Gap rx.session)
    (f : FrameRef) :
    Consumed (handleFrame header now rx f).session
        (ns ++ if f.ch = CH_RELIABLE_ORDERED
          then ch2Numbers (recorded header rx f).session header f now else []) ∧
      Gap (handleFrame header now rx f).session := by
  have hrec : Consumed (recorded header rx f).session ns := h.congr rfl rfl rfl
  have hgap' : Gap (recorded header rx f).session := hgap
  show Consumed (dispatchFrame header now (recorded header rx f) f).session _ ∧
    Gap (dispatchFrame header now (recorded header rx f) f).session
  by_cases h2 : f.ch = CH_RELIABLE_ORDERED
  · rw [if_pos h2, (dispatchFrame_ch2 header now _ h2).1]
    exact handleCh2_consumed header now hrec hgap' f _
  · rw [if_neg h2, List.append_nil]
    unfold dispatchFrame
    split_ifs
    · exact ⟨hrec, hgap'⟩
    · exact ⟨hrec.congr rfl rfl rfl, hgap'⟩
    · exact ⟨hrec, hgap'⟩
    · exact ⟨hrec, hgap'⟩
    · exact ⟨hrec.congr rfl rfl rfl, hgap'⟩
    · exact ⟨hrec, hgap'⟩

theorem foldl_consumed {rx : Rx} (h : Consumed rx.session ns) (hgap : Gap rx.session)
    (frames : List FrameRef) :
    Consumed (frames.foldl (handleFrame header now) rx).session
      (ns ++ framesNumbers header now rx frames) ∧
      Gap (frames.foldl (handleFrame header now) rx).session := by
  induction frames generalizing rx ns with
  | nil =>
    show Consumed rx.session (ns ++ []) ∧ Gap rx.session
    rw [List.append_nil]
    exact ⟨h, hgap⟩
  | cons f fs ih =>
    obtain ⟨hone, hgap'⟩ := handleFrame_consumed header now h hgap f
    rw [framesNumbers, ← List.append_assoc]
    exact ih hone hgap'

end Packet

/-- The numbers that a packet makes the session consume. -/
def packetNumbers (s : Session) (stats : Stats) (peer : SocketAddr) (header : DatagramHeader)
    (frames : List FrameRef) (now : Instant) : List U16 :=
  if s.isActive then framesNumbers header now
    (startRx { s with peer, lastRx := now } stats peer header now) frames
  else []

theorem handlePacket_consumed {s : Session} {ns : List U16} (h : Consumed s ns) (hgap : Gap s)
    (stats : Stats) (peer : SocketAddr) (header : DatagramHeader) (frames : List FrameRef)
    (now clock : Instant) :
    Consumed (handlePacket s stats peer header frames now clock).session
        (ns ++ packetNumbers s (if s.peer ≠ peer
          then { stats with natRebind := stats.natRebind + 1 } else stats)
          peer header frames now) ∧
      Gap (handlePacket s stats peer header frames now clock).session := by
  cases hst : s.state with
  | Grace since =>
    have hinactive : ¬ s.isActive = true := by
      rw [isActive_iff, hst]
      nofun
    unfold packetNumbers
    rw [(handlePacket_grace stats peer header frames now clock hst).1, if_neg hinactive,
      List.append_nil]
    exact ⟨h.congr rfl rfl rfl, hgap⟩
  | Active =>
    unfold packetNumbers
    rw [handlePacket_active stats peer header now clock hst, if_pos (isActive_iff.2 hst)]
    unfold handleActive
    rw [(answerAck_fields peer _).1]
    have hstart (stats : Stats) :
        Consumed (startRx { s with peer, lastRx := now } stats peer header now).session ns :=
      h.congr rfl rfl rfl
    exact foldl_consumed header now (hstart _) hgap frames

/-! ## Datagrams -/

/-- A session, and the numbers that it has consumed. -/
structure Consumer where
  session : Session
  stats : Stats
  consumed : List U16

/-- What a session is given, and what is done to it in between. -/
inductive Given
  | datagram (peer : SocketAddr) (bytes : Bytes) (now clock : Instant)
  | maintain (now : Instant)
  | maintainReliable (now : Instant)

namespace Consumer

variable (cfg : SessionTableConfig)

/-- A session that has been given nothing. -/
def of (session : Session) : Consumer := ⟨session, .new, []⟩

/-- The numbers that a datagram makes the session consume. -/
def datagramNumbers (c : Consumer) (peer : SocketAddr) (bytes : Bytes) (now : Instant) : List U16 :=
  match decode (stripHmac cfg bytes) with
  | .error _ => []
  | .ok (header, frames) =>
    let stats := { c.stats with pktIn := c.stats.pktIn + 1 }
    packetNumbers c.session
      (if c.session.peer ≠ peer then { stats with natRebind := stats.natRebind + 1 }
        else stats) peer header
      frames now

def step (c : Consumer) : Given → Consumer
  | .datagram peer bytes now clock =>
    let rx := c.session.receive cfg c.stats peer bytes now clock
    ⟨rx.session, rx.stats, c.consumed ++ c.datagramNumbers cfg peer bytes now⟩
  | .maintain now => { c with session := c.session.maintain cfg now }
  | .maintainReliable now => { c with session := c.session.maintainReliable now }

variable {cfg}

theorem step_consumed {c : Consumer} (h : Consumed c.session c.consumed) (hgap : Gap c.session)
    (x : Given) :
    Consumed (c.step cfg x).session (c.step cfg x).consumed ∧ Gap (c.step cfg x).session := by
  cases x with
  | datagram peer bytes now clock =>
    show Consumed (c.session.receive cfg c.stats peer bytes now clock).session
        (c.consumed ++ c.datagramNumbers cfg peer bytes now) ∧
      Gap (c.session.receive cfg c.stats peer bytes now clock).session
    unfold Session.receive datagramNumbers
    cases decode (stripHmac cfg bytes) with
    | error err =>
      dsimp only
      rw [List.append_nil]
      exact ⟨h, hgap⟩
    | ok res => exact handlePacket_consumed h hgap _ peer res.1 res.2 now clock
  | maintain now =>
    show Consumed (c.session.maintain cfg now) c.consumed ∧ Gap (c.session.maintain cfg now)
    unfold Session.maintain
    split_ifs
    · exact ⟨h.congr rfl rfl rfl, hgap⟩
    · exact ⟨h, hgap⟩
  | maintainReliable now => exact ⟨h.congr rfl rfl rfl, hgap⟩

end Consumer

open Consumer

/-- **The Ch2 receiver against any peer.** Whatever a session is given, the numbers that it has
consumed are `0, 1, 2, …`; `ch2_next` is the one that follows and has no entry in the reorder
buffer, `delivered_seqs` holds the last 512 of them and `delivered_max` the last one. And every
delivery ends. -/
theorem ch2_consumes (cfg : SessionTableConfig) (connId : U32) (sessId : U64) (peer : SocketAddr)
    (secret : U64) (token : Bytes) (now : Instant) (xs : List Given) :
    let c := xs.foldl (step cfg) (of (Session.create connId sessId peer secret token now))
    Consumed c.session c.consumed ∧ Gap c.session ∧
      ∀ (s : Session) (next : U16) (events : List SessionEvent), s.ch2Next = some next →
        DeliveryLoop next s events s.deliveredNumbers (deliverCh2InOrder s events).1
          (deliverCh2InOrder s events).2 := by
  intro c
  rw [← and_assoc]
  refine ⟨?_, fun s next events h => deliveryLoop_deliverCh2InOrder events h⟩
  show Consumed (xs.foldl (step cfg) _).session (xs.foldl (step cfg) _).consumed ∧
    Gap (xs.foldl (step cfg) _).session
  induction xs using List.reverseRecOn with
  | nil =>
    refine ⟨⟨rfl, rfl, ?_, fun n hn => (nomatch hn)⟩, fun n _ => ?_⟩
    · exact List.drop_nil.symm
    · exact Std.ExtTreeMap.getElem?_empty
  | append_singleton xs x ih =>
    rw [List.foldl_append]
    exact step_consumed ih.1 ih.2 x

end SoupEngine
