import SoupEngine.Session.State

/-!
# Outbound datagrams

`pack` builds the datagrams of one outbound message: a single one, or for a long Ch2 message one for
every fragment. Reliable datagrams are also put into the retransmit queue of their channel.
-/

namespace SoupEngine

/-- `hmac4(key, data)`, the truncated HMAC. -/
abbrev Hmac := Bytes → Bytes → Vector U8 HMAC_LEN

/-- `attach_hmac`: seal a datagram with its HMAC when HMACs are enabled. -/
def attachHmac (hmac4 : Hmac) (cfg : SessionTableConfig) (secret : U64) (bytes : Bytes) : Bytes :=
  if cfg.enableHmac then bytes ++ (hmac4 (leBytes secret) bytes).toList else bytes

/-- `mk_header`, and `mk_frag_header` with `kind = FLAG_FRAGMENT`. -/
def mkHeader (cfg : SessionTableConfig) (connId : U32) (kind : U8) (ackPair : U16 × U32)
    (seq : U16) : DatagramHeader where
  version := VERSION
  flags := kind ||| if cfg.enableHmac then FLAG_HMAC else 0
  connId := connId
  seq := seq
  ack := ackPair.1
  ackBits := ackPair.2

/-- The retransmit queue of a channel, for the two reliable ones. -/
def queueOf (ch : U8) : Option (Fin 2) :=
  if ch = CH_RELIABLE_ORDERED then some 0 else if ch = CH_RELIABLE_UNORDERED then some 1 else none

/-- Enqueue a datagram for retransmission on a reliable channel. -/
def Session.enqueue (s : Session) (ch : U8) (seq : U16) (bytes : Bytes) (now : Instant) :
    Session × Except Error Unit :=
  match queueOf ch with
  | none => (s, .ok ())
  | some qi =>
    ({ s with retrans := Function.update s.retrans qi ((s.retrans qi).push seq bytes now).1 },
      ((s.retrans qi).push seq bytes now).2)

section Pack

variable (hmac4 : Hmac) (cfg : SessionTableConfig)

/-- What the bodies of one message have in common. -/
structure PackKind where
  kind : U8
  ackPair : U16 × U32
  ch : U8
  msgId : U16

/-- The sealed datagram of one body under the number `seq`. -/
def sealedDatagram (s : Session) (k : PackKind) (seq : U16) (body : Bytes) :
    Bytes × Except Error ℕ :=
  let (bytes, r) := encode (mkHeader cfg s.connId k.kind k.ackPair seq) [⟨k.ch, k.msgId, body⟩] []
  (attachHmac hmac4 cfg s.secret bytes, r)

/-- Give each body the next number, encode it, seal it and enqueue it. The datagrams built so far
are returned with the outcome; the first error ends the loop and leaves the session as it is. -/
def packLoop (k : PackKind) (now : Instant) :
    List Bytes → Session → List Bytes → Session × List Bytes × Except Error Unit
  | [], s, out => (s, out, .ok ())
  | body :: bodies, s, out =>
    let seq := s.sendSeq
    let s := { s with sendSeq := s.sendSeq + 1 }
    match sealedDatagram hmac4 cfg s k seq body with
    | (_, .error e) => (s, out, .error e)
    | (bytes, .ok _) =>
      match s.enqueue k.ch seq bytes now with
      | (s, .error e) => (s, out, .error e)
      | (s, .ok ()) => packLoop k now bodies s (out ++ [bytes])

/-- Whether a payload is cut into fragments. -/
def fragments (ch : U8) (payload : Bytes) : Prop :=
  ch = CH_RELIABLE_ORDERED ∧ FRAGMENT_THRESHOLD < payload.length

instance (ch : U8) (payload : Bytes) : Decidable (fragments ch payload) := by
  unfold fragments; infer_instance

/-- `pack_outbound` on the session found: the session afterwards, the datagrams built, the
outcome. -/
def Session.pack (s : Session) (ch : U8) (msgId : U16) (payload : Bytes) (now : Instant) :
    Session × List Bytes × Except Error Unit :=
  if s.isActive = false then
    (s, [], .error (.SessionNotFound s.sessId))
  else if fragments ch payload then
    packLoop hmac4 cfg ⟨FLAG_FRAGMENT, s.computeAck, ch, msgId⟩ now
      (split payload s.fragGroupId s.sendSeq FRAGMENT_THRESHOLD)
      { s with fragGroupId := s.fragGroupId + 1 } []
  else
    packLoop hmac4 cfg ⟨0, s.computeAck, ch, msgId⟩ now [payload] s []

/-- What `pack_outbound` returns: the datagrams with the address of the peer, unless it failed. -/
def Session.packOutbound (s : Session) (ch : U8) (msgId : U16) (payload : Bytes) (now : Instant) :
    Session × Except Error (List (Bytes × SocketAddr)) :=
  let (s', out, r) := s.pack hmac4 cfg ch msgId payload now
  (s', r.map fun _ => out.map fun bytes => (bytes, s.peer))

end Pack

end SoupEngine
