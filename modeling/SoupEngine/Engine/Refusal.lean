import SoupEngine.Engine.Transports
import SoupEngine.Session.Atomic

/-!
# A message refused by the budget

`send_outbound` packs a message before it asks the budget. When the budget refuses it, its numbers
are used up, and on a reliable channel its datagrams wait in the retransmit queue:
`maintain_reliable` sends them (`refused_leaves_trace`).
-/

namespace SoupEngine

section Pack

variable {hmac4 : Hmac} {cfg : SessionTableConfig} {s s' : Session} {ch : U8} {msgId : U16}
  {payload : Bytes} {now : Instant} {out : List Bytes}

/-- A session that has packed a message. -/
structure Packed (s s' : Session) (ch : U8) (payload : Bytes) (out : List Bytes) : Prop where
  peer : s'.peer = s.peer
  sendSeq : s'.sendSeq ≠ s.sendSeq
  groupId : fragments ch payload → s'.fragGroupId ≠ s.fragGroupId
  queue : ∀ qi, queueOf ch = some qi → s'.retrans qi ≠ s.retrans qi
  waiting : ∀ qi, queueOf ch = some qi → ∀ bytes ∈ out, ∃ seq,
    (seq, bytes) ∈ (s'.retrans qi).contents

theorem packed_of_ok (h : s.pack hmac4 cfg ch msgId payload now = (s', out, .ok ())) :
    Packed s s' ch payload out := by
  obtain ⟨-, h65, n, hnum, hspec⟩ := Session.pack_ok_spec hmac4 cfg now h
  have hpos : 0 < (s.bodies ch payload).length := Session.bodies_pos
  have hout : out = (List.range (s.bodies ch payload).length).map
      (packed hmac4 cfg (s.grouped ch payload) (s.packKind ch msgId payload) n
        (s.bodies ch payload)) := by
    rw [hspec.out, List.nil_append]
  have hcontents : ∀ qi, queueOf ch = some qi →
      (s'.retrans qi).contents = (s.retrans qi).contents ++
      (List.range (s.bodies ch payload).length).map fun i => (seqNum (n + i),
        packed hmac4 cfg (s.grouped ch payload) (s.packKind ch msgId payload) n
          (s.bodies ch payload) i) := by
    intro qi hqi
    rw [hspec.contents qi,
      if_pos (show queueOf (s.packKind ch msgId payload).ch = some qi from hqi)]
    rfl
  refine ⟨?_, ?_, fun hf => ?_, fun qi hqi hsame => ?_, fun qi hqi bytes hbytes => ?_⟩
  · rw [hspec.frame]
    rfl
  · rw [hspec.sendSeq, hnum]
    intro hsame
    have heq := (seqNum_inj (by omega) (by omega)).1 hsame
    omega
  · have hgroup : s'.fragGroupId = s.fragGroupId + 1 := by
      rw [hspec.frame]
      exact if_pos hf
    rw [hgroup]
    exact fun hsame => absurd (BitVec.add_right_eq_self.1 hsame) (by decide)
  · have hlen := congrArg List.length (hcontents qi hqi)
    rw [hsame, List.length_append, List.length_map, List.length_range] at hlen
    omega
  · rw [hout] at hbytes
    obtain ⟨i, hi, rfl⟩ := List.mem_map.1 hbytes
    refine ⟨seqNum (n + i), ?_⟩
    rw [hcontents qi hqi]
    exact List.mem_append_right _ (List.mem_map.2 ⟨i, hi, rfl⟩)

end Pack

namespace Outlets

variable {cfg : SessionTableConfig} {hmac4 : Hmac} {e : Outlets cfg} {sessId : U64} {ch : U8}
  {msgId : U16} {payload : Bytes} {now clock : Instant}

/-- The message is packed, and refused by the budget. -/
def Refused (hmac4 : Hmac) (e : Outlets cfg) (sessId : U64) (ch : U8) (msgId : U16)
    (payload : Bytes) (now clock : Instant) (packets : List (Bytes × SocketAddr)) : Prop :=
  (e.sessions.packOutbound hmac4 sessId ch msgId payload now).2 = .ok packets ∧
    ((e.sessions.packOutbound hmac4 sessId ch msgId payload now).1.checkBudget sessId
      (BitVec.ofNat 64 (packets.map fun d => d.1.length).sum) clock).2 = false

/-- Asking the budget changes no more than the window. -/
theorem slot_checkBudget {t : SessionTable cfg} {i : Fin (max cfg.shards 1)} {c : U32} {s : Session}
    (hs : (t.shards i)[c]? = some s) (sessId bytes : U64) (clock : Instant) :
    ∃ window, ((t.checkBudget sessId bytes clock).1.shards i)[c]? =
      some { s with bytesWindow := window } := by
  have hslot := act_slot noHmac t (.checkBudget sessId bytes clock) i c
  rw [hs] at hslot
  have hact : (t.act noHmac (.checkBudget sessId bytes clock)).1 =
    (t.checkBudget sessId bytes clock).1 := rfl
  rw [hact] at hslot
  generalize ((t.checkBudget sessId bytes clock).1.shards i)[c]? = o at hslot
  cases hslot with
  | same => exact ⟨s.bytesWindow, rfl⟩
  | checkBudget =>
    unfold Session.checkBudget
    split
    · exact ⟨s.bytesWindow, rfl⟩
    · dsimp only
      split_ifs
      · exact ⟨_, rfl⟩
      · exact ⟨_, rfl⟩

/-- A refused message is not handed to any transport. -/
theorem sendOutbound_refused {packets : List (Bytes × SocketAddr)}
    (h : e.Refused hmac4 sessId ch msgId payload now clock packets) :
    (e.sendOutbound hmac4 sessId ch msgId payload now clock).2 = [] ∧
      (e.sendOutbound hmac4 sessId ch msgId payload now clock).1.sessions =
        ((e.sessions.packOutbound hmac4 sessId ch msgId payload now).1.checkBudget sessId
          (BitVec.ofNat 64 (packets.map fun d => d.1.length).sum) clock).1 := by
  obtain ⟨hok, hno⟩ := h
  unfold sendOutbound
  rcases hpack : e.sessions.packOutbound hmac4 sessId ch msgId payload now with ⟨t, r⟩
  rw [hpack] at hok hno
  dsimp only at hok hno ⊢
  rw [hok]
  dsimp only
  rw [if_neg (by rw [hno]; exact Bool.noConfusion)]
  exact ⟨rfl, rfl⟩

/-- **A refused message leaves a trace.** Whenever the budget refuses a message, the session has
used up its numbers, and its group id if it is fragmented. On a reliable channel the retransmit
queue has changed, and there is for every datagram of the message a time at which
`maintain_reliable` sends it. -/
theorem refused_leaves_trace {cfg : SessionTableConfig} (hmac4 : Hmac) (e : Outlets cfg)
    (sessId : U64) (ch : U8) (msgId : U16) (payload : Bytes) (now clock : Instant)
    (packets : List (Bytes × SocketAddr))
    (h : e.Refused hmac4 sessId ch msgId payload now clock packets) :
    ∃ i c s s', e.sessions.findSession sessId = some (i, c, s) ∧
      ((e.sendOutbound hmac4 sessId ch msgId payload now clock).1.sessions.shards i)[c]? = some s' ∧
      s'.sendSeq ≠ s.sendSeq ∧ (fragments ch payload → s'.fragGroupId ≠ s.fragGroupId) ∧
      ∀ qi, queueOf ch = some qi → s'.retrans qi ≠ s.retrans qi ∧
        ∀ d ∈ packets, ∃ later, (⟨.udp, d.1, d.2⟩ : Handed) ∈
          ((e.sendOutbound hmac4 sessId ch msgId payload now clock).1.maintainReliable
            later).2 := by
  have hsessions := (sendOutbound_refused h).2
  obtain ⟨hok, -⟩ := h
  obtain ⟨-, i, c, s, s', out, hfind, hslot, hpack, rfl⟩ :=
    SessionTable.packOutbound_ok hmac4 msgId payload now (Prod.ext rfl hok)
  have hpacked := packed_of_ok hpack
  obtain ⟨window, hafter⟩ := slot_checkBudget hslot sessId
    (BitVec.ofNat 64 ((out.map fun bytes => (bytes, s.peer)).map fun d => d.1.length).sum) clock
  rw [← hsessions] at hafter
  refine ⟨i, c, s, _, hfind, hafter, hpacked.sendSeq, hpacked.groupId,
    fun qi hqi => ⟨hpacked.queue qi hqi, ?_⟩⟩
  intro d hd
  obtain ⟨bytes, hbytes, rfl⟩ := List.mem_map.1 hd
  obtain ⟨seq, hseq⟩ := hpacked.waiting qi hqi bytes hbytes
  obtain ⟨later, hlater⟩ :=
    Session.overdue_of_contents (s := { s' with bytesWindow := window }) hseq
  refine ⟨later,
    mem_maintainReliable.2 ⟨_, SessionTable.mem_sessions.2 ⟨i, c, hafter⟩, bytes, hlater, ?_⟩⟩
  rw [← hpacked.peer]

/-- A client comes by UDP, and its budget is set to 0. -/
def thriftyRun : List OutletAction :=
  ([[], List.replicate 8 0].map fun body =>
    OutletAction.recvUdp (.V4 0 0)
      (encode ⟨VERSION, FLAG_HANDSHAKE, 0, 0, 0, 0⟩ [⟨0, 0, body⟩] []).1
      (Vector.replicate 8 0) 0 0) ++ [.setBudget 1 0]

def thrifty : Outlets plainConfig := (start false false 0).run noHmac thriftyRun

/-- What is packed for it on Ch3. -/
def thriftyPackets : List (Bytes × SocketAddr) :=
  [((encode ⟨VERSION, 0, 1, 0, 0xFFFF, 0⟩ [⟨CH_RELIABLE_UNORDERED, 0, [1]⟩] []).1, .V4 0 0)]

/-- A message of one byte is refused. -/
theorem refused_leaves_trace_thrifty : ∃ i c s s', thrifty.sessions.findSession 1 = some (i, c, s) ∧
    ((thrifty.sendOutbound noHmac 1 CH_RELIABLE_UNORDERED 0 [1] 0 0).1.sessions.shards i)[c]? =
      some s' ∧
    s'.sendSeq ≠ s.sendSeq := by
  obtain ⟨i, c, s, s', hfind, hafter, hseq, -⟩ :=
    refused_leaves_trace noHmac thrifty 1 CH_RELIABLE_UNORDERED 0
    [1] 0 0 thriftyPackets ⟨by decide +kernel, by decide +kernel⟩
  exact ⟨i, c, s, s', hfind, hafter, hseq⟩

/-- The budget refuses a message, its number is used up, and `maintain_reliable` sends it after two
seconds. -/
theorem refused_is_sent :
    thrifty.Refused noHmac 1 CH_RELIABLE_UNORDERED 0 [1] 0 0 thriftyPackets ∧
      (thrifty.sendOutbound noHmac 1 CH_RELIABLE_UNORDERED 0 [1] 0 0).1.sessions.sessions.map
        Session.sendSeq ≠ thrifty.sessions.sessions.map Session.sendSeq ∧
      ((thrifty.sendOutbound noHmac 1 CH_RELIABLE_UNORDERED 0 [1] 0 0).1.maintainReliable
        (Duration.fromSecs 2)).2.map (fun d => (d.bytes, d.peer)) = thriftyPackets :=
  ⟨⟨by decide +kernel, by decide +kernel⟩, by decide +kernel, by decide +kernel⟩

end Outlets

end SoupEngine
