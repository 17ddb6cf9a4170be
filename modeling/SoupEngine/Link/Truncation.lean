import SoupEngine.Link.Orderly
import SoupEngine.Session.Delivery

/-!
# Whole messages

The number of fragments travels as a byte. A message of more than 256 fragments is put together from
those that the byte leaves of it, if the retransmit queue has room for so many (`Narrows`). As long
as no message is sent so, and no fragment is put together with those of another message (`Mixes`),
`b` reports on Ch2 only messages that were sent (`whole_messages`).
-/

namespace SoupEngine

open BoundedMemory Release TransitionSystem

attribute [local irreducible] remember

/-- The byte leaves a receiver only the first fragments of the message. -/
def Call.Narrowed (c : Call) : Prop := c.Fragmented ∧ 256 < fragmentCount c.payload

namespace Link

/-- The message has a Ch2 call. -/
def Passed (l : Link) (e : U16 × Bytes) : Prop :=
  ∃ (i : ℕ) (s : Sent), l.log[i]? = some s ∧ s.call.ch = CH_RELIABLE_ORDERED ∧
    (s.call.msgId, s.call.payload) = e

/-- The retransmit queue takes all fragments that the byte leaves of the message. -/
def Narrows (l : Link) (ch : U8) (msgId : U16) (payload : Bytes) : Prop :=
  l.a.isActive ∧ msgId ≤ 0x0FFF ∧ fragments ch payload ∧ 256 < fragmentCount payload ∧
    1 ≤ fragmentCount payload % 256 ∧
    (l.a.retrans 0).len + fragmentCount payload % 256 ≤ RETRANSMIT_QUEUE_CAP

instance (l : Link) (ch : U8) (msgId : U16) (payload : Bytes) :
    Decidable (l.Narrows ch msgId payload) := by
  unfold Narrows
  infer_instance

/-- No message is cut short when it is sent, and none is mixed with another when it arrives. -/
def KeepsWhole (l : Link) : Action → Prop
  | .sendA ch msgId payload _ => ¬ l.Narrows ch msgId payload
  | .arrive i _ _ _ => ∀ e ∈ l.log[i]?, ¬ l.Mixes i e.call
  | _ => True

/-- What waits at `b` and what it has reported are messages that were sent; of a narrowed one a
number is missing. -/
structure Entire (l : Link) : Prop where
  buffered : Buffers (fun e => e ≠ placeholder → l.Passed e) l.b.reorder
  events : ∀ e ∈ ch2Data l.events, l.Passed e
  received : ∀ i ∈ l.received, ∃ e ∈ l.log[i]?, e.datagram.isSome
  short : ∀ (i : ℕ) (e : Sent), l.log[i]? = some e → e.datagram.isSome → e.call.Narrowed →
    i + 1 < e.call.first + e.call.total ∨ e.call.total = 0

variable {hmac4 : Hmac} {cfg : SessionTableConfig} {l l' : Link} {c : Call} {i : ℕ} {bytes : Bytes}
  {peer : SocketAddr} {now clock : Instant} {e : U16 × Bytes}

theorem Passed.mono (hlog : ∀ (i : ℕ) (e : Sent), l.log[i]? = some e → l'.log[i]? = some e)
    (h : l.Passed e) : l'.Passed e := by
  obtain ⟨i, s, hs, hch, he⟩ := h
  exact ⟨i, s, hlog i s hs, hch, he⟩

theorem entire_start (a b : Opening) : (start a b).Entire where
  buffered := buffers_empty
  events e he := absurd he List.not_mem_nil
  received i hi := absurd hi (Finset.notMem_empty i)
  short i e he := by cases he

/-- Nothing is received. -/
theorem Entire.quiet (h : l.Entire) (hq : Quiet l l')
    (hshort : ∀ (i : ℕ) (e : Sent), l'.log[i]? = some e → e.datagram.isSome → e.call.Narrowed →
      i + 1 < e.call.first + e.call.total ∨ e.call.total = 0) : l'.Entire where
  buffered := by
    have hreorder : l'.b.reorder = l.b.reorder := congrArg Ch2View.reorder hq.ch2
    rw [hreorder]
    exact fun n e he hne => (h.buffered n e he hne).mono hq.log
  events := by
    rw [hq.events]
    exact fun e he => (h.events e he).mono hq.log
  received := by
    rw [hq.received]
    intro i hi
    obtain ⟨e, he, hsome⟩ := h.received i hi
    exact ⟨e, hq.log i e he, hsome⟩
  short := hshort

/-- Sending a message that is not narrowed, or not so far that it could be put together. -/
theorem short_send (h : l.Entire) (hw : Wired cfg l) {ch : U8} {msgId : U16} {payload : Bytes}
    (hok : ¬ l.Narrows ch msgId payload) (now : Instant) (i : ℕ) (e : Sent)
    (he : (l.send hmac4 cfg ch msgId payload now).log[i]? = some e) (hsome : e.datagram.isSome)
    (hn : e.call.Narrowed) : i + 1 < e.call.first + e.call.total ∨ e.call.total = 0 := by
  by_cases ha : l.a.state = .Active
  swap
  · rw [send_inactive ch msgId payload now ha] at he
    exact h.short i e he hsome hn
  obtain ⟨m, taken, datagram, hs⟩ := send_spec hmac4 cfg hw.sendSeq ch msgId payload now ha
  rcases hs.log_cases he with ⟨-, hold⟩ | ⟨j, -, rfl, rfl⟩
  · exact h.short i e hold hsome hn
  · have hjm : j < m := by
      by_contra hjm
      rw [if_neg hjm] at hsome
      cases hsome
    obtain ⟨hf, hmany⟩ := hn
    have hqueue : queueOf (l.callOf ch msgId payload).ch = some 0 := if_pos hf.1
    have hroom := hs.room 0 hqueue (Nat.zero_lt_of_lt hjm)
    obtain ⟨header, hcar⟩ := hs.carried j hjm
    have hid : msgId ≤ 0x0FFF := hcar.valid.2
    have hcut : ¬ (1 ≤ fragmentCount payload % 256 ∧
        (l.a.retrans 0).len + fragmentCount payload % 256 ≤ RETRANSMIT_QUEUE_CAP) := by
      rintro ⟨hpos, hle⟩
      exact hok ⟨isActive_iff.2 ha, hid, hf, hmany, hpos, hle⟩
    show l.log.length + j + 1 < l.log.length + fragmentCount payload % 256 ∨
      fragmentCount payload % 256 = 0
    omega

/-- A number of a call that `b` has received. -/
theorem Entire.of_got (h : l.Entire) (hg : l.Got c i) (hn : c.Narrowed) :
    i + 1 < c.first + c.total ∨ c.total = 0 := by
  obtain ⟨hi, e, he, rfl⟩ := hg
  obtain ⟨e', he', hsome⟩ := h.received i hi
  cases he.symm.trans he'
  exact h.short i e he hsome hn

/-- A message that is put together is the one that was sent. -/
theorem Entire.reassembled_eq (h : l.Entire) (hdec : c.Decodes i) (hi : c.first ≤ i)
    (he : l.log[i]? = some ⟨c, some bytes⟩)
    (hall : ∀ j < c.total, j = i - c.first ∨ l.Got c (c.first + j)) :
    c.reassembled = c.payload := by
  obtain ⟨hf, h64, hlt⟩ := hdec
  have hcount : ¬ 256 < fragmentCount c.payload := by
    intro hmany
    have hn : c.Narrowed := ⟨hf, hmany⟩
    rcases hall (c.total - 1) (by omega) with hj | hg
    · have := h.short i _ he rfl hn
      dsimp only at this
      omega
    · have := h.of_got hg hn
      omega
  have htot : c.total = fragmentCount c.payload := by
    unfold Call.total at hlt ⊢
    omega
  have hT : FRAGMENT_THRESHOLD = 1100 := rfl
  unfold Call.reassembled
  rw [if_pos hf, htot]
  refine List.take_of_length_le ?_
  unfold fragmentCount divCeil
  rw [hT]
  omega

/-- What `b` reports of a call. -/
theorem passed_of_log (he : l.log[i]? = some ⟨c, some bytes⟩) (h2 : c.ch = CH_RELIABLE_ORDERED) :
    l.Passed (c.msgId, c.payload) := ⟨i, _, he, h2, rfl⟩

/-- Delivery from a buffer of messages that were sent. -/
theorem passed_deliver {s : Session}
    (hs : Buffers (fun e => e ≠ placeholder → l.Passed e) s.reorder) :
    Buffers (fun e => e ≠ placeholder → l.Passed e) (deliverCh2InOrder s []).1.reorder ∧
      ∀ e ∈ ch2Data (deliverCh2InOrder s []).2, l.Passed e := by
  have hnone : ∀ x ∈ ([] : List SessionEvent), ∀ e ∈ ch2Data [x], l.Passed e :=
    fun x hx => absurd hx List.not_mem_nil
  have hentry : ∀ e : U16 × Bytes, (e ≠ placeholder → l.Passed e) →
      ∀ x ∈ deliveryEvents s.sessId e, ∀ e' ∈ ch2Data [x], l.Passed e' := by
    intro e he x hx e' he'
    have hmem : e' ∈ ch2Data (deliveryEvents s.sessId e) := by
      obtain ⟨y, hy, hye⟩ := List.mem_filterMap.1 he'
      cases List.mem_singleton.1 hy
      exact List.mem_filterMap.2 ⟨x, hx, hye⟩
    rw [ch2Data_deliveryEvents] at hmem
    split_ifs at hmem with hne
    · cases List.mem_singleton.1 hmem
      exact he hne
    · cases hmem
  have hdeliver := hs.deliverCh2InOrder hentry hnone
  refine ⟨hdeliver.1, fun e he => ?_⟩
  obtain ⟨x, hx, hxe⟩ := List.mem_filterMap.1 he
  exact hdeliver.2 x hx e (List.mem_filterMap.2 ⟨x, List.mem_singleton_self x, hxe⟩)

/-- A datagram of the log reaches `b`. -/
theorem entire_receiveB (hw : Wired cfg l) (hA : l.Assembled) (h : l.Entire)
    (he : l.log[i]? = some ⟨c, some bytes⟩) (hok : ¬ l.Mixes i c) (peer : SocketAddr)
    (now clock : Instant) : (l.receiveB cfg i c bytes peer now clock).Entire := by
  by_cases ha : l.b.state = .Active
  swap
  · exact h.quiet (quiet_receiveB_inactive ha i c bytes peer now clock) h.short
  set rx := l.b.receive cfg Stats.new peer bytes now clock with hrx
  -- what is left to show of the buffer and the new events
  have hdone (hbuf : Buffers (fun e => e ≠ placeholder → l.Passed e) rx.session.reorder)
      (hnew : ∀ e ∈ ch2Data rx.events, l.Passed e) :
      (l.receiveB cfg i c bytes peer now clock).Entire := by
    refine ⟨hbuf, ?_, ?_, h.short⟩
    · intro e hmem
      have hmem' : e ∈ ch2Data (l.events ++ rx.events) := hmem
      rw [ch2Data_append] at hmem'
      exact (List.mem_append.1 hmem').elim (h.events e) (hnew e)
    · intro j hj
      have hj' : j ∈ if l.b.isActive then insert i l.received else l.received := hj
      rw [if_pos (isActive_iff.2 ha)] at hj'
      rcases Finset.mem_insert.1 hj' with rfl | hold
      · exact ⟨_, he, rfl⟩
      · exact h.received j hold
  have hsame (hview : rx.session.receiverView.ch2 = l.b.receiverView.ch2)
      (hev : ch2Data rx.events = []) :
      (l.receiveB cfg i c bytes peer now clock).Entire := by
    have hreorder : rx.session.reorder = l.b.reorder := congrArg Ch2View.reorder hview
    refine hdone (hreorder ▸ h.buffered) fun e hmem => ?_
    rw [hev] at hmem
    cases hmem
  obtain ⟨header, hcar⟩ := hw.carried i _ bytes he rfl
  by_cases h2 : c.ch = CH_RELIABLE_ORDERED
  swap
  · by_cases h3 : c.ch = CH_RELIABLE_UNORDERED
    · obtain ⟨hview, hev⟩ := receive_ch3 Stats.new peer now clock ha hcar h3
      exact hsame ((congrArg ReceiverView.ch2 hview).trans rfl) hev
    · obtain ⟨hview, hev⟩ := receive_unreliable Stats.new peer now clock ha hcar h2 h3
      exact hsame (congrArg ReceiverView.ch2 hview) hev
  by_cases hf : c.Fragmented
  · rcases fragment_cases hw hA ha he h2 hf hok peer now clock with
      ⟨-, hview, hev⟩ | ⟨-, -, st, -, -, -, hview, hev⟩ | ⟨hacc, -, hall, s, hview, -, hs, hev⟩
    · exact hsame (congrArg ReceiverView.ch2 hview) (congrArg ch2Data hev)
    · exact hsame ((congrArg ReceiverView.ch2 hview).trans rfl) (congrArg ch2Data hev)
    · have hre := h.reassembled_eq hacc.2.1 (hw.number i _ he).1 he hall
      have hreorder : s.reorder = insertGroup l.b.reorder (seqNum c.first) (c.fragment i).total
          (c.msgId, c.reassembled) := congrArg (fun v => v.ch2.reorder) hview
      have hbuf : Buffers (fun e => e ≠ placeholder → l.Passed e) s.reorder := by
        rw [hreorder, hre]
        exact h.buffered.insertGroup _ _ (absurd rfl) fun _ => passed_of_log he h2
      have hdel := passed_deliver hbuf
      rw [← hs, ← hev] at hdel
      exact hdone hdel.1 hdel.2
  · -- a message in one frame
    have hflag : header.flags &&& FLAG_FRAGMENT = 0 := not_not.1 fun hne => hf (hcar.flag.1 hne)
    obtain ⟨hs, hev⟩ := receive_ch2 Stats.new peer now clock ha hcar h2
    have hbody : (c.frame i).body = c.payload := if_neg hf
    have hp : (l.b.prepared peer header now).reorder = l.b.reorder := rfl
    have hbuf : Buffers (fun e => e ≠ placeholder → l.Passed e)
        ((l.b.prepared peer header now).reorder.insert header.seq
          ((c.frame i).msgId, (c.frame i).body)) := by
      rw [hp, hbody]
      exact h.buffered.insert _ fun _ => passed_of_log he h2
    have hdel := passed_deliver (s := { l.b.prepared peer header now with
      reorder := (l.b.prepared peer header now).reorder.insert header.seq
        ((c.frame i).msgId, (c.frame i).body) }) hbuf
    have hkeep :
        Buffers (fun e => e ≠ placeholder → l.Passed e) (l.b.prepared peer header now).reorder :=
      h.buffered
    unfold handleCh2 at hs hev
    split_ifs at hs hev with h1 h3 h4
    · exact hdone (hs ▸ hkeep) fun e hmem => by rw [hev] at hmem; cases hmem
    · exact hdone (hs ▸ hkeep) fun e hmem => by rw [hev] at hmem; cases hmem
    · exact absurd hflag h4
    · rw [← hs, ← hev] at hdel
      exact hdone hdel.1 hdel.2

theorem entire_step (hw : Wired cfg l) (hA : l.Assembled) (h : l.Entire) {x : Action}
    (hok : l.KeepsWhole x) : (l.step hmac4 cfg x).Assembled ∧ (l.step hmac4 cfg x).Entire := by
  have hother (hsend : ∀ ch msgId payload now, x ≠ .sendA ch msgId payload now)
      (harrive : ∀ i peer now clock, x ≠ .arrive i peer now clock) :
      (l.step hmac4 cfg x).Assembled ∧ (l.step hmac4 cfg x).Entire := by
    have hq := quiet_step hmac4 hw harrive
    refine ⟨hA.quiet hq, h.quiet hq ?_⟩
    rw [(log_step_of_not_send hmac4 cfg l hsend).1]
    exact h.short
  cases x with
  | sendA ch msgId payload now =>
    have hq := quiet_send hmac4 hw ch msgId payload now
    exact ⟨hA.quiet hq, h.quiet hq (short_send h hw hok now)⟩
  | arrive i peer now clock =>
    rcases arrive_cases hmac4 cfg l i peer now clock with heq | ⟨call, bytes, he, heq⟩
    · rw [heq]
      exact ⟨hA, h⟩
    · have hmix : ¬ l.Mixes i call := hok _ he
      rw [heq]
      exact ⟨assembled_receiveB hw hA he hmix peer now clock,
        entire_receiveB hw hA h he hmix peer now clock⟩
  | _ => exact hother nofun nofun

/-- A number is given out for a message that is sent. -/
theorem sent_of_log (hmac4 : Hmac) (cfg : SessionTableConfig) (a b : Opening) (xs : List Action)
    {s : Sent} (hs : s ∈ (xs.foldl (step hmac4 cfg) (start a b)).log) :
    ∃ now, Action.sendA s.call.ch s.call.msgId s.call.payload now ∈ xs := by
  induction xs using List.reverseRecOn with
  | nil => cases hs
  | append_singleton xs x ih =>
    rw [List.foldl_append] at hs
    have hold (h : s ∈ (xs.foldl (step hmac4 cfg) (start a b)).log) :
        ∃ now, Action.sendA s.call.ch s.call.msgId s.call.payload now ∈ xs ++ [x] := by
      obtain ⟨now, hmem⟩ := ih h
      exact ⟨now, List.mem_append_left [x] hmem⟩
    by_cases hx : ∃ ch msgId payload now, x = .sendA ch msgId payload now
    · obtain ⟨ch, msgId, payload, now, rfl⟩ := hx
      rcases List.mem_append.1 hs with h | h
      · exact hold h
      · obtain ⟨j, -, rfl⟩ := List.mem_map.1 h
        exact ⟨now, List.mem_append_right xs (List.mem_singleton_self _)⟩
    · refine hold ?_
      have hlog := (log_step_of_not_send hmac4 cfg (xs.foldl (step hmac4 cfg) (start a b)) (x := x)
        fun ch msgId payload now heq => hx ⟨ch, msgId, payload, now, heq⟩).1
      rw [← hlog]
      exact hs

/-- **Only whole messages.** As long as no message is narrowed when it is sent and none is mixed
with another when it arrives, what `b` reports on Ch2 are messages that were sent. -/
theorem whole_messages (hmac4 : Hmac) (cfg : SessionTableConfig) (a b : Opening) (xs : List Action)
    (h : Allowed (step hmac4 cfg) KeepsWhole (start a b) xs) :
    ∀ e ∈ ch2Data (xs.foldl (step hmac4 cfg) (start a b)).events,
      ∃ now, Action.sendA CH_RELIABLE_ORDERED e.1 e.2 now ∈ xs := by
  have hinv : Wired cfg (xs.foldl (step hmac4 cfg) (start a b)) ∧
      (xs.foldl (step hmac4 cfg) (start a b)).Assembled ∧
      (xs.foldl (step hmac4 cfg) (start a b)).Entire := by
    refine (Reach.foldl h).invariant (I := fun l => Wired cfg l ∧ l.Assembled ∧ l.Entire)
      ⟨wired_start a b, assembled_start a b, entire_start a b⟩ ?_
    rintro l x ⟨hw, hA, hE⟩ hx
    exact ⟨wired_step hw x, entire_step hw hA hE hx⟩
  intro e he
  obtain ⟨i, s, hs, hch, rfl⟩ := hinv.2.2.events e he
  obtain ⟨now, hmem⟩ := sent_of_log hmac4 cfg a b xs (List.mem_of_getElem? hs)
  rw [hch] at hmem
  exact ⟨now, hmem⟩

instance (l : Link) : (x : Action) → Decidable (l.KeepsWhole x)
  | .sendA .. => instDecidableNot
  | .arrive i _ _ _ => inferInstanceAs (Decidable (∀ e ∈ l.log[i]?, ¬ l.Mixes i e.call))
  | .recvA .. | .resendA _ | .idleA _ | .ackB .. | .sendB .. | .resendB _ | .idleB _ =>
    instDecidableTrue

/-- A message of two fragments. -/
def splitMessage : Bytes := List.replicate 1101 7

/-- Of two fragments the first is lost, sent again when its time is up, and arrives after the
second, which comes once more. -/
def lostFragment : List Action :=
  [.sendA CH_RELIABLE_ORDERED 7 splitMessage 0, .arrive 1 (.V4 0 0) 0 0,
    .resendA (Duration.fromMillis 300), .arrive 0 (.V4 0 0) 0 0, .arrive 1 (.V4 0 0) 0 0]

/-- The link after the first steps of that run. -/
def afterLoss (n : ℕ) : Link :=
  (lostFragment.take n).foldl (step (fun _ _ => Vector.replicate 4 0) .default)
    (start ⟨1, 1, .V4 0 0, 0, [], 0⟩ ⟨1, 1, .V4 1 0, 0, [], 0⟩)

/-- Nothing is reported before the fragment that is sent again, and then the whole message. -/
theorem whole_messages_resent :
    (afterLoss 2).wire 0 ∈ (afterLoss 2).a.overdue (Duration.fromMillis 300) ∧
      ch2Data (afterLoss 3).events = [] ∧ ch2Data (afterLoss 5).events = [(7, splitMessage)] ∧
      ∀ e ∈ ch2Data (afterLoss 5).events, ∃ now,
      Action.sendA CH_RELIABLE_ORDERED e.1 e.2 now ∈ lostFragment := by
  have hrun : Allowed (step (fun _ _ => Vector.replicate 4 0) .default) KeepsWhole
        (start ⟨1, 1, .V4 0 0, 0, [], 0⟩ ⟨1, 1, .V4 1 0, 0, [], 0⟩) lostFragment ∧
      (afterLoss 2).wire 0 ∈ (afterLoss 2).a.overdue (Duration.fromMillis 300) ∧
      ch2Data (afterLoss 3).events = [] ∧ ch2Data (afterLoss 5).events = [(7, splitMessage)] := by
    decide +kernel
  exact ⟨hrun.2.1, hrun.2.2.1, hrun.2.2.2, whole_messages _ _ _ _ lostFragment hrun.1⟩

/-! ## A message that is cut short -/

/-- A payload of 257 fragments. -/
@[irreducible] def cutMessage : Bytes := List.replicate (257 * FRAGMENT_THRESHOLD) 7

theorem length_cutMessage : cutMessage.length = 257 * FRAGMENT_THRESHOLD := by
  unfold cutMessage
  exact List.length_replicate

theorem fragmentCount_of_length {payload : Bytes} {n : ℕ}
    (h : payload.length = n * FRAGMENT_THRESHOLD) :
    fragmentCount payload = n := by
  have hT : FRAGMENT_THRESHOLD = 1100 := rfl
  unfold fragmentCount divCeil
  rw [h, hT]
  omega

-- the kernel must not count the bytes of the message
theorem fragmentCount_cutMessage : fragmentCount cutMessage = 257 :=
  fragmentCount_of_length length_cutMessage

section Cut

variable (hmac4 : Hmac) (cfg : SessionTableConfig) (a b : Opening) (now : Instant)

/-- The call for the message. -/
def cutCall : Call := (start a b).callOf CH_RELIABLE_ORDERED 7 cutMessage

/-- The message has been passed to `pack_outbound`. -/
def afterCut : Link := (start a b).send hmac4 cfg CH_RELIABLE_ORDERED 7 cutMessage now

theorem fragments_cutMessage : fragments CH_RELIABLE_ORDERED cutMessage := by
  refine ⟨rfl, ?_⟩
  rw [length_cutMessage]
  decide

theorem total_cutCall : (cutCall a b).total = 1 := by
  unfold Call.total
  rw [show (cutCall a b).payload = cutMessage from rfl, fragmentCount_cutMessage]

theorem afterCut_eq_step : afterCut hmac4 cfg a b now =
    (start a b).step hmac4 cfg (.sendA CH_RELIABLE_ORDERED 7 cutMessage now) := rfl

theorem afterCut_spec : ∃ m taken datagram,
    SendSpec hmac4 cfg (start a b) (afterCut hmac4 cfg a b now)
    (cutCall a b) m taken datagram :=
  send_spec hmac4 cfg rfl CH_RELIABLE_ORDERED 7 cutMessage now rfl

/-- The call fails at the 65th fragment; the first ones have numbers and wait in the queue. -/
theorem cut_queued : ∃ bytes,
    (afterCut hmac4 cfg a b now).log[0]? = some ⟨cutCall a b, some bytes⟩ ∧
      (0, bytes) ∈ ((afterCut hmac4 cfg a b now).a.retrans 0).contents ∧
      (afterCut hmac4 cfg a b now).pos = 0 ∧ (afterCut hmac4 cfg a b now).b = b.session ∧
      (afterCut hmac4 cfg a b now).owner = fun _ => 0 := by
  obtain ⟨m, taken, datagram, hs⟩ := afterCut_spec hmac4 cfg a b now
  have hf : (cutCall a b).Fragmented := fragments_cutMessage
  have hcount : (cutCall a b).count = 257 := by
    unfold Call.count
    rw [if_pos hf]
    exact fragmentCount_cutMessage
  have hm : 0 < m := by
    rcases hs.outcome with ⟨hall, -, -⟩ | ⟨hlt, -, -, -⟩
    · omega
    · obtain ⟨qi, -, hfull⟩ := hs.full rfl (by decide) (by decide)
        (fun hf => absurd fragments_cutMessage hf) hlt
      have hlen : ((start a b).a.retrans qi).len = 0 := rfl
      have hcap : RETRANSMIT_QUEUE_CAP = 64 := rfl
      omega
  have hlog := hs.log_new (Nat.lt_of_lt_of_le hm hs.le_taken)
  rw [if_pos hm] at hlog
  have hqueue : queueOf (cutCall a b).ch = some 0 := rfl
  have hnum : seqNum ((start a b).log.length + 0) = 0 := rfl
  refine ⟨datagram 0, hlog, ?_, congrArg Link.pos hs.same, congrArg Link.b hs.same,
    congrArg Link.owner hs.same⟩
  rw [hs.contents 0, if_pos hqueue]
  refine List.mem_append_right _ (List.mem_map.2 ⟨0, List.mem_range.2 hm, ?_⟩)
  rw [hnum]

/-- The first datagram of the message puts it together. -/
theorem cut_completes {l : Link} (hb : l.b = b.session) :
    l.Accepts 0 (cutCall a b) ∧ l.b.Completes ((cutCall a b).fragment 0) := by
  have htotal := total_cutCall a b
  unfold Accepts Session.Completes
  rw [hb]
  refine ⟨⟨rfl, ⟨fragments_cutMessage, ?_, ?_⟩, ?_⟩, ?_⟩
  · rw [htotal]
    decide
  · rw [htotal]
    exact Nat.zero_lt_one
  · exact fun h => h.elim List.not_mem_nil List.not_mem_nil
  · intro j hj
    rw [Call.total_fragment, htotal] at hj
    obtain rfl : j = 0 := by omega
    unfold Session.heldWith FragmentAssembler.withChunk
    rw [if_pos (show 0 = ((cutCall a b).fragment 0).fragNo.toNat from rfl)]
    rfl

/-- What `b` reports when the first datagram has arrived. -/
theorem cut_reported (peer : SocketAddr) (clock : Instant) :
    (7, cutMessage.take FRAGMENT_THRESHOLD) ∈
      ch2Data (((afterCut hmac4 cfg a b now).step hmac4 cfg
        (.arrive 0 peer now clock)).events) := by
  obtain ⟨bytes, hlog, -, hpos, hb, howner⟩ := cut_queued hmac4 cfg a b now
  obtain ⟨hacc, hcomp⟩ := cut_completes a b hb
  have hsent : Sound cfg (afterCut hmac4 cfg a b now) ∅ := by
    have hstep := sound_step hmac4 (sound_start a b : Sound cfg (start a b) ∅)
      (x := .sendA CH_RELIABLE_ORDERED 7 cutMessage now) trivial
    rw [bufferedAfter_of_quiet (x := .sendA CH_RELIABLE_ORDERED 7 cutMessage now) nofun] at hstep
    rw [afterCut_eq_step]
    exact hstep
  have horder : (afterCut hmac4 cfg a b now).Orderly (.arrive 0 peer now clock) := by
    intro c bytes' he
    cases hlog.symm.trans he
    refine ⟨fun _ _ => ⟨by omega, Nat.zero_le _⟩, fun h => ?_, fun h => h.2.2 (congrFun howner _)⟩
    have hlt : 0 < (afterCut hmac4 cfg a b now).pos := h.2
    omega
  have hsound := sound_step hmac4 hsent horder
  have hfirst : (cutCall a b).first = 0 := rfl
  have hf : (cutCall a b).Fragmented := fragments_cutMessage
  have hactive :
      ¬ ((afterCut hmac4 cfg a b now).b.isActive = false ∨
        (cutCall a b).ch ≠ CH_RELIABLE_ORDERED) := by
    rintro (h | h)
    · rw [hb] at h
      cases h
    · exact h rfl
  have hbuffered : (afterCut hmac4 cfg a b now).bufferedAfter ∅ (.arrive 0 peer now clock) =
      ∅ ∪ groupNums 0 1 := by
    rw [bufferedAfter_of_log hlog]
    unfold grown
    rw [if_neg hactive, if_neg (not_not.2 hf), if_pos ⟨hacc, hcomp⟩, total_cutCall, hfirst]
  rw [hbuffered] at hsound
  have hfront : front (∅ ∪ groupNums 0 1) = 1 := by
    refine front_eq (fun i hi => ?_) ?_
    · rw [Finset.empty_union, mem_groupNums]
      omega
    · rw [Finset.empty_union, mem_groupNums]
      omega
  have hlog' : ((afterCut hmac4 cfg a b now).step hmac4 cfg (.arrive 0 peer now clock)).log =
      (afterCut hmac4 cfg a b now).log :=
        (log_step_of_not_send hmac4 cfg _ (x := .arrive 0 peer now clock) nofun).1
  rw [hsound.receiving.events, hsound.receiving.front, hfront]
  have hslot : ((afterCut hmac4 cfg a b now).step hmac4 cfg (.arrive 0 peer now clock)).slot 0 =
      (7, cutMessage.take FRAGMENT_THRESHOLD) := by
    rw [slot_of_log (hlog'.symm ▸ hlog)]
    show (7, (cutCall a b).reassembled) = _
    unfold Call.reassembled
    rw [if_pos (show (cutCall a b).Fragmented from fragments_cutMessage), total_cutCall,
      Nat.one_mul]
    rfl
  rw [← hslot]
  refine slot_mem_delivered le_rfl Nat.zero_lt_one fun h => ?_
  rw [hslot] at h
  exact absurd (congrArg Prod.fst h) (by decide)

end Cut

/-- A message of 257 fragments is refused. The first datagram of it is resent nevertheless, and `b`
takes it for a whole message of 1100 bytes. -/
theorem cut_message :
    let hmac4 : Hmac := fun _ _ => Vector.replicate 4 0
    let a : Opening := ⟨1, 1, .V4 0 0, 0, [], 0⟩
    let b : Opening := ⟨1, 1, .V4 1 0, 0, [], 0⟩
    let xs : List Action := [.sendA CH_RELIABLE_ORDERED 7 cutMessage 0, .arrive 0 (.V4 0 0) 0 0]
    (∃ now, (afterCut hmac4 .default a b 0).wire
      0 ∈ (afterCut hmac4 .default a b 0).a.overdue now) ∧
      ∃ e ∈ ch2Data (xs.foldl (step hmac4 .default) (start a b)).events,
        ∀ now, Action.sendA CH_RELIABLE_ORDERED e.1 e.2 now ∉ xs := by
  intro hmac4 a b xs
  have hrun : xs.foldl (step hmac4 .default) (start a b) =
      (afterCut hmac4 .default a b 0).step hmac4 .default (.arrive 0 (.V4 0 0) 0 0) := by
    rw [afterCut_eq_step, List.foldl_cons, List.foldl_cons, List.foldl_nil]
  obtain ⟨bytes, hlog, hqueued, -⟩ := cut_queued hmac4 .default a b 0
  constructor
  · obtain ⟨now, hnow⟩ := Session.overdue_of_contents hqueued
    refine ⟨now, ?_⟩
    unfold wire
    rw [hlog]
    exact hnow
  · have hshort : cutMessage.take FRAGMENT_THRESHOLD ≠ cutMessage := by
      intro h
      have hlen := congrArg List.length h
      rw [List.length_take, length_cutMessage] at hlen
      have hT : FRAGMENT_THRESHOLD = 1100 := rfl
      omega
    have hreported := cut_reported hmac4 .default a b 0 (.V4 0 0) 0
    rw [← hrun] at hreported
    refine ⟨_, hreported, fun now hmem => ?_⟩
    rcases List.mem_cons.1 hmem with h | h
    · injection h with _ _ hpayload
      exact hshort hpayload
    · cases List.mem_singleton.1 h

end Link

end SoupEngine
