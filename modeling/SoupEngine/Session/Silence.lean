import SoupEngine.Session.Sharding

/-!
# No long silence

A datagram that waits for its acknowledgement is sent again and again: whenever `maintain_reliable`
has run, it was packed or sent again less than `RTO_MAX` before, and it is not sent again sooner
than `RTO_MIN` after that (`retransmission_timing`). A fast retransmission leaves the time of the
entry alone.
-/

namespace SoupEngine

open SessionTable

/-- The RTO stays within its bounds, whatever has been sampled. -/
theorem RttEstimator.rto_bounds (r : RttEstimator) : RTO_MIN ≤ r.rto ∧ r.rto ≤ RTO_MAX := by
  have hlo : RTO_MIN = 50 * 1000000 := rfl
  have hhi : RTO_MAX = 1000 * 1000000 := rfl
  unfold rto
  split_ifs
  · decide
  · have hmin : asMillis RTO_MIN = 50 := by
      unfold asMillis
      norm_num [hlo]
    have hmax : asMillis RTO_MAX = 1000 := by
      unfold asMillis
      norm_num [hhi]
    rw [hmin, hmax]
    set v := min (max (r.srttMs + 4 * r.rttvarMs) 50) 1000 with hv
    have h50 : (50 : ℤ) ≤ v.floor := by
      show (50 : ℤ) ≤ ⌊v⌋
      refine Int.le_floor.2 ?_
      rw [hv]
      exact le_min (le_max_right _ _) (by norm_num)
    have h1000 : v.floor ≤ 1000 := by
      show ⌊v⌋ ≤ 1000
      refine Int.floor_le_iff.2 ?_
      calc v ≤ 1000 := min_le_right _ _
        _ < ((1000 : ℤ) : ℚ) + 1 := by norm_num
    unfold Duration.fromMillis
    constructor
    · exact (show 50 * 1000000 ≤ v.floor.toNat * 1000000 by omega)
    · exact (show v.floor.toNat * 1000000 ≤ 1000 * 1000000 by omega)

/-! ## The queues of one session -/

section Session

variable {hmac4 : Hmac} {cfg : SessionTableConfig} {s : Session} {qi : Fin 2} {p : PendingPacket}

/-- What has been built is kept. -/
theorem subset_packLoop (k : PackKind) (now : Instant) (bodies : List Bytes) (s : Session)
    (out : List Bytes) :
    out ⊆ (packLoop hmac4 cfg k now bodies s out).2.1 := by
  induction bodies generalizing s out with
  | nil => exact List.Subset.refl out
  | cons body bodies ih =>
    unfold packLoop
    dsimp only
    split
    · exact List.Subset.refl out
    · split
      · exact List.Subset.refl out
      · exact List.Subset.trans (List.subset_append_left _ _) (ih _ _)

theorem entries_enqueue (ch : U8) (seq : U16) (bytes : Bytes) (now : Instant)
    (hp : p ∈ ((s.enqueue ch seq bytes now).1.retrans qi).entries) :
    p ∈ (s.retrans qi).entries ∨
      p.sentAt = now ∧ p.datagram = bytes ∧ (s.enqueue ch seq bytes now).2 = .ok () := by
  unfold Session.enqueue at hp ⊢
  cases hq : queueOf ch with
  | none =>
    rw [hq] at hp
    exact Or.inl hp
  | some qj =>
    rw [hq] at hp
    dsimp only at hp ⊢
    by_cases hqi : qi = qj
    · subst hqi
      rw [Function.update_self] at hp
      unfold RetransmitQueue.push at hp ⊢
      split_ifs at hp ⊢
      · exact Or.inl hp
      · rcases List.mem_append.1 hp with hold | hnew
        · exact Or.inl hold
        · rw [List.mem_singleton.1 hnew]
          exact Or.inr ⟨rfl, rfl, rfl⟩
    · rw [Function.update_of_ne hqi] at hp
      exact Or.inl hp

/-- An entry of a queue was there before, or is new and has just been built. -/
theorem entries_packLoop (k : PackKind) (now : Instant) (bodies : List Bytes) (s : Session)
    (out : List Bytes) (hp : p ∈ ((packLoop hmac4 cfg k now bodies s out).1.retrans qi).entries) :
    p ∈ (s.retrans qi).entries ∨
      p.sentAt = now ∧ p.datagram ∈ (packLoop hmac4 cfg k now bodies s out).2.1 := by
  induction bodies generalizing s out with
  | nil => exact Or.inl hp
  | cons body bodies ih =>
    unfold packLoop at hp ⊢
    dsimp only at hp ⊢
    split at hp
    · rename_i hseal
      exact Or.inl hp
    · rename_i bytes n hseal
      have hin := @entries_enqueue { s with sendSeq := s.sendSeq + 1 } qi p k.ch s.sendSeq bytes now
      split at hp
      · rename_i s₁ e henq
        rw [henq] at hin
        rcases hin hp with hold | ⟨-, -, hok⟩
        · exact Or.inl hold
        · cases hok
      · rename_i s₁ henq
        rw [henq] at hin
        rcases ih s₁ (out ++ [bytes]) hp with hold | hnew
        · rcases hin hold with hold | ⟨htime, hbytes, -⟩
          · exact Or.inl hold
          · exact Or.inr ⟨htime, subset_packLoop k now bodies s₁ (out ++ [bytes])
              (List.mem_append_right _ (List.mem_singleton.2 hbytes))⟩
        · exact Or.inr hnew

theorem entries_pack (ch : U8) (msgId : U16) (payload : Bytes) (now : Instant)
    (hp : p ∈ ((s.pack hmac4 cfg ch msgId payload now).1.retrans qi).entries) :
    p ∈ (s.retrans qi).entries ∨
      p.sentAt = now ∧ p.datagram ∈ (s.pack hmac4 cfg ch msgId payload now).2.1 := by
  unfold Session.pack at hp ⊢
  split_ifs at hp ⊢
  · exact Or.inl hp
  · exact entries_packLoop _ now _ _ _ hp
  · exact entries_packLoop _ now _ _ _ hp

/-- An entry after `maintain_reliable` was not due, or has just been sent again. -/
theorem entries_maintainReliable (now : Instant)
    (hp : p ∈ ((s.maintainReliable now).retrans qi).entries) :
    (p ∈ (s.retrans qi).entries ∧ now - p.sentAt < s.rtt.rto) ∨
      p.sentAt = now ∧ p.datagram ∈ s.overdue now := by
  obtain ⟨e, he, heq⟩ := List.mem_map.1 hp
  split_ifs at heq with hdue
  · subst heq
    refine Or.inr ⟨rfl, ?_⟩
    have hmem : e.datagram ∈ ((s.retrans qi).retransmitDue now s.rtt.rto).2.map Prod.snd :=
      List.mem_map.2 ⟨(e.seq, e.datagram),
        List.mem_map.2 ⟨e, List.mem_filter.2 ⟨he, decide_eq_true hdue⟩, rfl⟩, rfl⟩
    unfold Session.overdue
    fin_cases qi
    · exact List.mem_append_left _ hmem
    · exact List.mem_append_right _ hmem
  · subst heq
    exact Or.inl ⟨he, not_le.1 hdue⟩

/-- A packet only takes entries away. -/
theorem entries_handlePacket (stats : Stats) (peer : SocketAddr) (header : DatagramHeader)
    (frames : List FrameRef) (now clock : Instant)
    (hp : p ∈ ((handlePacket s stats peer header frames now clock).session.retrans qi).entries) :
    p ∈ (s.retrans qi).entries := by
  cases hst : s.state with
  | Grace since =>
    rw [(handlePacket_grace stats peer header frames now clock hst).1] at hp
    exact hp
  | Active =>
    have hqueue := congrFun (congrArg SenderView.retrans
      (handlePacket_sender stats peer header frames now clock hst)) qi
    rw [show (handlePacket s stats peer header frames now clock).session.retrans qi =
      ((s.retrans qi).onAck header.ack header.ackBits now).1 from hqueue] at hp
    have hpop : p ∈ (RetransmitQueue.popAcked header.ack header.ackBits now (s.retrans qi).entries
        ((s.retrans qi).countSkip header.ack header.ackBits).1).1 := hp
    rw [RetransmitQueue.popAcked_fst] at hpop
    exact (List.dropWhile_sublist _).subset hpop

end Session

/-! ## The table -/

theorem lt_add_of_sub_lt {a b c d : ℕ} (h : a - b < c) (hd : c ≤ d) : a < b + d := by omega

section Table

variable {hmac4 : Hmac} {cfg : SessionTableConfig}

/-- The operation packs the datagram for the session `id` or sends it again, at this time. -/
def Sends (hmac4 : Hmac) (t : SessionTable cfg) (x : TableAction) (id : U64) (bytes : Bytes)
    (now : Instant) : Prop :=
  (∃ s ∈ t.sessions, s.sessId = id ∧ ∃ ch msgId payload, x = .packOutbound id ch msgId payload now ∧
      bytes ∈ (s.pack hmac4 cfg ch msgId payload now).2.1) ∨
    x = .maintainReliable now ∧ ∃ peer, (bytes, peer) ∈ (t.maintainReliable now).2

/-- An entry of a session was there before, and is not due if the operation is `maintain_reliable`,
or the operation has sent it. -/
theorem entries_act {t : SessionTable cfg} {x : TableAction} {s' : Session}
    (hs : s' ∈ (t.act hmac4 x).1.sessions) {qi : Fin 2} {p : PendingPacket}
    (hp : p ∈ (s'.retrans qi).entries) :
    (∃ s ∈ t.sessions, s.sessId = s'.sessId ∧ p ∈ (s.retrans qi).entries ∧
      ∀ now, x = .maintainReliable now → now - p.sentAt < s.rtt.rto) ∨
    Sends hmac4 t x s'.sessId p.datagram p.sentAt := by
  by_cases hx : ∃ now, x = .maintainReliable now
  · obtain ⟨now, rfl⟩ := hx
    have hmem : s' ∈ (t.maintainReliable now).1.sessions := hs
    rw [sessions_maintainReliable] at hmem
    obtain ⟨s, hold, rfl⟩ := List.mem_map.1 hmem
    rcases entries_maintainReliable now hp with ⟨hwait, hdue⟩ | ⟨rfl, hbytes⟩
    · refine Or.inl ⟨s, hold, rfl, hwait, fun now' heq => ?_⟩
      cases heq
      exact hdue
    · refine Or.inr (Or.inr ⟨rfl, s.peer, ?_⟩)
      rw [sent_maintainReliable]
      exact List.mem_flatMap.2 ⟨s, hold, List.mem_map.2 ⟨_, hbytes, rfl⟩⟩
  obtain ⟨i, c, hget⟩ := mem_sessions.1 hs
  have hslot := act_slot hmac4 t x i c
  rw [hget] at hslot
  -- the session that was in the slot
  have hkept {s : Session} (hold : (t.shards i)[c]? = some s) (hid : s.sessId = s'.sessId)
      (hmem : p ∈ (s.retrans qi).entries) :
      (∃ s ∈ t.sessions, s.sessId = s'.sessId ∧ p ∈ (s.retrans qi).entries ∧
        ∀ now, x = .maintainReliable now → now - p.sentAt < s.rtt.rto) ∨
      Sends hmac4 t x s'.sessId p.datagram p.sentAt :=
    Or.inl ⟨s, mem_sessions.2 ⟨i, c, hold⟩, hid, hmem, fun now heq => absurd ⟨now, heq⟩ hx⟩
  generalize ho : (t.shards i)[c]? = o at hslot hkept
  generalize ho' : some s' = o' at hslot
  cases hslot with
  | same => exact hkept ho'.symm rfl hp
  | opened =>
    obtain rfl := Option.some.inj ho'
    exact absurd hp List.not_mem_nil
  | packet peer random now clock stats =>
    obtain rfl := Option.some.inj ho'
    exact hkept rfl (own_handlePacket _ stats peer _ _ now clock).1.symm
      (entries_handlePacket stats peer _ _ now clock hp)
  | maintain now =>
    obtain ⟨s, hfound, rfl⟩ := Option.map_eq_some_iff.1 ho'.symm
    have hold := (Option.filter_eq_some_iff.1 hfound).1
    have hsame : ((s.maintain cfg now).retrans qi).entries = (s.retrans qi).entries ∧
        (s.maintain cfg now).sessId = s.sessId := by
      unfold Session.maintain
      split_ifs
      · exact ⟨rfl, rfl⟩
      · exact ⟨rfl, rfl⟩
    rw [hsame.1] at hp
    exact hkept hold hsame.2.symm hp
  | maintainReliable now => exact absurd ⟨now, rfl⟩ hx
  | packed ch msgId payload now _ _ s =>
    obtain rfl := Option.some.inj ho'
    have hid : (s.pack hmac4 cfg ch msgId payload now).1.sessId = s.sessId :=
      @pack_keeps hmac4 cfg (fun s' => s'.sessId = s.sessId)
        (fun _ _ _ _ hs' => hs') s ch msgId payload now rfl
    rcases entries_pack ch msgId payload now hp with hold | ⟨rfl, hbytes⟩
    · exact hkept rfl hid.symm hold
    · refine Or.inr
        (Or.inl ⟨s, mem_sessions.2 ⟨i, c, ho⟩, hid.symm, ch, msgId, payload, ?_, hbytes⟩)
      rw [hid]
  | kicked => cases ho'
  | setBudget =>
    obtain rfl := Option.some.inj ho'
    exact hkept rfl rfl hp
  | checkBudget bytes now _ _ s =>
    obtain rfl := Option.some.inj ho'
    have hsame : ((s.checkBudget bytes now).1.retrans qi).entries = (s.retrans qi).entries ∧
        (s.checkBudget bytes now).1.sessId = s.sessId := by
      unfold Session.checkBudget
      split
      · exact ⟨rfl, rfl⟩
      · dsimp only
        split_ifs
        · exact ⟨rfl, rfl⟩
        · exact ⟨rfl, rfl⟩
    rw [hsame.1] at hp
    exact hkept rfl hsame.2.symm hp
  | shutdown => cases ho'

/-- The times at which messages are packed and `maintain_reliable` is called. -/
def sendTimes (xs : List TableAction) : List Instant :=
  xs.filterMap fun
    | .packOutbound _ _ _ _ now => some now
    | .maintainReliable now => some now
    | _ => none

theorem sendTimes_of_sends {t : SessionTable cfg} {x : TableAction} {id : U64} {bytes : Bytes}
    {now : Instant} (h : Sends hmac4 t x id bytes now) : sendTimes [x] = [now] := by
  rcases h with ⟨s, -, -, ch, msgId, payload, rfl, -⟩ | ⟨rfl, -⟩
  · rfl
  · rfl

/-- Through these operations, which follow on `pre`, the entry has waited: it was in the queue
before each of them, and no call of `maintain_reliable` among them found it due. -/
def Rests (hmac4 : Hmac) (cfg : SessionTableConfig) (pre post : List TableAction) (id : U64)
    (qi : Fin 2) (p : PendingPacket) : Prop :=
  ∀ mid y rest, post = mid ++ y :: rest →
    ∃ s ∈ (after hmac4 cfg (pre ++ mid)).sessions, s.sessId = id ∧ p ∈ (s.retrans qi).entries ∧
      ∀ now, y = .maintainReliable now → now - p.sentAt < s.rtt.rto

/-- The datagram of the entry was packed, or last sent again, at the time of its entry. -/
def LastSent (hmac4 : Hmac) (cfg : SessionTableConfig) (xs : List TableAction) (id : U64)
    (qi : Fin 2) (p : PendingPacket) : Prop :=
  ∃ pre x post, xs = pre ++ x :: post ∧ Sends hmac4 (after hmac4 cfg pre) x id p.datagram p.sentAt ∧
    Rests hmac4 cfg (pre ++ [x]) post id qi p

theorem Rests.snoc {pre post : List TableAction} {x : TableAction} {id : U64} {qi : Fin 2}
    {p : PendingPacket} (h : Rests hmac4 cfg pre post id qi p) {s : Session}
    (hs : s ∈ (after hmac4 cfg (pre ++ post)).sessions) (hid : s.sessId = id)
    (hp : p ∈ (s.retrans qi).entries)
    (hdue : ∀ now, x = .maintainReliable now → now - p.sentAt < s.rtt.rto) :
    Rests hmac4 cfg pre (post ++ [x]) id qi p := by
  intro mid y rest hsplit
  rcases List.eq_nil_or_concat rest with rfl | ⟨rest, z, rfl⟩
  · obtain ⟨rfl, hlast⟩ := List.append_inj' hsplit rfl
    obtain rfl := List.singleton_injective hlast
    exact ⟨s, hs, hid, hp, hdue⟩
  · rw [List.concat_eq_append, ← List.cons_append, ← List.append_assoc] at hsplit
    exact h mid y rest (List.append_inj' hsplit rfl).1

/-- A datagram that waits was packed or last sent again at the time of its entry, and this was less
than `RTO_MAX` before every call of `maintain_reliable`. -/
theorem entry_timing (hmac4 : Hmac) (cfg : SessionTableConfig) (xs : List TableAction)
    (hclock : (sendTimes xs).Pairwise (· ≤ ·)) {s : Session}
    (hs : s ∈ (after hmac4 cfg xs).sessions) {qi : Fin 2} {p : PendingPacket}
    (hp : p ∈ (s.retrans qi).entries) :
    (∀ now, .maintainReliable now ∈ xs → now < p.sentAt + RTO_MAX) ∧
    LastSent hmac4 cfg xs s.sessId qi p := by
  induction xs using List.reverseRecOn generalizing s with
  | nil =>
    obtain ⟨i, c, hget⟩ := mem_sessions.1 hs
    exact absurd ((Std.ExtTreeMap.getElem?_empty).symm.trans hget) nofun
  | append_singleton xs x ih =>
    have hsplit : sendTimes (xs ++ [x]) = sendTimes xs ++ sendTimes [x] := List.filterMap_append
    rw [hsplit, List.pairwise_append] at hclock
    rw [after_snoc] at hs
    rcases entries_act hs hp with ⟨s₀, hs₀, hid, hp₀, hdue⟩ | hsends
    · obtain ⟨hmaint, pre, y, post, rfl, hy, hrests⟩ := ih hclock.1 hs₀ hp₀
      rw [hid] at hy hrests
      have hback : (pre ++ [y]) ++ post = pre ++ y :: post := by rw [List.append_assoc]; rfl
      refine ⟨fun now hnow => ?_, pre, y, post ++ [x], by rw [List.append_assoc]; rfl, hy,
        hrests.snoc (hback ▸ hs₀) hid hp₀ hdue⟩
      rcases List.mem_append.1 hnow with hold | hlast
      · exact hmaint now hold
      · have hwait := hdue now (List.mem_singleton.1 hlast).symm
        have hmax := s₀.rtt.rto_bounds.2
        exact lt_add_of_sub_lt hwait hmax
    · refine ⟨fun now hnow => ?_, xs, x, [], rfl, hsends, fun mid y rest h => ?_⟩
      swap
      · exact absurd h.symm (List.append_ne_nil_of_right_ne_nil _ (List.cons_ne_nil y rest))
      have hpos : 0 < RTO_MAX := by decide
      -- the maintenance was not later
      have hle : now ≤ p.sentAt := by
        rcases List.mem_append.1 hnow with hold | hlast
        · refine hclock.2.2 now (List.mem_filterMap.2 ⟨_, hold, rfl⟩) p.sentAt ?_
          rw [sendTimes_of_sends hsends]
          exact List.mem_singleton_self _
        · have hone := sendTimes_of_sends hsends
          rw [← List.mem_singleton.1 hlast] at hone
          exact (List.singleton_injective hone).le
      exact lt_add_of_le_of_pos hle hpos

theorem add_le_of_le_sub {a b c d : ℕ} (hpos : 0 < d) (hd : d ≤ c) (h : c ≤ a - b) : b + d ≤ a := by
  omega

/-- What `maintain_reliable` sends is due. -/
theorem due_of_overdue {s : Session} {now : Instant} {bytes : Bytes} (h : bytes ∈ s.overdue now) :
    ∃ qi, ∃ p ∈ (s.retrans qi).entries, p.datagram = bytes ∧ p.sentAt + RTO_MIN ≤ now := by
  have hpos : 0 < RTO_MIN := by decide
  have hqueue {qi : Fin 2}
      (hmem : bytes ∈ ((s.retrans qi).retransmitDue now s.rtt.rto).2.map Prod.snd) :
      ∃ qi, ∃ p ∈ (s.retrans qi).entries, p.datagram = bytes ∧ p.sentAt + RTO_MIN ≤ now := by
    obtain ⟨y, hy, rfl⟩ := List.mem_map.1 hmem
    obtain ⟨p, hp, rfl⟩ := List.mem_map.1 hy
    obtain ⟨hp, hdue⟩ := List.mem_filter.1 hp
    exact ⟨qi, p, hp, rfl, add_le_of_le_sub hpos s.rtt.rto_bounds.1 (of_decide_eq_true hdue)⟩
  unfold Session.overdue at h
  rcases List.mem_append.1 h with h | h
  · exact hqueue h
  · exact hqueue h

/-- **When datagrams are sent again.** In a run in which the clock does not go back, a datagram that
waits in a retransmit queue was packed or last sent again at the time of its entry, less than
`RTO_MAX` before every call of `maintain_reliable`; and what a further call sends waits in a queue,
with a time at least `RTO_MIN` before. -/
theorem retransmission_timing (hmac4 : Hmac) (cfg : SessionTableConfig) (xs : List TableAction)
    (hclock : (sendTimes xs).Pairwise (· ≤ ·)) :
    (∀ s ∈ (after hmac4 cfg xs).sessions, ∀ qi, ∀ p ∈ (s.retrans qi).entries,
      (∀ now, .maintainReliable now ∈ xs → now < p.sentAt + RTO_MAX) ∧
      LastSent hmac4 cfg xs s.sessId qi p) ∧
    ∀ now, ∀ d ∈ ((after hmac4 cfg xs).maintainReliable now).2, ∃ s ∈ (after hmac4 cfg xs).sessions,
      s.peer = d.2 ∧
      ∃ qi, ∃ p ∈ (s.retrans qi).entries, p.datagram = d.1 ∧ p.sentAt + RTO_MIN ≤ now ∧
        LastSent hmac4 cfg xs s.sessId qi p := by
  refine ⟨fun s hs qi p hp => entry_timing hmac4 cfg xs hclock hs hp, fun now d hd => ?_⟩
  rw [sent_maintainReliable] at hd
  obtain ⟨s, hs, hmem⟩ := List.mem_flatMap.1 hd
  obtain ⟨bytes, hbytes, rfl⟩ := List.mem_map.1 hmem
  obtain ⟨qi, p, hp, rfl, hdue⟩ := due_of_overdue hbytes
  exact ⟨s, hs, rfl, qi, p, hp, rfl, hdue, (entry_timing hmac4 cfg xs hclock hs hp).2⟩

/-- A client is sent a message, which it does not acknowledge for a second. -/
def unanswered : List TableAction :=
  hello ++ [.packOutbound 1 CH_RELIABLE_UNORDERED 0 [1] 0,
    .maintainReliable (Duration.fromMillis 100),
    .maintainReliable (Duration.fromMillis 300), .maintainReliable (Duration.fromMillis 400)]

/-- It was sent again after 300 milliseconds, waits after 400, and is sent again after 600. -/
theorem retransmission_timing_unanswered :
    (∃ s ∈ (after noHmac plainConfig unanswered).sessions, ∃ p ∈ (s.retrans 1).entries,
      p.sentAt = Duration.fromMillis 300 ∧ LastSent noHmac plainConfig unanswered s.sessId 1 p) ∧
    ∃ d ∈ ((after noHmac plainConfig unanswered).maintainReliable (Duration.fromMillis 600)).2,
      ∃ s ∈ (after noHmac plainConfig unanswered).sessions, s.peer = d.2 ∧
        ∃ qi, ∃ p ∈ (s.retrans qi).entries, p.datagram = d.1 ∧
          p.sentAt + RTO_MIN ≤ Duration.fromMillis 600 ∧
          LastSent noHmac plainConfig unanswered s.sessId qi p := by
  have htiming := retransmission_timing noHmac plainConfig unanswered (by decide)
  have htimes :
      (after noHmac plainConfig unanswered).sessions.flatMap (fun s => (s.retrans 1).entries.map
      PendingPacket.sentAt) = [Duration.fromMillis 300] := by
    decide +kernel
  have hsent :
      ((after noHmac plainConfig unanswered).maintainReliable (Duration.fromMillis 600)).2 ≠
        [] := by
    decide +kernel
  constructor
  · obtain ⟨s, hs, hmem⟩ :=
      List.mem_flatMap.1 (htimes ▸ List.mem_singleton_self (Duration.fromMillis 300))
    obtain ⟨p, hp, htime⟩ := List.mem_map.1 hmem
    exact ⟨s, hs, p, hp, htime, (htiming.1 s hs 1 p hp).2⟩
  · obtain ⟨d, hd⟩ := List.exists_mem_of_ne_nil _ hsent
    exact ⟨d, hd, htiming.2 _ d hd⟩

end Table

end SoupEngine
