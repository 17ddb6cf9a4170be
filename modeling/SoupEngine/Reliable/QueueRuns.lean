import SoupEngine.Reliable.Retransmit
import SoupEngine.Lib.TransitionSystem

/-!
# Runs of a retransmit queue

Datagrams are pushed, sent again when their time is up, and acknowledged, in any order. A sample of
the round trip is taken from the timer of an entry, which every retransmission sets anew:
`samples_iff`, the samples of a path are no smaller than its round trip exactly if no sample is
taken from an entry that was last sent less than a round trip before, or a nanosecond more where the
milliseconds round down. An entry that blocks the front is counted in a byte: `fast_retransmit_iff`,
the queue sends it again from the second acknowledgement on exactly if 256 of them never find the
same one.
-/

namespace SoupEngine

open TransitionSystem

inductive QueueAction
  | push (seq : U16) (datagram : Bytes) (now : Instant)
  | onAck (ack : U16) (ackBits : U32) (now : Instant)
  | retransmitDue (now : Instant) (rto : Duration)

/-- When an entry was pushed, and when it was last sent again. -/
structure Sending where
  pushed : Instant
  resent : Option Instant

/-- A queue with what its timers and counters leave out. -/
structure Watched where
  q : RetransmitQueue
  /-- The sendings of the entries. -/
  sendings : List Sending
  /-- How many calls of `on_ack` have found the front unacknowledged since it became the front. -/
  found : ℕ

/-- The acknowledgement does not confirm the front. -/
def RetransmitQueue.blocked (q : RetransmitQueue) (ack : U16) (ackBits : U32) : Bool :=
  (q.entries.head?).any fun front => !isAcked front.seq ack ackBits

namespace Watched

def new : Watched := ⟨.new, [], 0⟩

def act (s : Watched) : QueueAction → Watched
  | .push seq datagram now =>
    match s.q.push seq datagram now with
    | (q, .ok _) => { s with q, sendings := s.sendings ++ [⟨now, none⟩] }
    | (q, .error _) => { s with q }
  | .onAck ack ackBits now =>
    let r := s.q.onAck ack ackBits now
    { q := r.1
      sendings := s.sendings.drop r.2.acked.length
      found := if s.q.blocked ack ackBits = true then s.found + 1 else 0 }
  | .retransmitDue now rto =>
    { s with
      q := (s.q.retransmitDue now rto).1
      sendings := List.zipWith (fun e x => if rto ≤ now - e.sentAt
        then { x with resent := some now } else x) s.q.entries s.sendings }

/-! ## Samples of the round trip -/

/-- The entries that the acknowledgement pops, with their sendings. -/
def popped (s : Watched) (ack : U16) (ackBits : U32) : List (PendingPacket × Sending) :=
  (s.q.entries.zip s.sendings).takeWhile fun p => isAcked p.1.seq ack ackBits

/-- No entry is acknowledged earlier than `R` after it was pushed. -/
def Distant (R : Duration) (s : Watched) : QueueAction → Prop
  | .onAck ack ackBits now =>
    ∀ p ∈ s.q.entries.zip s.sendings, isAcked p.1.seq ack ackBits = true → R ≤ now - p.2.pushed
  | _ => True

/-- The sample, if there is one, is at least `R`. -/
def Sampled (R : Duration) (s : Watched) : QueueAction → Prop
  | .onAck ack ackBits now =>
    ∀ x, (s.q.onAck ack ackBits now).2.rttSample = some x → (R : ℚ) / 1000000 ≤ x
  | _ => True

/-- The last entry that is popped was last sent no less than the shortest span before that gives
`R`. -/
def Rested (R : Duration) (s : Watched) : QueueAction → Prop
  | .onAck ack ackBits now =>
    ∀ p, (s.popped ack ackBits).getLast? = some p →
      Duration.shortest R ≤ now - p.2.resent.getD p.2.pushed
  | _ => True

/-- The timer of an entry shows when it was last sent. -/
def Timed (s : Watched) : Prop :=
  List.Forall₂ (fun (e : PendingPacket) (x : Sending) => e.sentAt = x.resent.getD x.pushed)
    s.q.entries s.sendings

section

variable {s : Watched} {R : Duration}

theorem acked_popAcked (ack : U16) (bits : U32) (now : Instant) (es : List PendingPacket)
    (skip : Map U16 U8) :
    (RetransmitQueue.popAcked ack bits now es skip).2.2.1 =
      (es.takeWhile fun e => isAcked e.seq ack bits).map PendingPacket.seq := by
  induction es generalizing skip with
  | nil => rfl
  | cons e es ih =>
    unfold RetransmitQueue.popAcked
    rw [List.takeWhile_cons]
    split_ifs with h
    · dsimp only
      rw [List.map_cons, ih]
    · rfl

/-- The sample is taken from the last entry that is popped. -/
theorem sample_popAcked (ack : U16) (bits : U32) (now : Instant) (es : List PendingPacket)
    (skip : Map U16 U8) :
    (RetransmitQueue.popAcked ack bits now es skip).2.2.2 =
      ((es.takeWhile fun e => isAcked e.seq ack bits).getLast?).map fun e =>
        Duration.asMillisF64 (now - e.sentAt) := by
  induction es generalizing skip with
  | nil => rfl
  | cons e es ih =>
    unfold RetransmitQueue.popAcked
    rw [List.takeWhile_cons]
    split_ifs with h
    · dsimp only
      rw [ih, List.getLast?_cons]
      cases (es.takeWhile fun e => isAcked e.seq ack bits).getLast? <;> rfl
    · rfl

theorem timed_new : Timed new := List.Forall₂.nil

theorem Timed.zip_fst (h : Timed s) : (s.q.entries.zip s.sendings).map Prod.fst = s.q.entries :=
  List.map_fst_zip (List.Forall₂.length_eq h).le

theorem Timed.sentAt (h : Timed s) {p : PendingPacket × Sending}
    (hp : p ∈ s.q.entries.zip s.sendings) :
    p.1.sentAt = p.2.resent.getD p.2.pushed := List.forall₂_zip h hp

theorem Timed.act (h : Timed s) (a : QueueAction) : Timed (s.act a) := by
  cases a with
  | push seq datagram now =>
    unfold Watched.act RetransmitQueue.push
    dsimp only
    split_ifs with hfull
    · exact h
    · exact List.rel_append h (List.Forall₂.cons rfl List.Forall₂.nil)
  | onAck ack ackBits now =>
    have hlen : (s.q.onAck ack ackBits now).2.acked.length =
        (s.q.entries.takeWhile fun e => isAcked e.seq ack ackBits).length := by
      show (RetransmitQueue.popAcked ack ackBits now s.q.entries _).2.2.1.length = _
      rw [acked_popAcked, List.length_map]
    have hrest : (s.q.onAck ack ackBits now).1.entries =
        s.q.entries.drop (s.q.entries.takeWhile fun e => isAcked e.seq ack ackBits).length := by
      show (RetransmitQueue.popAcked ack ackBits now s.q.entries _).1 = _
      rw [RetransmitQueue.popAcked_fst]
      calc s.q.entries.dropWhile _
          = (s.q.entries.takeWhile (fun e => isAcked e.seq ack ackBits) ++
              s.q.entries.dropWhile fun e => isAcked e.seq ack ackBits).drop _ :=
                (List.drop_left' rfl).symm
        _ = _ := by rw [List.takeWhile_append_dropWhile]
    show List.Forall₂ _ (s.q.onAck ack ackBits now).1.entries (s.sendings.drop _)
    rw [hlen, hrest]
    exact List.forall₂_drop _ h
  | retransmitDue now rto =>
    have hall : ∀ (es : List PendingPacket) (xs : List Sending),
        List.Forall₂ (fun e x => e.sentAt = x.resent.getD x.pushed) es xs →
          List.Forall₂ (fun e x => e.sentAt = x.resent.getD x.pushed)
            (es.map fun e => if rto ≤ now - e.sentAt then { e with sentAt := now } else e)
            (List.zipWith (fun e x => if rto ≤ now - e.sentAt then { x with resent := some now }
              else x) es xs) := by
      intro es xs hes
      induction hes with
      | nil => exact List.Forall₂.nil
      | cons he _ ih =>
        refine List.Forall₂.cons ?_ ih
        dsimp only
        split_ifs with hdue
        · rfl
        · exact he
    exact hall _ _ h

/-- The sample is no smaller than the round trip exactly if the entry has rested. -/
theorem sampled_iff (h : Timed s) (a : QueueAction) : Sampled R s a ↔ Rested R s a := by
  cases a with
  | push seq datagram now => exact Iff.rfl
  | retransmitDue now rto => exact Iff.rfl
  | onAck ack ackBits now =>
    have hsample : (s.q.onAck ack ackBits now).2.rttSample =
        ((s.popped ack ackBits).getLast?).map fun p => Duration.asMillisF64 (now - p.1.sentAt) := by
      have hes : s.q.entries.takeWhile (fun e => isAcked e.seq ack ackBits) =
          (s.popped ack ackBits).map Prod.fst := by
        unfold popped
        conv_lhs => rw [← h.zip_fst]
        rw [List.takeWhile_map]
        rfl
      show (RetransmitQueue.popAcked ack ackBits now s.q.entries _).2.2.2 = _
      rw [sample_popAcked, hes, List.getLast?_map, Option.map_map]
      rfl
    show (∀ x, _ = some x → _) ↔ _
    rw [hsample]
    cases hlast : (s.popped ack ackBits).getLast? with
    | none => exact iff_of_true (fun x hx => nomatch hx) fun p hp => nomatch hlast.symm.trans hp
    | some p =>
      have hmem : p ∈ s.popped ack ackBits := List.mem_of_getLast? hlast
      have hzip : p ∈ s.q.entries.zip s.sendings := (List.takeWhile_sublist _).subset hmem
      have hle : (R : ℚ) / 1000000 ≤ Duration.asMillisF64 (now - p.1.sentAt) ↔
          Duration.shortest R ≤ now - p.2.resent.getD p.2.pushed := by
        rw [← h.sentAt hzip]
        exact Duration.le_asMillisF64_iff
      rw [Option.map_some]
      constructor
      · intro hx q hq
        obtain rfl := Option.some.inj (hlast.symm.trans hq)
        exact hle.1 (hx _ rfl)
      · intro hr x hx
        rw [← Option.some.inj hx]
        exact hle.2 (hr p hlast)

end

/-- **Round trips.** In a run of a queue, with any RTO, every sample is at least `R` if and only if
no sample is taken from an entry that was last sent less than the shortest span before that `f64`
turns into `R` milliseconds; for `R` below thirteen days this span is `R` or one nanosecond more. -/
theorem samples_iff (R : Duration) (xs : List QueueAction) :
    (Allowed act (Sampled R) new xs ↔ Allowed act (Rested R) new xs) ∧
      (R < 2 ^ 50 → Duration.shortest R = R ∨ Duration.shortest R = R + 1) := by
  refine ⟨?_, Duration.shortest_cases⟩
  have hrested : Allowed act (Rested R) new xs ↔ Allowed act (Sampled R) new xs :=
    allowed_congr (I := Timed) (fun _ a hs _ => hs.act a)
      (fun _ a hs => (sampled_iff hs a).symm) timed_new
  exact hrested.symm

/-- The RTO is one that `Rtt` gives. -/
def InRange : QueueAction → Prop
  | .retransmitDue _ rto => RTO_MIN ≤ rto ∧ rto ≤ RTO_MAX
  | _ => True

/-- A datagram is sent, sent again after 250 ms, and acknowledged after 300 ms. -/
def resentRun : List QueueAction :=
  [.push 1 [] 0, .retransmitDue (Duration.fromMillis 250) (Duration.fromMillis 100),
    .onAck 1 0 (Duration.fromMillis 300)]

theorem distant_resentRun : Allowed act (Distant (Duration.fromMillis 300)) new resentRun := by
  have hpopped :
      ((resentRun.take 2).foldl act new).q.entries.zip ((resentRun.take 2).foldl act new).sendings =
      [(⟨1, Duration.fromMillis 250, []⟩, ⟨0, some (Duration.fromMillis 250)⟩)] := rfl
  refine ⟨trivial, trivial, ?_, trivial⟩
  intro p hp _
  rw [show p = _ from List.mem_singleton.1 (hpopped ▸ hp)]
  decide

/-- On a path of 300 ms a datagram that is sent again after 250 ms gives a sample of 50 ms. -/
theorem sample_too_small :
    ¬ ∀ (R : Duration) (xs : List QueueAction), (∀ a ∈ xs, InRange a) →
      Allowed act (Distant R) new xs →
      Allowed act (Sampled R) new xs := by
  intro h
  have hrange : ∀ a ∈ resentRun, InRange a := by
    unfold resentRun
    simp only [List.forall_mem_cons]
    exact ⟨trivial, ⟨by decide, by decide⟩, trivial, fun _ h => absurd h List.not_mem_nil⟩
  have hsampled := (h _ resentRun hrange distant_resentRun).2.2.1
  have hsample :
      (((resentRun.take 2).foldl act new).q.onAck 1 0 (Duration.fromMillis 300)).2.rttSample =
        some 50 := by
    decide +kernel
  have hle := hsampled 50 hsample
  norm_num [Duration.fromMillis] at hle

/-! ## Fast retransmission -/

/-- The call sends the front again exactly if it is at least the second one that finds it
unacknowledged, and nothing otherwise. -/
def Prompt (s : Watched) : QueueAction → Prop
  | .onAck ack ackBits now =>
    (s.q.onAck ack ackBits now).2.fastRetransmit =
      match s.q.entries.head? with
      | none => []
      | some front => if isAcked front.seq ack ackBits = true then [] else
          if 2 ≤ s.found + 1 then [front.datagram] else []
  | _ => True

/-- The call is not the 256th that finds the front unacknowledged. -/
def Fewer (s : Watched) : QueueAction → Prop
  | .onAck ack ackBits _ => s.q.blocked ack ackBits = true → s.found + 1 < 256
  | _ => True

/-- There is a counter for the front only, which counts as a byte does. -/
structure Counted (q : RetransmitQueue) (found : ℕ) : Prop where
  front : ∀ e, q.entries.head? = some e → (q.skipCount[e.seq]?).getD 0 = BitVec.ofNat 8 found
  others : ∀ seq : U16, (∀ e, q.entries.head? = some e → e.seq ≠ seq) → q.skipCount[seq]? = none
  empty : q.entries = [] → found = 0

section

variable {q : RetransmitQueue} {found : ℕ}

/-- Popping entries makes no counters. -/
theorem skip_popAcked (ack : U16) (bits : U32) (now : Instant) {es : List PendingPacket}
    {skip : Map U16 U8} {seq : U16} (h : skip[seq]? = none) :
    (RetransmitQueue.popAcked ack bits now es skip).2.1[seq]? = none := by
  induction es generalizing skip with
  | nil => exact h
  | cons e es ih =>
    unfold RetransmitQueue.popAcked
    split_ifs
    · refine ih ?_
      rw [Std.ExtTreeMap.getElem?_erase]
      split_ifs
      · rfl
      · exact h
    · exact h

/-- The front is confirmed: it is popped with its counter, and nothing is sent. -/
theorem onAck_acked (ack : U16) (bits : U32) (now : Instant) {e : PendingPacket}
    (es : List PendingPacket) (skip : Map U16 U8) (h : isAcked e.seq ack bits = true) :
    (RetransmitQueue.onAck ⟨e :: es, skip⟩ ack bits now).2.fastRetransmit = [] ∧
      (RetransmitQueue.onAck ⟨e :: es, skip⟩ ack bits now).1.skipCount =
        (RetransmitQueue.popAcked ack bits now es (skip.erase e.seq)).2.1 := by
  have hskip : RetransmitQueue.countSkip ⟨e :: es, skip⟩ ack bits = (skip, []) := by
    unfold RetransmitQueue.countSkip
    exact if_pos h
  unfold RetransmitQueue.onAck
  rw [hskip]
  refine ⟨rfl, ?_⟩
  dsimp only
  conv_lhs => unfold RetransmitQueue.popAcked
  rw [if_pos h]

/-- The front is not confirmed: it stays, and is counted. -/
theorem onAck_blocked (ack : U16) (bits : U32) (now : Instant) {e : PendingPacket}
    (es : List PendingPacket) (skip : Map U16 U8) (h : ¬ isAcked e.seq ack bits = true) :
    (RetransmitQueue.onAck ⟨e :: es, skip⟩ ack bits now).2.fastRetransmit =
        (if 2 ≤ (skip[e.seq]?).getD 0 + 1 then [e.datagram] else []) ∧
      (RetransmitQueue.onAck ⟨e :: es, skip⟩ ack bits now).1 =
        ⟨e :: es, skip.insert e.seq ((skip[e.seq]?).getD 0 + 1)⟩ := by
  have hskip : RetransmitQueue.countSkip ⟨e :: es, skip⟩ ack bits =
      (skip.insert e.seq ((skip[e.seq]?).getD 0 + 1),
        if 2 ≤ (skip[e.seq]?).getD 0 + 1 then [e.datagram] else []) := by
    unfold RetransmitQueue.countSkip
    exact if_neg h
  have hpop (skip' : Map U16 U8) :
      RetransmitQueue.popAcked ack bits now (e :: es) skip' = (e :: es, skip', [], none) := by
    unfold RetransmitQueue.popAcked
    rw [if_neg h]
  unfold RetransmitQueue.onAck
  rw [hskip]
  dsimp only
  rw [hpop]
  exact ⟨rfl, rfl⟩

theorem blocked_cons (ack : U16) (bits : U32) (e : PendingPacket) (es : List PendingPacket)
    (skip : Map U16 U8) :
    (⟨e :: es, skip⟩ : RetransmitQueue).blocked ack bits = !isAcked e.seq ack bits := rfl

theorem counted_new : Counted .new 0 where
  front _ h := nomatch h
  others _ _ := Std.ExtTreeMap.getElem?_empty
  empty _ := rfl

/-- Without counters. -/
theorem counted_of_none (h : ∀ seq : U16, q.skipCount[seq]? = none) : Counted q 0 where
  front e _ := by rw [h e.seq]; rfl
  others seq _ := h seq
  empty _ := rfl

theorem Counted.push (h : Counted q found) (seq : U16) (datagram : Bytes) (now : Instant) :
    Counted (q.push seq datagram now).1 found := by
  obtain ⟨entries, skip⟩ := q
  unfold RetransmitQueue.push
  split_ifs with hfull
  · exact h
  cases entries with
  | nil =>
    obtain rfl : found = 0 := h.empty rfl
    exact counted_of_none fun seq' => h.others seq' fun e he => nomatch he
  | cons e es => exact ⟨h.front, h.others, fun hnil => nomatch hnil⟩

theorem Counted.retransmitDue (h : Counted q found) (now : Instant) (rto : Duration) :
    Counted (q.retransmitDue now rto).1 found := by
  obtain ⟨entries, skip⟩ := q
  cases entries with
  | nil => exact h
  | cons e es =>
    have hseq : (if rto ≤ now - e.sentAt then { e with sentAt := now } else e : PendingPacket).seq =
        e.seq := by
      split_ifs <;> rfl
    refine ⟨?_, ?_, fun hnil => nomatch hnil⟩
    · intro e' he'
      rw [← Option.some.inj he']
      dsimp only
      rw [hseq]
      exact h.front e rfl
    · intro seq' hseq'
      have hne := hseq' _ rfl
      dsimp only at hne
      rw [hseq] at hne
      refine h.others seq' fun e' he' => ?_
      rw [← Option.some.inj he']
      exact hne

theorem Counted.onAck (h : Counted q found) (ack : U16) (ackBits : U32) (now : Instant) :
    Counted (q.onAck ack ackBits now).1 (if q.blocked ack ackBits = true then found + 1
      else 0) := by
  obtain ⟨entries, skip⟩ := q
  cases entries with
  | nil => exact counted_of_none fun seq => h.others seq fun e he => nomatch he
  | cons e es =>
    rw [blocked_cons]
    have hothers : ∀ seq : U16, e.seq ≠ seq → skip[seq]? = none := by
      intro seq hne
      refine h.others seq fun e' he' => ?_
      rw [← Option.some.inj he']
      exact hne
    by_cases hacked : isAcked e.seq ack ackBits = true
    · -- the front leaves with the only counter
      rw [hacked]
      refine counted_of_none fun seq => ?_
      rw [(onAck_acked ack ackBits now es skip hacked).2]
      refine skip_popAcked ack ackBits now ?_
      rw [Std.ExtTreeMap.getElem?_erase]
      split_ifs with heq
      · rfl
      · exact hothers seq fun hs => heq (Std.LawfulEqOrd.compare_eq_iff_eq.2 hs)
    · -- the front stays, and its counter goes up
      have hstays : isAcked e.seq ack ackBits = false := Bool.eq_false_of_not_eq_true hacked
      rw [hstays, (onAck_blocked ack ackBits now es skip hacked).2]
      refine ⟨?_, ?_, fun hnil => nomatch hnil⟩
      · intro e' he'
        obtain rfl : e = e' := Option.some.inj he'
        dsimp only
        rw [Std.ExtTreeMap.getElem?_insert_self, Option.getD_some, h.front e rfl]
        exact (BitVec.ofNat_add found 1).symm
      · intro seq hseq
        have hne : e.seq ≠ seq := hseq e rfl
        dsimp only
        rw [Std.ExtTreeMap.getElem?_insert, if_neg fun hc => hne (Std.LawfulEqOrd.eq_of_compare hc)]
        exact hothers seq hne

end

variable {s : Watched}

theorem counted_act (h : Counted s.q s.found) (a : QueueAction) :
    Counted (s.act a).q (s.act a).found := by
  cases a with
  | push seq datagram now =>
    have hq : Counted (s.q.push seq datagram now).1 s.found := h.push seq datagram now
    unfold Watched.act
    dsimp only
    split
    · next heq =>
      rw [heq] at hq
      exact hq
    · next heq =>
      rw [heq] at hq
      exact hq
  | onAck ack ackBits now => exact h.onAck ack ackBits now
  | retransmitDue now rto => exact h.retransmitDue now rto

/-- As long as the byte has not wrapped, the next call is prompt exactly if it does not wrap it. -/
theorem prompt_iff (h : Counted s.q s.found) (hfound : s.found < 256) (a : QueueAction) :
    s.Prompt a ↔ s.Fewer a := by
  obtain ⟨⟨entries, skip⟩, sendings, found⟩ := s
  cases a with
  | push seq datagram now => exact Iff.rfl
  | retransmitDue now rto => exact Iff.rfl
  | onAck ack ackBits now =>
    cases entries with
    | nil => exact iff_of_true rfl fun hb => nomatch hb
    | cons e es =>
      unfold Prompt Fewer
      dsimp only [List.head?_cons]
      rw [blocked_cons]
      by_cases hacked : isAcked e.seq ack ackBits = true
      · rw [(onAck_acked ack ackBits now es skip hacked).1, if_pos hacked, hacked]
        exact iff_of_true rfl fun hb => nomatch hb
      · have hn : ((skip[e.seq]?).getD 0 + 1 : U8) = BitVec.ofNat 8 (found + 1) := by
          rw [h.front e rfl]
          exact (BitVec.ofNat_add found 1).symm
        have htwo : (2 : U8) ≤ BitVec.ofNat 8 (found + 1) ↔ 2 ≤ (found + 1) % 256 := by
          rw [BitVec.le_def, BitVec.toNat_ofNat]
          rfl
        have hstays : isAcked e.seq ack ackBits = false := Bool.eq_false_of_not_eq_true hacked
        rw [(onAck_blocked ack ackBits now es skip hacked).1, if_neg hacked, hn,
          if_congr htwo rfl rfl, hstays]
        by_cases hlt : found + 1 < 256
        · rw [Nat.mod_eq_of_lt hlt]
          exact iff_of_true rfl fun _ => hlt
        · have hwrap : found + 1 = 256 := by
            dsimp only at hfound
            omega
          rw [hwrap]
          exact iff_of_false (fun heq => nomatch heq) fun hb => Nat.lt_irrefl 256 (hb rfl)

/-- **Fast retransmission.** In a run of a queue every acknowledgement that finds the front
unacknowledged sends it again from the second one on, and not before, if and only if no front is
found unacknowledged 256 times. -/
theorem fast_retransmit_iff (xs : List QueueAction) : Allowed act Prompt new xs ↔
    Allowed act Fewer new xs := by
  have hfewer : Allowed act Fewer new xs ↔ Allowed act Prompt new xs := by
    refine allowed_congr (I := fun s => Counted s.q s.found ∧ s.found < 256) ?_ ?_
      ⟨counted_new, by decide⟩
    · rintro s a ⟨hs, hlt⟩ ha
      refine ⟨counted_act hs a, ?_⟩
      cases a with
      | push seq datagram now =>
        unfold Watched.act
        dsimp only
        split <;> exact hlt
      | retransmitDue now rto => exact hlt
      | onAck ack ackBits now =>
        show (if s.q.blocked ack ackBits = true then s.found + 1 else 0) < 256
        split_ifs with hb
        · exact ha hb
        · exact Nat.zero_lt_succ _
    · exact fun s a hs => (prompt_iff hs.1 hs.2 a).symm
  exact hfewer.symm

/-- One datagram, and acknowledgements that do not confirm it. -/
def stuckRun (n : ℕ) : List QueueAction := .push 1 [7] 0 :: List.replicate n (.onAck 0 0 0)

/-- The state of a queue with a front that stays. -/
structure Stuck (n : ℕ) (s : Watched) : Prop where
  counted : Counted s.q s.found
  found : s.found = n
  entries : s.q.entries = [⟨1, 0, [7]⟩]

theorem Stuck.blocked {n : ℕ} (h : Stuck n s) : s.q.blocked 0 0 = true := by
  unfold RetransmitQueue.blocked
  rw [h.entries]
  rfl

theorem stuck (n : ℕ) : Stuck n ((stuckRun n).foldl act new) := by
  induction n with
  | zero => exact ⟨counted_new.push 1 [7] 0, rfl, rfl⟩
  | succ n ih =>
    have hrun : (stuckRun (n + 1)).foldl act new =
        ((stuckRun n).foldl act new).act (.onAck 0 0 0) := by
      unfold stuckRun
      rw [List.replicate_succ', ← List.cons_append, List.foldl_append]
      rfl
    rw [hrun]
    generalize (stuckRun n).foldl act new = s at ih
    refine ⟨counted_act ih.counted _, ?_, ?_⟩
    · show (if s.q.blocked 0 0 = true then s.found + 1 else 0) = _
      rw [if_pos ih.blocked, ih.found]
    · obtain ⟨⟨entries, skip⟩, sendings, found⟩ := s
      obtain rfl : entries = [⟨1, 0, [7]⟩] := ih.entries
      exact congrArg RetransmitQueue.entries
        (onAck_blocked 0 0 0 (e := ⟨1, 0, [7]⟩) [] skip (by decide)).2

/-- The 256th acknowledgement that finds a front unacknowledged does not send it again. -/
theorem wrapped_counter : ¬ ∀ xs : List QueueAction, Allowed act Prompt new xs := by
  intro h
  have hs := stuck 255
  have hall := h (stuckRun 255 ++ [.onAck 0 0 0])
  have hlast : Prompt ((stuckRun 255).foldl act new) (.onAck 0 0 0) := (allowed_concat.1 hall).2
  have hfewer := (prompt_iff hs.counted (by rw [hs.found]; decide) _).1 hlast
  have hlt := hfewer hs.blocked
  rw [hs.found] at hlt
  exact Nat.lt_irrefl _ hlt

end Watched

end SoupEngine
