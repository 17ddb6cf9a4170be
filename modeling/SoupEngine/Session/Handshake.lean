import SoupEngine.Session.Grammar

/-!
# The handshake

A session is opened for the sender of a datagram that answers the challenge stored for this sender.
The challenge was stored by an earlier handshake datagram from the same address, less than the
handshake timeout before, and has opened no other session (`handshake_safety`).
-/

namespace SoupEngine

variable {cfg : SessionTableConfig} {hmac4 : Hmac} {t : SessionTable cfg}

/-- The times at which the datagrams are received. -/
def receiptTimes (xs : List TableAction) : List Instant :=
  xs.filterMap fun
    | .datagram _ _ _ now _ => some now
    | _ => none

/-- The ids of the sessions that are opened. -/
def openIds (L : List SessionEvent) : List U64 :=
  L.filterMap fun
    | .Open sessId _ _ => some sessId
    | _ => none

theorem mem_openIds {L : List SessionEvent} {id : U64} :
    id ∈ openIds L ↔ ∃ peer token, .Open id peer token ∈ L := by
  unfold openIds
  rw [List.mem_filterMap]
  constructor
  · rintro ⟨e, he, hid⟩
    cases e with
    | Open sessId peer token =>
      cases hid
      exact ⟨peer, token, he⟩
    | Close _ _ => cases hid
    | Resume _ _ => cases hid
    | Data _ _ _ _ => cases hid
  · rintro ⟨peer, token, he⟩
    exact ⟨_, he, rfl⟩

theorem openIds_append (L M : List SessionEvent) : openIds (L ++ M) = openIds L ++ openIds M :=
  List.filterMap_append

/-- Without an opening. -/
theorem openIds_eq_nil {L : List SessionEvent} (h : ∀ id peer token, .Open id peer token ∉ L) :
    openIds L = [] := by
  refine List.eq_nil_iff_forall_not_mem.2 fun id hid => ?_
  obtain ⟨peer, token, hmem⟩ := mem_openIds.1 hid
  exact h id peer token hmem

/-- The operation is a handshake datagram from `peer` that makes the table store this challenge. -/
def Stores (hmac4 : Hmac) (t : SessionTable cfg) (peer : SocketAddr) (rec : PendingHandshake)
    (x : TableAction) : Prop :=
  (∃ buf clock f, x = .datagram peer buf rec.challenge rec.created clock ∧ Greets hmac4 t buf f) ∧
    (t.fresh rec.created)[peer]? = none ∧ (t.act hmac4 x).1.pending[peer]? = some rec

/-- An opening answers a challenge that is pending for its peer, and takes the next id. -/
theorem opened_by {x : TableAction} {id : U64} {peer : SocketAddr} {token : Bytes}
    (h : .Open id peer token ∈ (t.act hmac4 x).2) :
    ∃ buf random now clock f rec, x = .datagram peer buf random now clock ∧
      Answers hmac4 t peer buf now f rec ∧ token = f.body.drop 8 ∧ id = t.nextSessId ∧
      (t.act hmac4 x).2 = [.Open t.nextSessId peer (f.body.drop 8)] ∧
      (t.act hmac4 x).1.nextSessId = t.nextSessId + 1 := by
  by_cases hinner : x.Inner
  · exact absurd h (not_open_of_inner hinner id peer token)
  cases x with
  | datagram peer' buf random now clock =>
    have hmem : .Open id peer token ∈ (t.handleDatagram hmac4 peer' buf random now clock).events :=
      h
    have hnil {events : List SessionEvent} (he : events = []) : .Open id peer token ∉ events := by
      rw [he]
      exact List.not_mem_nil
    cases handleDatagram_outcome hmac4 t peer' buf random now clock with
    | dropped events => exact absurd hmem (hnil events)
    | refused events => exact absurd hmem (hnil events)
    | challenged _ _ _ events => exact absurd hmem (hnil events)
    | opened f rec answers events _ _ _ sess =>
      rw [events] at hmem
      cases List.mem_singleton.1 hmem
      exact ⟨buf, random, now, clock, f, rec, rfl, answers, rfl, rfl, events, sess⟩
    | packet header frames s stats _ events =>
      rw [events] at hmem
      exact ((own_handlePacket s stats peer' header frames now clock).2 _ hmem).elim
  | _ => exact absurd trivial hinner

/-- A challenge that is pending after an operation was pending before, and has opened no session, or
has just been stored. -/
theorem pending_of_act {x : TableAction} {peer : SocketAddr} {rec : PendingHandshake}
    (h : (t.act hmac4 x).1.pending[peer]? = some rec) :
    (t.pending[peer]? = some rec ∧ ∀ id token, .Open id peer token ∉ (t.act hmac4 x).2) ∨
      Stores hmac4 t peer rec x := by
  by_cases hinner : x.Inner
  · rw [(act_inner hinner).1] at h
    exact Or.inl ⟨h, fun id token => not_open_of_inner hinner id peer token⟩
  cases x with
  | datagram peer' buf random now clock =>
    have hget : (t.handleDatagram hmac4 peer' buf random now clock).table.pending[peer]? =
      some rec := h
    show (_ ∧ ∀ id token, _ ∉ (t.handleDatagram hmac4 peer' buf random now clock).events) ∨ _
    have hnone {id : U64} {token : Bytes} : .Open id peer token ∉ ([] : List SessionEvent) :=
      List.not_mem_nil
    cases handleDatagram_outcome hmac4 t peer' buf random now clock with
    | dropped events _ pending =>
      rw [pending] at hget
      rw [events]
      exact Or.inl ⟨hget, fun _ _ => hnone⟩
    | refused events _ pending =>
      rw [pending] at hget
      rw [events]
      exact Or.inl ⟨(SessionTable.fresh_eq_some.1 hget).1, fun _ _ => hnone⟩
    | challenged f greets none events _ pending =>
      rw [pending, Std.ExtTreeMap.getElem?_insert] at hget
      split_ifs at hget with hpeer
      · -- the challenge of this datagram
        have hsame := Std.LawfulEqOrd.eq_of_compare hpeer
        subst hsame
        cases hget
        exact Or.inr ⟨⟨buf, clock, f, rfl, greets⟩, none, h⟩
      · rw [events]
        exact Or.inl ⟨(SessionTable.fresh_eq_some.1 hget).1, fun _ _ => hnone⟩
    | opened f rec' answers events _ pending =>
      rw [pending, Std.ExtTreeMap.getElem?_erase] at hget
      split_ifs at hget with hpeer
      rw [events]
      refine Or.inl ⟨(SessionTable.fresh_eq_some.1 hget).1, fun id token hmem => hpeer ?_⟩
      cases List.mem_singleton.1 hmem
      exact Std.ReflCmp.compare_self
    | packet header frames s stats _ events _ pending =>
      rw [pending] at hget
      rw [events]
      refine Or.inl ⟨hget, fun id token hmem => ?_⟩
      exact (own_handlePacket s stats peer' header frames now clock).2 _ hmem
  | _ => exact absurd trivial hinner

/-- An id is taken only by an opening. -/
theorem nextSessId_of_act {x : TableAction}
    (h : ∀ id peer token, .Open id peer token ∉ (t.act hmac4 x).2) :
    (t.act hmac4 x).1.nextSessId = t.nextSessId := by
  by_cases hinner : x.Inner
  · exact (act_inner hinner).2.2
  cases x with
  | datagram peer buf random now clock =>
    show (t.handleDatagram hmac4 peer buf random now clock).table.nextSessId = _
    cases handleDatagram_outcome hmac4 t peer buf random now clock with
    | dropped _ _ _ _ sess => exact sess
    | refused _ _ _ _ sess => exact sess
    | challenged _ _ _ _ _ _ _ sess => exact sess
    | opened f rec _ events =>
      have hno : .Open t.nextSessId peer (f.body.drop 8) ∉
          (t.handleDatagram hmac4 peer buf random now clock).events := h _ _ _
      rw [events] at hno
      exact absurd List.mem_cons_self hno
    | packet _ _ _ _ _ _ _ _ _ sess => exact sess
  | _ => exact absurd trivial hinner

/-! ## Runs -/

section Run

variable {xs : List TableAction}

/-- The challenge that is pending was stored for its peer at one point of the run, and no session
has been opened for this peer since then. -/
theorem stored_of_pending {peer : SocketAddr} {rec : PendingHandshake}
    (h : ((SessionTable.new : SessionTable cfg).run hmac4 xs).1.pending[peer]? = some rec) :
    ∃ pre y mid, xs = pre ++ y :: mid ∧
      Stores hmac4 ((SessionTable.new : SessionTable cfg).run hmac4 pre).1 peer rec y ∧
      ∀ id token, .Open id peer token ∉
        ((((SessionTable.new : SessionTable cfg).run hmac4 pre).1.act hmac4 y).1.run hmac4
          mid).2 := by
  induction xs using List.reverseRecOn generalizing rec with
  | nil =>
    have hnone : (SessionTable.new : SessionTable cfg).pending[peer]? = none :=
      Std.ExtTreeMap.getElem?_empty
    have hsome : (SessionTable.new : SessionTable cfg).pending[peer]? = some rec := h
    rw [hnone] at hsome
    cases hsome
  | append_singleton xs x ih =>
    rw [SessionTable.run_append_fst] at h
    rcases pending_of_act h with ⟨hold, hno⟩ | hstores
    · obtain ⟨pre, y, mid, rfl, hstores, hmid⟩ := ih hold
      refine ⟨pre, y, mid ++ [x], by rw [List.append_assoc]; rfl, hstores, fun id token hmem => ?_⟩
      rw [SessionTable.run_append] at hmem
      rcases List.mem_append.1 hmem with hmem | hmem
      · exact hmid id token hmem
      · rw [SessionTable.run_append_fst] at hno
        have hlast : .Open id peer token ∈
            (((((SessionTable.new : SessionTable cfg).run hmac4 pre).1.act hmac4 y).1.run hmac4
              mid).1.act hmac4 x).2 ++ [] := hmem
        rw [List.append_nil] at hlast
        exact hno id token hlast
    · exact ⟨xs, x, [], rfl, hstores, fun _ _ => List.not_mem_nil⟩

/-- The ids are given in order. -/
theorem openIds_run :
    openIds ((SessionTable.new : SessionTable cfg).run hmac4 xs).2 =
        (List.range (openIds ((SessionTable.new : SessionTable cfg).run hmac4 xs).2).length).map
          (fun k => BitVec.ofNat 64 (k + 1)) ∧
      ((SessionTable.new : SessionTable cfg).run hmac4 xs).1.nextSessId =
        BitVec.ofNat 64
          ((openIds ((SessionTable.new : SessionTable cfg).run hmac4 xs).2).length + 1) := by
  induction xs using List.reverseRecOn with
  | nil => exact ⟨rfl, rfl⟩
  | append_singleton xs x ih =>
    set t := ((SessionTable.new : SessionTable cfg).run hmac4 xs).1 with ht
    set L := ((SessionTable.new : SessionTable cfg).run hmac4 xs).2 with hL
    have hevents : ((SessionTable.new : SessionTable cfg).run hmac4 (xs ++ [x])).2 =
        L ++ (t.act hmac4 x).2 := by
      rw [SessionTable.run_append]
      exact congrArg _ (List.append_nil _)
    have htable : ((SessionTable.new : SessionTable cfg).run hmac4 (xs ++ [x])).1 =
        (t.act hmac4 x).1 :=
      SessionTable.run_append_fst hmac4 _ xs [x]
    rw [hevents, htable, openIds_append]
    by_cases hopen : ∃ id peer token, .Open id peer token ∈ (t.act hmac4 x).2
    · obtain ⟨id, peer, token, hmem⟩ := hopen
      obtain ⟨buf, random, now, clock, f, rec, -, -, -, -, hev, hnext⟩ := opened_by hmem
      have hone : openIds (t.act hmac4 x).2 = [t.nextSessId] := by
        rw [hev]
        rfl
      rw [hone, hnext, List.length_append, List.length_singleton, List.range_succ, List.map_append,
        ← ih.1, ih.2]
      refine ⟨rfl, ?_⟩
      exact (BitVec.ofNat_add ..).symm
    · have hnone : openIds (t.act hmac4 x).2 = [] := by
        refine openIds_eq_nil fun id peer token hmem => hopen ⟨id, peer, token, hmem⟩
      have hnext : (t.act hmac4 x).1.nextSessId = t.nextSessId :=
        nextSessId_of_act fun id peer token hmem => hopen ⟨id, peer, token, hmem⟩
      rw [hnone, List.append_nil, hnext]
      exact ih

/-- As long as they fit 64 bits, the ids are different. -/
theorem openIds_nodup
    (h : (openIds ((SessionTable.new : SessionTable cfg).run hmac4 xs).2).length < 2 ^ 64) :
    (openIds ((SessionTable.new : SessionTable cfg).run hmac4 xs).2).Nodup := by
  rw [openIds_run.1]
  refine List.nodup_range.map_on fun j hj k hk hjk => ?_
  have hj' := List.mem_range.1 hj
  have hk' := List.mem_range.1 hk
  have hnat := congrArg BitVec.toNat hjk
  rw [BitVec.toNat_ofNat, BitVec.toNat_ofNat, Nat.mod_eq_of_lt (by omega),
    Nat.mod_eq_of_lt (by omega)] at hnat
  omega

end Run

/-- **Handshake safety.** Datagrams arrive at times that do not decrease, among whatever else is
done to the table, and fewer than `2 ^ 64` sessions are opened. A session is opened for `peer` by a
handshake datagram from `peer` whose first frame begins with a challenge that an earlier handshake
datagram from `peer` has made the table store, less than the handshake timeout before, and since
then no other session was opened for `peer`. The id of the session is new. -/
theorem handshake_safety {xs before after : List TableAction} {x : TableAction} {id : U64}
    {peer : SocketAddr} {token : Bytes} (hxs : xs = before ++ x :: after)
    (hnow : (receiptTimes xs).Pairwise (· ≤ ·))
    (hfew : (openIds ((SessionTable.new : SessionTable cfg).run hmac4 xs).2).length < 2 ^ 64)
    (hopen : .Open id peer
      token ∈ (((SessionTable.new : SessionTable cfg).run hmac4 before).1.act hmac4 x).2) :
    (∃ buf random now clock f rec, x = .datagram peer buf random now clock ∧
      Greets hmac4 ((SessionTable.new : SessionTable cfg).run hmac4 before).1 buf f ∧
      8 ≤ f.body.length ∧ f.body.take 8 = rec.challenge.toList ∧ token = f.body.drop 8 ∧
      rec.created ≤ now ∧ now - rec.created < cfg.handshakeTimeout ∧
      ∃ pre y mid, before = pre ++ y :: mid ∧
        Stores hmac4 ((SessionTable.new : SessionTable cfg).run hmac4 pre).1 peer rec y ∧
        ∀ id' token', .Open id' peer token' ∉
          ((((SessionTable.new : SessionTable cfg).run hmac4 pre).1.act hmac4 y).1.run hmac4
            mid).2) ∧
      ∀ peer' token',
      .Open id peer' token' ∉ ((SessionTable.new : SessionTable cfg).run hmac4 before).2 := by
  obtain ⟨buf, random, now, clock, f, rec, rfl, answers, rfl, rfl, hev, -⟩ := opened_by hopen
  obtain ⟨pre, y, mid, hbefore, hstores, hmid⟩ := stored_of_pending answers.pending
  refine ⟨⟨buf, random, now, clock, f, rec, rfl, answers.greets, answers.length, answers.challenge,
    rfl, ?_, answers.fresh, pre, y, mid, hbefore, hstores, hmid⟩, fun peer' token' hmem => ?_⟩
  · -- the challenge was stored at an earlier time of the run
    obtain ⟨⟨buf', clock', f', hy, -⟩, -⟩ := hstores
    have hearly : rec.created ∈ receiptTimes before := by
      rw [hbefore, hy]
      refine List.mem_filterMap.2 ⟨_, List.mem_append_right _ List.mem_cons_self, rfl⟩
    have hlate : now ∈ receiptTimes (.datagram peer buf random now clock :: after) :=
      List.mem_filterMap.2 ⟨_, List.mem_cons_self, rfl⟩
    have hsplit : receiptTimes xs =
        receiptTimes before ++ receiptTimes (.datagram peer buf random now clock :: after) := by
      rw [hxs]
      exact List.filterMap_append
    rw [hsplit] at hnow
    exact (List.pairwise_append.1 hnow).2.2 _ hearly _ hlate
  · have hnodup := openIds_nodup hfew
    rw [hxs, SessionTable.run_append, openIds_append] at hnodup
    have hnew : ((SessionTable.new : SessionTable cfg).run hmac4 before).1.nextSessId ∈
        openIds ((((SessionTable.new : SessionTable cfg).run hmac4 before).1.run hmac4
          (.datagram peer buf random now clock :: after)).2) :=
      mem_openIds.2 ⟨peer, _, List.mem_append_left _ hopen⟩
    exact (List.nodup_append.1 hnodup).2.2 _ (mem_openIds.2 ⟨peer', token', hmem⟩) _ hnew rfl

/-- The first datagram of a client makes the table store the challenge that the second one
answers. -/
theorem handshake_safety_hello : ∃ rec : PendingHandshake,
    Stores noHmac (SessionTable.new : SessionTable plainConfig) (.V4 0 0) rec
      (hello.head (List.cons_ne_nil _ _)) := by
  have hsplit : hello = [hello.head (List.cons_ne_nil _ _)] ++
      hello.getLast (List.cons_ne_nil _ _) :: [] :=
    rfl
  have hopen : .Open 1 (.V4 0 0) [] ∈ ((plainRun [hello.head (List.cons_ne_nil _ _)]).1.act noHmac
      (hello.getLast (List.cons_ne_nil _ _))).2 := by
    decide +kernel
  obtain ⟨⟨buf, random, now, clock, f, rec, -, -, -, -, -, -, -, pre, y, mid, hbefore, hstores, -⟩,
      -⟩ :=
    handshake_safety hsplit (by decide +kernel) (by decide +kernel) hopen
  obtain ⟨rfl, hy, -⟩ : pre = [] ∧ y = hello.head (List.cons_ne_nil _ _) ∧ mid = [] := by
    cases pre with
    | nil =>
      obtain ⟨hy, hmid⟩ := List.cons.inj hbefore
      exact ⟨rfl, hy.symm, hmid.symm⟩
    | cons z pre =>
      have hlen := congrArg List.length hbefore
      simp at hlen
  subst hy
  exact ⟨rec, hstores⟩

end SoupEngine
