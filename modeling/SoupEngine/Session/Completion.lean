import SoupEngine.Protocol.Codec
import SoupEngine.Session.Amplification
import SoupEngine.Session.ConnIds
import SoupEngine.Session.Handshake

/-!
# The handshake goes through

A client whose request is challenged gets its session with the answer, if this comes within the
handshake timeout. What others send does not disturb it, nor do wrong answers under its own address
(`handshake_completes`). The pending challenges take no more room than there were addresses that
have greeted within the timeout (`pending_bounded`).
-/

namespace SoupEngine

open SessionTable

variable {cfg : SessionTableConfig} {hmac4 : Hmac} {t : SessionTable cfg}

/-- The first frame of a handshake datagram. -/
def greetingOf (buf : Bytes) : Option FrameRef :=
  match decode buf with
  | .ok (header, frames) => if header.flags &&& FLAG_HANDSHAKE ≠ 0 then frames.head? else none
  | .error _ => none

theorem greetingOf_eq_some {buf : Bytes} {f : FrameRef} : greetingOf buf = some f ↔
    ∃ header frames, decode buf = .ok (header, frames) ∧ header.flags &&& FLAG_HANDSHAKE ≠ 0 ∧
      frames.head? = some f := by
  unfold greetingOf
  cases decode buf with
  | error e =>
    constructor
    · intro h
      cases h
    · rintro ⟨header, frames, h, -⟩
      cases h
  | ok d =>
    dsimp only
    constructor
    · intro h
      split_ifs at h with hflag
      exact ⟨d.1, d.2, rfl, hflag, h⟩
    · rintro ⟨header, frames, h, hflag, hhead⟩
      cases h
      rw [if_pos hflag]
      exact hhead

/-- A handshake datagram is read as it is. -/
theorem verifyHmac_of_handshake {buf : Bytes} (h : ¬ NoHandshake buf) :
    t.verifyHmac hmac4 buf = .NoHmac := by
  have hflags : ∀ flags : U8, flags &&& FLAG_HANDSHAKE ≠ 0 →
      flags &&& (FLAG_HANDSHAKE ||| FLAG_HMAC) ≠ FLAG_HMAC := by
    decide +kernel
  unfold SessionTable.verifyHmac
  rw [if_pos (hflags _ h)]
  exact ite_self _

theorem greets_iff {buf : Bytes} {f : FrameRef} : Greets hmac4 t buf f ↔
    greetingOf buf = some f := by
  rw [greetingOf_eq_some]
  unfold Greets SessionTable.reads
  constructor
  · rintro ⟨header, frames, hreads, hflag, hhead⟩
    refine ⟨header, frames, ?_, hflag, hhead⟩
    cases hmac : t.verifyHmac hmac4 buf with
    | Bad =>
      rw [hmac] at hreads
      cases hreads
    | NoHmac =>
      rw [hmac] at hreads
      exact decode_of_toOption hreads
    | Ok data =>
      -- what carries an HMAC is no handshake
      rw [hmac] at hreads
      have hplain := (verifyHmac_ok hmac).1
      obtain ⟨v, hv, hlocal⟩ := @verifyHmac_local hmac4 buf cfg (t.get (connIdOf buf))
      obtain ⟨rfl, hlen⟩ := hlocal data ((hv t rfl).symm.trans hmac)
      have hH : HEADER_LEN = 16 := rfl
      have hM : HMAC_LEN = 4 := rfl
      rw [(decode_header (decode_of_toOption hreads)).2.1, slice_take buf (by omega)] at hflag
      exact absurd hplain hflag
  · rintro ⟨header, frames, hdec, hflag, hhead⟩
    refine ⟨header, frames, ?_, hflag, hhead⟩
    rw [verifyHmac_of_handshake, hdec]
    · rfl
    · unfold NoHandshake
      rw [← (decode_header hdec).2.1]
      exact hflag

/-! ## A client is not disturbed -/

/-- The operation comes before the timeout of a challenge that was stored for `peer` at `created`,
and does not answer it. -/
def Undisturbing (cfg : SessionTableConfig) (peer : SocketAddr) (rec : PendingHandshake) :
    TableAction → Prop
  | .datagram other buf _ now _ => now - rec.created < cfg.handshakeTimeout ∧
      (other = peer → ∀ f, greetingOf buf = some f → f.body.take 8 ≠ rec.challenge.toList)
  | _ => True

/-- The challenge stays. -/
theorem pending_of_undisturbing {peer : SocketAddr} {rec : PendingHandshake} {x : TableAction}
    (h : t.pending[peer]? = some rec) (hx : Undisturbing cfg peer rec x) :
    (t.act hmac4 x).1.pending[peer]? = some rec := by
  by_cases hinner : x.Inner
  · rw [(act_inner hinner).1]
    exact h
  cases x with
  | datagram other buf random now clock =>
    obtain ⟨htime, hanswer⟩ := hx
    have hfresh : (t.fresh now)[peer]? = some rec := fresh_eq_some.2 ⟨h, htime⟩
    show (t.handleDatagram hmac4 other buf random now clock).table.pending[peer]? = some rec
    cases handleDatagram_outcome hmac4 t other buf random now clock with
    | dropped _ _ pending =>
      rw [pending]
      exact h
    | refused _ _ pending =>
      rw [pending]
      exact hfresh
    | challenged f greets none _ _ pending =>
      rw [pending, Map.getElem?_insert, if_neg]
      · exact hfresh
      · rintro rfl
        rw [hfresh] at none
        cases none
    | opened f rec' answers _ _ pending =>
      rw [pending, Map.getElem?_erase, if_neg]
      · exact hfresh
      · rintro rfl
        have hrec := answers.pending
        rw [h] at hrec
        cases hrec
        exact hanswer rfl f (greets_iff.1 answers.greets) answers.challenge
    | packet _ _ _ _ _ _ _ pending =>
      rw [pending]
      exact h
  | _ => exact absurd trivial hinner

theorem pending_of_run {peer : SocketAddr} {rec : PendingHandshake} {xs : List TableAction}
    (h : t.pending[peer]? = some rec) (hxs : ∀ x ∈ xs, Undisturbing cfg peer rec x) :
    (t.run hmac4 xs).1.pending[peer]? = some rec := by
  induction xs generalizing t with
  | nil => exact h
  | cons x xs ih =>
    rw [List.forall_mem_cons] at hxs
    exact ih (pending_of_undisturbing h hxs.1) hxs.2

/-- The answers of the handshake can be read. -/
theorem handshakeReply_ok (connId : U32) (random : Vector U8 8) : ∃ out n,
    handshakeReply connId random.toList = (out, .ok n) ∧ out.length = 28 ∧
      decode out = .ok (⟨VERSION, FLAG_HANDSHAKE, connId, 0, 0, 0⟩, [⟨0, 0, random.toList⟩]) := by
  have hvalid : ∀ f ∈ [(⟨0, 0, random.toList⟩ : FrameRef)], f.Valid := by
    intro f hf
    rw [List.mem_singleton.1 hf]
    exact ⟨show (0 : U8) ≤ 3 by decide, show (0 : U16) ≤ 0x0FFF by decide⟩
  have hfits : HEADER_LEN + ([(⟨0, 0, random.toList⟩ : FrameRef)].flatMap frameBytes).length ≤
      MTU := by
    have hM : MTU = 1200 := rfl
    have hH : HEADER_LEN = 16 := rfl
    rw [List.flatMap_singleton, length_frameBytes, Vector.length_toList]
    omega
  obtain ⟨n, hn⟩ := encode_ok (h := ⟨VERSION, FLAG_HANDSHAKE, connId, 0, 0, 0⟩) [] rfl hvalid hfits
  refine ⟨_, n, hn, ?_, decode_encode hn⟩
  rw [length_handshakeReply hn, Vector.length_toList]
  rfl

/-- A greeting that is long enough is answered with the challenge. -/
theorem challenged_sent {peer : SocketAddr} {buf : Bytes} {challenge : Vector U8 8}
    {now clock : Instant} {f : FrameRef} (hf : greetingOf buf = some f) (hlong : 8 ≤ f.body.length)
    (hnone : (t.fresh now)[peer]? = none) :
    (t.handleDatagram hmac4 peer buf challenge now clock).events = [] ∧
      ∃ out, (t.handleDatagram hmac4 peer buf challenge now clock).sent = [(out, peer)] ∧
        decode out = .ok (⟨VERSION, FLAG_HANDSHAKE, 0, 0, 0, 0⟩, [⟨0, 0, challenge.toList⟩]) := by
  obtain ⟨header, frames, hreads, hflag, hhead⟩ := (@greets_iff _ hmac4 t _ _).2 hf
  obtain ⟨data, hdec, heq⟩ := handleDatagram_of_reads hmac4 t peer buf challenge now clock hreads
  obtain ⟨out, n, hreply, hlen, hout⟩ := handshakeReply_ok 0 challenge
  have hfits : out.length ≤ bufLenHint frames := by
    have hle := le_bufLenHint hhead
    have hH : HEADER_LEN = 16 := rfl
    omega
  unfold SessionTable.fresh at hnone
  rw [heq]
  unfold SessionTable.handlePlain
  rw [hdec]
  dsimp only
  rw [if_pos hflag]
  unfold SessionTable.handleHandshake
  rw [hhead]
  dsimp only
  rw [hnone]
  dsimp only
  rw [hreply]
  dsimp only
  rw [if_pos hfits]
  exact ⟨rfl, out, rfl, hout⟩

/-- **The handshake goes through.** A request from an address for which no challenge is pending is
answered with a challenge. After whatever happens within the handshake timeout, except that somebody
else guesses the challenge, the answer to it opens a session, and the confirmation tells the client
its connection id and its secret. -/
theorem handshake_completes (hmac4 : Hmac) (cfg : SessionTableConfig) (pre mid : List TableAction)
    (peer : SocketAddr) (challenge secret : Vector U8 8) (request response token : Bytes)
    (t₀ c₀ t₁ c₁ : Instant) (f₀ f₁ : FrameRef) (hrequest : greetingOf request = some f₀)
    (hlong : 8 ≤ f₀.body.length) (hnone : ((after hmac4 cfg pre).fresh t₀)[peer]? = none)
    (hmid : ∀ x ∈ mid, Undisturbing cfg peer ⟨challenge, t₀⟩ x)
    (hresponse : greetingOf response = some f₁) (hanswer : f₁.body = challenge.toList ++ token)
    (htime : t₁ - t₀ < cfg.handshakeTimeout) :
    let asked := (after hmac4 cfg pre).handleDatagram hmac4 peer request challenge t₀ c₀
    let answered := (asked.table.run hmac4 mid).1.handleDatagram hmac4 peer response secret t₁ c₁
    (∃ out, asked.events = [] ∧ asked.sent = [(out, peer)] ∧
      decode out = .ok (⟨VERSION, FLAG_HANDSHAKE, 0, 0, 0, 0⟩, [⟨0, 0, challenge.toList⟩])) ∧
    ∃ out s, answered.events = [.Open s.sessId peer token] ∧ answered.sent = [(out, peer)] ∧
      decode out = .ok (⟨VERSION, FLAG_HANDSHAKE, s.connId, 0, 0, 0⟩, [⟨0, 0, leBytes s.secret⟩]) ∧
      answered.table.get s.connId = some s ∧ s.state = .Active ∧ s.peer = peer ∧ s.token = token ∧
      leBytes s.secret = secret.toList := by
  dsimp only
  set asked := (after hmac4 cfg pre).handleDatagram hmac4 peer request challenge t₀ c₀ with hasked
  obtain ⟨hevents, out₀, hsent, hout₀⟩ := @challenged_sent _ hmac4 _ _ _ challenge _ c₀ _
    hrequest hlong hnone
  refine ⟨⟨out₀, hevents, hsent, hout₀⟩, ?_⟩
  -- the challenge is still there when the answer comes
  have hstored : asked.table.pending[peer]? = some ⟨challenge, t₀⟩ := by
    rw [hasked, ((greets_iff.2 hrequest).challenged challenge c₀ hnone).1,
      Std.ExtTreeMap.getElem?_insert_self]
  have hpending := @pending_of_run _ hmac4 _ _ _ _ hstored hmid
  set t := (asked.table.run hmac4 mid).1 with ht
  have hanswers : Answers hmac4 t peer response t₁ f₁ ⟨challenge, t₀⟩ := by
    refine ⟨greets_iff.2 hresponse, hpending, htime, ?_, ?_⟩
    · rw [hanswer, List.length_append, Vector.length_toList]
      exact Nat.le_add_right _ _
    · rw [hanswer]
      exact List.take_left' Vector.length_toList
  have htoken : f₁.body.drop 8 = token := by
    rw [hanswer]
    exact List.drop_left' Vector.length_toList
  obtain ⟨stats, heq⟩ := hanswers.handled secret c₁
  have hsecret : leBytes (fromLe 64 secret.toList) = secret.toList :=
    leBytes_fromLe (by decide) Vector.length_toList
  obtain ⟨out, n, hreply, -, hout⟩ := handshakeReply_ok (t.nextConnId.setWidth 32) secret
  refine ⟨out, t.opened peer f₁ secret t₁, ?_, ?_, ?_, ?_, rfl, rfl, htoken, hsecret⟩
  · rw [heq, ← htoken]
    rfl
  · rw [heq]
    unfold SessionTable.openSession
    dsimp only
    rw [hreply]
  · rw [hout, ← hsecret]
    rfl
  · have hshards := hanswers.outcome secret c₁
    unfold SessionTable.get
    rw [hshards]
    exact get_set t _ _

/-- Somebody else greets, and somebody under the address of the client answers wrongly. -/
theorem handshake_completes_disturbed :
    ∃ (answered : Handled plainConfig) (out : Bytes) (s : Session),
    answered.events = [.Open s.sessId (.V4 0 0) [1, 2]] ∧ answered.sent = [(out, .V4 0 0)] ∧
      decode out = .ok (⟨VERSION, FLAG_HANDSHAKE, s.connId, 0, 0, 0⟩, [⟨0, 0, leBytes s.secret⟩]) ∧
      answered.table.get s.connId = some s ∧ leBytes s.secret = List.replicate 8 9 := by
  have hother : Undisturbing plainConfig (.V4 0 0) ⟨Vector.replicate 8 7, 0⟩
      (.datagram (.V4 1 0) (greeting (List.replicate 8 0)) (Vector.replicate 8 3) 5 5) :=
    ⟨by decide, fun hpeer => absurd hpeer (by decide)⟩
  have hwrong : Undisturbing plainConfig (.V4 0 0) ⟨Vector.replicate 8 7, 0⟩
      (.datagram (.V4 0 0) (greeting (List.replicate 8 6)) (Vector.replicate 8 3) 5 5) := by
    refine ⟨by decide, fun _ f hf => ?_⟩
    have hbody : greetingOf (greeting (List.replicate 8 6)) = some ⟨0, 0, List.replicate 8 6⟩ := by
      decide +kernel
    rw [hbody] at hf
    cases hf
    decide
  obtain ⟨-, out, s, hevents, hsent, hout, hget, -, -, -, hsecret⟩ :=
    handshake_completes noHmac plainConfig [] [_, _] (.V4 0 0) (Vector.replicate 8 7)
      (Vector.replicate 8 9) (greeting (List.replicate 8 0))
        (greeting (List.replicate 8 7 ++ [1, 2])) [1, 2] 0 0 10 10
      ⟨0, 0, List.replicate 8 0⟩ ⟨0, 0, List.replicate 8 7 ++ [1, 2]⟩ (by decide +kernel)
        (by decide)
      (by decide +kernel) (List.forall_mem_cons.2 ⟨hother, List.forall_mem_singleton.2 hwrong⟩)
      (by decide +kernel) (by decide) (by decide)
  exact ⟨_, out, s, hevents, hsent, hout, hget, hsecret⟩

/-! ## What the challenges take up -/

/-- Who has greeted, and when. -/
def greetings (xs : List TableAction) : List (SocketAddr × Instant) :=
  xs.filterMap fun
    | .datagram peer buf _ now _ => (greetingOf buf).map fun _ => (peer, now)
    | _ => none

/-- Less than the timeout before the last greeting. -/
def Recent (cfg : SessionTableConfig) (xs : List TableAction) (now : Instant) : Prop :=
  ∀ last ∈ (greetings xs).getLast?, last.2 - now < cfg.handshakeTimeout ∨ now = last.2

instance (cfg : SessionTableConfig) (xs : List TableAction) (now : Instant) :
    Decidable (Recent cfg xs now) := by
  unfold Recent
  infer_instance

/-- The addresses that have greeted recently. -/
def recentPeers (cfg : SessionTableConfig) (xs : List TableAction) : Finset SocketAddr :=
  (((greetings xs).filter fun g => Recent cfg xs g.2).map Prod.fst).toFinset

theorem greetings_append (xs ys : List TableAction) :
    greetings (xs ++ ys) = greetings xs ++ greetings ys :=
  List.filterMap_append

theorem greetings_datagram (peer : SocketAddr) (buf : Bytes) (random : Vector U8 8)
    (now clock : Instant) :
    greetings [.datagram peer buf random now clock] =
      ((greetingOf buf).map fun _ => (peer, now)).toList := by
  unfold greetings
  rw [List.filterMap_cons]
  dsimp only
  cases greetingOf buf with
  | none => rfl
  | some f => rfl

/-- A greeting takes the expired challenges away. -/
theorem pending_of_greeting {peer : SocketAddr} {buf : Bytes} {random : Vector U8 8}
    {now clock : Instant} {f : FrameRef} (hf : greetingOf buf = some f) :
    (t.handleDatagram hmac4 peer buf random now clock).table.pending =
        (t.fresh now).insert peer ⟨random, now⟩ ∨
      (t.handleDatagram hmac4 peer buf random now clock).table.pending = t.fresh now ∨
      (t.handleDatagram hmac4 peer buf random now clock).table.pending =
        (t.fresh now).erase peer := by
  obtain ⟨header, frames, hreads, hflag, hhead⟩ := (@greets_iff _ hmac4 t _ _).2 hf
  obtain ⟨data, hdec, heq⟩ := handleDatagram_of_reads hmac4 t peer buf random now clock hreads
  rw [heq]
  unfold SessionTable.handlePlain
  rw [hdec]
  dsimp only
  rw [if_pos hflag]
  unfold SessionTable.handleHandshake
  rw [hhead]
  dsimp only
  split
  · split_ifs
    · exact Or.inr (Or.inl rfl)
    · exact Or.inr (Or.inl rfl)
    · exact Or.inr (Or.inr rfl)
  · exact Or.inl rfl

/-- A challenge that is pending after a greeting has not expired, or has just been stored. -/
theorem fresh_of_greeting {peer other : SocketAddr} {rec : PendingHandshake} {buf : Bytes}
    {random : Vector U8 8} {now clock : Instant} {f : FrameRef} (hf : greetingOf buf = some f)
    (h : (t.handleDatagram hmac4 other buf random now clock).table.pending[peer]? = some rec) :
    (t.pending[peer]? = some rec ∧ now - rec.created < cfg.handshakeTimeout) ∨
      (peer = other ∧ rec.created = now) := by
  rcases @pending_of_greeting _ hmac4 t other _ random now clock _ hf with hp | hp | hp
  · rw [hp, Map.getElem?_insert] at h
    split_ifs at h with hpeer
    · cases h
      exact Or.inr ⟨hpeer.symm, rfl⟩
    · exact Or.inl (fresh_eq_some.1 h)
  · rw [hp] at h
    exact Or.inl (fresh_eq_some.1 h)
  · rw [hp, Map.getElem?_erase] at h
    split_ifs at h
    exact Or.inl (fresh_eq_some.1 h)

/-- What is no greeting adds no challenge. -/
theorem pending_of_not_greeting {peer : SocketAddr} {rec : PendingHandshake} {x : TableAction}
    (hx : greetings [x] = []) (h : (t.act hmac4 x).1.pending[peer]? = some rec) :
    t.pending[peer]? = some rec := by
  rcases pending_of_act h with ⟨hold, -⟩ | ⟨⟨buf, clock, f, rfl, hgreets⟩, -⟩
  · exact hold
  · rw [greetings_datagram, greets_iff.1 hgreets] at hx
    cases hx

/-- Every pending challenge was asked for recently. -/
theorem recent_of_pending (hmac4 : Hmac) (cfg : SessionTableConfig) (xs : List TableAction)
    {peer : SocketAddr} {rec : PendingHandshake}
    (h : (after hmac4 cfg xs).pending[peer]? = some rec) :
    (peer, rec.created) ∈ greetings xs ∧ Recent cfg xs rec.created := by
  induction xs using List.reverseRecOn generalizing rec with
  | nil =>
    have hnone : (SessionTable.new : SessionTable cfg).pending[peer]? = none :=
      Std.ExtTreeMap.getElem?_empty
    exact absurd (hnone.symm.trans h) nofun
  | append_singleton xs x ih =>
    rw [after_snoc] at h
    by_cases hx : greetings [x] = []
    · obtain ⟨hmem, hrecent⟩ := ih (pending_of_not_greeting hx h)
      unfold Recent at hrecent ⊢
      rw [greetings_append, hx, List.append_nil]
      exact ⟨hmem, hrecent⟩
    · cases x with
      | datagram other buf random now clock =>
        cases hf : greetingOf buf with
        | none =>
          refine absurd ?_ hx
          rw [greetings_datagram, hf]
          rfl
        | some f =>
          have hone : greetings [.datagram other buf random now clock] = [(other, now)] := by
            rw [greetings_datagram, hf]
            rfl
          unfold Recent
          rw [greetings_append, hone, List.getLast?_concat]
          rcases fresh_of_greeting hf h with ⟨hold, htime⟩ | ⟨rfl, hnow⟩
          · refine ⟨List.mem_append_left _ (ih hold).1, fun last hlast => ?_⟩
            cases hlast
            exact Or.inl htime
          · refine ⟨List.mem_append_right _ (by rw [hnow]; exact List.mem_singleton_self _),
              fun last hlast => ?_⟩
            cases hlast
            exact Or.inr hnow
      | _ => exact absurd rfl hx

/-- **The pending challenges are bounded.** After every run there are no more of them than addresses
that have greeted less than the handshake timeout before the last greeting. -/
theorem pending_bounded (hmac4 : Hmac) (cfg : SessionTableConfig) (xs : List TableAction) :
    (after hmac4 cfg xs).pending.size ≤ (recentPeers cfg xs).card := by
  set m := (after hmac4 cfg xs).pending with hm
  have hnodup : m.keys.Nodup := Std.ExtTreeMap.nodup_keys
  rw [← Std.ExtTreeMap.length_keys, ← List.toFinset_card_of_nodup hnodup]
  refine Finset.card_le_card fun peer hpeer => ?_
  rw [List.mem_toFinset, Std.ExtTreeMap.mem_keys, Std.ExtTreeMap.mem_iff_isSome_getElem?] at hpeer
  obtain ⟨rec, hrec⟩ := Option.isSome_iff_exists.1 hpeer
  obtain ⟨hmem, hrecent⟩ := recent_of_pending hmac4 cfg xs hrec
  unfold recentPeers
  rw [List.mem_toFinset]
  exact List.mem_map.2 ⟨(peer, rec.created), List.mem_filter.2 ⟨hmem, decide_eq_true hrecent⟩, rfl⟩

end SoupEngine
