import SoupEngine.Engine.Peers
import SoupEngine.Lib.ExactRead

/-!
# The byte streams of TCP clients

A datagram goes over TCP behind its length. The read loop of a connection reads a length and then so
many bytes; what it hands over depends on the bytes that arrive and not on how they are cut
(`handed_eq`). The write task of a connection writes the datagrams of its channel, each in as many
pieces as the socket asks for. A client that reads as the engine does gets datagrams that were sent
to its peer, in order, none twice and none changed (`client_reads`).
-/

namespace SoupEngine

open ExactRead

namespace TcpStream

/-- A length that does not end the read loop. -/
def Legal (len : ℕ) : Prop := ¬ (len = 0 ∨ 65535 < len)

instance (len : ℕ) : Decidable (Legal len) := inferInstanceAs (Decidable (¬ _))

/-- What the write task writes for a datagram. -/
def out (bytes : Bytes) : Bytes := leBytes (BitVec.ofNat 32 bytes.length) ++ bytes

/-- The read loop of `conn_loop`, in at most so many rounds: what it hands to the handler. -/
def readLoop : ℕ → List Bytes → List Bytes
  | 0, _ => []
  | rounds + 1, reads =>
    match readExact 4 reads with
    | none => []
    | some (lenBuf, reads) =>
      if (fromLe 32 lenBuf).toNat = 0 ∨ 65535 < (fromLe 32 lenBuf).toNat then []
      else
        match readExact (fromLe 32 lenBuf).toNat reads with
        | none => []
        | some (buf, reads) => buf :: readLoop rounds reads

/-- The read loop up to its end; a round takes at least a byte. -/
def handed (reads : List Bytes) : List Bytes := readLoop (reads.flatten.length + 1) reads

/-- The datagrams that are whole in the first `n` bytes of the stream. -/
def whole : List Bytes → ℕ → List Bytes
  | [], _ => []
  | d :: ds, n => if 4 + d.length ≤ n then d :: whole ds (n - (4 + d.length)) else []

/-! ## Reading -/

@[simp] theorem length_out (d : Bytes) : (out d).length = 4 + d.length := by
  unfold out
  rw [List.length_append, length_leBytes]

theorem take_out (d rest : Bytes) :
    (out d ++ rest).take 4 = leBytes (BitVec.ofNat 32 d.length) := by
  unfold out
  rw [List.append_assoc]
  exact List.take_left' (length_leBytes _)

theorem drop_out (d rest : Bytes) : (out d ++ rest).drop 4 = d ++ rest := by
  unfold out
  rw [List.append_assoc]
  exact List.drop_left' (length_leBytes _)

theorem toNat_lenBuf {d : Bytes} (h : d.length < 2 ^ 32) :
    (fromLe 32 (leBytes (BitVec.ofNat 32 d.length))).toNat = d.length := by
  rw [fromLe_leBytes ⟨4, rfl⟩, BitVec.toNat_ofNat]
  exact Nat.mod_eq_of_lt h

theorem isPrefix_whole (ds : List Bytes) (n : ℕ) : whole ds n <+: ds := by
  induction ds generalizing n with
  | nil => exact List.nil_prefix
  | cons d ds ih =>
    unfold whole
    split_ifs
    · exact (List.prefix_cons_inj d).2 (ih _)
    · exact List.nil_prefix

/-- The whole stream holds all of them. -/
theorem whole_all (ds : List Bytes) : whole ds (ds.flatMap out).length = ds := by
  induction ds with
  | nil => rfl
  | cons d ds ih =>
    unfold whole
    rw [List.flatMap_cons, List.length_append, length_out, if_pos (Nat.le_add_right _ _),
      Nat.add_sub_cancel_left, ih]

theorem readLoop_eq {ds : List Bytes} (hlen : ∀ d ∈ ds, d.length < 2 ^ 32) {rounds : ℕ}
    {reads : List Bytes} {rest : Bytes} (h : arrived reads ++ rest = ds.flatMap out)
    (hrounds : (arrived reads).length < rounds) :
    readLoop rounds reads = (whole ds (arrived reads).length).takeWhile fun d =>
      Legal d.length := by
  induction ds generalizing rounds reads with
  | nil =>
    obtain ⟨n, rfl⟩ := Nat.exists_eq_succ_of_ne_zero (Nat.ne_zero_of_lt hrounds)
    have hnil : arrived reads = [] := (List.append_eq_nil_iff.1 h).1
    unfold readLoop
    rw [readExact_of_lt (by rw [hnil]; exact Nat.succ_pos 3)]
    rfl
  | cons d ds ih =>
    obtain ⟨n, rfl⟩ := Nat.exists_eq_succ_of_ne_zero (Nat.ne_zero_of_lt hrounds)
    rw [List.forall_mem_cons] at hlen
    rw [List.flatMap_cons] at h
    unfold readLoop whole
    by_cases hfour : (arrived reads).length < 4
    · rw [readExact_of_lt hfour, if_neg (by omega)]
      rfl
    obtain ⟨reads₁, hread, hleft⟩ := readExact_of_le (not_lt.1 hfour)
    -- the first four bytes are the length of the first datagram
    have htake : (arrived reads).take 4 = leBytes (BitVec.ofNat 32 d.length) := by
      rw [← take_out d (ds.flatMap out), ← h, List.take_append_of_le_length (not_lt.1 hfour)]
    have hnext : arrived reads₁ ++ rest = d ++ ds.flatMap out := by
      rw [hleft, ← drop_out d (ds.flatMap out), ← h, List.drop_append_of_le_length (not_lt.1 hfour)]
    have hcount : (arrived reads₁).length = (arrived reads).length - 4 := by
      rw [hleft, List.length_drop]
    rw [hread, htake]
    dsimp only
    rw [toNat_lenBuf hlen.1]
    by_cases hlegal : Legal d.length
    · rw [if_neg hlegal]
      by_cases hshort : (arrived reads₁).length < d.length
      · rw [readExact_of_lt hshort, if_neg (by omega)]
        rfl
      obtain ⟨reads₂, hread₂, hleft₂⟩ := readExact_of_le (not_lt.1 hshort)
      have htake₂ : (arrived reads₁).take d.length = d := by
        have hd := congrArg (List.take d.length) hnext
        rwa [List.take_append_of_le_length (not_lt.1 hshort), List.take_left] at hd
      have hnext₂ : arrived reads₂ ++ rest = ds.flatMap out := by
        have hd := congrArg (List.drop d.length) hnext
        rwa [List.drop_append_of_le_length (not_lt.1 hshort), List.drop_left, ← hleft₂] at hd
      have hcount₂ : (arrived reads₂).length = (arrived reads).length - (4 + d.length) := by
        rw [hleft₂, List.length_drop, hcount, Nat.sub_sub]
      rw [hread₂, htake₂, if_pos (by omega), ← hcount₂,
        List.takeWhile_cons_of_pos (p := fun d : Bytes => decide (Legal d.length))
          (decide_eq_true hlegal)]
      dsimp only
      rw [ih hlen.2 hnext₂ (by omega)]
    · rw [if_pos (not_not.1 hlegal)]
      split_ifs
      · rw [List.takeWhile_cons_of_neg (p := fun d : Bytes => decide (Legal d.length))
          fun h => hlegal (of_decide_eq_true h)]
      · rfl

/-- Of a stream of datagrams that arrives up to some byte, however it is cut into pieces, the read
loop hands over those that have arrived whole, up to the first one whose length it does not take. -/
theorem handed_eq (ds : List Bytes) (hlen : ∀ d ∈ ds, d.length < 2 ^ 32) (reads : List Bytes)
    (h : arrived reads <+: ds.flatMap out) :
    handed reads = (whole ds (arrived reads).length).takeWhile fun d => Legal d.length := by
  obtain ⟨rest, hrest⟩ := h
  exact readLoop_eq hlen hrest (Nat.lt_succ_of_le (length_arrived_le reads))

/-- A datagram in three pieces, and the length of one that is too short to be taken. -/
theorem handed_eq_three : handed [[3, 0], [0, 0, 7], [8, 9, 0, 0, 0, 0, 1]] =
    (whole [[7, 8, 9], [], [5]] 12).takeWhile fun d => Legal d.length :=
  handed_eq [[7, 8, 9], [], [5]] (by decide) [[3, 0], [0, 0, 7], [8, 9, 0, 0, 0, 0, 1]] (by decide)

/-! ## Writing -/

/-- The TCP receiver and the sockets of its connections. -/
structure Wired where
  receiver : Receiver
  /-- What is written to the socket of a connection. -/
  wire : ℕ → Bytes
  /-- What `write_all` has still to write. -/
  hand : ℕ → Bytes
  /-- The datagrams that the write channel of a connection has taken; no code reads it. -/
  taken : ℕ → List Bytes

inductive WiredAction
  | accept
  | start (i : ℕ)
  | close (i : ℕ)
  /-- The write task takes the next datagram. -/
  | recv (i : ℕ)
  /-- The socket takes so many bytes. -/
  | put (i k : ℕ)
  | writeFailed (i : ℕ)
  | trySend (bytes : Bytes) (peer : SocketAddr)

namespace Wired

/-- `bind`. -/
def bind : Wired := ⟨.bind, fun _ => [], fun _ => [], fun _ => []⟩

/-- The first datagram in the channel of a connection. -/
def first (r : Receiver) (i : ℕ) : Option Bytes := (r.live i).bind fun c => c.queue.head?

/-- The connection whose channel takes a datagram for a peer. -/
def taker (r : Receiver) (peer : SocketAddr) : Option ℕ :=
  match r.writers[peer]? with
  | some i =>
    match r.live i with
    | some c => if c.writing = true ∧ c.queue.length < WRITE_CHANNEL then some i else none
    | none => none
  | none => none

/-- An action of the receiver alone. -/
def base (w : Wired) (a : Receiver.Action) : Wired :=
  { w with receiver := w.receiver.step Transport.tcpIp a }

def step (w : Wired) : WiredAction → Wired
  | .accept => w.base .accept
  | .start i => w.base (.start i)
  | .close i =>
    { w.base (.close i) with
      hand := if (w.receiver.live i).any Conn.isOpen then Function.update w.hand i [] else w.hand }
  | .recv i =>
    if w.hand i = [] then
      { w.base (.write i) with
        hand := Function.update w.hand i (((first w.receiver i).map out).getD []) }
    else w
  | .put i k =>
    { w with
      wire := Function.update w.wire i (w.wire i ++ (w.hand i).take k)
      hand := Function.update w.hand i ((w.hand i).drop k) }
  | .writeFailed i => { w.base (.writeFailed i) with hand := Function.update w.hand i [] }
  | .trySend bytes peer =>
    { w.base (.trySend bytes peer) with
      taken := match taker w.receiver peer with
        | some i => Function.update w.taken i (w.taken i ++ [bytes])
        | none => w.taken }

def run (xs : List WiredAction) : Wired := xs.foldl step bind

/-- What is sent to a peer. -/
def addressed (peer : SocketAddr) (xs : List WiredAction) : List Bytes :=
  xs.filterMap fun
    | .trySend bytes p => if p = peer then some bytes else none
    | _ => none

end Wired

/-! ## Peers -/

section Peers

variable {r : Receiver} {ip : U32}

/-- A connection is a new one, or has the peer that it has had. -/
theorem live_step (r : Receiver) (a : Receiver.Action) {i : ℕ} {c' : Conn}
    (h : (r.step ip a).live i = some c') :
    (∃ c, r.live i = some c ∧ c.peer = c'.peer) ∨
      i = r.accepted ∧ c' = ⟨.V4 ip r.nextPort, false, true, []⟩ := by
  have hchannel (j : ℕ) {f : Conn → Conn} (hf : ∀ c, (f c).peer = c.peer)
      (h : (r.channel j f).live i = some c') : ∃ c, r.live i = some c ∧ c.peer = c'.peer := by
    by_cases hij : i = j
    · subst hij
      rw [Receiver.live_channel_self] at h
      obtain ⟨c, hc, rfl⟩ := Option.map_eq_some_iff.1 h
      exact ⟨c, hc, (hf c).symm⟩
    · rw [Receiver.live_channel_of_ne hij] at h
      exact ⟨c', h, rfl⟩
  have hupdate {j : ℕ} {c : Conn} {o : Option Conn} (hj : r.live j = some c)
      (ho : ∀ d, o = some d → c.peer = d.peer) (h : Function.update r.live j o i = some c') :
      ∃ c, r.live i = some c ∧ c.peer = c'.peer := by
    by_cases hij : i = j
    · subst hij
      rw [Function.update_self] at h
      exact ⟨c, hj, ho c' h⟩
    · rw [Function.update_of_ne hij] at h
      exact ⟨c', h, rfl⟩
  cases a with
  | accept =>
    by_cases hi : i = r.accepted
    · subst hi
      have hself : (r.accept ip).live r.accepted = some c' := h
      rw [Receiver.live_accept_self] at hself
      exact Or.inr ⟨rfl, (Option.some.inj hself).symm⟩
    · have hother : (r.accept ip).live i = some c' := h
      rw [Receiver.live_accept_of_ne hi] at hother
      exact Or.inl ⟨c', hother, rfl⟩
  | start j =>
    left
    change (r.connStart j).live i = some c' at h
    unfold Receiver.connStart at h
    split at h
    · rename_i c hj
      split_ifs at h
      · exact ⟨c', h, rfl⟩
      · exact hupdate hj (fun d hd => by cases hd; rfl) h
    · exact ⟨c', h, rfl⟩
  | upgradeFailed j =>
    left
    change (r.upgradeFailed j).live i = some c' at h
    unfold Receiver.upgradeFailed at h
    split at h
    · rename_i c hj
      split_ifs at h
      · exact ⟨c', h, rfl⟩
      · exact hupdate (o := none) hj (fun d hd => nomatch hd) h
    · exact ⟨c', h, rfl⟩
  | close j =>
    left
    change (r.connEnd j).live i = some c' at h
    unfold Receiver.connEnd at h
    split at h
    · rename_i c hj
      split_ifs at h
      · exact hupdate (o := none) hj (fun d hd => nomatch hd) h
      · exact ⟨c', h, rfl⟩
    · exact ⟨c', h, rfl⟩
  | write j => exact Or.inl (hchannel (f := Receiver.Channel.pop) j (fun _ => rfl) h)
  | writeFailed j => exact Or.inl (hchannel (f := Receiver.Channel.fail) j (fun _ => rfl) h)
  | trySend bytes peer =>
    left
    change (r.trySend bytes peer).live i = some c' at h
    unfold Receiver.trySend at h
    split at h
    · exact hchannel _ (Receiver.Channel.peer_push bytes) h
    · exact ⟨c', h, rfl⟩

/-- An entry of `writers` is an old one, or that of a connection under its peer. -/
theorem writers_step (r : Receiver) (a : Receiver.Action) {peer : SocketAddr} {i : ℕ}
    (h : (r.step ip a).writers[peer]? = some i) :
    r.writers[peer]? = some i ∨ ∃ c, r.live i = some c ∧ c.peer = peer := by
  cases a with
  | start j =>
    change (r.connStart j).writers[peer]? = some i at h
    unfold Receiver.connStart at h
    split at h
    · rename_i c hj
      split_ifs at h
      · exact Or.inl h
      · dsimp only at h
        rw [Receiver.getElem?_insert_peer] at h
        split_ifs at h with hp
        · cases h
          exact Or.inr ⟨c, hj, hp.symm⟩
        · exact Or.inl h
    · exact Or.inl h
  | upgradeFailed j =>
    left
    change (r.upgradeFailed j).writers[peer]? = some i at h
    unfold Receiver.upgradeFailed at h
    split at h
    · split_ifs at h
      · exact h
      · exact h
    · exact h
  | close j =>
    left
    change (r.connEnd j).writers[peer]? = some i at h
    unfold Receiver.connEnd at h
    split at h
    · split_ifs at h
      · dsimp only at h
        rw [Receiver.getElem?_erase_peer] at h
        split_ifs at h
        exact h
      · exact h
    · exact h
  | trySend bytes peer' =>
    left
    change (r.trySend bytes peer').writers[peer]? = some i at h
    unfold Receiver.trySend at h
    split at h
    · exact h
    · exact h
  | _ => exact Or.inl h

/-- No connection is forgotten in the count. -/
theorem accepted_le_step (r : Receiver) (a : Receiver.Action) :
    r.accepted ≤ (r.step ip a).accepted := by
  cases a with
  | accept => exact Nat.le_succ _
  | start j =>
    show r.accepted ≤ (r.connStart j).accepted
    unfold Receiver.connStart
    split
    · split_ifs
      · exact le_rfl
      · exact le_rfl
    · exact le_rfl
  | upgradeFailed j =>
    show r.accepted ≤ (r.upgradeFailed j).accepted
    unfold Receiver.upgradeFailed
    split
    · split_ifs
      · exact le_rfl
      · exact le_rfl
    · exact le_rfl
  | close j =>
    show r.accepted ≤ (r.connEnd j).accepted
    unfold Receiver.connEnd
    split
    · split_ifs
      · exact le_rfl
      · exact le_rfl
    · exact le_rfl
  | trySend bytes peer =>
    show r.accepted ≤ (r.trySend bytes peer).accepted
    unfold Receiver.trySend
    split
    · exact le_rfl
    · exact le_rfl
  | _ => exact le_rfl

/-- The entries of `writers` are those of connections under their peers. -/
def Entered (r : Receiver) : Prop :=
  ∀ (peer : SocketAddr) (i : ℕ), r.writers[peer]? = some i →
    i < r.accepted ∧ ∀ c, r.live i = some c → c.peer = peer

theorem lt_accepted (hn : Receiver.Numbered r) {i : ℕ} {c : Conn} (h : r.live i = some c) :
    i < r.accepted := by
  by_contra hle
  rw [hn i (not_lt.1 hle)] at h
  cases h

theorem Entered.step (h : Entered r) (hn : Receiver.Numbered r) (a : Receiver.Action) :
    Entered (r.step ip a) := by
  intro peer i hi
  have hold : i < r.accepted ∧ ∀ c, r.live i = some c → c.peer = peer := by
    rcases writers_step r a hi with hi | ⟨c, hc, hp⟩
    · exact h peer i hi
    · refine ⟨lt_accepted hn hc, fun d hd => ?_⟩
      rw [hc] at hd
      cases hd
      exact hp
  refine ⟨hold.1.trans_le (accepted_le_step r a), fun c' hc' => ?_⟩
  rcases live_step r a hc' with ⟨c, hc, hp⟩ | ⟨rfl, -⟩
  · exact hp.symm.trans (hold.2 c hc)
  · exact absurd hold.1 (lt_irrefl _)

end Peers

/-! ## What a client reads -/

namespace Wired

variable {w : Wired}

/-- What has been written and is in hand comes from what the channel has taken; a write task that
runs leaves nothing out. -/
structure Carried (w : Wired) (i : ℕ) : Prop where
  taken : (w.wire i ++ w.hand i) <+: (w.taken i).flatMap out
  running : ∀ c, w.receiver.live i = some c → c.writing = true →
    w.wire i ++ w.hand i ++ c.queue.flatMap out = (w.taken i).flatMap out
  stopped : ∀ c, w.receiver.live i = some c → c.writing = false → c.queue = []

/-- The same about a connection that has the same channel. -/
theorem Carried.congr {w' : Wired} {i : ℕ} (h : Carried w i)
    (hlive : ∀ c', w'.receiver.live i = some c' →
      ∃ c, w.receiver.live i = some c ∧ c.writing = c'.writing ∧ c.queue = c'.queue)
    (hwire : w'.wire i = w.wire i) (hhand : w'.hand i = w.hand i)
    (htaken : w'.taken i = w.taken i) :
    Carried w' i := by
  refine ⟨?_, fun c' hc' hw => ?_, fun c' hc' hw => ?_⟩
  · rw [hwire, hhand, htaken]
    exact h.taken
  · obtain ⟨c, hc, hwriting, hqueue⟩ := hlive c' hc'
    rw [hwire, hhand, htaken, ← hqueue]
    exact h.running c hc (hwriting.trans hw)
  · obtain ⟨c, hc, hwriting, hqueue⟩ := hlive c' hc'
    rw [← hqueue]
    exact h.stopped c hc (hwriting.trans hw)

/-- The socket closes, or the task is aborted: what is in hand is lost, and what is in the
channel. -/
theorem Carried.lose {w' : Wired} {i : ℕ} (h : Carried w i)
    (hlive : ∀ c', w'.receiver.live i = some c' → c'.writing = false ∧ c'.queue = [])
    (hwire : w'.wire i = w.wire i) (hhand : w'.hand i = []) (htaken : w'.taken i = w.taken i) :
    Carried w' i := by
  refine ⟨?_, fun c' hc' hw => ?_, fun c' hc' _ => (hlive c' hc').2⟩
  · rw [hwire, hhand, htaken, List.append_nil]
    exact (List.prefix_append _ _).trans h.taken
  · rw [(hlive c' hc').1] at hw
    cases hw

/-- Nothing has happened on a connection whose number has not been given out. -/
def Blank (w : Wired) (i : ℕ) : Prop := w.wire i = [] ∧ w.hand i = [] ∧ w.taken i = []

structure Lines (w : Wired) : Prop where
  numbered : Receiver.Numbered w.receiver
  entered : Entered w.receiver
  blank : ∀ i, w.receiver.accepted ≤ i → Blank w i
  carried : ∀ i, Carried w i

theorem lines_bind : Lines bind where
  numbered := Receiver.numbered_bind
  entered peer i h := by
    rw [show bind.receiver.writers = ∅ from rfl, Std.ExtTreeMap.getElem?_empty] at h
    cases h
  blank _ _ := ⟨rfl, rfl, rfl⟩
  carried _ := ⟨List.prefix_rfl, (fun _ h => nomatch h), fun _ h => nomatch h⟩

/-- The action that a step is for the receiver, if it is one. -/
def action : WiredAction → Option Receiver.Action
  | .accept => some .accept
  | .start i => some (.start i)
  | .close i => some (.close i)
  | .recv i => some (.write i)
  | .put .. => none
  | .writeFailed i => some (.writeFailed i)
  | .trySend bytes peer => some (.trySend bytes peer)

/-- A step leaves the receiver alone, or is an action of it. -/
theorem receiver_step (w : Wired) (a : WiredAction) :
    (w.step a).receiver = w.receiver ∨
      ∃ x, action a = some x ∧ (w.step a).receiver = w.receiver.step Transport.tcpIp x := by
  cases a with
  | recv i =>
    unfold step
    dsimp only
    split_ifs
    · exact Or.inr ⟨_, rfl, rfl⟩
    · exact Or.inl rfl
  | put i k => exact Or.inl rfl
  | _ => exact Or.inr ⟨_, rfl, rfl⟩

theorem Lines.start (h : Lines w) (i : ℕ) (j : ℕ) : Carried (w.step (.start i)) j := by
  refine (h.carried j).congr (fun c' hc' => ?_) rfl rfl rfl
  change (w.receiver.connStart i).live j = some c' at hc'
  unfold Receiver.connStart at hc'
  split at hc'
  · rename_i c hi
    split_ifs at hc'
    · exact ⟨c', hc', rfl, rfl⟩
    · dsimp only at hc'
      by_cases hij : j = i
      · subst hij
        rw [Function.update_self] at hc'
        cases hc'
        exact ⟨c, hi, rfl, rfl⟩
      · rw [Function.update_of_ne hij] at hc'
        exact ⟨c', hc', rfl, rfl⟩
  · exact ⟨c', hc', rfl, rfl⟩

theorem Lines.accept (h : Lines w) (j : ℕ) : Carried (w.step .accept) j := by
  by_cases hj : j = w.receiver.accepted
  · subst hj
    obtain ⟨hwire, hhand, htaken⟩ := h.blank w.receiver.accepted le_rfl
    have hlive : (w.step .accept).receiver.live w.receiver.accepted =
        some ⟨.V4 Transport.tcpIp w.receiver.nextPort, false, true, []⟩ := Receiver.live_accept_self
    refine ⟨?_, fun c hc _ => ?_, fun c hc hw => ?_⟩
    · show (w.wire _ ++ w.hand _) <+: (w.taken _).flatMap out
      rw [hwire, hhand, htaken]
      exact List.prefix_rfl
    · rw [hlive] at hc
      cases hc
      show w.wire _ ++ w.hand _ ++ [] = (w.taken _).flatMap out
      rw [hwire, hhand, htaken]
      rfl
    · rw [hlive] at hc
      cases hc
      cases hw
  · refine (h.carried j).congr (fun c' hc' => ⟨c', ?_, rfl, rfl⟩) rfl rfl rfl
    have hlive : (w.receiver.accept Transport.tcpIp).live j = some c' := hc'
    rwa [Receiver.live_accept_of_ne hj] at hlive

theorem Lines.close (h : Lines w) (i : ℕ) (j : ℕ) : Carried (w.step (.close i)) j := by
  by_cases hopen : (w.receiver.live i).any Conn.isOpen
  · obtain ⟨c, hc, hco⟩ := (Option.any_eq_true _ _).1 hopen
    have hlive : (w.step (.close i)).receiver.live = Function.update w.receiver.live i none := by
      show (w.receiver.connEnd i).live = _
      unfold Receiver.connEnd
      rw [hc]
      dsimp only
      rw [if_pos hco]
    have hhand : (w.step (.close i)).hand = Function.update w.hand i [] := if_pos hopen
    by_cases hij : j = i
    · subst hij
      refine (h.carried j).lose (fun c' hc' => ?_) rfl ?_ rfl
      · rw [hlive, Function.update_self] at hc'
        cases hc'
      · rw [hhand, Function.update_self]
    · refine (h.carried j).congr (fun c' hc' => ⟨c', ?_, rfl, rfl⟩) rfl ?_ rfl
      · rwa [hlive, Function.update_of_ne hij] at hc'
      · rw [hhand, Function.update_of_ne hij]
  · have hsame : (w.step (.close i)).receiver = w.receiver := by
      show w.receiver.connEnd i = w.receiver
      unfold Receiver.connEnd
      split
      · rename_i c hc
        refine if_neg fun hco => hopen ?_
        rw [hc]
        exact hco
      · rfl
    have hhand : (w.step (.close i)).hand = w.hand := if_neg hopen
    refine (h.carried j).congr (fun c' hc' => ⟨c', ?_, rfl, rfl⟩) rfl (congrFun hhand j) rfl
    rwa [hsame] at hc'

theorem Lines.recv (h : Lines w) (i : ℕ) (j : ℕ) : Carried (w.step (.recv i)) j := by
  unfold step
  dsimp only
  split_ifs with hidle
  · by_cases hij : j = i
    · subst hij
      have hj := h.carried j
      have hlive : (w.base (.write j)).receiver.live j =
          (w.receiver.live j).map Receiver.Channel.pop := Receiver.live_channel_self j _
      cases hc : w.receiver.live j with
      | none =>
        refine hj.lose (fun c' hc' => ?_) rfl ?_ rfl
        · rw [hlive, hc] at hc'
          cases hc'
        · show Function.update w.hand j _ j = []
          rw [Function.update_self]
          unfold first
          rw [hc]
          rfl
      | some c =>
        have hhand : Function.update w.hand j (((first w.receiver j).map out).getD []) j =
            (c.queue.head?.map out).getD [] := by
          rw [Function.update_self]
          unfold first
          rw [hc]
          rfl
        rw [hc] at hlive
        cases hq : c.queue with
        | nil =>
          rw [hq] at hhand
          refine hj.congr (fun c' hc' => ?_) rfl (hhand.trans hidle.symm) rfl
          rw [hlive] at hc'
          cases hc'
          refine ⟨c, hc, rfl, ?_⟩
          show c.queue = c.queue.tail
          rw [hq]
          rfl
        | cons d q =>
          rw [hq] at hhand
          have hwriting : c.writing = true := by
            by_contra hstop
            have hnil := hj.stopped c hc (Bool.eq_false_iff.2 hstop)
            rw [hq] at hnil
            cases hnil
          have hrun := hj.running c hc hwriting
          rw [hidle, hq, List.append_nil, List.flatMap_cons] at hrun
          refine ⟨?_, fun c' hc' _ => ?_, fun c' hc' hw => ?_⟩
          · show (w.wire j ++ Function.update w.hand j _ j) <+: (w.taken j).flatMap out
            rw [hhand, ← hrun, ← List.append_assoc]
            exact List.prefix_append _ _
          · rw [hlive] at hc'
            cases hc'
            show w.wire j ++ Function.update w.hand j _ j ++ c.queue.tail.flatMap out =
              (w.taken j).flatMap out
            rw [hhand, hq, ← hrun, List.append_assoc]
            rfl
          · rw [hlive] at hc'
            cases hc'
            rw [show (Receiver.Channel.pop c).writing = c.writing from rfl, hwriting] at hw
            cases hw
    · refine (h.carried j).congr (fun c' hc' => ⟨c', ?_, rfl, rfl⟩) rfl
        (Function.update_of_ne hij _ _) rfl
      have hlive : (w.receiver.channel i Receiver.Channel.pop).live j = some c' := hc'
      rwa [Receiver.live_channel_of_ne hij] at hlive
  · exact h.carried j

theorem Lines.put (h : Lines w) (i k : ℕ) (j : ℕ) : Carried (w.step (.put i k)) j := by
  by_cases hij : j = i
  · subst hij
    -- the bytes go from hand to wire
    have hsum : (w.step (.put j k)).wire j ++ (w.step (.put j k)).hand j =
        w.wire j ++ w.hand j := by
      show Function.update w.wire j _ j ++ Function.update w.hand j _ j = _
      rw [Function.update_self, Function.update_self, List.append_assoc, List.take_append_drop]
    refine ⟨?_, fun c hc hw => ?_, (h.carried j).stopped⟩
    · rw [hsum]
      exact (h.carried j).taken
    · rw [hsum]
      exact (h.carried j).running c hc hw
  · exact (h.carried j).congr (fun c' hc' => ⟨c', hc', rfl, rfl⟩) (Function.update_of_ne hij _ _)
      (Function.update_of_ne hij _ _) rfl

theorem Lines.writeFailed (h : Lines w) (i : ℕ) (j : ℕ) : Carried (w.step (.writeFailed i)) j := by
  by_cases hij : j = i
  · subst hij
    refine (h.carried j).lose (fun c' hc' => ?_) rfl (Function.update_self _ _ _) rfl
    have hlive : (w.receiver.channel j Receiver.Channel.fail).live j = some c' := hc'
    rw [Receiver.live_channel_self] at hlive
    obtain ⟨c, -, rfl⟩ := Option.map_eq_some_iff.1 hlive
    exact ⟨rfl, rfl⟩
  · refine (h.carried j).congr (fun c' hc' => ⟨c', ?_, rfl, rfl⟩) rfl
      (Function.update_of_ne hij _ _) rfl
    have hlive : (w.receiver.channel i Receiver.Channel.fail).live j = some c' := hc'
    rwa [Receiver.live_channel_of_ne hij] at hlive

/-- A channel that takes a datagram is that of a running write task. -/
theorem taker_eq_some {r : Receiver} {peer : SocketAddr} {i : ℕ} (h : taker r peer = some i) :
    r.writers[peer]? = some i ∧ ∃ c, r.live i = some c ∧ c.writing = true ∧
      c.queue.length < WRITE_CHANNEL := by
  unfold taker at h
  split at h
  · rename_i j hj
    split at h
    · rename_i c hc
      split_ifs at h with hroom
      cases h
      exact ⟨hj, c, hc, hroom⟩
    · cases h
  · cases h

/-- A channel takes a datagram, or nothing is taken. -/
theorem taken_step (w : Wired) (a : WiredAction) (j : ℕ) : (w.step a).taken j = w.taken j ∨
    ∃ bytes peer, a = .trySend bytes peer ∧ taker w.receiver peer = some j ∧
      (w.step a).taken j = w.taken j ++ [bytes] := by
  cases a with
  | trySend bytes peer =>
    unfold step
    dsimp only
    cases htaker : taker w.receiver peer with
    | none => exact Or.inl rfl
    | some i =>
      dsimp only
      by_cases hij : j = i
      · subst hij
        exact Or.inr ⟨bytes, peer, rfl, htaker, Function.update_self _ _ _⟩
      · exact Or.inl (Function.update_of_ne hij _ _)
  | recv i =>
    left
    unfold step
    dsimp only
    split_ifs
    · rfl
    · rfl
  | _ => exact Or.inl rfl

/-- Where no channel takes the datagram, nothing changes. -/
theorem live_trySend_of_none {r : Receiver} {bytes : Bytes} {peer : SocketAddr}
    (h : taker r peer = none) :
    (r.trySend bytes peer).live = r.live := by
  unfold Receiver.trySend
  unfold taker at h
  split
  · rename_i i hi
    rw [hi] at h
    dsimp only at h
    show Function.update r.live i ((r.live i).map (Receiver.Channel.push bytes)) = r.live
    rw [Function.update_eq_self_iff]
    cases hc : r.live i with
    | none => rfl
    | some c =>
      rw [hc] at h
      dsimp only at h
      split_ifs at h with hroom
      exact congrArg some (if_neg hroom)
  · rfl

theorem Lines.trySend (h : Lines w) (bytes : Bytes) (peer : SocketAddr) (j : ℕ) :
    Carried (w.step (.trySend bytes peer)) j := by
  cases htaker : taker w.receiver peer with
  | none =>
    refine (h.carried j).congr (fun c' hc' => ⟨c', ?_, rfl, rfl⟩) rfl rfl ?_
    · have hlive : (w.receiver.trySend bytes peer).live j = some c' := hc'
      rwa [live_trySend_of_none htaker] at hlive
    · unfold step
      dsimp only
      rw [htaker]
  | some i =>
    obtain ⟨hwriters, c, hc, hwriting, hroom⟩ := taker_eq_some htaker
    have htaken : (w.step (.trySend bytes peer)).taken =
        Function.update w.taken i (w.taken i ++ [bytes]) := by
      unfold step
      dsimp only
      rw [htaker]
    have hlive : (w.step (.trySend bytes peer)).receiver.live =
        Function.update w.receiver.live i (some { c with queue := c.queue ++ [bytes] }) := by
      show (w.receiver.trySend bytes peer).live = _
      unfold Receiver.trySend
      rw [hwriters]
      show Function.update w.receiver.live i
        ((w.receiver.live i).map (Receiver.Channel.push bytes)) = _
      rw [hc, Option.map_some]
      unfold Receiver.Channel.push
      rw [if_pos ⟨hwriting, hroom⟩]
    by_cases hij : j = i
    · subst hij
      have hrun := (h.carried j).running c hc hwriting
      have hgrown : ((w.step (.trySend bytes peer)).taken j).flatMap out =
          (w.taken j).flatMap out ++ out bytes := by
        rw [htaken, Function.update_self, List.flatMap_append, List.flatMap_singleton]
      refine ⟨?_, fun c' hc' _ => ?_, fun c' hc' hw => ?_⟩
      · rw [hgrown]
        exact (h.carried j).taken.trans (List.prefix_append _ _)
      · rw [hlive, Function.update_self] at hc'
        cases hc'
        rw [hgrown, ← hrun, List.flatMap_append, List.flatMap_singleton, ← List.append_assoc]
        rfl
      · rw [hlive, Function.update_self] at hc'
        cases hc'
        rw [show c.writing = false from hw] at hwriting
        cases hwriting
    · refine (h.carried j).congr (fun c' hc' => ⟨c', ?_, rfl, rfl⟩) rfl rfl ?_
      · rwa [hlive, Function.update_of_ne hij] at hc'
      · rw [htaken, Function.update_of_ne hij]

theorem Lines.carried_step (h : Lines w) (a : WiredAction) (j : ℕ) : Carried (w.step a) j := by
  cases a with
  | accept => exact h.accept j
  | start i => exact h.start i j
  | close i => exact h.close i j
  | recv i => exact h.recv i j
  | put i k => exact h.put i k j
  | writeFailed i => exact h.writeFailed i j
  | trySend bytes peer => exact h.trySend bytes peer j

/-- A number that has not been given out is not that of a channel. -/
theorem taken_blank (hn : Receiver.Numbered w.receiver) (a : WiredAction) {j : ℕ}
    (hj : w.receiver.accepted ≤ j) : (w.step a).taken j = w.taken j := by
  rcases taken_step w a j with heq | ⟨bytes, peer, -, htaker, -⟩
  · exact heq
  · obtain ⟨-, c, hc, -⟩ := taker_eq_some htaker
    rw [hn j hj] at hc
    cases hc

theorem Lines.blank_step (h : Lines w) (a : WiredAction) {j : ℕ}
    (hj : (w.step a).receiver.accepted ≤ j) :
    Blank (w.step a) j := by
  have hold : w.receiver.accepted ≤ j := by
    refine le_trans ?_ hj
    rcases receiver_step w a with heq | ⟨x, -, heq⟩
    · rw [heq]
    · rw [heq]
      exact accepted_le_step _ x
  obtain ⟨hwire, hhand, htaken⟩ := h.blank j hold
  have htaken' : (w.step a).taken j = [] := (taken_blank h.numbered a hold).trans htaken
  cases a with
  | accept => exact ⟨hwire, hhand, htaken'⟩
  | start i => exact ⟨hwire, hhand, htaken'⟩
  | trySend bytes peer => exact ⟨hwire, hhand, htaken'⟩
  | close i =>
    refine ⟨hwire, ?_, htaken'⟩
    unfold step
    dsimp only
    split_ifs
    · by_cases hij : j = i
      · rw [hij, Function.update_self]
      · rw [Function.update_of_ne hij, hhand]
    · exact hhand
  | recv i =>
    have hfirst : first w.receiver j = none := by
      unfold first
      rw [h.numbered j hold]
      rfl
    unfold step at htaken' ⊢
    dsimp only at htaken' ⊢
    split_ifs at htaken' ⊢
    · refine ⟨hwire, ?_, htaken'⟩
      by_cases hij : j = i
      · subst hij
        dsimp only
        rw [Function.update_self, hfirst]
        rfl
      · exact (Function.update_of_ne hij _ _).trans hhand
    · exact ⟨hwire, hhand, htaken⟩
  | put i k =>
    by_cases hij : j = i
    · subst hij
      refine ⟨?_, ?_, htaken'⟩
      · show Function.update w.wire j _ j = []
        rw [Function.update_self, hwire, hhand, List.take_nil]
        rfl
      · show Function.update w.hand j _ j = []
        rw [Function.update_self, hhand, List.drop_nil]
    · exact ⟨(Function.update_of_ne hij _ _).trans hwire,
        (Function.update_of_ne hij _ _).trans hhand, htaken'⟩
  | writeFailed i =>
    refine ⟨hwire, ?_, htaken'⟩
    by_cases hij : j = i
    · subst hij
      exact Function.update_self _ _ _
    · exact (Function.update_of_ne hij _ _).trans hhand

theorem Lines.step (h : Lines w) (a : WiredAction) : Lines (w.step a) := by
  refine ⟨?_, ?_, fun j hj => h.blank_step a hj, h.carried_step a⟩
  · rcases receiver_step w a with heq | ⟨x, -, heq⟩
    · rw [heq]
      exact h.numbered
    · rw [heq]
      exact h.numbered.step x
  · rcases receiver_step w a with heq | ⟨x, -, heq⟩
    · rw [heq]
      exact h.entered
    · rw [heq]
      exact h.entered.step h.numbered x

/-- The channel of a connection takes only what is sent to its peer. -/
def Told (xs : List WiredAction) (w : Wired) (i : ℕ) : Prop :=
  ∃ peer, (∀ c, w.receiver.live i = some c → c.peer = peer) ∧
    (w.taken i).Sublist (addressed peer xs)

theorem addressed_append (peer : SocketAddr) (xs ys : List WiredAction) :
    addressed peer (xs ++ ys) = addressed peer xs ++ addressed peer ys := List.filterMap_append

theorem addressed_trySend (peer : SocketAddr) (bytes : Bytes) :
    addressed peer [.trySend bytes peer] = [bytes] := by
  simp [addressed]

theorem Told.step {xs : List WiredAction} (hl : Lines w) {i : ℕ} (h : Told xs w i)
    (a : WiredAction) :
    Told (xs ++ [a]) (w.step a) i := by
  by_cases hnew : (w.step a).receiver.live i =
      some ⟨.V4 Transport.tcpIp w.receiver.nextPort, false, true, []⟩ ∧
      i = w.receiver.accepted
  · -- the connection has just been accepted
    obtain ⟨hlive, rfl⟩ := hnew
    have htaken : (w.step a).taken w.receiver.accepted = [] :=
      (taken_blank hl.numbered a le_rfl).trans (hl.blank _ le_rfl).2.2
    refine ⟨.V4 Transport.tcpIp w.receiver.nextPort, fun c hc => ?_, ?_⟩
    · rw [hlive] at hc
      cases hc
      rfl
    · rw [htaken]
      exact List.nil_sublist _
  · obtain ⟨peer, hpeer, hsub⟩ := h
    have hpeer' : ∀ c, (w.step a).receiver.live i = some c → c.peer = peer := by
      intro c' hc'
      rcases receiver_step w a with heq | ⟨x, -, heq⟩
      · rw [heq] at hc'
        exact hpeer c' hc'
      · have hc'' := hc'
        rw [heq] at hc'
        rcases live_step w.receiver x hc' with ⟨c, hc, hp⟩ | ⟨hi, rfl⟩
        · exact hp.symm.trans (hpeer c hc)
        · exact absurd ⟨hc'', hi⟩ hnew
    refine ⟨peer, hpeer', ?_⟩
    rw [addressed_append]
    rcases taken_step w a i with heq | ⟨bytes, peer', rfl, htaker, heq⟩
    · rw [heq]
      exact hsub.trans (List.sublist_append_left _ _)
    · obtain ⟨hwriters, c, hc, -⟩ := taker_eq_some htaker
      have hp : peer' = peer :=
        calc peer' = c.peer := ((hl.entered peer' i hwriters).2 c hc).symm
          _ = peer := hpeer c hc
      rw [heq, hp, addressed_trySend]
      exact hsub.append_right _

theorem run_concat (xs : List WiredAction) (a : WiredAction) :
    run (xs ++ [a]) = (run xs).step a := by
  unfold run
  rw [List.foldl_append]
  rfl

theorem lines_run (xs : List WiredAction) (i : ℕ) : Lines (run xs) ∧ Told xs (run xs) i := by
  induction xs using List.reverseRecOn with
  | nil => exact ⟨lines_bind, .V4 0 0, (fun _ h => nomatch h), List.nil_sublist _⟩
  | append_singleton xs a ih =>
    rw [run_concat]
    exact ⟨ih.1.step a, ih.2.step ih.1 a⟩

/-- What a client reads, however it arrives, are the first of the datagrams that the channel of its
connection has taken; these were sent to its peer, in this order. When the write task has nothing to
do and everything has arrived, they are all of them. -/
theorem client_reads (xs : List WiredAction)
    (hxs : ∀ bytes peer, .trySend bytes peer ∈ xs → Legal bytes.length) (i : ℕ) (reads : List Bytes)
    (h : arrived reads <+: (run xs).wire i) :
    ∃ peer, (∀ c, (run xs).receiver.live i = some c → c.peer = peer) ∧
      (handed reads) <+: (run xs).taken i ∧ ((run xs).taken i).Sublist (addressed peer xs) ∧
      ∀ c, (run xs).receiver.live i = some c → c.writing = true → c.queue = [] →
        (run xs).hand i = [] →
        arrived reads = (run xs).wire i → handed reads = (run xs).taken i := by
  obtain ⟨hlines, peer, hpeer, hsub⟩ := lines_run xs i
  have hlegal : ∀ d ∈ (run xs).taken i, Legal d.length := by
    intro d hd
    obtain ⟨x, hx, he⟩ := List.mem_filterMap.1 (hsub.subset hd)
    cases x with
    | trySend bytes p =>
      dsimp only at he
      split_ifs at he
      cases he
      exact hxs d p hx
    | _ => cases he
  have hlen : ∀ d ∈ (run xs).taken i, d.length < 2 ^ 32 := by
    intro d hd
    calc d.length ≤ 65535 := not_lt.1 fun hlt => hlegal d hd (Or.inr hlt)
      _ < 2 ^ 32 := by norm_num
  have hprefix : arrived reads <+: ((run xs).taken i).flatMap out :=
    h.trans ((List.prefix_append _ _).trans (hlines.carried i).taken)
  have hhanded : handed reads = whole ((run xs).taken i) (arrived reads).length := by
    rw [handed_eq _ hlen _ hprefix]
    refine List.takeWhile_eq_self_iff.2 fun d hd => ?_
    exact decide_eq_true (hlegal d ((isPrefix_whole _ _).subset hd))
  refine ⟨peer, hpeer, ?_, hsub, fun c hc hw hq hhand hall => ?_⟩
  · rw [hhanded]
    exact isPrefix_whole _ _
  · have hrun := (hlines.carried i).running c hc hw
    rw [hq, hhand, List.flatMap_nil, List.append_nil, List.append_nil] at hrun
    rw [hhanded, hall, hrun, whole_all]

/-- The first client is sent two datagrams, and the second of them is cut off by the end of its
connection. -/
def cutOff : List WiredAction :=
  [.accept, .start 0, .trySend [7, 8, 9] (.V4 Transport.tcpIp 1),
    .trySend [1, 2] (.V4 Transport.tcpIp 1), .recv 0,
    .put 0 3, .put 0 4, .recv 0, .put 0 5, .close 0]

/-- The client reads the first one. -/
theorem client_reads_cutOff :
    handed [[3, 0, 0], [0, 7, 8, 9, 2, 0, 0], [0, 1]] = [[7, 8, 9]] ∧
    ∃ peer, (∀ c, (run cutOff).receiver.live 0 = some c → c.peer = peer) ∧
      handed [[3, 0, 0], [0, 7, 8, 9, 2, 0, 0], [0, 1]] <+: (run cutOff).taken 0 ∧
      ((run cutOff).taken 0).Sublist (addressed peer cutOff) ∧
      ∀ c, (run cutOff).receiver.live 0 = some c → c.writing = true → c.queue = [] →
        (run cutOff).hand 0 = [] → arrived [[3, 0, 0], [0, 7, 8, 9, 2, 0, 0], [0, 1]] =
          (run cutOff).wire 0 →
          handed [[3, 0, 0], [0, 7, 8, 9, 2, 0, 0], [0, 1]] = (run cutOff).taken 0 := by
  refine ⟨by decide, client_reads cutOff ?_ 0 _ (by decide)⟩
  intro bytes peer hmem
  have hcases : bytes = [7, 8, 9] ∨ bytes = [1, 2] := by
    simp only [cutOff, List.mem_cons, List.not_mem_nil, WiredAction.trySend.injEq, reduceCtorEq]
      at hmem
    tauto
  rcases hcases with rfl | rfl
  · decide
  · decide

end Wired

end TcpStream

end SoupEngine
