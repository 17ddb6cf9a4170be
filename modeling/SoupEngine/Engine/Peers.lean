import SoupEngine.Engine.Transports

/-!
# Virtual peers

The TCP and the WS receiver give every connection the next port of their virtual address, from a
counter of sixteen bits that wraps, and keep the write channels of the connections by their virtual
peers. A connection that outlives 65535 others meets its own port again: `unique_iff`, virtual peers
are unique in a run exactly if no connection is accepted while another one still has the port that
is next.
-/

namespace SoupEngine

open TransitionSystem

/-- The capacity of a write channel. -/
def WRITE_CHANNEL : ℕ := 256

/-- A connection from `accept` to the end of `conn_loop`. -/
structure Conn where
  peer : SocketAddr
  /-- `conn_loop` has made the write channel. -/
  isOpen : Bool
  /-- The write task has not ended. -/
  writing : Bool
  queue : List Bytes

/-- `TcpReceiver` and `WsReceiver`, with the live connections. Connections are numbered in the order
of their acceptance; the sender of a write channel is the number of its connection. -/
structure Receiver where
  nextPort : U16
  writers : Map SocketAddr ℕ
  conns : U16
  accepted : ℕ
  live : ℕ → Option Conn

namespace Receiver

inductive Action
  | accept
  /-- `conn_loop` begins. -/
  | start (i : ℕ)
  /-- The upgrade of a WS connection fails, and `conn_loop` returns. -/
  | upgradeFailed (i : ℕ)
  /-- The read loop ends. -/
  | close (i : ℕ)
  /-- The write task takes a datagram, or ends because the socket is closed. -/
  | write (i : ℕ)
  | writeFailed (i : ℕ)
  | trySend (bytes : Bytes) (peer : SocketAddr)

/-- `bind`. -/
def bind : Receiver := ⟨1, ∅, 0, 0, fun _ => none⟩

variable (ip : U32)

/-- `run`, on one connection. -/
def accept (r : Receiver) : Receiver :=
  { r with
    nextPort := r.nextPort + 1
    accepted := r.accepted + 1
    live := Function.update r.live r.accepted (some ⟨.V4 ip r.nextPort, false, true, []⟩) }

/-- `conn_loop`, before its read loop. -/
def connStart (r : Receiver) (i : ℕ) : Receiver :=
  match r.live i with
  | some c =>
    if c.isOpen = true then r
    else
      { r with
        writers := r.writers.insert c.peer i
        conns := r.conns + 1
        live := Function.update r.live i (some { c with isOpen := true }) }
  | none => r

def upgradeFailed (r : Receiver) (i : ℕ) : Receiver :=
  match r.live i with
  | some c => if c.isOpen = true then r else { r with live := Function.update r.live i none }
  | none => r

/-- `conn_loop`, after its read loop. -/
def connEnd (r : Receiver) (i : ℕ) : Receiver :=
  match r.live i with
  | some c =>
    if c.isOpen = true then
      { r with
        writers := r.writers.erase c.peer
        conns := r.conns - 1
        live := Function.update r.live i none }
    else r
  | none => r

/-- A change of the write channel of connection `i`. -/
def channel (r : Receiver) (i : ℕ) (f : Conn → Conn) : Receiver :=
  { r with live := Function.update r.live i ((r.live i).map f) }

namespace Channel

/-- `tx.try_send`; a channel whose write task has ended is closed. -/
def push (bytes : Bytes) (c : Conn) : Conn :=
  if c.writing = true ∧ c.queue.length < WRITE_CHANNEL
    then { c with queue := c.queue ++ [bytes] } else c

def pop (c : Conn) : Conn := { c with queue := c.queue.tail }

def fail (c : Conn) : Conn := { c with writing := false, queue := [] }

end Channel

/-- `try_send`. -/
def trySend (r : Receiver) (bytes : Bytes) (peer : SocketAddr) : Receiver :=
  match r.writers[peer]? with
  | some i => r.channel i (Channel.push bytes)
  | none => r

def step (r : Receiver) : Action → Receiver
  | .accept => r.accept ip
  | .start i => r.connStart i
  | .upgradeFailed i => r.upgradeFailed i
  | .close i => r.connEnd i
  | .write i => r.channel i Channel.pop
  | .writeFailed i => r.channel i Channel.fail
  | .trySend bytes peer => r.trySend bytes peer

def run (xs : List Action) : Receiver := xs.foldl (step ip) bind

/-- Virtual peers are unique. -/
structure Unique (r : Receiver) : Prop where
  /-- Two live connections have different peers. -/
  distinct : ∀ i j c d, r.live i = some c → r.live j = some d → c.peer = d.peer → i = j
  /-- The write channel of a connection is found under its peer. -/
  own : ∀ i c, r.live i = some c → c.isOpen = true → r.writers[c.peer]? = some i
  /-- The end of a connection leaves the entries of the others. -/
  kept : ∀ i j c, i ≠ j → r.live i = some c → c.isOpen = true →
    (r.connEnd j).writers[c.peer]? = some i
  /-- A datagram reaches only the connection with its peer. -/
  reaches : ∀ bytes peer i, (r.trySend bytes peer).live i ≠ r.live i →
    ∃ c, r.live i = some c ∧ c.isOpen = true ∧ c.peer = peer

/-- No live connection has the port of the next one. -/
def Fresh (r : Receiver) : Action → Prop
  | .accept => ∀ i c, r.live i = some c → c.peer ≠ .V4 ip r.nextPort
  | _ => True

/-! ## The invariant -/

variable {ip} {r : Receiver}

/-- Numbers from `accepted` on are not in use. -/
def Numbered (r : Receiver) : Prop := ∀ i, r.accepted ≤ i → r.live i = none

/-- The senders are those of the open connections, each under the peer of its connection. -/
structure Assigned (r : Receiver) : Prop where
  distinct : ∀ i j c d, r.live i = some c → r.live j = some d → c.peer = d.peer → i = j
  own : ∀ i c, r.live i = some c → c.isOpen = true → r.writers[c.peer]? = some i
  only : ∀ peer i, r.writers[peer]? = some i → ∃ c, r.live i = some c ∧ c.isOpen = true ∧
    c.peer = peer

@[simp] theorem live_accept_self :
    (r.accept ip).live r.accepted = some ⟨.V4 ip r.nextPort, false, true, []⟩ :=
  Function.update_self _ _ _

theorem live_accept_of_ne {i : ℕ} (h : i ≠ r.accepted) : (r.accept ip).live i = r.live i :=
  Function.update_of_ne h _ _

@[simp] theorem live_channel_self (i : ℕ) (f : Conn → Conn) :
    (r.channel i f).live i = (r.live i).map f :=
  Function.update_self _ _ _

theorem live_channel_of_ne {i j : ℕ} (h : j ≠ i) (f : Conn → Conn) :
    (r.channel i f).live j = r.live j :=
  Function.update_of_ne h _ _

theorem getElem?_insert_peer (m : Map SocketAddr ℕ) (p q : SocketAddr) (i : ℕ) :
    (m.insert p i)[q]? = if q = p then some i else m[q]? :=
  (Map.getElem?_insert m p q i).trans (if_congr eq_comm rfl rfl)

theorem getElem?_erase_peer (m : Map SocketAddr ℕ) (p q : SocketAddr) :
    (m.erase p)[q]? = if q = p then none else m[q]? :=
  (Map.getElem?_erase m p q).trans (if_congr eq_comm rfl rfl)

theorem assigned_bind : Assigned bind where
  distinct _ _ _ _ h := nomatch h
  own _ _ h := nomatch h
  only peer i h := by
    rw [show bind.writers = ∅ from rfl, Std.ExtTreeMap.getElem?_empty] at h
    cases h

/-- A connection of an assignment has no peer of another one. -/
theorem Assigned.peer_ne (h : Assigned r) {i j : ℕ} {c d : Conn} (hi : r.live i = some c)
    (hj : r.live j = some d) (hij : i ≠ j) : c.peer ≠ d.peer :=
  fun he => hij (h.distinct i j c d hi hj he)

/-- A step that changes the channel of one connection at most. -/
theorem Assigned.channel (h : Assigned r) (i : ℕ) {f : Conn → Conn}
    (hpeer : ∀ c, (f c).peer = c.peer) (hopen : ∀ c, (f c).isOpen = c.isOpen) :
    Assigned (r.channel i f) := by
  have hlive : ∀ j c, (r.channel i f).live j = some c →
      ∃ d, r.live j = some d ∧ d.peer = c.peer ∧ d.isOpen = c.isOpen := by
    intro j c hj
    by_cases hji : j = i
    · subst hji
      rw [live_channel_self] at hj
      obtain ⟨d, hd, rfl⟩ := Option.map_eq_some_iff.1 hj
      exact ⟨d, hd, (hpeer d).symm, (hopen d).symm⟩
    · rw [live_channel_of_ne hji] at hj
      exact ⟨c, hj, rfl, rfl⟩
  refine ⟨?_, ?_, ?_⟩
  · intro j k c d hj hk he
    obtain ⟨c', hc', hpc, -⟩ := hlive j c hj
    obtain ⟨d', hd', hpd, -⟩ := hlive k d hk
    have hpeer' : c'.peer = d'.peer :=
      calc c'.peer = c.peer := hpc
        _ = d.peer := he
        _ = d'.peer := hpd.symm
    exact h.distinct j k c' d' hc' hd' hpeer'
  · intro j c hj ho
    obtain ⟨c', hc', hpc, hoc⟩ := hlive j c hj
    have := h.own j c' hc' (hoc.trans ho)
    rwa [hpc] at this
  · intro peer j hj
    obtain ⟨c, hc, ho, hp⟩ := h.only peer j hj
    by_cases hji : j = i
    · subst hji
      refine ⟨f c, ?_, (hopen c).trans ho, (hpeer c).trans hp⟩
      rw [live_channel_self, hc, Option.map_some]
    · refine ⟨c, ?_, ho, hp⟩
      rw [live_channel_of_ne hji]
      exact hc

theorem Assigned.accept (h : Assigned r) (hn : Numbered r) (hf : Fresh ip r .accept) :
    Assigned (r.accept ip) := by
  have hnone : r.live r.accepted = none := hn r.accepted le_rfl
  -- the new connection is not open, and has a port of its own
  have hlive : ∀ j c, (r.accept ip).live j = some c →
      (r.live j = some c ∧ j ≠ r.accepted) ∨
        (j = r.accepted ∧ c = ⟨.V4 ip r.nextPort, false, true, []⟩) := by
    intro j c hj
    by_cases hja : j = r.accepted
    · subst hja
      rw [live_accept_self] at hj
      exact Or.inr ⟨rfl, (Option.some.inj hj).symm⟩
    · rw [live_accept_of_ne hja] at hj
      exact Or.inl ⟨hj, hja⟩
  refine ⟨?_, ?_, ?_⟩
  · intro j k c d hj hk he
    rcases hlive j c hj with ⟨hj', -⟩ | ⟨rfl, rfl⟩
    · rcases hlive k d hk with ⟨hk', -⟩ | ⟨rfl, rfl⟩
      · exact h.distinct j k c d hj' hk' he
      · exact absurd he (hf j c hj')
    · rcases hlive k d hk with ⟨hk', -⟩ | ⟨rfl, rfl⟩
      · exact absurd he.symm (hf k d hk')
      · rfl
  · intro j c hj ho
    rcases hlive j c hj with ⟨hj, -⟩ | ⟨rfl, rfl⟩
    · exact h.own j c hj ho
    · cases ho
  · intro peer j hj
    obtain ⟨c, hc, ho, hp⟩ := h.only peer j hj
    refine ⟨c, ?_, ho, hp⟩
    have hja : j ≠ r.accepted := by
      rintro rfl
      rw [hnone] at hc
      cases hc
    rw [live_accept_of_ne hja]
    exact hc

theorem Assigned.connStart (h : Assigned r) (i : ℕ) : Assigned (r.connStart i) := by
  unfold Receiver.connStart
  cases hi : r.live i with
  | none => exact h
  | some c =>
    dsimp only
    split_ifs with ho
    · exact h
    have hlive : ∀ j d, Function.update r.live i (some { c with isOpen := true }) j = some d →
        (r.live j = some d ∧ j ≠ i) ∨ (j = i ∧ d = { c with isOpen := true }) := by
      intro j d hj
      by_cases hji : j = i
      · subst hji
        rw [Function.update_self] at hj
        exact Or.inr ⟨rfl, (Option.some.inj hj).symm⟩
      · rw [Function.update_of_ne hji] at hj
        exact Or.inl ⟨hj, hji⟩
    refine ⟨?_, ?_, ?_⟩
    · intro j k d e hj hk he
      rcases hlive j d hj with ⟨hj', -⟩ | ⟨rfl, rfl⟩
      · rcases hlive k e hk with ⟨hk', -⟩ | ⟨rfl, rfl⟩
        · exact h.distinct j k d e hj' hk' he
        · exact h.distinct j k d c hj' hi he
      · rcases hlive k e hk with ⟨hk', -⟩ | ⟨rfl, rfl⟩
        · exact h.distinct j k c e hi hk' he
        · rfl
    · intro j d hj hd
      dsimp only
      rw [getElem?_insert_peer]
      rcases hlive j d hj with ⟨hj, hji⟩ | ⟨rfl, rfl⟩
      · rw [if_neg (h.peer_ne hj hi hji)]
        exact h.own j d hj hd
      · exact if_pos rfl
    · intro peer j hj
      dsimp only at hj ⊢
      rw [getElem?_insert_peer] at hj
      split_ifs at hj with hp
      · obtain rfl := Option.some.inj hj
        exact ⟨{ c with isOpen := true }, Function.update_self _ _ _, rfl, hp.symm⟩
      · obtain ⟨d, hd, hod, hpd⟩ := h.only peer j hj
        have hji : j ≠ i := by
          rintro rfl
          obtain rfl := Option.some.inj (hi.symm.trans hd)
          exact ho hod
        exact ⟨d, (Function.update_of_ne hji _ _).trans hd, hod, hpd⟩

/-- A connection leaves with its entry, if it has one. -/
theorem Assigned.remove (h : Assigned r) {i : ℕ} {c : Conn} (hi : r.live i = some c)
    {writers : Map SocketAddr ℕ} {conns : U16}
    (hwriters : ∀ p : SocketAddr, writers[p]? = if p = c.peer then none else r.writers[p]?) :
    Assigned { r with writers, conns, live := Function.update r.live i none } := by
  have hlive : ∀ j d, Function.update r.live i none j = some d → r.live j = some d ∧ j ≠ i := by
    intro j d hj
    by_cases hji : j = i
    · subst hji
      rw [Function.update_self] at hj
      cases hj
    · rw [Function.update_of_ne hji] at hj
      exact ⟨hj, hji⟩
  refine ⟨?_, ?_, ?_⟩
  · intro j k d e hj hk he
    exact h.distinct j k d e (hlive j d hj).1 (hlive k e hk).1 he
  · intro j d hj hd
    obtain ⟨hj, hji⟩ := hlive j d hj
    refine (hwriters d.peer).trans ?_
    rw [if_neg (h.peer_ne hj hi hji)]
    exact h.own j d hj hd
  · intro peer j hj
    have hj' := (hwriters peer).symm.trans hj
    split_ifs at hj' with hp
    obtain ⟨d, hd, hod, hpd⟩ := h.only peer j hj'
    have hji : j ≠ i := by
      rintro rfl
      obtain rfl := Option.some.inj (hi.symm.trans hd)
      exact hp hpd.symm
    exact ⟨d, (Function.update_of_ne hji _ _).trans hd, hod, hpd⟩

theorem Assigned.connEnd (h : Assigned r) (i : ℕ) : Assigned (r.connEnd i) := by
  unfold Receiver.connEnd
  cases hi : r.live i with
  | none => exact h
  | some c =>
    dsimp only
    split_ifs with ho
    · exact h.remove hi fun p => getElem?_erase_peer _ _ _
    · exact h

theorem Assigned.upgradeFailed (h : Assigned r) (i : ℕ) : Assigned (r.upgradeFailed i) := by
  unfold Receiver.upgradeFailed
  cases hi : r.live i with
  | none => exact h
  | some c =>
    dsimp only
    split_ifs with ho
    · exact h
    refine h.remove hi fun p => ?_
    split_ifs with hp
    · -- the connection has no entry, since it is not open
      cases hw : r.writers[p]? with
      | none => rfl
      | some j =>
        obtain ⟨d, hd, hod, hpd⟩ := h.only p j hw
        obtain rfl := h.distinct j i d c hd hi (hpd.trans hp)
        obtain rfl := Option.some.inj (hi.symm.trans hd)
        exact absurd hod ho
    · rfl

theorem Channel.peer_push (bytes : Bytes) (c : Conn) : (Channel.push bytes c).peer = c.peer := by
  unfold Channel.push
  split_ifs <;> rfl

theorem Channel.isOpen_push (bytes : Bytes) (c : Conn) :
    (Channel.push bytes c).isOpen = c.isOpen := by
  unfold Channel.push
  split_ifs <;> rfl

theorem Assigned.step (h : Assigned r) (hn : Numbered r) {a : Action} (ha : Fresh ip r a) :
    Assigned (r.step ip a) := by
  cases a with
  | accept => exact h.accept hn ha
  | start i => exact h.connStart i
  | upgradeFailed i => exact h.upgradeFailed i
  | close i => exact h.connEnd i
  | write i => exact h.channel i (fun _ => rfl) fun _ => rfl
  | writeFailed i => exact h.channel i (fun _ => rfl) fun _ => rfl
  | trySend bytes peer =>
    show Assigned (r.trySend bytes peer)
    unfold Receiver.trySend
    split
    · exact h.channel _ (Channel.peer_push bytes) (Channel.isOpen_push bytes)
    · exact h

/-! ## Numbers -/

theorem Numbered.update (h : Numbered r) {i : ℕ} {c : Conn} (hi : r.live i = some c)
    (o : Option Conn) {j : ℕ} (hj : r.accepted ≤ j) : Function.update r.live i o j = none := by
  have hji : j ≠ i := by
    rintro rfl
    rw [h j hj] at hi
    cases hi
  rw [Function.update_of_ne hji]
  exact h j hj

theorem Numbered.channel (h : Numbered r) (i : ℕ) (f : Conn → Conn) : Numbered (r.channel i f) := by
  intro j hj
  cases hi : r.live i with
  | some c => exact h.update hi _ hj
  | none =>
    have hsame : Function.update r.live i ((r.live i).map f) = r.live := by
      rw [hi, Option.map_none, ← hi]
      exact Function.update_eq_self i r.live
    exact (congrFun hsame j).trans (h j hj)

theorem Numbered.step (h : Numbered r) (a : Action) : Numbered (r.step ip a) := by
  cases a with
  | accept =>
    intro j hj
    have hja : j ≠ r.accepted := Nat.ne_of_gt hj
    exact (live_accept_of_ne hja).trans (h j (Nat.le_of_lt hj))
  | start i =>
    show Numbered (r.connStart i)
    unfold Receiver.connStart
    split
    · next c hi =>
      split_ifs
      · exact h
      · exact fun j hj => h.update hi _ hj
    · exact h
  | upgradeFailed i =>
    show Numbered (r.upgradeFailed i)
    unfold Receiver.upgradeFailed
    split
    · next c hi =>
      split_ifs
      · exact h
      · exact fun j hj => h.update hi _ hj
    · exact h
  | close i =>
    show Numbered (r.connEnd i)
    unfold Receiver.connEnd
    split
    · next c hi =>
      split_ifs
      · exact fun j hj => h.update hi _ hj
      · exact h
    · exact h
  | write i => exact h.channel i _
  | writeFailed i => exact h.channel i _
  | trySend bytes peer =>
    show Numbered (r.trySend bytes peer)
    unfold Receiver.trySend
    split
    · exact h.channel _ _
    · exact h

theorem numbered_bind : Numbered bind := fun _ _ => rfl

theorem numbered_run (xs : List Action) : Numbered (run ip xs) := by
  induction xs using List.reverseRecOn with
  | nil => exact numbered_bind
  | append_singleton xs a ih =>
    rw [run, List.foldl_append]
    exact ih.step a

/-! ## Uniqueness -/

theorem Assigned.unique (h : Assigned r) : Unique r where
  distinct := h.distinct
  own := h.own
  kept i j c hij hi ho := by
    refine (h.connEnd j).own i c ?_ ho
    unfold Receiver.connEnd
    split
    · split_ifs
      · exact (Function.update_of_ne hij _ _).trans hi
      · exact hi
    · exact hi
  reaches bytes peer i hne := by
    unfold Receiver.trySend at hne
    split at hne
    · next j hj =>
      by_cases hij : i = j
      · exact hij ▸ h.only peer j hj
      · exact absurd (live_channel_of_ne hij _) hne
    · exact absurd rfl hne

/-- A connection that is accepted with the port of a live one has the same peer. -/
theorem fresh_of_unique (hn : Numbered r) {a : Action} (h : Unique (r.step ip a)) :
    Fresh ip r a := by
  cases a with
  | accept =>
    intro i c hi hp
    have hia : i ≠ r.accepted := by
      rintro rfl
      rw [hn r.accepted le_rfl] at hi
      cases hi
    have hi' : (r.accept ip).live i = some c := (live_accept_of_ne hia).trans hi
    exact hia (h.distinct i r.accepted c _ hi' live_accept_self hp)
  | _ => trivial

/-- In every run of a receiver, virtual peers are unique at every moment if and only if no
connection is accepted while a live one has the next port. -/
theorem unique_iff (ip : U32) (xs : List Action) :
    (∀ n, Unique (run ip (xs.take n))) ↔ Allowed (step ip) (Fresh ip) bind xs :=
  forall_take_iff_allowed assigned_bind numbered_bind (fun _ h => h.unique)
    (fun _ a hn => hn.step a) (fun _ _ hn h ha => h.step hn ha) fun _ _ hn _ h =>
      fresh_of_unique hn h

/-! ## A connection that stays -/

/-- Connections `1` to `n` come and go. -/
def churn (n : ℕ) : List Action :=
  (List.range n).flatMap fun k => [.accept, .start (k + 1), .close (k + 1)]

theorem churn_succ (n : ℕ) :
    churn (n + 1) = churn n ++ [.accept, .start (n + 1), .close (n + 1)] := by
  unfold churn
  rw [List.range_succ, List.flatMap_append, List.flatMap_singleton]

/-- Connection `0` is open all the while. -/
structure Stayed (ip : U32) (n : ℕ) (r : Receiver) : Prop where
  port : r.nextPort = BitVec.ofNat 16 (n + 2)
  count : r.accepted = n + 1
  first : r.live 0 = some ⟨.V4 ip 1, true, true, []⟩

theorem Stayed.round {n : ℕ} (h : Stayed ip n r) :
    Stayed ip (n + 1) ([.accept, .start (n + 1), .close (n + 1)].foldl (step ip) r) := by
  have hlive : (r.accept ip).live (n + 1) = some ⟨.V4 ip r.nextPort, false, true, []⟩ := by
    rw [← h.count]
    exact live_accept_self
  have hstart : ((r.accept ip).connStart (n + 1)) =
      { r.accept ip with
        writers := (r.accept ip).writers.insert (.V4 ip r.nextPort) (n + 1)
        conns := (r.accept ip).conns + 1
        live := Function.update (r.accept ip).live (n + 1)
            (some ⟨.V4 ip r.nextPort, true, true, []⟩) } := by
    unfold Receiver.connStart
    rw [hlive]
    rfl
  have hend : [Action.accept, .start (n + 1), .close (n + 1)].foldl (step ip) r =
      { r.accept ip with
        writers := ((r.accept ip).writers.insert (.V4 ip r.nextPort) (n + 1)).erase
          (.V4 ip r.nextPort)
        conns := (r.accept ip).conns + 1 - 1
        live := Function.update (Function.update (r.accept ip).live (n + 1)
          (some ⟨.V4 ip r.nextPort, true, true, []⟩)) (n + 1) none } := by
    show ((r.accept ip).connStart (n + 1)).connEnd (n + 1) = _
    rw [hstart]
    unfold Receiver.connEnd
    dsimp only
    rw [Function.update_self]
    rfl
  rw [hend]
  refine ⟨?_, ?_, ?_⟩
  · show r.nextPort + 1 = _
    rw [h.port, show n + 1 + 2 = (n + 2) + 1 from rfl, BitVec.ofNat_add (n + 2) 1]
    rfl
  · show r.accepted + 1 = _
    rw [h.count]
  · dsimp only
    rw [Function.update_of_ne (Nat.succ_ne_zero n).symm,
      Function.update_of_ne (Nat.succ_ne_zero n).symm]
    refine (live_accept_of_ne ?_).trans h.first
    rw [h.count]
    exact (Nat.succ_ne_zero n).symm

theorem stayed_churn (ip : U32) (n : ℕ) :
    Stayed ip n (run ip ([.accept, .start 0] ++ churn n)) := by
  induction n with
  | zero => exact ⟨rfl, rfl, rfl⟩
  | succ n ih =>
    rw [churn_succ, ← List.append_assoc, run, List.foldl_append]
    exact ih.round

/-- The first connection outlives 65535 others. -/
@[irreducible] def outlived : List Action := [.accept, .start 0] ++ churn 65535 ++ [.accept]

/-- After them its port is next, and the last connection has the same peer. -/
theorem same_peer (ip : U32) : ¬ Unique (run ip outlived) := by
  intro h
  unfold outlived at h
  have hs := stayed_churn ip 65535
  rw [run, List.foldl_append] at h
  have hport : (run ip ([.accept, .start 0] ++ churn 65535)).nextPort = 1 := hs.port
  have hfresh : Fresh ip (run ip ([.accept, .start 0] ++ churn 65535)) .accept :=
    fresh_of_unique (numbered_run _) h
  refine absurd (hfresh 0 _ hs.first) ?_
  rw [hport]
  exact fun hne => hne rfl

/-- Virtual peers are not unique in every run, of neither receiver. -/
theorem peer_assigned_twice :
    (¬ ∀ (xs : List Action) (n : ℕ), Unique (run Transport.tcpIp (xs.take n))) ∧
      ¬ ∀ (xs : List Action) (n : ℕ), Unique (run Transport.wsIp (xs.take n)) := by
  have hany : ∀ ip, ¬ ∀ (xs : List Action) (n : ℕ), Unique (run ip (xs.take n)) := by
    intro ip h
    have hrun := h outlived outlived.length
    rw [List.take_length] at hrun
    exact same_peer ip hrun
  exact ⟨hany _, hany _⟩

end Receiver

end SoupEngine
