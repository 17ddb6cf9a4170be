import SoupEngine.Session.Isolation

/-!
# Authenticated datagrams

A datagram with the HMAC flag is taken for a session only with the HMAC of its bytes under the
secret of the session (`reads_signed`). One without the flag is taken as plaintext, also by a table
that asks for HMACs (`plaintext_unsigned`).
-/

namespace SoupEngine

/-- The HMAC flag is set. -/
def Marked (buf : Bytes) : Prop := fromLe 8 (slice buf 3 4) &&& FLAG_HMAC ≠ 0

instance (buf : Bytes) : Decidable (Marked buf) := by unfold Marked; infer_instance

/-- The datagram ends with the HMAC of the bytes before it under the secret of the session. -/
def Signed (hmac4 : Hmac) (s : Session) (buf : Bytes) : Prop :=
  ∃ data, buf = data ++ (hmac4 (leBytes s.secret) data).toList

section Check

variable {cfg : SessionTableConfig} {hmac4 : Hmac} {t : SessionTable cfg} {buf : Bytes}
  {header : DatagramHeader} {frames : List FrameRef} {s : Session}

/-- The test of `verify_hmac` on the flags. -/
theorem flags_hmac : ∀ flags : U8, flags &&& FLAG_HANDSHAKE = 0 → flags &&& FLAG_HMAC ≠ 0 →
    flags &&& (FLAG_HANDSHAKE ||| FLAG_HMAC) = FLAG_HMAC := by
  decide +kernel

/-- A marked datagram that is read ends with the HMAC of the session that its header names. -/
theorem reads_signed (henable : cfg.enableHmac = true) (hplain : NoHandshake buf)
    (hmark : Marked buf) (h : t.reads hmac4 buf = some (header, frames)) :
    header.connId = connIdOf buf ∧ header.flags &&& FLAG_HANDSHAKE = 0 ∧
      ∀ s, t.get (connIdOf buf) = some s → Signed hmac4 s buf := by
  unfold SessionTable.reads SessionTable.verifyHmac at h
  rw [flags_hmac _ hplain hmark, if_neg (not_not.2 rfl), henable] at h
  split_ifs at h with hoff hshort
  · -- without a header it cannot be read
    have hlen : buf.length < HEADER_LEN := hoff.resolve_left (not_not.2 rfl)
    have hdec := decode_header (decode_of_toOption h)
    exact absurd hlen (not_lt.2 hdec.1)
  · have hmac : HEADER_LEN + HMAC_LEN ≤ buf.length := not_lt.1 hshort
    have hcut : HEADER_LEN ≤ buf.length - HMAC_LEN := Nat.le_sub_of_add_le hmac
    cases hget : t.get (fromLe 32 (slice buf 4 8)) with
    | none =>
      rw [hget] at h
      cases h
    | some s =>
      rw [hget] at h
      dsimp only at h
      split_ifs at h with heq
      obtain ⟨-, hflags, hconn⟩ := decode_header (decode_of_toOption h)
      rw [slice_take buf (le_trans (by decide) hcut)] at hflags
      unfold connIdOf at hconn
      rw [slice_take buf (le_trans (by decide) hcut)] at hconn
      refine ⟨hconn, hflags ▸ hplain, fun s' hs' => ?_⟩
      cases hget.symm.trans hs'
      refine ⟨buf.take (buf.length - HMAC_LEN), ?_⟩
      rw [← heq, List.take_append_drop]

end Check

/-- **Authentication of marked datagrams.** In a table with HMACs, a datagram with the HMAC flag and
without the handshake flag changes no session and reports no event but for the session of its
connection, under whose secret it is signed. -/
theorem marked_signed {cfg : SessionTableConfig} (henable : cfg.enableHmac = true) (hmac4 : Hmac)
    (t : SessionTable cfg) (peer : SocketAddr) (buf : Bytes) (random : Vector U8 8)
    (now clock : Instant) (hplain : NoHandshake buf) (hmark : Marked buf) :
    (∀ c, (t.handleDatagram hmac4 peer buf random now clock).table.get c ≠ t.get c →
      ∃ s, c = connIdOf buf ∧ t.get c = some s ∧ Signed hmac4 s buf) ∧
    ∀ e ∈ (t.handleDatagram hmac4 peer buf random now clock).events,
      ∃ s, t.get (connIdOf buf) = some s ∧ e.sessId = s.sessId ∧ Signed hmac4 s buf := by
  -- what leaves the shards alone and reports nothing
  have hidle {r : Handled cfg} (hevents : r.events = []) (hshards : r.table.shards = t.shards) :
      (∀ c, r.table.get c ≠ t.get c → ∃ s, c = connIdOf buf ∧ t.get c = some s ∧
        Signed hmac4 s buf) ∧
      ∀ e ∈ r.events, ∃ s, t.get (connIdOf buf) = some s ∧ e.sessId = s.sessId ∧
      Signed hmac4 s buf := by
    constructor
    · intro c hc
      refine absurd ?_ hc
      unfold SessionTable.get
      rw [hshards]
    · intro e he
      rw [hevents] at he
      exact absurd he List.not_mem_nil
  -- no handshake packet is read
  have hgreets {f : FrameRef} (h : Greets hmac4 t buf f) : False := by
    obtain ⟨header, frames, hreads, hflag, -⟩ := h
    exact hflag (reads_signed henable hplain hmark hreads).2.1
  cases handleDatagram_outcome hmac4 t peer buf random now clock with
  | dropped events shards => exact hidle events shards
  | refused events shards => exact hidle events shards
  | challenged f greets none events shards => exact hidle events shards
  | opened f rec answers => exact (hgreets answers.greets).elim
  | packet header frames s stats accepts events shards =>
    obtain ⟨hconn, -, hsigned⟩ := reads_signed henable hplain hmark accepts.reads
    have hget : t.get (connIdOf buf) = some s := hconn ▸ accepts.get
    constructor
    · intro c hc
      by_cases hne : connIdOf buf = c
      · cases hne
        exact ⟨s, rfl, hget, hsigned s hget⟩
      · refine absurd ?_ hc
        have hwrite :=
          t.get_write hne (some (handlePacket s stats peer header frames now clock).session)
        rw [← hwrite, ← hconn]
        unfold SessionTable.get
        rw [shards]
        rfl
    · intro e he
      rw [events] at he
      have hown := (own_handlePacket s stats peer header frames now clock).2 e he
      exact ⟨s, hget, hown.sessId_eq, hsigned s hget⟩

/-! ## With and without the flag -/

/-- A keyed checksum. -/
def checksum : Hmac := fun key data => Vector.replicate HMAC_LEN ((key ++ data).foldl (· + ·) 0)

/-- A table with HMACs, after the handshake of one client. -/
def guardedTable : SessionTable SessionTableConfig.default :=
  (SessionTable.new.run checksum hello).1

/-- A byte for the first connection. -/
def onePacket (flags : U8) : Bytes := (encode ⟨VERSION, flags, 1, 0, 0, 0⟩ [⟨0, 0, [7]⟩] []).1

/-- A byte from another address, with the HMAC flag, before its HMAC is attached. -/
def markedPacket : Bytes := attachHmac checksum SessionTableConfig.default 0 (onePacket FLAG_HMAC)

theorem marked_signed_packet :
    (guardedTable.handleDatagram checksum (.V4 1 1) markedPacket
      (Vector.replicate 8 0) 0 0).events ≠ [] ∧
    ∃ s, guardedTable.get 1 = some s ∧ Signed checksum s markedPacket := by
  have hevents :
      (guardedTable.handleDatagram checksum (.V4 1 1) markedPacket (Vector.replicate 8 0) 0
      0).events = [.Data 1 0 0 [7]] := by decide +kernel
  have hsigned := (marked_signed (by decide) checksum guardedTable (.V4 1 1) markedPacket
    (Vector.replicate 8 0) 0 0 (by decide +kernel) (by decide +kernel)).2
  refine ⟨by rw [hevents]; exact List.cons_ne_nil _ _, ?_⟩
  obtain ⟨s, hget, -, h⟩ :=
    hsigned (.Data 1 0 0 [7]) (by rw [hevents]; exact List.mem_singleton_self _)
  exact ⟨s, (by decide +kernel : connIdOf markedPacket = 1) ▸ hget, h⟩

/-- **A datagram without the flag needs no HMAC.** In a table with HMACs a plaintext from another
address moves the session there and is reported as its data. -/
theorem plaintext_unsigned : ∃ s s', guardedTable.get 1 = some s ∧
    (guardedTable.handleDatagram checksum (.V4 1 1) (onePacket 0)
      (Vector.replicate 8 0) 0 0).table.get 1 = some s' ∧
    NoHandshake (onePacket 0) ∧ s'.peer ≠ s.peer ∧
    (guardedTable.handleDatagram checksum (.V4 1 1) (onePacket 0)
      (Vector.replicate 8 0) 0 0).events = [.Data s.sessId 0 0 [7]] ∧
    ¬ Signed checksum s (onePacket 0) := by
  have hbefore : (guardedTable.get 1).map (fun s => (s.peer, s.sessId, s.secret)) =
      some (.V4 0 0, 1, 0) := by decide +kernel
  have hafter :
      ((guardedTable.handleDatagram checksum (.V4 1 1) (onePacket 0) (Vector.replicate 8 0) 0
      0).table.get 1).map (fun s => s.peer) = some (.V4 1 1) := by decide +kernel
  obtain ⟨s, hs, hfields⟩ := Option.map_eq_some_iff.1 hbefore
  obtain ⟨s', hs', hpeer'⟩ := Option.map_eq_some_iff.1 hafter
  obtain ⟨hpeer, hid, hsecret⟩ : s.peer = .V4 0 0 ∧ s.sessId = 1 ∧ s.secret = 0 := by
    cases s
    cases hfields
    exact ⟨rfl, rfl, rfl⟩
  refine ⟨s, s', hs, hs', by decide +kernel, ?_, ?_, ?_⟩
  · rw [hpeer, hpeer']
    decide
  · rw [hid]
    decide +kernel
  · rintro ⟨data, hdata⟩
    rw [hsecret] at hdata
    have hlen : (onePacket 0).length = data.length + HMAC_LEN := by
      conv_lhs => rw [hdata]
      rw [List.length_append, Vector.length_toList]
    have htake : data = (onePacket 0).take ((onePacket 0).length - HMAC_LEN) := by
      rw [hlen, Nat.add_sub_cancel]
      conv_rhs => rw [hdata]
      rw [List.take_left]
    rw [htake] at hdata
    revert hdata
    decide +kernel

end SoupEngine
