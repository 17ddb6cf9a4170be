import SoupEngine.Sdk.Buffer
import SoupEngine.Sdk.Order

/-!
# Recordings

A recording is a file: a header with the seed, the rate and the number of ticks, and behind it the
inputs in the order in which they were written. `Replay` sorts them by tick and player before it
feeds them to a new room, so what is written tick by tick is fed back in the same order if every
tick is in the order of the players (`replayTicks_records`).
-/

namespace SoupEngine.Sdk

open InsertionSort

/-- `"SOUPR1\x00\x00"`. -/
def replayMagic : Bytes := [0x53, 0x4F, 0x55, 0x50, 0x52, 0x31, 0x00, 0x00]

structure ReplayRec where
  tick : U32
  player : U32
  seq : U16
  payload : Bytes
  deriving DecidableEq

/-! ## Writing -/

/-- The file of a new `ReplayWriter`. -/
def newReplayWriter (seed : U64) (tickHz : ℕ) : Bytes :=
  replayMagic ++ leBytes seed ++ leBytes (BitVec.ofNat 32 tickHz) ++ leBytes (0 : U32)

/-- A head of twelve bytes, and the payload. -/
def ReplayRec.bytes (r : ReplayRec) : Bytes :=
  leBytes r.tick ++ leBytes r.player ++ leBytes r.seq ++
    leBytes (BitVec.ofNat 16 r.payload.length) ++ r.payload

/-- `ReplayWriter.Record`: the file with one more record. -/
def Record (file : Bytes) (r : ReplayRec) : Bytes := file ++ r.bytes

/-- `ReplayWriter.Finish`. -/
def Finish (file : Bytes) (totalTicks : U32) : Bytes := patch file 20 (leBytes totalTicks)

/-! ## Reading -/

inductive ReplayError
  | ErrInvalid
  | EOF
  | ErrUnexpectedEOF
  | panic
  deriving DecidableEq

/-- `io.ReadFull` of `n` bytes; comes with the bytes behind them. -/
def readFull (n : ℕ) (data : Bytes) : Except ReplayError (Bytes × Bytes) :=
  if n ≤ data.length then .ok (data.take n, data.drop n)
  else if data = [] then .error .EOF
  else .error .ErrUnexpectedEOF

/-- The loop over the records, at most so many rounds of it. -/
def readRecs : ℕ → Bytes → Except ReplayError (List ReplayRec)
  | 0, _ => .ok []
  | rounds + 1, data =>
    match readFull 12 data with
    | .error e => if e = .EOF then .ok [] else .error e
    | .ok (head, data) =>
      let n := (fromLe 16 (slice head 10 12)).toNat
      if 4096 < n then .error .ErrInvalid
      else
        match readFull n data with
        | .error e => .error e
        | .ok (payload, data) =>
          let r := ⟨fromLe 32 (slice head 0 4), fromLe 32 (slice head 4 8),
            fromLe 16 (slice head 8 10), payload⟩
          (readRecs rounds data).map (r :: ·)

/-- What `Replay` reads: the seed, the rate, the number of ticks and the records. -/
def readReplay (file : Bytes) : Except ReplayError (U64 × ℕ × U32 × List ReplayRec) :=
  match readFull 8 file with
  | .error _ => .error .ErrInvalid
  | .ok (magic, data) =>
    if magic ≠ replayMagic then .error .ErrInvalid
    else
      match readFull 16 data with
      | .error e => .error e
      | .ok (hdr, data) =>
        let tickHz := (fromLe 32 (slice hdr 8 12)).toNat
        let tickHz := if tickHz = 0 then 20 else tickHz
        match readRecs data.length data with
        | .error e => .error e
        | .ok recs =>
          if recs = [] then .error .ErrInvalid
          else .ok (fromLe 64 (slice hdr 0 8), tickHz, fromLe 32 (slice hdr 12 16), recs)

/-! ## Feeding -/

/-- What is called of the implementation of a room. -/
inductive ImplCall
  | OnJoin (player : PlayerID)
  | OnLeave (player : PlayerID) (why : LeaveReason)
  | OnResume (player : PlayerID) (gapMS : U32)
  | OnInput (player : PlayerID) (seq : InputSeq) (payload : Bytes)
  | Tick (tick : Tick) (dtMS : U32)
  deriving DecidableEq

/-- A call that a recording is about. -/
def ImplCall.counted : ImplCall → Bool
  | .OnInput _ _ _ => true
  | .Tick _ _ => true
  | _ => false

/-- The loop condition of the sort on `recs[j-1]` and `recs[j]`. -/
def recAfter (a b : ReplayRec) : Bool :=
  decide (b.tick < a.tick) || decide (a.tick = b.tick) && decide (b.player < a.player)

/-- The insertion sort, which is written as the one of `deliverReadyInputs` is. -/
def sortRecs (recs : List ReplayRec) : Option (List ReplayRec) := InsertionSort.sort recAfter recs

/-- The inner loop: the records of this tick are fed, and who has not joined yet joins before. -/
def feedTick (t : U32) : List ReplayRec → List PlayerID →
    List ImplCall × List PlayerID × List ReplayRec
  | [], joined => ([], joined, [])
  | r :: recs, joined =>
    if r.tick = t then
      let join := if r.player ∈ joined then [] else [ImplCall.OnJoin r.player]
      let joined := if r.player ∈ joined then joined else r.player :: joined
      let (calls, joined, recs) := feedTick t recs joined
      (join ++ ImplCall.OnInput r.player r.seq r.payload :: calls, joined, recs)
    else ([], joined, r :: recs)

/-- So many rounds of the outer loop, from the tick `t` on. -/
def replayTicks (dtMS : U32) : ℕ → ℕ → List ReplayRec → List PlayerID → List ImplCall
  | 0, _, _, _ => []
  | n + 1, t, recs, joined =>
    let (calls, joined, recs) := feedTick (BitVec.ofNat 32 t) recs joined
    calls ++ ImplCall.Tick (BitVec.ofNat 32 t) dtMS :: replayTicks dtMS n (t + 1) recs joined

/-- `Replay`, up to the room: the seed, the calls of the new room, and the number of records. -/
def replayCalls (file : Bytes) : Except ReplayError (U64 × List ImplCall × ℕ) :=
  match readReplay file with
  | .error e => .error e
  | .ok (seed, tickHz, totalTicks, recs) =>
    match sortRecs recs with
    | none => .error .panic
    | some recs =>
      let maxTick := if totalTicks = 0 then (recs.getLast?.map ReplayRec.tick).getD 0
        else totalTicks
      .ok (seed, replayTicks (BitVec.ofNat 32 (1000 / tickHz)) maxTick.toNat 0 recs [], recs.length)

theorem replayCalls_eq_ok {file : Bytes} {seed : U64} {calls : List ImplCall} {n : ℕ}
    (h : replayCalls file = .ok (seed, calls, n)) :
      ∃ (tickHz : ℕ) (totalTicks maxTick : U32) (recs ys : List ReplayRec),
      readReplay file = .ok (seed, tickHz, totalTicks, recs) ∧ sortRecs recs = some ys ∧
        calls = replayTicks (BitVec.ofNat 32 (1000 / tickHz)) maxTick.toNat 0 ys [] := by
  unfold replayCalls at h
  cases hread : readReplay file with
  | error e =>
    rw [hread] at h
    cases h
  | ok out =>
    obtain ⟨seed', tickHz, totalTicks, recs⟩ := out
    rw [hread] at h
    dsimp only at h
    cases hsort : sortRecs recs with
    | none =>
      rw [hsort] at h
      cases h
    | some ys =>
      rw [hsort] at h
      simp only [Except.ok.injEq, Prod.mk.injEq] at h
      obtain ⟨rfl, rfl, -⟩ := h
      exact ⟨tickHz, totalTicks, _, recs, ys, rfl, hsort, rfl⟩

/-! ## The file, read back -/

theorem readFull_append {n : ℕ} {front : Bytes} (h : front.length = n) (rest : Bytes) :
    readFull n (front ++ rest) = .ok (front, rest) := by
  unfold readFull
  rw [if_pos (by rw [List.length_append]; omega), List.take_left' h, List.drop_left' h]

/-- Short payloads are read back. -/
theorem readRecs_bytes {recs : List ReplayRec} (h : ∀ r ∈ recs, r.payload.length ≤ 4096)
    {rounds : ℕ} (hr : (recs.flatMap ReplayRec.bytes).length ≤ rounds) :
    readRecs rounds (recs.flatMap ReplayRec.bytes) = .ok recs := by
  induction recs generalizing rounds with
  | nil =>
    cases rounds with
    | zero => rfl
    | succ n => rfl
  | cons r recs ih =>
    rw [List.forall_mem_cons] at h
    rw [List.flatMap_cons] at hr ⊢
    have hlen : (leBytes r.tick ++ leBytes r.player ++ leBytes r.seq ++
        leBytes (BitVec.ofNat 16 r.payload.length)).length = 12 := by simp
    have hbytes : r.bytes = (leBytes r.tick ++ leBytes r.player ++ leBytes r.seq ++
        leBytes (BitVec.ofNat 16 r.payload.length)) ++ r.payload := rfl
    rw [hbytes, List.append_assoc] at hr ⊢
    obtain ⟨n, rfl⟩ : ∃ n, rounds = n + 1 := by
      rw [List.length_append, hlen] at hr
      exact ⟨rounds - 1, by omega⟩
    have htick : slice (leBytes r.tick ++ leBytes r.player ++ leBytes r.seq ++
        leBytes (BitVec.ofNat 16 r.payload.length)) 0 4 = leBytes r.tick := by
      rw [List.append_assoc, List.append_assoc]
      exact slice_first (by simp)
    have hplayer : slice (leBytes r.tick ++ leBytes r.player ++ leBytes r.seq ++
        leBytes (BitVec.ofNat 16 r.payload.length)) 4 8 = leBytes r.player := by
      rw [List.append_assoc]
      exact slice_mid (by simp) (by simp)
    have hseq : slice (leBytes r.tick ++ leBytes r.player ++ leBytes r.seq ++
        leBytes (BitVec.ofNat 16 r.payload.length)) 8 10 = leBytes r.seq :=
          slice_mid (by simp) (by simp)
    have hcount : slice (leBytes r.tick ++ leBytes r.player ++ leBytes r.seq ++
        leBytes (BitVec.ofNat 16 r.payload.length)) 10 12 =
          leBytes (BitVec.ofNat 16 r.payload.length) :=
      slice_last (by simp) (by simp)
    have hfits : (BitVec.ofNat 16 r.payload.length).toNat = r.payload.length := by
      rw [BitVec.toNat_ofNat]
      exact Nat.mod_eq_of_lt (by omega)
    unfold readRecs
    rw [readFull_append hlen]
    dsimp only
    rw [hcount, fromLe_leBytes (by decide), hfits, if_neg (by omega), readFull_append rfl]
    dsimp only
    rw [ih h.2 (by rw [List.length_append, hlen, List.length_append] at hr; omega), htick, hplayer,
      hseq, fromLe_leBytes (by decide), fromLe_leBytes (by decide), fromLe_leBytes (by decide)]
    rfl

/-- Long payloads are not read. -/
theorem readRecs_short {rounds : ℕ} {data : Bytes} {recs : List ReplayRec}
    (h : readRecs rounds data = .ok recs) :
    ∀ r ∈ recs, r.payload.length ≤ 4096 := by
  induction rounds generalizing data recs with
  | zero =>
    obtain rfl := Except.ok.inj h
    exact fun r hr => by cases hr
  | succ n ih =>
    unfold readRecs at h
    cases hhead : readFull 12 data with
    | error e =>
      rw [hhead] at h
      dsimp only at h
      split_ifs at h
      obtain rfl := Except.ok.inj h
      exact fun r hr => by cases hr
    | ok out =>
      obtain ⟨head, data⟩ := out
      rw [hhead] at h
      dsimp only at h
      split_ifs at h with hlong
      cases hpayload : readFull (fromLe 16 (slice head 10 12)).toNat data with
      | error e =>
        rw [hpayload] at h
        cases h
      | ok out =>
        obtain ⟨payload, data⟩ := out
        rw [hpayload] at h
        dsimp only at h
        cases hrest : readRecs n data with
        | error e =>
          rw [hrest] at h
          cases h
        | ok rest =>
          rw [hrest] at h
          obtain rfl := Except.ok.inj h
          have hlen : payload.length ≤ 4096 := by
            unfold readFull at hpayload
            split_ifs at hpayload with hn
            obtain ⟨rfl, -⟩ := Prod.mk.inj (Except.ok.inj hpayload)
            rw [List.length_take]
            omega
          exact List.forall_mem_cons.2 ⟨hlen, ih hrest⟩

theorem foldl_Record (file : Bytes) (recs : List ReplayRec) :
    recs.foldl Record file = file ++ recs.flatMap ReplayRec.bytes := by
  induction recs generalizing file with
  | nil => exact (List.append_nil file).symm
  | cons r recs ih =>
    rw [List.foldl_cons, ih, List.flatMap_cons, ← List.append_assoc]
    rfl

section File

variable (seed : U64) (tickHz : ℕ) (totalTicks : U32) (body : Bytes)

/-- The number of ticks is written in the header. -/
theorem Finish_eq : Finish (newReplayWriter seed tickHz ++ body) totalTicks =
    replayMagic ++
      ((leBytes seed ++ leBytes (BitVec.ofNat 32 tickHz) ++ leBytes totalTicks) ++ body) := by
  have htotal : (leBytes totalTicks).length = 4 := length_leBytes totalTicks
  have hfront : (replayMagic ++ leBytes seed ++ leBytes (BitVec.ofNat 32 tickHz)).length = 20 := by
    simp [replayMagic]
  have hzero : (leBytes (0 : U32)).length = 4 := length_leBytes (0 : U32)
  have hfile : newReplayWriter seed tickHz ++ body =
      (replayMagic ++ leBytes seed ++ leBytes (BitVec.ofNat 32 tickHz)) ++
        (leBytes (0 : U32) ++ body) := by
    unfold newReplayWriter
    rw [List.append_assoc]
  unfold Finish
  have hroom : 20 + (leBytes totalTicks).length ≤
      ((replayMagic ++ leBytes seed ++ leBytes (BitVec.ofNat 32 tickHz)) ++
        (leBytes (0 : U32) ++ body)).length := by
    simp [replayMagic]
    omega
  rw [hfile, patch_eq hroom, htotal, List.take_left' hfront, List.drop_append, hfront,
    List.drop_eq_nil_of_le (by omega), List.nil_append, List.drop_left' (by rw [hzero])]
  simp only [List.append_assoc]

/-- The header is read back, and the loop goes over what is behind it. -/
theorem readReplay_eq : readReplay (Finish (newReplayWriter seed tickHz ++ body) totalTicks) =
    match readRecs body.length body with
    | .error e => .error e
    | .ok recs =>
      if recs = [] then .error .ErrInvalid
      else .ok (seed, if tickHz % 2 ^ 32 = 0 then 20 else tickHz % 2 ^ 32, totalTicks, recs) := by
  have hhdr : (leBytes seed ++ leBytes (BitVec.ofNat 32 tickHz) ++ leBytes totalTicks).length =
    16 := by simp
  have hseed : slice (leBytes seed ++ leBytes (BitVec.ofNat 32 tickHz) ++ leBytes totalTicks) 0 8 =
      leBytes seed := by
    rw [List.append_assoc]
    exact slice_first (by simp)
  have hhz : slice (leBytes seed ++ leBytes (BitVec.ofNat 32 tickHz) ++ leBytes totalTicks) 8 12 =
      leBytes (BitVec.ofNat 32 tickHz) := slice_mid (by simp) (by simp)
  have htotal :
      slice (leBytes seed ++ leBytes (BitVec.ofNat 32 tickHz) ++ leBytes totalTicks) 12 16 =
      leBytes totalTicks := slice_last (by simp) (by simp)
  rw [Finish_eq]
  have hmagic : replayMagic.length = 8 := rfl
  unfold readReplay
  rw [readFull_append hmagic]
  dsimp only
  rw [if_neg (not_not.2 rfl), readFull_append hhdr]
  dsimp only
  rw [hseed, hhz, htotal, fromLe_leBytes (by decide), fromLe_leBytes (by decide),
    fromLe_leBytes (by decide), BitVec.toNat_ofNat]

end File

/-! ## Ticks -/

def ImplCall.isInput : ImplCall → Bool
  | .OnInput _ _ _ => true
  | _ => false

def ImplCall.isTick : ImplCall → Bool
  | .Tick _ _ => true
  | _ => false

/-- The order of a recording: by tick, then by player. -/
def ReplayRec.key (r : ReplayRec) : ℕ ×ₗ ℕ := toLex (r.tick.toNat, r.player.toNat)

theorem recAfter_eq : recAfter = fun a b => decide (b.key < a.key) := by
  funext a b
  unfold recAfter ReplayRec.key
  simp only [Prod.Lex.toLex_lt_toLex, Bool.decide_or, Bool.decide_and, BitVec.lt_def,
    BitVec.toNat_inj, eq_comm]

theorem sortRecs_sorted {recs : List ReplayRec} (h : recs.Pairwise fun a b => a.key ≤ b.key) :
    sortRecs recs = some recs := by
  have hmin : ∀ a ∈ recs.head?, ∀ b ∈ recs, a.key ≤ b.key := by
    cases recs with
    | nil => exact fun a ha => by cases ha
    | cons r recs =>
      intro a ha b hb
      obtain rfl : r = a := Option.some.inj ha
      rcases List.mem_cons.1 hb with rfl | hb
      · exact le_rfl
      · exact (List.pairwise_cons.1 h).1 b hb
  obtain ⟨ys, hys, hsorts⟩ := sort_sorts hmin
  unfold sortRecs
  rw [recAfter_eq, hys, hsorts.unique ⟨h, fun _ => rfl⟩ fun _ => rfl]

theorem sorts_of_sortRecs {recs ys : List ReplayRec} (h : sortRecs recs = some ys) :
    Sorts ReplayRec.key recs ys := by
  unfold sortRecs at h
  rw [recAfter_eq] at h
  by_cases hmin : ∀ a ∈ recs.head?, ∀ b ∈ recs, a.key ≤ b.key
  · obtain ⟨zs, hzs, hsorts⟩ := sort_sorts hmin
    rw [hzs] at h
    obtain rfl := Option.some.inj h
    exact hsorts
  · rw [sort_eq_none hmin] at h
    cases h

/-- An input that is delivered in this tick, as it is recorded. -/
def PendingDeliver.record (tick : U32) (d : PendingDeliver) : ReplayRec :=
  ⟨tick, d.player, d.seq, d.payload⟩

def PendingDeliver.call (d : PendingDeliver) : ImplCall := .OnInput d.player d.seq d.payload

/-- The records of ticks, of which each has delivered these inputs. -/
def records (t : ℕ) : List (List PendingDeliver) → List ReplayRec
  | [] => []
  | D :: Ds => D.map (PendingDeliver.record (BitVec.ofNat 32 t)) ++ records (t + 1) Ds

/-- The calls of these ticks. -/
def tickCalls (dtMS : U32) (t : ℕ) : List (List PendingDeliver) → List ImplCall
  | [] => []
  | D :: Ds =>
    D.map PendingDeliver.call ++ ImplCall.Tick (BitVec.ofNat 32 t) dtMS :: tickCalls dtMS (t + 1) Ds

section Ticks

variable {dtMS : U32} {t : ℕ} {Ds : List (List PendingDeliver)}

theorem records_concat (D : List PendingDeliver) : records t (Ds ++ [D]) =
    records t Ds ++ D.map (PendingDeliver.record (BitVec.ofNat 32 (t + Ds.length))) := by
  induction Ds generalizing t with
  | nil => exact List.append_nil _
  | cons E Es ih =>
    have hnext : t + 1 + Es.length = t + (E :: Es).length := by rw [List.length_cons]; omega
    calc records t (E :: (Es ++ [D]))
        = E.map (PendingDeliver.record (BitVec.ofNat 32 t)) ++ (records (t + 1) Es ++
          D.map (PendingDeliver.record (BitVec.ofNat 32 (t + 1 + Es.length)))) := by
          rw [records, ih]
      _ = records t (E :: Es) ++
          D.map (PendingDeliver.record (BitVec.ofNat 32 (t + (E :: Es).length))) := by
          rw [hnext, records, List.append_assoc]

theorem tickCalls_concat (D : List PendingDeliver) : tickCalls dtMS t (Ds ++ [D]) =
    tickCalls dtMS t Ds ++
      (D.map PendingDeliver.call ++ [.Tick (BitVec.ofNat 32 (t + Ds.length)) dtMS]) := by
  induction Ds generalizing t with
  | nil => rfl
  | cons E Es ih =>
    have hnext : t + 1 + Es.length = t + (E :: Es).length := by rw [List.length_cons]; omega
    calc tickCalls dtMS t (E :: (Es ++ [D]))
        = E.map PendingDeliver.call ++ .Tick (BitVec.ofNat 32 t) dtMS ::
          (tickCalls dtMS (t + 1) Es ++ (D.map PendingDeliver.call ++
            [.Tick (BitVec.ofNat 32 (t + 1 + Es.length)) dtMS])) := by
          rw [tickCalls, ih]
      _ = tickCalls dtMS t (E :: Es) ++ (D.map PendingDeliver.call ++
          [.Tick (BitVec.ofNat 32 (t + (E :: Es).length)) dtMS]) := by
          rw [hnext, tickCalls, List.append_assoc, List.cons_append]

theorem length_records : (records t Ds).length = Ds.flatten.length := by
  induction Ds generalizing t with
  | nil => rfl
  | cons D Ds ih =>
    calc (records t (D :: Ds)).length = D.length + (records (t + 1) Ds).length := by
          rw [records, List.length_append, List.length_map]
      _ = D.length + Ds.flatten.length := by rw [ih]
      _ = (D :: Ds).flatten.length := by rw [List.flatten_cons, List.length_append]

/-- A record has the payload of an input. -/
theorem payload_of_mem_records {r : ReplayRec} (h : r ∈ records t Ds) :
    ∃ D ∈ Ds, ∃ d ∈ D, r.payload = d.payload := by
  induction Ds generalizing t with
  | nil => cases h
  | cons D Ds ih =>
    rcases List.mem_append.1 h with h | h
    · obtain ⟨d, hd, rfl⟩ := List.mem_map.1 h
      exact ⟨D, List.mem_cons_self, d, hd, rfl⟩
    · obtain ⟨E, hE, d, hd, hp⟩ := ih h
      exact ⟨E, List.mem_cons_of_mem D hE, d, hd, hp⟩

theorem toNat_tick (h : t < 2 ^ 32) : (BitVec.ofNat 32 t).toNat = t := by
  rw [BitVec.toNat_ofNat]
  exact Nat.mod_eq_of_lt h

/-- A record has the tick of its place. -/
theorem tick_of_mem_records {r : ReplayRec} (h : r ∈ records t Ds) (hlt : t + Ds.length ≤ 2 ^ 32) :
    t ≤ r.tick.toNat ∧ r.tick.toNat < t + Ds.length := by
  induction Ds generalizing t with
  | nil => cases h
  | cons D Ds ih =>
    rw [List.length_cons] at hlt ⊢
    rcases List.mem_append.1 h with h | h
    · obtain ⟨d, -, rfl⟩ := List.mem_map.1 h
      have hmod : (BitVec.ofNat 32 t).toNat = t := toNat_tick (by omega)
      show t ≤ (BitVec.ofNat 32 t).toNat ∧ (BitVec.ofNat 32 t).toNat < _
      omega
    · have := ih h (by omega)
      omega

/-- The records are in the order of a recording if the inputs of every tick are in the order of the
players. -/
theorem pairwise_records (hlt : t + Ds.length ≤ 2 ^ 32) :
    (records t Ds).Pairwise (fun a b => a.key ≤ b.key) ↔
      ∀ D ∈ Ds, D.Pairwise fun a b => a.player.toNat ≤ b.player.toNat := by
  induction Ds generalizing t with
  | nil => exact iff_of_true List.Pairwise.nil fun D hD => by cases hD
  | cons D Ds ih =>
    rw [List.length_cons] at hlt
    have hmod : (BitVec.ofNat 32 t).toNat = t := toNat_tick (by omega)
    have hone : (D.map (PendingDeliver.record (BitVec.ofNat 32 t))).Pairwise
        (fun a b => a.key ≤ b.key) ↔
        D.Pairwise fun a b => a.player.toNat ≤ b.player.toNat := by
      rw [List.pairwise_map]
      refine List.Pairwise.iff fun a b => ?_
      unfold ReplayRec.key PendingDeliver.record
      simp [Prod.Lex.toLex_le_toLex]
    have hacross : ∀ a ∈ D.map (PendingDeliver.record (BitVec.ofNat 32 t)),
        ∀ b ∈ records (t + 1) Ds, a.key ≤ b.key := by
      intro a ha b hb
      obtain ⟨d, -, rfl⟩ := List.mem_map.1 ha
      have hb := (tick_of_mem_records hb (by omega)).1
      refine Prod.Lex.toLex_le_toLex.2 (.inl ?_)
      show (BitVec.ofNat 32 t).toNat < b.tick.toNat
      omega
    rw [records, List.pairwise_append, hone, ih (by omega), List.forall_mem_cons]
    exact ⟨fun h => ⟨h.1, h.2.1⟩, fun h => ⟨h.1, h.2, hacross⟩⟩

/-! ## Feeding the records of a tick -/

/-- Records of this tick are fed, and those behind them of another tick are not. -/
theorem feedTick_records (tick : U32) (D : List PendingDeliver) {rest : List ReplayRec}
    (hrest : ∀ r ∈ rest.head?, r.tick ≠ tick) (joined : List PlayerID) :
    ((feedTick tick (D.map (PendingDeliver.record tick) ++ rest) joined).1.filter ImplCall.counted =
        D.map PendingDeliver.call) ∧
      (feedTick tick (D.map (PendingDeliver.record tick) ++ rest) joined).2.2 = rest := by
  induction D generalizing joined with
  | nil =>
    cases rest with
    | nil => exact ⟨rfl, rfl⟩
    | cons r rest =>
      have hne : r.tick ≠ tick := hrest r rfl
      rw [List.map_nil, List.nil_append, feedTick, if_neg hne]
      exact ⟨rfl, rfl⟩
  | cons d D ih =>
    have htick : (d.record tick).tick = tick := rfl
    rw [List.map_cons, List.cons_append, feedTick, if_pos htick]
    dsimp only
    obtain ⟨hcalls, hleft⟩ := ih (if (d.record tick).player ∈ joined then joined
      else (d.record tick).player :: joined)
    refine ⟨?_, hleft⟩
    have hjoin : (if (d.record tick).player ∈ joined then ([] : List ImplCall)
        else [ImplCall.OnJoin (d.record tick).player]).filter ImplCall.counted = [] := by
      split_ifs <;> rfl
    rw [List.filter_append, hjoin, List.nil_append, List.filter_cons_of_pos rfl, hcalls]
    rfl

/-- **What is recorded tick by tick is fed back tick by tick.** -/
theorem replayTicks_records (dtMS : U32) (hlt : t + Ds.length ≤ 2 ^ 32) (joined : List PlayerID) :
    (replayTicks dtMS Ds.length t (records t Ds) joined).filter ImplCall.counted =
      tickCalls dtMS t Ds := by
  induction Ds generalizing t joined with
  | nil => rfl
  | cons D Ds ih =>
    rw [List.length_cons] at hlt
    have hmod : (BitVec.ofNat 32 t).toNat = t := toNat_tick (by omega)
    have hother : ∀ r ∈ (records (t + 1) Ds).head?, r.tick ≠ BitVec.ofNat 32 t := by
      intro r hr heq
      have hle := (tick_of_mem_records (List.mem_of_mem_head? hr) (by omega)).1
      rw [heq, hmod] at hle
      omega
    obtain ⟨hcalls, hleft⟩ := feedTick_records (BitVec.ofNat 32 t) D hother joined
    rw [List.length_cons, records, replayTicks]
    dsimp only
    rw [List.filter_append, hcalls, List.filter_cons_of_pos rfl, hleft, ih (by omega)]
    rfl

/-- A replay ends with a tick. -/
theorem replayTicks_last (dtMS : U32) (n t : ℕ) (recs : List ReplayRec) (joined : List PlayerID) :
    ∃ calls, replayTicks dtMS (n + 1) t recs joined =
      calls ++ [ImplCall.Tick (BitVec.ofNat 32 (t + n)) dtMS] := by
  induction n generalizing t recs joined with
  | zero => exact ⟨(feedTick (BitVec.ofNat 32 t) recs joined).1, rfl⟩
  | succ n ih =>
    obtain ⟨calls, hcalls⟩ := ih (t + 1) (feedTick (BitVec.ofNat 32 t) recs joined).2.2
      (feedTick (BitVec.ofNat 32 t) recs joined).2.1
    have hnext : t + 1 + n = t + (n + 1) := by omega
    refine ⟨(feedTick (BitVec.ofNat 32 t) recs joined).1 ++
      ImplCall.Tick (BitVec.ofNat 32 t) dtMS :: calls, ?_⟩
    rw [hnext] at hcalls
    rw [List.append_assoc, List.cons_append, ← hcalls]
    rfl

/-! ## What the calls tell of the records -/

/-- The records that these calls come from, with the number of ticks before them. -/
def recordsOf (t : ℕ) : List ImplCall → List ReplayRec
  | [] => []
  | .OnInput player seq payload :: calls =>
    ⟨BitVec.ofNat 32 t, player, seq, payload⟩ :: recordsOf t calls
  | .Tick _ _ :: calls => recordsOf (t + 1) calls
  | _ :: calls => recordsOf t calls

theorem recordsOf_tickCalls : recordsOf t (tickCalls dtMS t Ds) = records t Ds := by
  have hinputs (t : ℕ) (D : List PendingDeliver) (calls : List ImplCall) :
      recordsOf t (D.map PendingDeliver.call ++ calls) =
        D.map (PendingDeliver.record (BitVec.ofNat 32 t)) ++ recordsOf t calls := by
    induction D with
    | nil => rfl
    | cons d D ih => exact congrArg (d.record (BitVec.ofNat 32 t) :: ·) ih
  induction Ds generalizing t with
  | nil => rfl
  | cons D Ds ih =>
    rw [tickCalls, hinputs, records]
    exact congrArg (_ ++ ·) ih

/-- Records in the order of the ticks are the records of so many ticks. -/
theorem exists_records {n : ℕ} {recs : List ReplayRec} (hlt : t + n ≤ 2 ^ 32)
    (hsorted : recs.Pairwise fun a b => a.tick.toNat ≤ b.tick.toNat)
    (hrange : ∀ r ∈ recs, t ≤ r.tick.toNat ∧ r.tick.toNat < t + n) :
    ∃ Es : List (List PendingDeliver), Es.length = n ∧ records t Es = recs := by
  induction n generalizing t recs with
  | zero =>
    have hnil : recs = [] := List.eq_nil_iff_forall_not_mem.2 fun r hr => by
      have := hrange r hr
      omega
    exact ⟨[], rfl, hnil.symm⟩
  | succ n ih =>
    have hmod : (BitVec.ofNat 32 t).toNat = t := toNat_tick (by omega)
    have hsplit :=
      List.takeWhile_append_dropWhile (p := fun r : ReplayRec => decide (r.tick.toNat = t))
        (l := recs)
    have hlater : ∀ r ∈ recs.dropWhile (fun r => decide (r.tick.toNat = t)),
        t + 1 ≤ r.tick.toNat ∧ r.tick.toNat < t + 1 + n := by
      intro r hr
      have hin := hrange r ((List.dropWhile_suffix _).subset hr)
      refine ⟨?_, by omega⟩
      obtain ⟨a, as, hcons⟩ := List.exists_cons_of_ne_nil (List.ne_nil_of_mem hr)
      have hhead : ¬ a.tick.toNat = t := by
        have := List.head?_dropWhile_not (fun r : ReplayRec => decide (r.tick.toNat = t)) recs
        rw [hcons] at this
        simpa using this
      have hfirst :=
        hrange a ((List.dropWhile_suffix _).subset (by rw [hcons]; exact List.mem_cons_self))
      have hpair : (a :: as).Pairwise fun a b => a.tick.toNat ≤ b.tick.toNat := by
        rw [← hcons]
        exact hsorted.sublist (List.dropWhile_sublist _)
      rw [hcons] at hr
      rcases List.mem_cons.1 hr with rfl | hr
      · omega
      · have := (List.pairwise_cons.1 hpair).1 r hr
        omega
    obtain ⟨Es, hlen, hEs⟩ := ih (by omega) (hsorted.sublist (List.dropWhile_sublist _)) hlater
    refine ⟨(recs.takeWhile fun r => decide (r.tick.toNat = t)).map
      (fun r => ⟨r.player, 0, r.seq, r.payload, none⟩) :: Es,
      by rw [List.length_cons, hlen], ?_⟩
    have hback : (recs.takeWhile fun r => decide (r.tick.toNat = t)).map
        (PendingDeliver.record (BitVec.ofNat 32 t) ∘ fun r =>
          ⟨r.player, 0, r.seq, r.payload, none⟩) =
          recs.takeWhile fun r => decide (r.tick.toNat = t) := by
      refine (List.map_congr_left fun r hr => ?_).trans (List.map_id _)
      have htick : r.tick = BitVec.ofNat 32 t := by
        have hnat : decide (r.tick.toNat = t) = true :=
          List.mem_takeWhile_imp (p := fun r : ReplayRec => decide (r.tick.toNat = t)) hr
        rw [← BitVec.toNat_inj, hmod, of_decide_eq_true hnat]
      show (⟨BitVec.ofNat 32 t, r.player, r.seq, r.payload⟩ : ReplayRec) = r
      rw [← htick]
    rw [records, List.map_map, hback, hEs, hsplit]

/-! ## What is fed at all -/

theorem feedTick_spec (tick : U32) (recs : List ReplayRec) (joined : List PlayerID) :
    (feedTick tick recs joined).1.countP ImplCall.isTick = 0 ∧
      (feedTick tick recs joined).1.countP
        ImplCall.isInput + (feedTick tick recs joined).2.2.length = recs.length ∧
      (feedTick tick recs joined).2.2 <:+ recs ∧
      ∀ p seq payload, ImplCall.OnInput p seq payload ∈ (feedTick tick recs joined).1 →
        ∃ r ∈ recs, r.payload = payload := by
  induction recs generalizing joined with
  | nil => exact ⟨rfl, rfl, List.suffix_refl _, fun p seq payload h => by cases h⟩
  | cons r recs ih =>
    rw [feedTick]
    by_cases htick : r.tick = tick
    · rw [if_pos htick]
      dsimp only
      generalize hjoined : (if r.player ∈ joined then joined else r.player :: joined) = joined'
      generalize hjoin : (if r.player ∈ joined then [] else [ImplCall.OnJoin r.player]) = join
      obtain ⟨hticks, hinputs, hleft, hpayload⟩ := ih joined'
      -- who joins makes neither an input nor a tick
      have hall : ∀ c ∈ join, c = .OnJoin r.player := by
        intro c hc
        rw [← hjoin] at hc
        split_ifs at hc
        · cases hc
        · exact List.mem_singleton.1 hc
      have hjoinTick : join.countP ImplCall.isTick = 0 :=
        List.countP_eq_zero.2 fun c hc => by rw [hall c hc]; exact Bool.false_ne_true
      have hjoinInput : join.countP ImplCall.isInput = 0 :=
        List.countP_eq_zero.2 fun c hc => by rw [hall c hc]; exact Bool.false_ne_true
      refine ⟨?_, ?_, hleft.trans (List.suffix_cons r recs), fun p seq payload h => ?_⟩
      · rw [List.countP_append, hjoinTick, List.countP_cons_of_neg Bool.false_ne_true, hticks]
      · rw [List.countP_append, hjoinInput, List.countP_cons_of_pos rfl, List.length_cons,
          Nat.zero_add, Nat.add_right_comm]
        exact congrArg (· + 1) hinputs
      · rcases List.mem_append.1 h with h | h
        · cases hall _ h
        · rcases List.mem_cons.1 h with h | h
          · injection h with _ _ hp
            exact ⟨r, List.mem_cons_self, hp.symm⟩
          · obtain ⟨r', hr', hp⟩ := hpayload p seq payload h
            exact ⟨r', List.mem_cons_of_mem r hr', hp⟩
    · rw [if_neg htick]
      exact ⟨rfl, Nat.zero_add _, List.suffix_refl _, fun p seq payload h => by cases h⟩

/-- A replay makes as many ticks as it has rounds, no more inputs than there are records, and its
payloads are theirs. -/
theorem replayTicks_spec (dtMS : U32) (n t : ℕ) (recs : List ReplayRec) (joined : List PlayerID) :
    (replayTicks dtMS n t recs joined).countP ImplCall.isTick = n ∧
      (replayTicks dtMS n t recs joined).countP ImplCall.isInput ≤ recs.length ∧
      (∀ p seq payload, ImplCall.OnInput p seq payload ∈ replayTicks dtMS n t recs joined →
        ∃ r ∈ recs, r.payload = payload) ∧
      ∀ tick dt, ImplCall.Tick tick dt ∈ replayTicks dtMS n t recs joined → dt = dtMS := by
  induction n generalizing t recs joined with
  | zero =>
    exact ⟨rfl, Nat.zero_le _, fun p seq payload h => (by cases h), fun tick dt h => by cases h⟩
  | succ n ih =>
    obtain ⟨hticks, hinputs, hleft, hpayload⟩ := feedTick_spec (BitVec.ofNat 32 t) recs joined
    obtain ⟨hticks', hinputs', hpayload', hdt⟩ :=
      ih (t + 1) (feedTick (BitVec.ofNat 32 t) recs joined).2.2
      (feedTick (BitVec.ofNat 32 t) recs joined).2.1
    rw [replayTicks]
    dsimp only
    refine ⟨?_, ?_, fun p seq payload h => ?_, fun tick dt h => ?_⟩
    · rw [List.countP_append, hticks, List.countP_cons_of_pos rfl, hticks', Nat.zero_add]
    · rw [List.countP_append, List.countP_cons_of_neg Bool.false_ne_true]
      exact (Nat.add_le_add_left hinputs' _).trans hinputs.le
    · rcases List.mem_append.1 h with h | h
      · exact hpayload p seq payload h
      · rcases List.mem_cons.1 h with h | h
        · cases h
        · obtain ⟨r, hr, hp⟩ := hpayload' p seq payload h
          exact ⟨r, hleft.subset hr, hp⟩
    · rcases List.mem_append.1 h with h | h
      · exact absurd rfl (List.countP_eq_zero.1 hticks _ h)
      · rcases List.mem_cons.1 h with h | h
        · injection h
        · exact hdt tick dt h

end Ticks

end SoupEngine.Sdk
