import SoupEngine.Sdk.Recording
import SoupEngine.Sdk.DetRand
import SoupEngine.Lib.Script

/-!
# Rooms that are replayed

The callbacks of a room may call its `ctx`, and a replay hands them a `RoomCtx` without a room:
every call on it panics, but for a `Commit` or an `Abort` that has nothing to do. So a replay gets
to its end exactly if the calls that it makes ask nothing else (`Impl.feed_isSome_iff`), and then a
room that depends on its inputs and its ticks alone is where these lead with any other `ctx`
(`Impl.lives_unique`).
-/

namespace SoupEngine.Sdk

/-- `Result`. -/
structure GameResult where
  Aborted : Bool
  Reason : String

/-- The calls of a `RoomCtx`. -/
inductive CtxRequest
  | BeginSend (player : PlayerID) (ch : U8) (msg : U16)
  | BeginMulticast (players : List PlayerID) (ch : U8) (msg : U16)
  | BeginBroadcast (ch : U8) (msg : U16)
  /-- A buffer may be `nil`. -/
  | Commit (b : Option Buffer)
  | Abort (b : Option Buffer)
  | Players
  | LastProcessedInput (p : PlayerID)
  | RTTms (p : PlayerID)
  | LossPermille (p : PlayerID)
  | IsConnected (p : PlayerID)
  | Rand
  | End (result : GameResult)
  | RequestKeyframe (p : PlayerID)
  | Kick (p : PlayerID) (reason : U8)

namespace CtxRequest

/-- What a call returns. -/
def Answer : CtxRequest → Type
  | BeginSend _ _ _ => Buffer
  | BeginMulticast _ _ _ => Buffer
  | BeginBroadcast _ _ => Buffer
  | Players => List PlayerID
  | LastProcessedInput _ => InputSeq
  | RTTms _ => U16
  | LossPermille _ => U16
  | IsConnected _ => Bool
  | Rand => DetRand
  | _ => Unit

/-- There is nothing to commit or to abort: the buffer is `nil` or closed. -/
def Void : CtxRequest → Prop
  | Commit b => ∀ b' ∈ b, b'.closed = true
  | Abort b => ∀ b' ∈ b, b'.closed = true
  | _ => False

/-- `&RoomCtx{}`: `Commit` and `Abort` look at the buffer first, all else goes to the room at once,
which is `nil`. -/
def onNilRoom : (c : CtxRequest) → Option c.Answer
  | Commit none => some ()
  | Commit (some b) => if b.closed = true then some () else none
  | Abort none => some ()
  | Abort (some b) => if b.closed = true then some () else none
  | _ => none

theorem isSome_onNilRoom_iff (c : CtxRequest) : c.onNilRoom.isSome ↔ c.Void := by
  have hbuffer (b : Option Buffer) (o : Option Unit)
      (ho : o = match b with | none => some () | some b => if b.closed = true then some ()
        else none) :
      o.isSome ↔ ∀ b' ∈ b, b'.closed = true := by
    rw [ho]
    cases b with
    | none => exact iff_of_true rfl fun b' hb => by cases hb
    | some b =>
      dsimp only
      split_ifs with hclosed
      · exact iff_of_true rfl fun b' hb => Option.some.inj hb ▸ hclosed
      · exact iff_of_false Bool.false_ne_true fun h => hclosed (h b rfl)
  cases c with
  | Commit b => exact hbuffer b _ (by cases b <;> rfl)
  | Abort b => exact hbuffer b _ (by cases b <;> rfl)
  | _ => exact iff_of_false Bool.false_ne_true id

/-- What is answered without a room is answered by nothing. -/
theorem subsingleton_answer (c : CtxRequest) (h : c.onNilRoom.isSome) : Subsingleton c.Answer := by
  cases c with
  | Commit b => exact inferInstanceAs (Subsingleton Unit)
  | Abort b => exact inferInstanceAs (Subsingleton Unit)
  | _ => cases h

end CtxRequest

/-- What a callback does. -/
abbrev Callback (α : Type) := Script CtxRequest.Answer α

/-- What `Tick` returns, of which a replay makes nothing. -/
inductive RoomOutcome
  | Continue
  | End

/-- A deterministic room. -/
structure Impl (σ : Type) where
  newRoom : U64 → σ
  OnJoin : σ → PlayerID → Callback σ
  OnLeave : σ → PlayerID → LeaveReason → Callback σ
  OnResume : σ → PlayerID → U32 → Callback σ
  OnInput : σ → PlayerID → InputSeq → Bytes → Callback σ
  Tick : σ → Tick → U32 → Callback (σ × RoomOutcome)
  StateHash : σ → U64

namespace Impl

variable {σ : Type}

def call (impl : Impl σ) (st : σ) : ImplCall → Callback σ
  | .OnJoin player => impl.OnJoin st player
  | .OnLeave player why => impl.OnLeave st player why
  | .OnResume player gapMS => impl.OnResume st player gapMS
  | .OnInput player seq payload => impl.OnInput st player seq payload
  | .Tick tick dtMS => (impl.Tick st tick dtMS).map Prod.fst

/-- A new room that is called so asks this of its `ctx`, and is left like this, whatever `ctx`
answers. -/
def Lives (impl : Impl σ) (seed : U64) (calls : List ImplCall) (asked : List CtxRequest) (st : σ) :
    Prop :=
  Script.Drives impl.call (impl.newRoom seed) calls asked st

/-- A new room that is called so may ask nothing of `ctx` but what is void, and does not panic. -/
def Alone (impl : Impl σ) (seed : U64) (calls : List ImplCall) : Prop :=
  ∃ asked st, impl.Lives seed calls asked st ∧ ∀ c ∈ asked, c.Void

/-- The room depends on its inputs and its ticks alone. -/
def InputOnly (impl : Impl σ) : Prop :=
  ∀ st c asked st', c.counted = false → (impl.call st c).Gives asked st' → st' = st

/-- The loop of `Replay` over the calls that it makes; the hash is taken after every tick. -/
def feed (impl : Impl σ) : σ → U64 → List ImplCall → Option U64
  | _, lastHash, [] => some lastHash
  | st, lastHash, c :: cs =>
    match (impl.call st c).run CtxRequest.onNilRoom with
    | none => none
    | some st =>
      match c with
      | .Tick _ _ => impl.feed st (impl.StateHash st) cs
      | _ => impl.feed st lastHash cs

/-- `Replay`: the last hash and the number of records. -/
def Replay (impl : Impl σ) (file : Bytes) : Except ReplayError (U64 × ℕ) :=
  match replayCalls file with
  | .error e => .error e
  | .ok (seed, calls, n) =>
    match impl.feed (impl.newRoom seed) 0 calls with
    | none => .error .panic
    | some lastHash => .ok (lastHash, n)

/-- The loop goes on as long as the room is driven. -/
theorem feed_append (impl : Impl σ) (st : σ) (lastHash : U64) (calls rest : List ImplCall) :
    ∃ lastHash',
    impl.feed st lastHash (calls ++ rest) =
      (Script.drive CtxRequest.onNilRoom impl.call st calls).bind fun st =>
        impl.feed st lastHash' rest := by
  induction calls generalizing st lastHash with
  | nil => exact ⟨lastHash, rfl⟩
  | cons c cs ih =>
    rw [List.cons_append, feed, Script.drive]
    cases hc : (impl.call st c).run CtxRequest.onNilRoom with
    | none => exact ⟨lastHash, rfl⟩
    | some st' =>
      cases c with
      | Tick tick dtMS => exact ih st' _
      | OnJoin | OnLeave | OnResume | OnInput => exact ih st' _

theorem isSome_feed (impl : Impl σ) (st : σ) (lastHash : U64) (calls : List ImplCall) :
    (impl.feed st lastHash calls).isSome =
      (Script.drive CtxRequest.onNilRoom impl.call st calls).isSome := by
  obtain ⟨lastHash', hfeed⟩ := feed_append impl st lastHash calls []
  rw [List.append_nil] at hfeed
  rw [hfeed]
  cases Script.drive CtxRequest.onNilRoom impl.call st calls <;> rfl

/-- After a tick the hash is that of the room. -/
theorem feed_concat_tick (impl : Impl σ) (st : σ) (lastHash : U64) (calls : List ImplCall)
    (tick dtMS : U32) :
    impl.feed st lastHash (calls ++ [.Tick tick dtMS]) =
      (Script.drive CtxRequest.onNilRoom impl.call st (calls ++ [.Tick tick dtMS])).map
        impl.StateHash := by
  obtain ⟨lastHash', hfeed⟩ := feed_append impl st lastHash calls [.Tick tick dtMS]
  rw [hfeed, Script.drive_append]
  cases Script.drive CtxRequest.onNilRoom impl.call st calls with
  | none => rfl
  | some st' =>
    rw [Option.bind_some, Option.bind_some, feed, Script.drive]
    cases (impl.call st' (.Tick tick dtMS)).run CtxRequest.onNilRoom <;> rfl

variable {impl : Impl σ} {seed : U64} {calls : List ImplCall}

/-- The room is driven through calls over which it asks nothing. -/
theorem drive_eq_some_iff {st : σ} :
    Script.drive CtxRequest.onNilRoom impl.call (impl.newRoom seed) calls = some st ↔
    ∃ asked, impl.Lives seed calls asked st ∧ ∀ c ∈ asked, c.Void := by
  refine (Script.drive_eq_some_iff CtxRequest.subsingleton_answer).trans ?_
  simp only [CtxRequest.isSome_onNilRoom_iff]
  exact Iff.rfl

theorem feed_isSome_iff (lastHash : U64) :
    (impl.feed (impl.newRoom seed) lastHash calls).isSome ↔ impl.Alone seed calls := by
  rw [isSome_feed, Option.isSome_iff_exists]
  constructor
  · rintro ⟨st, hst⟩
    obtain ⟨asked, hlives, hvoid⟩ := drive_eq_some_iff.1 hst
    exact ⟨asked, st, hlives, hvoid⟩
  · rintro ⟨asked, st, hlives, hvoid⟩
    exact ⟨st, drive_eq_some_iff.2 ⟨asked, hlives, hvoid⟩⟩

theorem Replay_eq_ok_iff {file : Bytes} {n : ℕ} (h : replayCalls file = .ok (seed, calls, n))
    {lastHash : U64} :
    impl.Replay file = .ok (lastHash, n) ↔
      impl.feed (impl.newRoom seed) 0 calls = some lastHash := by
  unfold Replay
  rw [h]
  dsimp only
  cases impl.feed (impl.newRoom seed) 0 calls with
  | none => exact iff_of_false nofun nofun
  | some hash => simp

/-- A room that depends on its inputs and its ticks alone, and asks nothing over these calls, is
left alike by any calls with the same inputs and ticks. -/
theorem lives_unique (honly : impl.InputOnly) {st : σ}
    (hst : Script.drive CtxRequest.onNilRoom impl.call (impl.newRoom seed) calls = some st)
    {calls' : List ImplCall} (hsame : calls.filter ImplCall.counted =
      calls'.filter ImplCall.counted) {asked' : List CtxRequest} {st' : σ}
    (hlives : impl.Lives seed calls' asked' st') : st = st' := by
  obtain ⟨asked, hquiet, hvoid⟩ := drive_eq_some_iff.1 hst
  have hidle (s : σ) (c : ImplCall) (asked : List CtxRequest) (s' : σ) (hc : c.counted = false)
      (hgives : (impl.call s c).Gives asked s') : s' = s := honly s c asked s' hc hgives
  obtain ⟨asked₁, h₁, hsub⟩ := Script.Drives.filter hidle hquiet
  obtain ⟨asked₂, h₂, -⟩ := Script.Drives.filter hidle hlives
  rw [← hsame] at h₂
  refine Script.Drives.unique CtxRequest.subsingleton_answer h₁ (fun c hc => ?_) h₂
  exact (CtxRequest.isSome_onNilRoom_iff c).2 (hvoid c (hsub c hc))

end Impl

/-! ## Joins -/

/-- Before the first input of a player that has not joined, the player joins. -/
def withJoins : List PlayerID → List ImplCall → List ImplCall
  | _, [] => []
  | joined, .OnInput player seq payload :: cs =>
    let join := if joined.contains player then [] else [ImplCall.OnJoin player]
    let joined := if joined.contains player then joined else player :: joined
    join ++ .OnInput player seq payload :: withJoins joined cs
  | joined, c :: cs => c :: withJoins joined cs

theorem withJoins_feedTick (t : U32) (recs : List ReplayRec) (joined : List PlayerID)
    (rest : List ImplCall) :
    withJoins joined ((feedTick t recs joined).1.filter ImplCall.counted ++ rest) =
      (feedTick t recs joined).1 ++ withJoins (feedTick t recs joined).2.1 rest := by
  induction recs generalizing joined with
  | nil => rfl
  | cons r recs ih =>
    unfold feedTick
    by_cases ht : r.tick = t
    · rw [if_pos ht]
      dsimp only
      have hjoin : (if r.player ∈ joined then [] else [ImplCall.OnJoin r.player]).filter
          ImplCall.counted = [] := by
        split_ifs <;> rfl
      rw [List.filter_append, hjoin, List.nil_append, List.filter_cons_of_pos rfl, List.cons_append,
        withJoins]
      simp only [List.contains_iff_mem]
      rw [ih, List.append_assoc, List.cons_append]
    · rw [if_neg ht]
      rfl

/-- A replay makes these calls for the inputs and the ticks. -/
theorem withJoins_replayTicks (dtMS : U32) (n t : ℕ) (recs : List ReplayRec)
    (joined : List PlayerID) :
    withJoins joined ((replayTicks dtMS n t recs joined).filter ImplCall.counted) =
      replayTicks dtMS n t recs joined := by
  induction n generalizing t recs joined with
  | zero => rfl
  | succ n ih =>
    have htick (joined : List PlayerID) (cs : List ImplCall) :
        withJoins joined (.Tick (BitVec.ofNat 32 t) dtMS :: cs) =
          .Tick (BitVec.ofNat 32 t) dtMS :: withJoins joined cs := rfl
    unfold replayTicks
    dsimp only
    rw [List.filter_append, List.filter_cons_of_pos rfl, withJoins_feedTick, htick, ih]

end SoupEngine.Sdk
