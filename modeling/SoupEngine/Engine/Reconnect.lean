import SoupEngine.Engine.OpensFirst
import SoupEngine.Sdk.Seats
import SoupEngine.Sdk.Stays

/-!
# The link breaks and is made again

The engine and one SDK process over their link. The engine connects again and again, and writes the
greeting (the EngineHello and a SessionResume for every session) at the head of each connection. The
SDK accepts the connections in order; `readLoop` and `writeLoop` both may find one dead, and the
first of the two runs `onEngineDead`. What the SDK sends reaches the engine as an action on its
table, at any time.

`onEngineDead` forgets the sessions that live on in the engine, and their SessionResume brings none
of them back, so that only those are settled that have been refused or kicked in the run so far; if
the writer was first, those are settled too that have been seated and not cleared since
(`agrees_iff`).
-/

namespace SoupEngine

open TransitionSystem Chronicle
open Sdk (Server ServerAction Verdict BufId SeatEvent Seats TurnedAway Seated)

/-- What `readLoop` has read of a connection. -/
inductive Heard
  | nothing
  /-- Frames of the greeting and no others. -/
  | greeting
  | more
  deriving DecidableEq

/-- One more frame has been read. -/
def Heard.next (h : Heard) (greeting : Bool) : Heard :=
  if greeting = true ∧ h ≠ .more then .greeting else .more

/-- Where `readLoop` is. -/
inductive LinkReader
  | ensure
  | reading (k : ℕ) (heard : Heard)
  /-- In the `onDead` of `markDead`: it waits for the lock or has it. -/
  | marking (locked : Bool)
  deriving DecidableEq

structure Pairing (cfg : EngineConfig) where
  engine : Engine cfg
  server : Server
  /-- The number of connections that the engine has made. -/
  made : ℕ
  /-- The frames on a connection that have not been read, with a mark at those of the greeting. -/
  wire : ℕ → List (Frame × Bool)
  /-- The number of connections that the SDK has accepted. -/
  accepted : ℕ
  /-- `engineConn.cur`. -/
  cur : Option ℕ
  reader : LinkReader
  /-- `writeLoop` is in the `onDead` of `markDead`: it waits for the lock or has it. -/
  writer : Option Bool
  /-- The connection that was found dead last was found dead by `writeLoop`. -/
  overtaken : Bool

inductive PairingAction
  | engine (a : EngineAction)
  /-- `ensure` accepts a connection. -/
  | accept
  /-- `ensure` returns to `readLoop`. -/
  | ensured
  | read (raw : BufId) (v : Verdict) (queued : Bool)
  /-- A frame does not fit into the read buffer, and what has been read is thrown away. -/
  | skip
  /-- After that, anything may be taken for a frame. -/
  | misread (typ : U8) (body : Bytes) (raw : BufId) (v : Verdict) (queued : Bool)
  /-- `conn.Read` fails. -/
  | readFails
  /-- `conn.Write` fails. -/
  | writeFails
  | readerLocks
  | readerUnlocks
  | writerLocks
  | writerUnlocks
  /-- Something else happens in the SDK. -/
  | server (a : ServerAction)

namespace Engine

variable {cfg : EngineConfig}

/-- A step that reaches the logic server. -/
def connects (e : Engine cfg) : EngineAction → Bool
  | .connect =>
    match e.phase with
    | .waiting => true
    | _ => false
  | _ => false

/-- The greeting is being written. -/
def greets (e : Engine cfg) : Bool :=
  match e.phase with
  | .greeting | .walking .. | .resuming _ => true
  | _ => false

/-- A session of the table. -/
def Alive (e : Engine cfg) (sess : U64) : Prop :=
  ∃ i, ∃ s ∈ (e.shared.sessions.shards i).values, s.sessId = sess

end Engine

/-- The session is mapped to a room that contains its player. -/
def Placed (s : Server) (sess : U64) : Prop :=
  ∃ ref ∈ s.sessions[sess]?, ∃ r ∈ s.rooms[ref.roomID]?, ref.player ∈ r.room.players

namespace Pairing

variable {cfg : EngineConfig} (hmac4 : Hmac)

def start (now : Instant) (MaxRooms inboxCap JitterBufferTicks BaselineRingSize : ℕ) :
    Pairing cfg where
  engine := .start now
  server := .start MaxRooms inboxCap JitterBufferTicks BaselineRingSize
  made := 0
  wire := fun _ => []
  accepted := 0
  cur := none
  reader := .ensure
  writer := none
  overtaken := false

/-- A step of the engine. What it writes goes to its last connection. -/
def engineStep (c : Pairing cfg) (a : EngineAction) : Pairing cfg :=
  let e := c.engine.step hmac4 a
  { c with
    engine := e
    made := if c.engine.connects a = true then c.made + 1 else c.made
    wire := Function.update c.wire (c.made - 1) (c.wire (c.made - 1) ++
      (e.written.drop c.engine.written.length).map fun f => (f, c.engine.greets)) }

/-- `readLoop` may dispatch a frame: `routeToRoom` has returned, and nobody else has the lock. The
EngineHello needs no lock. -/
def Free (c : Pairing cfg) (typ : U8) : Prop :=
  c.server.routing.isNone = true ∧ (typ = FRAME_ENGINE_HELLO ∨ c.server.dying = false)

instance (c : Pairing cfg) (typ : U8) : Decidable (c.Free typ) :=
  inferInstanceAs (Decidable (c.server.routing.isNone = true ∧
    (typ = FRAME_ENGINE_HELLO ∨ c.server.dying = false)))

/-- A step of the SDK; where it does not fit nothing happens. -/
def sdkStep (c : Pairing cfg) : PairingAction → Pairing cfg
  | .engine _ => c
  | .accept =>
    if c.cur = none ∧ c.accepted < c.made then
      { c with cur := some c.accepted, accepted := c.accepted + 1 }
    else c
  | .ensured =>
    match c.reader, c.cur with
    | .ensure, some k => { c with reader := .reading k .nothing }
    | _, _ => c
  | .read raw v queued =>
    match c.reader with
    | .reading k heard =>
      match c.wire k with
      | [] => c
      | (f, greeting) :: rest =>
        if c.Free f.ty then
          { c with
            server := c.server.step (.frame f.ty f.body raw v queued)
            wire := Function.update c.wire k rest
            reader := .reading k (heard.next greeting) }
        else c
    | _ => c
  | .skip =>
    match c.reader with
    | .reading k _ =>
      match c.wire k with
      | (_, false) :: rest =>
        { c with wire := Function.update c.wire k rest, reader := .reading k .more }
      | _ => c
    | _ => c
  | .misread typ body raw v queued =>
    match c.reader with
    | .reading _ .more =>
      if c.Free typ then { c with server := c.server.step (.frame typ body raw v queued) } else c
    | _ => c
  | .readFails =>
    match c.reader with
    | .reading k _ =>
      if c.server.routing.isNone = true then
        if c.cur = some k then { c with cur := none, reader := .marking false, overtaken := false }
        else { c with reader := .ensure }
      else c
    | _ => c
  | .writeFails =>
    if c.cur.isSome = true ∧ c.writer = none then
      { c with cur := none, writer := some false, overtaken := true }
    else c
  | .readerLocks =>
    if c.reader = .marking false ∧ c.server.dying = false then
      { c with server := c.server.step .dead, reader := .marking true }
    else c
  | .readerUnlocks =>
    if c.reader = .marking true ∧ c.server.sessions.isEmpty = true then
      { c with server := c.server.step .cleared, reader := .ensure }
    else c
  | .writerLocks =>
    if c.writer = some false ∧ c.server.dying = false then
      { c with server := c.server.step .dead, writer := some true }
    else c
  | .writerUnlocks =>
    if c.writer = some true ∧ c.server.sessions.isEmpty = true then
      { c with server := c.server.step .cleared, writer := none }
    else c
  | .server a =>
    match a with
    | .frame .. | .dead | .cleared => c
    | _ => { c with server := c.server.step a }

def step (c : Pairing cfg) : PairingAction → Pairing cfg
  | .engine a => c.engineStep hmac4 a
  | a => if c.server.crashed = true then c else c.sdkStep a

/-- A room walks its players. -/
def Valid (c : Pairing cfg) : PairingAction → Prop
  | .server a => c.server.Valid a
  | _ => True

instance (c : Pairing cfg) : (a : PairingAction) → Decidable (c.Valid a)
  | .server a => inferInstanceAs (Decidable (c.server.Valid a))
  | .engine _ | .accept | .ensured | .read .. | .skip | .misread .. | .readFails | .writeFails |
    .readerLocks | .readerUnlocks | .writerLocks | .writerUnlocks => .isTrue trivial

/-- The greeting of a new link has been written and read, and nothing after it has been read. -/
def Greeted (c : Pairing cfg) : Prop :=
  ∃ k, c.reader = .reading k .greeting ∧ 1 ≤ k ∧ (k + 1 < c.made ∨ c.engine.greets = false) ∧
    ∀ p ∈ c.wire k, p.2 = false

/-- Every session that is alive in the engine is in its room, or a `Kick` has been sent for it. -/
def Agrees (c : Pairing cfg) : Prop :=
  ∀ sess, c.engine.Alive sess → Placed c.server sess ∨ sess ∈ c.server.kicked

/-- What the server does in a step of the two. -/
def serves (c : Pairing cfg) : PairingAction → Option ServerAction
  | .read raw v queued =>
    match c.reader with
    | .reading k _ =>
      match c.wire k with
      | [] => none
      | (f, _) :: _ => if c.Free f.ty then some (.frame f.ty f.body raw v queued) else none
    | _ => none
  | .misread typ body raw v queued =>
    match c.reader with
    | .reading _ .more => if c.Free typ then some (.frame typ body raw v queued) else none
    | _ => none
  | .readerLocks => if c.reader = .marking false ∧ c.server.dying = false then some .dead else none
  | .readerUnlocks =>
    if c.reader = .marking true ∧ c.server.sessions.isEmpty = true then some .cleared else none
  | .writerLocks => if c.writer = some false ∧ c.server.dying = false then some .dead else none
  | .writerUnlocks =>
    if c.writer = some true ∧ c.server.sessions.isEmpty = true then some .cleared else none
  | .server a =>
    match a with
    | .frame .. | .dead | .cleared => none
    | _ => some a
  | _ => none

/-- What a step does about a session or a player. -/
def seatEvent (c : Pairing cfg) (x : PairingAction) : Option SeatEvent :=
  (c.serves x).bind c.server.seatEvent

end Pairing

/-- What the SDK has done about sessions and players in a run, one after the other. -/
def Pairing.history {cfg : EngineConfig} (hmac4 : Hmac) (c : Pairing cfg)
    (as : List PairingAction) : List SeatEvent :=
  chronicle (Pairing.step hmac4) Pairing.seatEvent c as

/-! ## What the engine writes at the head of a connection -/

namespace Engine

variable {cfg : EngineConfig} {e : Engine cfg} {hmac4 : Hmac}

/-- The loop writes at most one frame: the EngineHello or a SessionResume while it greets, and what
the write loop takes from the queue otherwise. -/
theorem written_step (e : Engine cfg) (hmac4 : Hmac) (a : EngineAction) :
    (e.step hmac4 a).written = e.written ∨ ∃ f, (e.step hmac4 a).written = e.written ++ [f] ∧
      (e.greets = true ∧ (f.ty = FRAME_ENGINE_HELLO ∨ f ∈ e.resumes) ∨
        e.greets = false ∧ ∃ ok, a = .write ok) := by
  cases a with
  | hello ok now =>
    unfold step greets
    dsimp only
    cases hphase : e.phase with
    | greeting =>
      dsimp only
      split_ifs
      · exact .inr ⟨_, rfl, .inl ⟨rfl, .inl rfl⟩⟩
      · exact .inl rfl
    | _ => exact .inl rfl
  | resume ok =>
    unfold step greets
    dsimp only
    cases hphase : e.phase with
    | resuming resumes =>
      cases resumes with
      | nil => exact .inl rfl
      | cons r resumes =>
        dsimp only
        split_ifs
        · refine .inr ⟨r, rfl, .inl ⟨rfl, .inr ?_⟩⟩
          unfold Engine.resumes
          rw [hphase]
          exact List.mem_cons_self
        · exact .inl rfl
    | _ => exact .inl rfl
  | write ok =>
    unfold step greets
    dsimp only
    split
    · rename_i f rest hphase hqueue
      split_ifs
      · rw [hphase]
        exact .inr ⟨f, rfl, .inr ⟨rfl, ok, rfl⟩⟩
      · exact .inl rfl
    · exact .inl rfl
  | handle w x =>
    unfold step
    dsimp only
    split_ifs
    · exact .inl rfl
    · exact .inl rfl
  | stats w i =>
    unfold step
    dsimp only
    split_ifs
    · exact .inl rfl
    · exact .inl rfl
  | push w now =>
    unfold step
    dsimp only
    split
    · exact .inl rfl
    · exact .inl rfl
  | overload now => exact .inl rfl
  | connect =>
    unfold step
    dsimp only
    split
    · exact .inl rfl
    · exact .inl rfl
  | walk =>
    unfold step
    dsimp only
    split
    · exact .inl rfl
    · exact .inl rfl
    · exact .inl rfl
  | hangUp =>
    unfold step
    dsimp only
    split
    · exact .inl rfl
    · exact .inl rfl
  | reset =>
    unfold step
    dsimp only
    split
    · exact .inl rfl
    · exact .inl rfl

/-- What stands ready to be written after the EngineHello are SessionResume frames. -/
def Resuming (e : Engine cfg) : Prop := ∀ f ∈ e.resumes, f.ty = FRAME_SESSION_RESUME

theorem resuming_start (now : Instant) : (start now : Engine cfg).Resuming := fun _ hf =>
  absurd hf List.not_mem_nil

/-- The loop stands where nothing is ready. -/
theorem resuming_of_nil (h : e.resumes = []) : e.Resuming := by
  intro f hf
  rw [h] at hf
  cases hf

/-- Where the loop does not move, nothing changes. -/
theorem Resuming.of_phase {e' : Engine cfg} (h : e.Resuming) (hphase : e'.phase = e.phase) :
    e'.Resuming := by
  unfold Resuming resumes at h ⊢
  rw [hphase]
  exact h

theorem Resuming.walk (h : e.Resuming) : (e.step hmac4 .walk).Resuming := by
  unfold step
  dsimp only
  split
  · rename_i gapMs i shards resumes hphase
    intro f hf
    rcases List.mem_append.1 hf with hf | hf
    · refine h f ?_
      unfold Engine.resumes
      rw [hphase]
      exact hf
    · obtain ⟨s, -, rfl⟩ := List.mem_map.1 hf
      rfl
  · rename_i gapMs resumes hphase
    intro f hf
    refine h f ?_
    unfold Engine.resumes
    rw [hphase]
    exact hf
  · exact h

theorem Resuming.resume (h : e.Resuming) (ok : Bool) : (e.step hmac4 (.resume ok)).Resuming := by
  unfold step
  dsimp only
  split
  · rename_i r resumes hphase
    split_ifs
    · intro f hf
      refine h f ?_
      unfold Engine.resumes
      rw [hphase]
      exact List.mem_cons_of_mem _ hf
    · exact resuming_of_nil rfl
  · exact resuming_of_nil rfl
  · exact h

theorem Resuming.step (h : e.Resuming) (a : EngineAction) : (e.step hmac4 a).Resuming := by
  cases a with
  | walk => exact h.walk
  | resume ok => exact h.resume ok
  | handle w x =>
    unfold Engine.step
    dsimp only
    split_ifs
    · exact h.of_phase rfl
    · exact h
  | stats w i =>
    unfold Engine.step
    dsimp only
    split_ifs
    · exact h.of_phase rfl
    · exact h
  | push w now =>
    unfold Engine.step
    dsimp only
    split
    · exact h
    · exact h.of_phase rfl
  | overload now => exact h.of_phase rfl
  | connect =>
    unfold Engine.step
    dsimp only
    split
    · exact resuming_of_nil rfl
    · exact h
  | hello ok now =>
    unfold Engine.step
    dsimp only
    split
    · split_ifs
      · exact resuming_of_nil rfl
      · exact resuming_of_nil rfl
    · exact h
  | write ok =>
    unfold Engine.step
    dsimp only
    split
    · split_ifs
      · exact h.of_phase rfl
      · exact resuming_of_nil rfl
    · exact h
  | hangUp =>
    unfold Engine.step
    dsimp only
    split
    · exact resuming_of_nil rfl
    · exact h
  | reset =>
    unfold Engine.step
    dsimp only
    split
    · exact resuming_of_nil rfl
    · exact h

end Engine

/-! ## What the SDK keeps -/

/-- Nothing but a SessionOpen makes the server know a session. -/
theorem mapped_of_step {s : Server} {a : ServerAction} (ha : s.Valid a)
    (hopen : ∀ typ body raw v queued, a = .frame typ body raw v queued → typ ≠ FRAME_SESSION_OPEN)
    {sess : U64} (h : s.sessions[sess]? = none) : (s.step a).sessions[sess]? = none := by
  have hmapped : s.registry.mapped sess = none := h
  have herase : ∀ σ, Function.update s.registry.mapped σ none sess = none := by
    intro σ
    by_cases hσ : sess = σ
    · rw [hσ, Function.update_self]
    · rw [Function.update_of_ne hσ, hmapped]
  show (s.step a).registry.mapped sess = none
  have hchange := s.step_change a ha
  generalize (s.step a).registry = g at hchange ⊢
  cases hchange with
  | quiet => exact hmapped
  | opened => exact absurd rfl (hopen _ _ _ _ _ rfl)
  | refused => exact hmapped
  | closes => exact hmapped
  | sends => exact hmapped
  | drops => exact hmapped
  | visits => exact herase _
  | loses => exact herase _
  | joins => exact hmapped
  | swallows => exact hmapped
  | leaves => exact herase _
  | misses => exact hmapped
  | kicks => exact herase _
  | stops => exact hmapped
  | passes => exact hmapped
  | removes =>
    show (s.registry.mapped sess).filter _ = none
    rw [hmapped]
    rfl

/-- The server knows no session. -/
def Forgotten (s : Server) : Prop := ∀ sess : U64, s.sessions[sess]? = none

theorem forgotten_of_isEmpty {s : Server} (h : s.sessions.isEmpty = true) : Forgotten s := by
  intro sess
  rw [Std.ExtTreeMap.isEmpty_iff.1 h]
  exact Std.ExtTreeMap.getElem?_empty

theorem Forgotten.not_placed {s : Server} (h : Forgotten s) (sess : U64) : ¬ Placed s sess := by
  rintro ⟨ref, href, -⟩
  rw [h sess] at href
  cases href

/-! ## The invariant -/

/-- The reader has read nothing that may bring a session. -/
def LinkReader.Early : LinkReader → Prop
  | .ensure => True
  | .reading _ heard => heard ≠ .more
  | .marking _ => False

theorem Heard.next_ne_more {h : Heard} {greeting : Bool} (hn : h.next greeting ≠ .more) :
    greeting = true ∧ h ≠ .more := by
  by_contra hcontra
  unfold Heard.next at hn
  rw [if_neg hcontra] at hn
  exact hn rfl

namespace Pairing

variable {cfg : EngineConfig} {c : Pairing cfg} {hmac4 : Hmac}

/-- No SessionOpen in a greeting; and if the reader itself has found the last connection dead, the
server knows no session until the reader is past the greeting of the next one. -/
structure Steady (c : Pairing cfg) : Prop where
  marked : ∀ n, ∀ p ∈ c.wire n, p.2 = true → p.1.ty ≠ FRAME_SESSION_OPEN
  resuming : c.engine.Resuming
  current : ∀ k heard, c.reader = .reading k heard → c.cur = some k ∨ c.overtaken = true
  forgotten : c.overtaken = false → c.reader.Early → Forgotten c.server

theorem steady_start (now : Instant) (M C J B : ℕ) : Steady (start now M C J B : Pairing cfg) where
  marked _ _ hp := absurd hp List.not_mem_nil
  resuming := Engine.resuming_start now
  current k heard h := by cases h
  forgotten _ _ _ := Std.ExtTreeMap.getElem?_empty

/-- A frame of a greeting on the wire is an old one, the EngineHello or a SessionResume. -/
theorem marked_engineStep (h : c.engine.Resuming) (a : EngineAction) {n : ℕ} {p : Frame × Bool}
    (hp : p ∈ (c.engineStep hmac4 a).wire n) (hmark : p.2 = true) :
    p ∈ c.wire n ∨ p.1.ty = FRAME_ENGINE_HELLO ∨ p.1.ty = FRAME_SESSION_RESUME := by
  have hp' : p ∈ Function.update c.wire (c.made - 1) (c.wire (c.made - 1) ++
      ((c.engine.step hmac4 a).written.drop c.engine.written.length).map
        fun f => (f, c.engine.greets)) n := hp
  rcases mem_update.1 hp' with ⟨hn, hlast⟩ | ⟨-, hp'⟩
  · rcases List.mem_append.1 hlast with hold | hnew
    · left
      rw [hn]
      exact hold
    · right
      obtain ⟨f, hf, rfl⟩ := List.mem_map.1 hnew
      rcases c.engine.written_step hmac4 a with hnone | ⟨g, hg, hgreets⟩
      · rw [hnone, List.drop_length] at hf
        cases hf
      · rw [hg, List.drop_left, List.mem_singleton] at hf
        rw [hf]
        rcases hgreets with ⟨-, hty | hres⟩ | ⟨hrun, -⟩
        · exact .inl hty
        · exact .inr (h g hres)
        · exact absurd (hmark.symm.trans hrun) Bool.noConfusion
  · exact .inl hp'

theorem Steady.engine (h : Steady c) (a : EngineAction) : Steady (c.engineStep hmac4 a) := by
  refine ⟨fun n p hp hmark => ?_, h.resuming.step a, h.current, h.forgotten⟩
  rcases marked_engineStep h.resuming a hp hmark with hold | hty | hty
  · exact h.marked n p hold hmark
  · rw [hty]
    decide
  · rw [hty]
    decide

/-- The server has done something that brings no session. -/
theorem Steady.serve (h : Steady c) {a : ServerAction} (ha : c.server.Valid a)
    (hopen : ∀ typ body raw v queued, a = .frame typ body raw v queued → typ ≠ FRAME_SESSION_OPEN) :
    Steady { c with server := c.server.step a } :=
  ⟨h.marked, h.resuming, h.current,
    fun ho he sess => mapped_of_step ha hopen (h.forgotten ho he sess)⟩

/-- The reader is past the greeting. -/
theorem Steady.past (h : Steady c) {k : ℕ} {heard : Heard} (hreader : c.reader = .reading k heard)
    (s : Server) : Steady { c with server := s, reader := .reading k .more } := by
  refine ⟨h.marked, h.resuming, fun k' heard' heq => ?_, fun _ he => absurd rfl he⟩
  cases heq
  exact h.current k heard hreader

/-- A frame has been taken from a connection. -/
theorem Steady.drop (h : Steady c) {k : ℕ} {p : Frame × Bool} {rest : List (Frame × Bool)}
    (hwire : c.wire k = p :: rest) : Steady { c with wire := Function.update c.wire k rest } := by
  refine ⟨fun n q hq hmark => ?_, h.resuming, h.current, h.forgotten⟩
  rcases mem_update.1 hq with ⟨-, hq⟩ | ⟨-, hq⟩
  · refine h.marked k q ?_ hmark
    rw [hwire]
    exact List.mem_cons_of_mem p hq
  · exact h.marked n q hq hmark

/-- A frame is read and dispatched. -/
theorem Steady.read (h : Steady c) (raw : BufId) (v : Verdict) (queued : Bool) :
    Steady (c.sdkStep (.read raw v queued)) := by
  unfold sdkStep
  dsimp only
  split
  · rename_i k heard hreader
    split
    · exact h
    · rename_i f greeting rest hwire
      split_ifs with hfree
      · have hdrop := h.drop hwire
        by_cases hmore : heard.next greeting = .more
        · rw [hmore]
          exact hdrop.past hreader _
        · -- the frame belongs to the greeting
          obtain ⟨hmark, hheard⟩ := Heard.next_ne_more hmore
          have hhead : (f, greeting) ∈ c.wire k := by
            rw [hwire]
            exact List.mem_cons_self
          have hty : f.ty ≠ FRAME_SESSION_OPEN := h.marked k _ hhead hmark
          have hserve := hdrop.serve (a := .frame f.ty f.body raw v queued) trivial
            fun typ body raw' v' queued' heq => by
              cases heq
              exact hty
          refine ⟨hserve.marked, hserve.resuming, fun k' heard' heq => ?_, fun ho _ => ?_⟩
          · cases heq
            exact h.current k heard hreader
          · refine hserve.forgotten ho ?_
            show c.reader.Early
            rw [hreader]
            exact hheard
      · exact h
  · exact h

theorem Steady.skip (h : Steady c) : Steady (c.sdkStep .skip) := by
  unfold sdkStep
  dsimp only
  split
  · rename_i k heard hreader
    split
    · rename_i f rest hwire
      exact (h.drop hwire).past hreader c.server
    · exact h
  · exact h

theorem Steady.misread (h : Steady c) (typ : U8) (body : Bytes) (raw : BufId) (v : Verdict)
    (queued : Bool) : Steady (c.sdkStep (.misread typ body raw v queued)) := by
  unfold sdkStep
  dsimp only
  split
  · rename_i k hreader
    split_ifs
    · refine ⟨h.marked, h.resuming, h.current, fun _ he => ?_⟩
      rw [hreader] at he
      exact absurd rfl he
    · exact h
  · exact h

theorem Steady.accept (h : Steady c) : Steady (c.sdkStep .accept) := by
  unfold sdkStep
  dsimp only
  split_ifs with hnone
  · refine ⟨h.marked, h.resuming, fun k heard hreader => ?_, h.forgotten⟩
    rcases h.current k heard hreader with hcur | hover
    · rw [hnone.1] at hcur
      cases hcur
    · exact .inr hover
  · exact h

theorem Steady.ensured (h : Steady c) : Steady (c.sdkStep .ensured) := by
  unfold sdkStep
  dsimp only
  split
  · rename_i k hreader hcur
    refine ⟨h.marked, h.resuming, fun k' heard heq => ?_, fun ho _ => h.forgotten ho ?_⟩
    · cases heq
      exact .inl hcur
    · rw [hreader]
      trivial
  · exact h

/-- The reader finds its connection dead: it is the first, or the writer has been. -/
theorem Steady.readFails (h : Steady c) : Steady (c.sdkStep .readFails) := by
  unfold sdkStep
  dsimp only
  split
  · rename_i k heard hreader
    split_ifs with hidle hcur
    · exact ⟨h.marked, h.resuming, (fun k' heard' heq => nomatch heq), fun _ he => he.elim⟩
    · refine ⟨h.marked, h.resuming, (fun k' heard' heq => nomatch heq), fun ho _ => ?_⟩
      rcases h.current k heard hreader with hcur' | hover
      · exact absurd hcur' hcur
      · exact absurd (hover.symm.trans ho) Bool.noConfusion
    · exact h
  · exact h

theorem Steady.writeFails (h : Steady c) : Steady (c.sdkStep .writeFails) := by
  unfold sdkStep
  dsimp only
  split_ifs
  · exact ⟨h.marked, h.resuming, fun _ _ _ => .inr rfl, fun ho _ => Bool.noConfusion ho⟩
  · exact h

/-- `onEngineDead` of the reader begins or returns. -/
theorem Steady.readerMarks (h : Steady c) :
    Steady (c.sdkStep .readerLocks) ∧ Steady (c.sdkStep .readerUnlocks) := by
  unfold sdkStep
  dsimp only
  constructor
  · split_ifs
    · exact ⟨h.marked, h.resuming, (fun k heard heq => nomatch heq), fun _ he => he.elim⟩
    · exact h
  · split_ifs with hret
    · refine ⟨h.marked, h.resuming, (fun k heard heq => nomatch heq), fun _ _ sess => ?_⟩
      exact mapped_of_step (a := .cleared) trivial (fun _ _ _ _ _ heq => nomatch heq)
        (forgotten_of_isEmpty hret.2 sess)
    · exact h

/-- `onEngineDead` of the writer begins or returns. -/
theorem Steady.writerMarks (h : Steady c) :
    Steady (c.sdkStep .writerLocks) ∧ Steady (c.sdkStep .writerUnlocks) := by
  unfold sdkStep
  dsimp only
  constructor
  · split_ifs
    · have hserve := h.serve (a := .dead) trivial fun _ _ _ _ _ heq => nomatch heq
      exact ⟨hserve.marked, hserve.resuming, hserve.current, hserve.forgotten⟩
    · exact h
  · split_ifs
    · have hserve := h.serve (a := .cleared) trivial fun _ _ _ _ _ heq => nomatch heq
      exact ⟨hserve.marked, hserve.resuming, hserve.current, hserve.forgotten⟩
    · exact h

/-- A room goes on, or the loop of `onEngineDead`, or `routeToRoom`. -/
theorem Steady.server (h : Steady c) {a : ServerAction} (ha : c.server.Valid a) :
    Steady (c.sdkStep (.server a)) := by
  unfold sdkStep
  dsimp only
  split
  · exact h
  · exact h
  · exact h
  · rename_i hframe _ _
    refine h.serve ha fun typ body raw v queued heq => ?_
    exact absurd heq (hframe typ body raw v queued)

/-- **One step.** -/
theorem Steady.step (h : Steady c) (a : PairingAction) (ha : c.Valid a) :
    Steady (c.step hmac4 a) := by
  have hsdk : Steady (c.sdkStep a) := by
    cases a with
    | engine a => exact h
    | accept => exact h.accept
    | ensured => exact h.ensured
    | read raw v queued => exact h.read raw v queued
    | skip => exact h.skip
    | misread typ body raw v queued => exact h.misread typ body raw v queued
    | readFails => exact h.readFails
    | writeFails => exact h.writeFails
    | readerLocks => exact h.readerMarks.1
    | readerUnlocks => exact h.readerMarks.2
    | writerLocks => exact h.writerMarks.1
    | writerUnlocks => exact h.writerMarks.2
    | server a => exact h.server ha
  cases a with
  | engine a => exact h.engine a
  | _ =>
    unfold Pairing.step
    dsimp only
    split_ifs
    · exact h
    · exact hsdk

/-! ## What the SDK has done -/

theorem step_of_crashed (h : c.server.crashed = true) {x : PairingAction}
    (hx : ∀ a, x ≠ .engine a) :
    c.step hmac4 x = c := by
  unfold step
  split
  · exact absurd rfl (hx _)
  · rw [if_pos h]

theorem step_server_of_crashed {s : Server} (h : s.crashed = true) (a : ServerAction) :
    s.step a = s := by
  unfold Server.step
  rw [if_pos h]

theorem server_sdkStep (c : Pairing cfg) (x : PairingAction) :
    (c.sdkStep x).server = (c.serves x).toList.foldl Server.step c.server := by
  cases x with
  | engine a => rfl
  | accept =>
    unfold sdkStep
    dsimp only
    split_ifs <;> rfl
  | ensured =>
    unfold sdkStep
    dsimp only
    split <;> rfl
  | read raw v queued =>
    unfold sdkStep serves
    dsimp only
    cases c.reader with
    | reading k heard =>
      dsimp only
      cases c.wire k with
      | nil => rfl
      | cons p rest =>
        dsimp only
        split_ifs <;> rfl
    | ensure | marking => rfl
  | skip =>
    unfold sdkStep
    dsimp only
    split
    · split <;> rfl
    · rfl
  | misread typ body raw v queued =>
    unfold sdkStep serves
    dsimp only
    split
    · split_ifs <;> rfl
    · rfl
  | readFails =>
    unfold sdkStep
    dsimp only
    split
    · split_ifs <;> rfl
    · rfl
  | writeFails =>
    unfold sdkStep
    dsimp only
    split_ifs <;> rfl
  | readerLocks | readerUnlocks | writerLocks | writerUnlocks =>
    unfold sdkStep serves
    dsimp only
    split_ifs <;> rfl
  | server a =>
    cases a <;> rfl

/-- The server takes the step that it serves with. -/
theorem server_step (c : Pairing cfg) (hmac4 : Hmac) (x : PairingAction) :
    (c.step hmac4 x).server = (c.serves x).toList.foldl Server.step c.server := by
  by_cases hx : ∃ a, x = .engine a
  · obtain ⟨a, rfl⟩ := hx
    rfl
  · push Not at hx
    by_cases hcrashed : c.server.crashed = true
    · rw [step_of_crashed hcrashed hx]
      cases c.serves x with
      | none => rfl
      | some a => exact (step_server_of_crashed hcrashed a).symm
    · have hstep : c.step hmac4 x = c.sdkStep x := by
        unfold step
        split
        · exact absurd rfl (hx _)
        · rw [if_neg hcrashed]
      rw [hstep, server_sdkStep]

theorem valid_serves {x : PairingAction} (hx : c.Valid x) {a : ServerAction}
    (ha : c.serves x = some a) :
    c.server.Valid a := by
  unfold serves at ha
  split at ha
  · split at ha
    · split at ha
      · cases ha
      · split_ifs at ha
        obtain rfl := Option.some.inj ha
        trivial
    · cases ha
  · split at ha
    · split_ifs at ha
      obtain rfl := Option.some.inj ha
      trivial
    · cases ha
  · split_ifs at ha
    obtain rfl := Option.some.inj ha
    trivial
  · split_ifs at ha
    obtain rfl := Option.some.inj ha
    trivial
  · split_ifs at ha
    obtain rfl := Option.some.inj ha
    trivial
  · split_ifs at ha
    obtain rfl := Option.some.inj ha
    trivial
  · split at ha
    · cases ha
    · cases ha
    · cases ha
    · obtain rfl := Option.some.inj ha
      exact hx
  · cases ha

/-- The seats are what the run has made of them. -/
theorem seats_step (c : Pairing cfg) (x : PairingAction) (hx : c.Valid x) :
    (c.step hmac4 x).server.seats = (c.seatEvent x).toList.foldl Seats.apply c.server.seats := by
  rw [server_step]
  unfold seatEvent
  cases ha : c.serves x with
  | none => rfl
  | some a => exact c.server.seats_step a (valid_serves hx ha)

theorem seats_history {now : Instant} {M C J B : ℕ} {as : List PairingAction}
    (has : Allowed (step hmac4) Valid (start now M C J B : Pairing cfg) as) :
    (as.foldl (step hmac4) (start now M C J B : Pairing cfg)).server.seats =
      Seats.fold (history hmac4 (start now M C J B : Pairing cfg) as) := by
  have hempty : (start now M C J B : Pairing cfg).server.seats = .empty := by
    ext1
    · funext sess
      have hnone : (∅ : Map U64 Sdk.SessionRef)[sess]? = none := Std.ExtTreeMap.getElem?_empty
      exact congrArg (Option.map fun ref => (ref.roomID, ref.player)) hnone
    · funext R p
      have hnone : (∅ : Map Sdk.RoomID Sdk.RoomProc)[R]? = none := Std.ExtTreeMap.getElem?_empty
      exact congrArg (Option.any fun r => decide (p ∈ r.room.players)) hnone
    · rfl
  rw [view_chronicle (fun c : Pairing cfg => c.server.seats)
    (fun c x hx => seats_step c x hx) has, hempty]
  rfl

/-- Who stands in a room has been seated. -/
theorem placed_iff {s : Server} {es : List SeatEvent} (h : s.seats = Seats.fold es) (sess : U64) :
    Placed s sess ↔ Seated es sess := by
  have hseats : Placed s sess ↔ ∃ R p, s.seats.mapped sess = some (R, p) ∧
      s.seats.inside R p = true := by
    constructor
    · rintro ⟨ref, href, r, hr, hp⟩
      refine ⟨ref.roomID, ref.player, ?_, ?_⟩
      · show (s.sessions[sess]?).map _ = _
        rw [href]
        rfl
      · rw [Server.inside_of_some hr]
        exact decide_eq_true hp
    · rintro ⟨R, p, hmapped, hinside⟩
      obtain ⟨ref, href, heq⟩ := Option.map_eq_some_iff.1 hmapped
      obtain ⟨rfl, rfl⟩ := Prod.mk.inj heq
      obtain ⟨r, hr, hp⟩ := (Option.any_eq_true _ _).1 hinside
      exact ⟨ref, href, r, hr, of_decide_eq_true hp⟩
  rw [hseats, h]
  unfold Seated
  simp only [Seats.mapped_fold, Seats.inside_fold]

/-- **The link is greeted**: every session that is alive in the engine is in its room or has been
sent a `Kick` if and only if in the run it has been refused or kicked, or, where the writer has been
the first to find the last connection dead, it has been seated and not cleared since. -/
theorem agrees_iff {now : Instant} {M C J B : ℕ} {as : List PairingAction}
    (has : Allowed (step hmac4) Valid (start now M C J B : Pairing cfg) as)
    (hg : (as.foldl (step hmac4) (start now M C J B : Pairing cfg)).Greeted) :
    let c := as.foldl (step hmac4) (start now M C J B : Pairing cfg)
    let es := history hmac4 (start now M C J B : Pairing cfg) as
    c.Agrees ↔ ∀ sess, c.engine.Alive sess →
      TurnedAway es sess ∨ c.overtaken = true ∧ Seated es sess := by
  intro c es
  have hsteady : Steady c := (Reach.foldl has).invariant (steady_start now M C J B) fun _ a hs ha =>
    hs.step a ha
  have hseats : c.server.seats = Seats.fold es := seats_history has
  have hkicked (sess : U64) : sess ∈ c.server.kicked ↔ TurnedAway es sess := by
    rw [← Seats.mem_kicked_fold, ← hseats]
    exact Iff.rfl
  have hreader (hnot : c.overtaken = false) (sess : U64) : ¬ Placed c.server sess := by
    -- the reader has found the last connection dead, and has read no SessionOpen since
    obtain ⟨k, hreader, -⟩ := hg
    have hearly : c.reader.Early := by
      rw [hreader]
      exact fun heq => nomatch heq
    exact (hsteady.forgotten hnot hearly).not_placed sess
  refine forall_congr' fun sess => forall_congr' fun _ => ?_
  rw [← hkicked, ← placed_iff hseats, or_comm]
  refine or_congr_right ⟨fun hplaced => ⟨?_, hplaced⟩, And.right⟩
  by_contra hnot
  exact hreader (Bool.eq_false_iff.2 hnot) sess hplaced

/-! ## A session that lives on -/

/-- A client comes in over the link and its SessionOpen is read. The link breaks and is made again,
and its greeting is read. -/
def liveOn (v : Verdict) (serve : List ServerAction) : List PairingAction :=
  (Engine.linkUp ++ [EngineAction.resume true] ++ Engine.greet ++ [EngineAction.write true]).map
    .engine ++ [.accept, .ensured, .read 0 v true, .read 0 v true] ++ serve.map .server ++
    [.engine .hangUp, .engine .reset, .readFails, .readerLocks, .server (.visit 1),
      .readerUnlocks] ++
    (Engine.linkUp ++ [EngineAction.resume true, EngineAction.resume true]).map .engine ++
    [.accept, .ensured, .read 0 v true, .read 0 v true]

def relinked (v : Verdict) (serve : List ServerAction) : Pairing Engine.oneShard :=
  (liveOn v serve).foldl (step noHmac) (start 0 1024 256 2 32)

/-- The player has been in a room, which it has to leave; nothing tells the client. -/
theorem agrees_fails : ¬ ∀ c : Pairing Engine.oneShard,
    Reach (step noHmac) Valid (start 0 1024 256 2 32) c → c.Greeted → c.Agrees := by
  intro h
  have hallowed : Allowed (step noHmac) Valid (start 0 1024 256 2 32 : Pairing Engine.oneShard)
      (liveOn ⟨some 1, ⟨.RouteCreate, 7⟩, true⟩ (Server.serve 7)) := by
    decide +kernel
  have hreach := Reach.foldl hallowed
  set c := relinked ⟨some 1, ⟨.RouteCreate, 7⟩, true⟩ (Server.serve 7) with hc
  have hend : c.reader = .reading 1 .greeting ∧ c.engine.greets = false ∧
      (∀ p ∈ c.wire 1, p.2 = false) ∧
      (∃ i, ∃ s ∈ (c.engine.shared.sessions.shards i).values, s.sessId = 1) ∧
      c.server.sessions.isEmpty = true ∧ c.server.kicked = [] := by
    decide +kernel
  obtain ⟨hreader, hgreets, hwire, halive, hempty, hkicked⟩ := hend
  rcases h c hreach ⟨1, hreader, le_refl 1, .inr hgreets, hwire⟩ 1 halive with hplaced | hmem
  · exact (forgotten_of_isEmpty hempty).not_placed 1 hplaced
  · rw [hkicked] at hmem
    cases hmem

/-- The player is in a room, and the writer finds the link dead; it is still waiting for the lock
when the reader is past the new greeting. -/
def overtaking : List PairingAction :=
  (Engine.linkUp ++ [EngineAction.resume true] ++ Engine.greet ++ [EngineAction.write true]).map
    .engine ++ [.accept, .ensured, .read 0 ⟨some 1, ⟨.RouteCreate, 7⟩, true⟩ true,
      .read 0 ⟨some 1, ⟨.RouteCreate, 7⟩, true⟩ true] ++ (Server.serve 7).map .server ++
    [.engine .hangUp, .engine .reset, .writeFails, .readFails] ++
    (Engine.linkUp ++ [EngineAction.resume true, EngineAction.resume true]).map .engine ++
    [.accept, .ensured, .read 0 ⟨none, ⟨.RouteReject, 0⟩, false⟩ true,
      .read 0 ⟨none, ⟨.RouteReject, 0⟩, false⟩ true]

def overtook : Pairing Engine.oneShard := overtaking.foldl (step noHmac) (start 0 1024 256 2 32)

/-- The gatekeeper has refused the player, and the link breaks before the `Kick` is read; or the
writer has overtaken the reader, and the player is where it was. -/
theorem agrees_settled : (relinked ⟨none, ⟨.RouteReject, 0⟩, false⟩ []).Agrees ∧
    overtook.Agrees := by
  constructor
  · have hallowed : Allowed (step noHmac) Valid (start 0 1024 256 2 32 : Pairing Engine.oneShard)
        (liveOn ⟨none, ⟨.RouteReject, 0⟩, false⟩ []) := by
      decide +kernel
    set c := relinked ⟨none, ⟨.RouteReject, 0⟩, false⟩ [] with hc
    have hend : c.reader = .reading 1 .greeting ∧ c.engine.greets = false ∧
        (∀ p ∈ c.wire 1, p.2 = false) ∧
        ∀ i, ∀ s ∈ (c.engine.shared.sessions.shards i).values, .refused s.sessId true ∈
          history noHmac (start 0 1024 256 2 32 : Pairing Engine.oneShard)
            (liveOn ⟨none, ⟨.RouteReject, 0⟩, false⟩ []) := by
      decide +kernel
    obtain ⟨hreader, hgreets, hwire, hrefused⟩ := hend
    refine (agrees_iff hallowed ⟨1, hreader, le_refl 1, .inr hgreets, hwire⟩).2 ?_
    rintro sess ⟨i, s, hs, rfl⟩
    exact .inl ⟨_, hrefused i s hs, rfl, rfl⟩
  · have hallowed : Allowed (step noHmac) Valid (start 0 1024 256 2 32 : Pairing Engine.oneShard)
        overtaking := by
      decide +kernel
    have hend : overtook.reader = .reading 1 .greeting ∧ overtook.engine.greets = false ∧
        (∀ p ∈ overtook.wire 1, p.2 = false) ∧ overtook.overtaken = true ∧
        (∀ i, ∀ s ∈ (overtook.engine.shared.sessions.shards i).values, s.sessId = 1) ∧
        (Seats.fold (history noHmac (start 0 1024 256 2 32 : Pairing Engine.oneShard)
          overtaking)).mapped 1 = some (7, 1) ∧
        (Seats.fold (history noHmac (start 0 1024 256 2 32 : Pairing Engine.oneShard)
          overtaking)).inside 7 1 = true := by
      decide +kernel
    obtain ⟨hreader, hgreets, hwire, hovertaken, hone, hmapped, hinside⟩ := hend
    refine (agrees_iff hallowed ⟨1, hreader, le_refl 1, .inr hgreets, hwire⟩).2 ?_
    rintro sess ⟨i, s, hs, rfl⟩
    rw [hone i s hs]
    exact .inr ⟨hovertaken, 7, 1, Seats.mapped_fold.1 hmapped, Seats.inside_fold.1 hinside⟩

end Pairing

end SoupEngine
