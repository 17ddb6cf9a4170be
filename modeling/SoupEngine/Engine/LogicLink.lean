import SoupEngine.Engine.Uplink
import SoupEngine.Session.Events

/-!
# The logic link

The tasks of the engine and the loop that connects to the logic server, as steps that may come in
any order. A task does something to the session table and then pushes the frames of the events one
by one; the loop reaches the logic server, writes an EngineHello and a SessionResume for every
session, and then what is in the queue, until the connection breaks.
-/

namespace SoupEngine

structure EngineConfig where
  session : SessionTableConfig
  version : U16
  caps : U32

/-! ## Frames about sessions -/

namespace Frame

/-- The session that a frame to the logic server is about. -/
def about (f : Frame) : Option U64 :=
  if f.ty = FRAME_SESSION_OPEN ∨ f.ty = FRAME_SESSION_CLOSE ∨ f.ty = FRAME_SESSION_RESUME ∨
      f.ty = FRAME_DATA_UP ∨ f.ty = FRAME_SESSION_STATS then
    some (fromLe 64 (f.body.take 8))
  else none

/-- A SessionOpen of the session. -/
def Opens (f : Frame) (sessId : U64) : Prop := f.ty = FRAME_SESSION_OPEN ∧ f.about = some sessId

theorem take_sessId (sessId : U64) (rest : Bytes) :
    fromLe 64 ((leBytes sessId ++ rest).take 8) = sessId := by
  rw [List.take_left' (length_leBytes sessId), fromLe_leBytes (by norm_num)]

@[simp] theorem about_session_open (sessId : U64) (peer : SocketAddr) (token : Bytes) :
    (session_open sessId peer token).about = some sessId := by
  unfold about session_open
  rw [if_pos (by simp), List.append_assoc, List.append_assoc, take_sessId]

@[simp] theorem about_session_close (sessId : U64) (reason : U8) :
    (session_close sessId reason).about = some sessId := by
  unfold about session_close
  rw [if_pos (by simp), take_sessId]

@[simp] theorem about_session_resume (sessId : U64) (gap_ms : U32) :
    (session_resume sessId gap_ms).about = some sessId := by
  unfold about session_resume
  rw [if_pos (by simp), take_sessId]

@[simp] theorem about_data_up (sessId : U64) (ch : U8) (msg_id : U16) (payload : Bytes) :
    (data_up sessId ch msg_id payload).about = some sessId := by
  unfold about data_up
  rw [if_pos (by simp), List.append_assoc, List.append_assoc, take_sessId]

@[simp] theorem about_session_stats (sessId : U64) (rtt_ms loss_permille out_kbps : U16) :
    (session_stats sessId rtt_ms loss_permille out_kbps).about = some sessId := by
  unfold about session_stats
  rw [if_pos (by simp), List.append_assoc, List.append_assoc, take_sessId]

@[simp] theorem about_overload (dropped_up dropped_down : U32) :
    (overload dropped_up dropped_down).about = none := by
  unfold about overload
  dsimp only
  exact if_neg (by decide)

@[simp] theorem about_engine_hello (version : U16) (caps : U32) :
    (engine_hello version caps).about = none := by
  unfold about engine_hello
  dsimp only
  exact if_neg (by decide)

end Frame

theorem about_upFrame (e : SessionEvent) : (upFrame e).about = some e.sessId := by
  cases e with
  | Open sessId peer token => exact Frame.about_session_open sessId peer token
  | Close sessId reason => exact Frame.about_session_close sessId reason
  | Resume sessId gapMs => exact Frame.about_session_resume sessId gapMs
  | Data sessId ch msgId payload => exact Frame.about_data_up sessId ch msgId payload

/-! ## The engine -/

/-- Where `logic_link_loop` stands. -/
inductive LinkPhase (cfg : SessionTableConfig)
  | waiting
  /-- Connected; the EngineHello is to be written. -/
  | greeting
  /-- `for_each_session` has these shards to visit. -/
  | walking (gapMs : U32) (shards : List (Fin (max cfg.shards 1))) (resumes : List Frame)
  | resuming (resumes : List Frame)
  /-- In `run_logic_link`. -/
  | running
  /-- `run_logic_link` has returned. -/
  | broken

structure Engine (cfg : EngineConfig) where
  shared : Shared cfg.session
  /-- The frames that each task has still to push, and whether they may be dropped. -/
  tasks : ℕ → List (Frame × Bool)
  phase : LinkPhase cfg.session
  /-- All events of the session table. -/
  reported : List SessionEvent
  /-- All frames that were written to the logic server. -/
  written : List Frame

inductive EngineAction
  /-- A task that has nothing to push does something to the table. -/
  | handle (w : ℕ) (x : TableAction)
  /-- The maintenance loop makes the SessionStats frames of a shard. -/
  | stats (w i : ℕ)
  /-- A task pushes its next frame. -/
  | push (w : ℕ) (now : Instant)
  | overload (now : Instant)
  | connect
  | hello (ok : Bool) (now : Instant)
  /-- `for_each_session` visits the next shard. -/
  | walk
  | resume (ok : Bool)
  /-- `logic_write_loop` takes a frame and writes it. -/
  | write (ok : Bool)
  /-- `logic_read_loop` returns. -/
  | hangUp
  | reset

namespace Shared

variable {cfg : SessionTableConfig}

/-- `up_tx` becomes `None`. -/
def disconnect (s : Shared cfg) : Shared cfg := { s with upTx := none, logicOnline := false }

/-- The receiver is dropped, and with it what was in the queue. -/
def dropReceiver (s : Shared cfg) : Shared cfg := { s with upTx := s.upTx.map fun _ => ⟨[], true⟩ }

end Shared

namespace Engine

variable {cfg : EngineConfig} (hmac4 : Hmac)

def start (now : Instant) : Engine cfg where
  shared := .new .new now
  tasks := fun _ => []
  phase := .waiting
  reported := []
  written := []

/-- One step; where it does not fit the phase nothing happens. -/
def step (e : Engine cfg) : EngineAction → Engine cfg
  | .handle w x =>
    if (e.tasks w).isEmpty then
      { e with
        shared := { e.shared with sessions := (e.shared.sessions.act hmac4 x).1 }
        tasks := Function.update e.tasks w
          ((e.shared.sessions.act hmac4 x).2.map fun ev => (upFrame ev, isDroppable ev))
        reported := e.reported ++ (e.shared.sessions.act hmac4 x).2 }
    else e
  | .stats w i =>
    if h : i < max cfg.session.shards 1 then
      { e with tasks := Function.update e.tasks w (e.tasks w ++
          (e.shared.sessions.shards ⟨i, h⟩).values.map fun s =>
            (.session_stats s.sessId 0 0 0, true)) }
    else e
  | .push w now =>
    match e.tasks w with
    | [] => e
    | (f, droppable) :: rest =>
      { e with
        shared := e.shared.pushFrame f droppable now
        tasks := Function.update e.tasks w rest }
  | .overload now => { e with shared := e.shared.pushOverload now }
  | .connect =>
    match e.phase with
    | .waiting => { e with shared := e.shared.connect, phase := .greeting }
    | _ => e
  | .hello ok now =>
    match e.phase with
    | .greeting =>
      if ok then
        let gapMs : U32 :=
          BitVec.ofNat 32 (min ((now - e.shared.logicLastOnline) / 1000000) 0xFFFFFFFF)
        { e with
          shared := { e.shared with logicLastOnline := now }
          phase := .walking gapMs (List.finRange _) []
          written := e.written ++ [.engine_hello cfg.version cfg.caps] }
      else { e with shared := e.shared.disconnect, phase := .waiting }
    | _ => e
  | .walk =>
    match e.phase with
    | .walking gapMs (i :: shards) resumes =>
      { e with phase := .walking gapMs shards (resumes ++
          (e.shared.sessions.shards i).values.map fun s => .session_resume s.sessId gapMs) }
    | .walking _ [] resumes => { e with phase := .resuming resumes }
    | _ => e
  | .resume ok =>
    match e.phase with
    | .resuming (r :: resumes) =>
      if ok then { e with phase := .resuming resumes, written := e.written ++ [r] }
      else { e with phase := .running }
    | .resuming [] => { e with phase := .running }
    | _ => e
  | .write ok =>
    match e.phase, e.shared.queue with
    | .running, f :: _ =>
      if ok then { e with shared := e.shared.recv, written := e.written ++ [f] }
      else { e with shared := e.shared.dropReceiver, phase := .broken }
    | _, _ => e
  | .hangUp =>
    match e.phase with
    | .running => { e with shared := e.shared.dropReceiver, phase := .broken }
    | _ => e
  | .reset =>
    match e.phase with
    | .broken => { e with shared := e.shared.disconnect, phase := .waiting }
    | _ => e

/-- The SessionResume frames that have still to be written. -/
def resumes (e : Engine cfg) : List Frame :=
  match e.phase with
  | .walking _ _ resumes => resumes
  | .resuming resumes => resumes
  | _ => []

end Engine

/-! ## What a push does -/

namespace Shared

variable {cfg : SessionTableConfig} (s : Shared cfg)

/-- A frame that is pushed now will stand in the queue. -/
def HasPlace : Prop := s.Online ∧ s.queue.length < UP_QUEUE_CAP

/-- A push leaves the table alone; it puts the frame into the queue or leaves the queue alone. -/
theorem pushFrame_cases (f : Frame) (droppable : Bool) (now : Instant) :
    (s.pushFrame f droppable now).sessions = s.sessions ∧
      (s.HasPlace ∧ (s.pushFrame f droppable now).upTx = some ⟨s.queue ++ [f], false⟩ ∨
        ¬ s.HasPlace ∧ (s.pushFrame f droppable now).upTx = s.upTx) := by
  unfold pushFrame
  cases hq : s.upTx with
  | none =>
    refine ⟨rfl, Or.inr ⟨?_, hq⟩⟩
    rintro ⟨⟨q, hsome, -⟩, -⟩
    rw [hq] at hsome
    cases hsome
  | some q =>
    have hqueue : s.queue = q.frames := queue_of_some hq
    dsimp only
    split_ifs with hclosed hroom
    · refine ⟨rfl, Or.inr ⟨?_, hq⟩⟩
      rintro ⟨⟨q', hsome, hopen⟩, -⟩
      rw [hq] at hsome
      cases hsome
      rw [hclosed] at hopen
      cases hopen
    · have hopen : q.closed = false := Bool.eq_false_iff.2 hclosed
      refine ⟨rfl, Or.inl ⟨⟨⟨q, hq, hopen⟩, ?_⟩, ?_⟩⟩
      · rw [hqueue]
        exact hroom
      · rw [hqueue, hopen]
    · have hfull : ¬ s.HasPlace := fun h => hroom (hqueue ▸ h.2)
      unfold notifyOverload
      split_ifs
      · exact ⟨rfl, Or.inr ⟨hfull, hq⟩⟩
      · exact ⟨rfl, Or.inr ⟨hfull, hq⟩⟩

end Shared

end SoupEngine
