import SoupEngine.Lib.TransitionSystem
import SoupEngine.Protocol.Frame
import SoupEngine.Session.Operations

/-!
# The uplink queue

Frames for the logic server go through a bounded queue: `pushFrame` puts them in without waiting,
and `logic_write_loop` takes them out at its own pace. A frame that finds the queue full is lost,
whatever it carries (`backpressure_iff`).
-/

namespace SoupEngine

open TransitionSystem

/-- How many frames wait for the logic server. -/
def UP_QUEUE_CAP : ℕ := 4096

/-- The least time between two marks for an Overload. -/
def OVERLOAD_MIN_INTERVAL : Duration := Duration.fromMillis 100

/-- The channel to `logic_write_loop`; it is closed when the loop has dropped its end. -/
structure UpQueue where
  frames : List Frame
  closed : Bool

/-- The state that the tasks of the engine share. -/
structure Shared (cfg : SessionTableConfig) where
  sessions : SessionTable cfg
  stats : Stats
  logicOnline : Bool
  lastOverload : Instant
  pendingOverload : Bool
  /-- The sending end of the queue while the logic server is online. -/
  upTx : Option UpQueue
  logicLastOnline : Instant

/-- The frame of an event. -/
def upFrame : SessionEvent → Frame
  | .Open sessId peer token => .session_open sessId peer token
  | .Close sessId reason => .session_close sessId reason
  | .Resume sessId gapMs => .session_resume sessId gapMs
  | .Data sessId ch msgId payload => .data_up sessId ch msgId payload

/-- The unreliable channels may be dropped. -/
def isDroppable : SessionEvent → Bool
  | .Data _ ch _ _ => decide (ch = CH_UNRELIABLE_UNORDERED ∨ ch = CH_UNRELIABLE_SEQUENCED)
  | _ => false

namespace Shared

variable {cfg : SessionTableConfig}

/-- `Shared::new` at time `now`. -/
def new (sessions : SessionTable cfg) (now : Instant) : Shared cfg where
  sessions := sessions
  stats := .new
  logicOnline := false
  lastOverload := now
  pendingOverload := false
  upTx := none
  logicLastOnline := now

/-- `stats.dropped_up.incr()`. -/
def incrDroppedUp (s : Shared cfg) : Shared cfg :=
  { s with stats := { s.stats with droppedUp := s.stats.droppedUp + 1 } }

/-- `notify_overload`. -/
def notifyOverload (s : Shared cfg) (now : Instant) : Shared cfg :=
  if now - s.lastOverload < OVERLOAD_MIN_INTERVAL then s
  else { s with lastOverload := now, pendingOverload := true }

/-- `push_frame`. For a frame that is not `droppable` a full queue is worth a warning in the log,
and nothing else. -/
def pushFrame (s : Shared cfg) (frame : Frame) (_droppable : Bool) (now : Instant) : Shared cfg :=
  match s.upTx with
  | none => s.incrDroppedUp
  | some q =>
    if q.closed then s.incrDroppedUp
    else if q.frames.length < UP_QUEUE_CAP then
      { s with upTx := some { q with frames := q.frames ++ [frame] } }
    else s.incrDroppedUp.notifyOverload now

/-- `push_up`. -/
def pushUp (s : Shared cfg) (ev : SessionEvent) (now : Instant) : Shared cfg :=
  s.pushFrame (upFrame ev) (isDroppable ev) now

/-- The pending Overload of the maintenance loop. -/
def pushOverload (s : Shared cfg) (now : Instant) : Shared cfg :=
  if s.pendingOverload then
    { s with pendingOverload := false }.pushFrame
      (.overload (s.stats.droppedUp.setWidth 32) (s.stats.droppedDown.setWidth 32)) false now
  else s

/-- The frames that wait. -/
def queue (s : Shared cfg) : List Frame := (s.upTx.map UpQueue.frames).getD []

/-- `logic_write_loop` takes the next frame. -/
def recv (s : Shared cfg) : Shared cfg :=
  { s with upTx := s.upTx.map fun q => { q with frames := q.frames.tail } }

/-- The logic server has been reached: a new queue, and what waited in an old one is lost. -/
def connect (s : Shared cfg) : Shared cfg :=
  { s with
    logicOnline := true
    stats := { s.stats with logicReconnects := s.stats.logicReconnects + 1 }
    upTx := some ⟨[], false⟩ }

/-- The link is up. -/
def Online (s : Shared cfg) : Prop := ∃ q, s.upTx = some q ∧ q.closed = false

end Shared

/-! ## Runs while the link is up -/

/-- What happens to the queue. -/
inductive UpStep
  | push (ev : SessionEvent) (now : Instant)
  | stats (sessId : U64) (now : Instant)
  | overload (now : Instant)
  | recv

namespace Shared

variable {cfg : SessionTableConfig} {s : Shared cfg}

def upStep (s : Shared cfg) : UpStep → Shared cfg
  | .push ev now => s.pushUp ev now
  | .stats sessId now => s.pushFrame (.session_stats sessId 0 0 0) true now
  | .overload now => s.pushOverload now
  | .recv => s.recv

/-- The frame that a step pushes, and whether it may be dropped. -/
def offer (s : Shared cfg) : UpStep → Option (Frame × Bool)
  | .push ev _ => some (upFrame ev, isDroppable ev)
  | .stats sessId _ => some (.session_stats sessId 0 0 0, true)
  | .overload _ =>
    if s.pendingOverload then
      some (.overload (s.stats.droppedUp.setWidth 32) (s.stats.droppedDown.setWidth 32), false)
    else none
  | .recv => none

/-- What waits on a connection. -/
theorem queue_of_some {q : UpQueue} (h : s.upTx = some q) : s.queue = q.frames := by
  unfold queue
  rw [h]
  rfl

/-- Between connections nothing waits. -/
theorem queue_of_none (h : s.upTx = none) : s.queue = [] := by
  unfold queue
  rw [h]
  rfl

theorem pushFrame_of_full (h : s.Online) (hfull : UP_QUEUE_CAP ≤ s.queue.length) (frame : Frame)
    (droppable : Bool) (now : Instant) :
    s.pushFrame frame droppable now = s.incrDroppedUp.notifyOverload now := by
  obtain ⟨q, hq, hopen⟩ := h
  rw [queue_of_some hq] at hfull
  unfold pushFrame
  rw [hq]
  dsimp only
  rw [if_neg (by rw [hopen]; exact Bool.noConfusion), if_neg (Nat.not_lt.2 hfull)]

theorem pushFrame_of_room (h : s.Online) (hroom : s.queue.length < UP_QUEUE_CAP) (frame : Frame)
    (droppable : Bool) (now : Instant) :
    ∃ q, s.pushFrame frame droppable now = { s with upTx := some q } ∧
      q.frames = s.queue ++ [frame] ∧
      q.closed = false := by
  obtain ⟨q, hq, hopen⟩ := h
  rw [queue_of_some hq] at hroom ⊢
  refine ⟨{ q with frames := q.frames ++ [frame] }, ?_, rfl, hopen⟩
  unfold pushFrame
  rw [hq]
  dsimp only
  rw [if_neg (by rw [hopen]; exact Bool.noConfusion), if_pos hroom]

theorem notifyOverload_frame (s : Shared cfg) (now : Instant) :
    (s.notifyOverload now).upTx = s.upTx ∧ (s.notifyOverload now).stats = s.stats := by
  unfold notifyOverload
  split_ifs
  · exact ⟨rfl, rfl⟩
  · exact ⟨rfl, rfl⟩

/-- Pushing a frame on a link that is up. -/
theorem Online.pushFrame (h : s.Online) (frame : Frame) (droppable : Bool) (now : Instant) :
    (s.pushFrame frame droppable now).Online ∧
      (s.pushFrame frame droppable now).queue =
        if s.queue.length < UP_QUEUE_CAP then s.queue ++ [frame] else s.queue := by
  by_cases hroom : s.queue.length < UP_QUEUE_CAP
  · obtain ⟨q, hpush, hframes, hopen⟩ := pushFrame_of_room h hroom frame droppable now
    rw [hpush, if_pos hroom]
    exact ⟨⟨q, rfl, hopen⟩, hframes⟩
  · rw [pushFrame_of_full h (Nat.not_lt.1 hroom), if_neg hroom]
    have htx : (s.incrDroppedUp.notifyOverload now).upTx = s.upTx := (notifyOverload_frame _ now).1
    obtain ⟨q, hq, hopen⟩ := h
    rw [queue_of_some (htx.trans hq), queue_of_some hq]
    exact ⟨⟨q, htx.trans hq, hopen⟩, rfl⟩

/-- A step that offers a frame puts it into the queue if there is room, and does nothing else to
it. -/
theorem Online.offer (h : s.Online) {x : UpStep} {o : Frame × Bool} (ho : s.offer x = some o) :
    (s.upStep x).queue =
      if s.queue.length < UP_QUEUE_CAP then s.queue ++ [o.1] else s.queue := by
  cases x with
  | push ev now =>
    cases ho
    exact (h.pushFrame _ (isDroppable ev) now).2
  | stats sessId now =>
    cases ho
    exact (h.pushFrame _ true now).2
  | overload now =>
    have hcleared : ({ s with pendingOverload := false } : Shared cfg).Online := h
    have hp : s.pendingOverload = true := by
      by_contra hp
      unfold Shared.offer at ho
      rw [if_neg hp] at ho
      cases ho
    unfold Shared.offer at ho
    rw [if_pos hp] at ho
    cases ho
    show (s.pushOverload now).queue = _
    unfold pushOverload
    rw [if_pos hp]
    exact (hcleared.pushFrame _ false now).2
  | recv => cases ho

/-- A link that is up stays up. -/
theorem Online.upStep (h : s.Online) (x : UpStep) : (s.upStep x).Online := by
  cases x with
  | push ev now => exact (h.pushFrame _ (isDroppable ev) now).1
  | stats sessId now => exact (h.pushFrame _ true now).1
  | overload now =>
    have hcleared : ({ s with pendingOverload := false } : Shared cfg).Online := h
    show (s.pushOverload now).Online
    unfold pushOverload
    split_ifs
    · exact (hcleared.pushFrame _ false now).1
    · exact h
  | recv =>
    obtain ⟨q, hq, hopen⟩ := h
    refine ⟨{ q with frames := q.frames.tail }, ?_, hopen⟩
    show s.upTx.map _ = _
    rw [hq]
    rfl

theorem Online.foldl (h : s.Online) (steps : List UpStep) :
    (steps.foldl Shared.upStep s).Online := by
  induction steps generalizing s with
  | nil => exact h
  | cons x xs ih => exact ih (h.upStep x)

/-- A step that offers nothing leaves the queue alone or takes its first frame. -/
theorem offer_none {x : UpStep} (ho : s.offer x = none) :
    (s.upStep x).queue = match x with
      | .recv => s.queue.tail
      | _ => s.queue := by
  cases x with
  | push ev now => cases ho
  | stats sessId now => cases ho
  | overload now =>
    unfold offer at ho
    split_ifs at ho with hp
    show (s.pushOverload now).queue = s.queue
    unfold pushOverload
    rw [if_neg hp]
  | recv =>
    show ((s.upTx.map fun q => { q with frames := q.frames.tail }).map UpQueue.frames).getD [] = _
    unfold queue
    cases s.upTx with
    | none => rfl
    | some q => rfl

/-! ## What is enqueued -/

/-- The frame that a step puts into the queue. -/
def accepts (s : Shared cfg) (x : UpStep) : List Frame :=
  match s.offer x with
  | some o => if (s.upStep x).queue = s.queue ++ [o.1] then [o.1] else []
  | none => []

/-- The frame that `logic_write_loop` takes. -/
def takes (s : Shared cfg) : UpStep → List Frame
  | .recv => s.queue.take 1
  | _ => []

/-- The frames that are put into the queue. -/
def accepted (s : Shared cfg) : List UpStep → List Frame
  | [] => []
  | x :: xs => s.accepts x ++ (s.upStep x).accepted xs

/-- The frames that `logic_write_loop` takes. -/
def taken (s : Shared cfg) : List UpStep → List Frame
  | [] => []
  | x :: xs => s.takes x ++ (s.upStep x).taken xs

/-! ## Backpressure -/

/-- As long as there is room, pushes of one event fill the queue. -/
theorem Online.length_queue_pushes (h : s.Online) (ev : SessionEvent) (now : Instant) {n : ℕ}
    (hn : s.queue.length + n ≤ UP_QUEUE_CAP) :
    ((List.replicate n (.push ev now)).foldl Shared.upStep s).queue.length =
      s.queue.length + n := by
  induction n generalizing s with
  | zero => rfl
  | succ n ih =>
    have hqueue : (s.upStep (.push ev now)).queue = s.queue ++ [upFrame ev] :=
      (h.offer rfl).trans (if_pos (by omega))
    have hlen : (s.upStep (.push ev now)).queue.length = s.queue.length + 1 := by
      rw [hqueue, List.length_append, List.length_singleton]
    calc ((List.replicate n (.push ev now)).foldl Shared.upStep
          (s.upStep (.push ev now))).queue.length
        = (s.upStep (.push ev now)).queue.length + n := ih (h.upStep _) (by omega)
      _ = s.queue.length + 1 + n := by rw [hlen]
      _ = s.queue.length + (n + 1) := by omega

/-- A step puts the frame that it pushes into the queue, if the frame may not be dropped. -/
def Enqueues (s : Shared cfg) (x : UpStep) : Prop :=
  ∀ f, s.offer x = some (f, false) → (s.upStep x).queue = s.queue ++ [f]

/-- A step that pushes a frame that may not be dropped finds room in the queue. -/
def HasRoom (s : Shared cfg) (x : UpStep) : Prop :=
  ∀ f, s.offer x = some (f, false) → s.queue.length < UP_QUEUE_CAP

theorem Online.enqueues_iff (h : s.Online) (x : UpStep) : s.Enqueues x ↔ s.HasRoom x := by
  refine forall₂_congr fun f ho => ?_
  have hqueue := h.offer ho
  constructor
  · intro hadd
    by_contra hfull
    rw [if_neg hfull, hadd] at hqueue
    exact absurd hqueue (by simp)
  · intro hroom
    rw [if_pos hroom] at hqueue
    exact hqueue

/-- While the link is up, every frame that may not be dropped (Ch2 and Ch3 data, and the life of a
session) is enqueued exactly when each of them finds room in the queue. -/
theorem backpressure_iff (h : s.Online) (steps : List UpStep) :
    Allowed Shared.upStep Enqueues s steps ↔ Allowed Shared.upStep HasRoom s steps :=
  allowed_congr (I := Online) (fun _ x hs _ => hs.upStep x) (fun _ x hs => hs.enqueues_iff x) h

end Shared

/-- An engine that has just reached the logic server. -/
def onlineEngine : Shared .default := (Shared.new .new 0).connect

theorem onlineEngine_online : onlineEngine.Online := ⟨⟨[], false⟩, rfl, rfl⟩

/-- `n` unreliable messages. -/
def burst (n : ℕ) : List UpStep :=
  List.replicate n (.push (.Data 1 CH_UNRELIABLE_UNORDERED 0 []) 0)

theorem droppable_burst {n : ℕ} {x : UpStep} (hx : x ∈ burst n) (s : Shared .default) :
    s.HasRoom x := by
  intro f ho
  rw [List.eq_of_mem_replicate hx] at ho
  cases ho

theorem length_queue_burst {n : ℕ} (hn : n ≤ UP_QUEUE_CAP) :
    ((burst n).foldl Shared.upStep onlineEngine).queue.length = n := by
  have hempty : onlineEngine.queue.length = 0 := rfl
  have hroom : onlineEngine.queue.length + n ≤ UP_QUEUE_CAP := by rwa [hempty, Nat.zero_add]
  have hlen :=
    onlineEngine_online.length_queue_pushes (.Data 1 CH_UNRELIABLE_UNORDERED 0 []) 0 hroom
  rwa [hempty, Nat.zero_add] at hlen

/-- A reliable message takes the last place of the queue, an unreliable one finds none, a frame is
taken, and a new session is told of. -/
def pressed : List UpStep :=
  [.push (.Data 1 CH_RELIABLE_ORDERED 0 []) 0,
    .push (.Data 1 CH_UNRELIABLE_UNORDERED 0 []) 0, .recv,
    .push (.Open 2 (.V4 0 0) []) 0]

/-- With one place left by a burst, the reliable message and the new session are both enqueued. -/
theorem backpressure_pressed :
    onlineEngine.Online ∧ Allowed Shared.upStep Shared.Enqueues onlineEngine
      (burst (UP_QUEUE_CAP - 1) ++ pressed) := by
  refine ⟨onlineEngine_online, (Shared.backpressure_iff onlineEngine_online _).2 ?_⟩
  have hburst := onlineEngine_online.foldl (burst (UP_QUEUE_CAP - 1))
  have hlen : ((burst (UP_QUEUE_CAP - 1)).foldl Shared.upStep onlineEngine).queue.length = 4095 :=
    length_queue_burst (Nat.sub_le _ _)
  rw [allowed_append]
  refine ⟨allowed_of_forall (fun x hx s => droppable_burst hx s) _, ?_⟩
  generalize (burst (UP_QUEUE_CAP - 1)).foldl Shared.upStep onlineEngine = s at hburst hlen
  have hcap : UP_QUEUE_CAP = 4096 := rfl
  set s₁ := s.upStep (.push (.Data 1 CH_RELIABLE_ORDERED 0 []) 0) with hs₁
  have h₁ : s₁.Online := hburst.upStep _
  have hlen₁ : s₁.queue.length = 4096 := by
    rw [hs₁, hburst.offer rfl, if_pos (by omega), List.length_append, hlen, List.length_singleton]
  set s₂ := s₁.upStep (.push (.Data 1 CH_UNRELIABLE_UNORDERED 0 []) 0) with hs₂
  have hlen₂ : s₂.queue.length = 4096 := by
    rw [hs₂, h₁.offer rfl, if_neg (by omega), hlen₁]
  have hlen₃ : (s₂.upStep .recv).queue.length = 4095 := by
    rw [Shared.offer_none rfl, List.length_tail, hlen₂]
  refine ⟨fun f _ => ?_, fun f ho => ?_, fun f ho => ?_, fun f _ => ?_, trivial⟩
  · omega
  · cases ho
  · cases ho
  · show (s₂.upStep .recv).queue.length < UP_QUEUE_CAP
    omega

/-- After as many unreliable messages as the queue holds a reliable message is lost. -/
theorem backpressure_loses :
    onlineEngine.Online ∧ ¬ Allowed Shared.upStep Shared.Enqueues onlineEngine
      (burst UP_QUEUE_CAP ++ [.push (.Data 1 CH_RELIABLE_ORDERED 0 []) 0]) := by
  refine ⟨onlineEngine_online, fun hall => ?_⟩
  have hlast := (allowed_append.1 hall).2.1
  have hroom := ((onlineEngine_online.foldl (burst UP_QUEUE_CAP)).enqueues_iff _).1 hlast _ rfl
  rw [length_queue_burst le_rfl] at hroom
  exact absurd hroom (Nat.lt_irrefl _)

end SoupEngine
