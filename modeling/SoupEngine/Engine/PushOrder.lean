import SoupEngine.Engine.OpensFirst
import SoupEngine.Session.Grammar

/-!
# The order of the events in the queue

A task takes the events of the session table under the lock of the shard, and pushes their frames
after it has released it. The table reports the events of a session in order; if no task pushes a
frame while another one still holds an older event of the same session, they stand in the queue in
this order (`session_order`). Two tasks with datagrams of one session can break it (`overtaken`).
-/

namespace SoupEngine

open TransitionSystem Engine

/-- The frame of an event of the session. -/
def Frame.Tells (id : U64) (f : Frame) : Prop := f.about = some id ∧ f.ty ≠ FRAME_SESSION_STATS

instance (id : U64) (f : Frame) : Decidable (f.Tells id) := by unfold Frame.Tells; infer_instance

theorem tells_upFrame {id : U64} {e : SessionEvent} : (upFrame e).Tells id ↔ e.sessId = id := by
  have hty : (upFrame e).ty ≠ FRAME_SESSION_STATS := by
    cases e with
    | Open sessId peer token => exact (show FRAME_SESSION_OPEN ≠ FRAME_SESSION_STATS by decide)
    | Close sessId reason => exact (show FRAME_SESSION_CLOSE ≠ FRAME_SESSION_STATS by decide)
    | Resume sessId gapMs => exact (show FRAME_SESSION_RESUME ≠ FRAME_SESSION_STATS by decide)
    | Data sessId ch msgId payload => exact (show FRAME_DATA_UP ≠ FRAME_SESSION_STATS by decide)
  unfold Frame.Tells
  rw [about_upFrame, Option.some_inj]
  exact and_iff_left hty

theorem told_upFrame (id : U64) (L : List SessionEvent) :
    (L.map upFrame).filter (fun f => decide (f.Tells id)) = (eventsOf id L).map upFrame := by
  rw [List.filter_map]
  unfold eventsOf
  congr 2
  funext e
  exact decide_eq_decide.2 tells_upFrame

/-- The engine, and where its frames come from: places in the list of all events. -/
structure Traced (cfg : EngineConfig) where
  engine : Engine cfg
  /-- For each frame that a task holds the place of its event; a SessionStats has none. -/
  held : ℕ → List (Option ℕ)
  /-- The places of the events whose frames have been put into the queue. -/
  queued : List ℕ

namespace Traced

variable {cfg : EngineConfig} (hmac4 : Hmac)

def start (now : Instant) : Traced cfg := ⟨.start now, fun _ => [], []⟩

/-- The places that the tasks hold after a step. -/
def heldAfter (s : Traced cfg) : EngineAction → ℕ → List (Option ℕ)
  | .handle w x =>
    if (s.engine.tasks w).isEmpty then
      Function.update s.held w ((List.range' s.engine.reported.length
        (s.engine.shared.sessions.act hmac4 x).2.length).map some)
    else s.held
  | .stats w i =>
    if h : i < max cfg.session.shards 1 then
      Function.update s.held w (s.held w ++
        (s.engine.shared.sessions.shards ⟨i, h⟩).values.map fun _ => none)
    else s.held
  | .push w _ => Function.update s.held w (s.held w).tail
  | _ => s.held

/-- A push puts its frame into the queue, if there is one with room. -/
def queuedAfter (s : Traced cfg) : EngineAction → List ℕ
  | .push w now =>
    match s.held w with
    | some k :: _ =>
      if s.engine.shared.queue.length < (s.engine.step hmac4 (.push w now)).shared.queue.length then
        s.queued ++ [k]
      else s.queued
    | _ => s.queued
  | _ => s.queued

def step (s : Traced cfg) (a : EngineAction) : Traced cfg :=
  ⟨s.engine.step hmac4 a, s.heldAfter hmac4 a, s.queuedAfter hmac4 a⟩

/-- The events that have been put into the queue. -/
def enqueued (s : Traced cfg) : List SessionEvent :=
  s.queued.filterMap fun k => s.engine.reported[k]?

/-- No task pushes past an older event of the same session that another task holds. -/
def Waits (s : Traced cfg) : EngineAction → Prop
  | .push w _ => ∀ k e, (s.held w).head? = some (some k) → s.engine.reported[k]? = some e →
      ∀ v, v ≠ w → ∀ j f, some j ∈ s.held v → s.engine.reported[j]? = some f →
        f.sessId = e.sessId → k < j
  | _ => True

end Traced

/-! ## The queue -/

section Queue

variable {cfg : EngineConfig} (e : Engine cfg) (hmac4 : Hmac)

/-- The queue after a push. -/
theorem queue_pushFrame {cfg : SessionTableConfig} (s : Shared cfg) (f : Frame) (droppable : Bool)
    (now : Instant) : (s.pushFrame f droppable now).queue = s.queue ∨
      (s.pushFrame f droppable now).queue = s.queue ++ [f] := by
  rcases (s.pushFrame_cases f droppable now).2 with ⟨-, hup⟩ | ⟨-, hup⟩
  · refine Or.inr ?_
    show ((s.pushFrame f droppable now).upTx.map UpQueue.frames).getD [] = _
    rw [hup]
    rfl
  · refine Or.inl ?_
    show ((s.pushFrame f droppable now).upTx.map UpQueue.frames).getD [] = _
    rw [hup]
    rfl

/-- A task pushes a frame. -/
theorem step_push {w : ℕ} {f : Frame} {droppable : Bool} {rest : List (Frame × Bool)}
    (now : Instant) (h : e.tasks w = (f, droppable) :: rest) :
    (e.step hmac4 (.push w now)).tasks = Function.update e.tasks w rest ∧
      (e.step hmac4 (.push w now)).reported = e.reported ∧
      ((e.step hmac4 (.push w now)).shared.queue = e.shared.queue ∨
        (e.step hmac4 (.push w now)).shared.queue = e.shared.queue ++ [f]) := by
  unfold Engine.step
  dsimp only
  rw [h]
  exact ⟨rfl, rfl, queue_pushFrame e.shared f droppable now⟩

/-- The steps of the link loop, and the Overload. -/
def EngineAction.Loop : EngineAction → Prop
  | .handle .. => False
  | .stats .. => False
  | .push .. => False
  | _ => True

/-- An Overload is no frame of an event. -/
theorem queue_pushOverload {cfg : SessionTableConfig} (s : Shared cfg) (now : Instant) (id : U64) :
    (s.pushOverload now).queue.filter (fun f => decide (f.Tells id)) <:+
      s.queue.filter (fun f => decide (f.Tells id)) := by
  have hcleared : ({ s with pendingOverload := false } : Shared cfg).queue = s.queue := rfl
  have hnot (a b : U32) : ¬ (Frame.overload a b).Tells id := by
    unfold Frame.Tells
    rw [Frame.about_overload]
    exact fun h => nomatch h.1
  unfold Shared.pushOverload
  split_ifs
  · rcases queue_pushFrame { s with pendingOverload := false } (.overload _ _) false now with
      hq | hq
    · rw [hq, hcleared]
    · rw [hq, hcleared, List.filter_append, List.filter_cons_of_neg, List.filter_nil,
        List.append_nil]
      exact fun h => hnot _ _ (of_decide_eq_true h)
  · exact List.suffix_refl _

theorem queue_dropReceiver {cfg : SessionTableConfig} (s : Shared cfg) :
    s.dropReceiver.queue = [] := by
  unfold Shared.dropReceiver Shared.queue
  cases s.upTx with
  | none => rfl
  | some q => rfl

/-- The link loop leaves the tasks alone, and no frame of an event comes into the queue. -/
theorem step_loop {a : EngineAction} (ha : a.Loop) :
    (e.step hmac4 a).tasks = e.tasks ∧ (e.step hmac4 a).reported = e.reported ∧
      ∀ id : U64, (e.step hmac4 a).shared.queue.filter (fun f => decide (f.Tells id)) <:+
        e.shared.queue.filter (fun f => decide (f.Tells id)) := by
  have hsame : e.tasks = e.tasks ∧ e.reported = e.reported ∧
      ∀ id : U64, e.shared.queue.filter (fun f => decide (f.Tells id)) <:+
        e.shared.queue.filter (fun f => decide (f.Tells id)) :=
    ⟨rfl, rfl, fun _ => List.suffix_refl _⟩
  have hempty (id : U64) : ([] : List Frame).filter (fun f => decide (f.Tells id)) <:+
      e.shared.queue.filter (fun f => decide (f.Tells id)) := List.nil_suffix
  have hdropped := queue_dropReceiver e.shared
  cases a with
  | handle => exact ha.elim
  | stats => exact ha.elim
  | push => exact ha.elim
  | overload now => exact ⟨rfl, rfl, fun id => queue_pushOverload e.shared now id⟩
  | connect =>
    unfold Engine.step
    dsimp only
    cases e.phase with
    | waiting => exact ⟨rfl, rfl, hempty⟩
    | _ => exact hsame
  | hello ok now =>
    unfold Engine.step
    dsimp only
    cases e.phase with
    | greeting =>
      dsimp only
      split_ifs
      · exact hsame
      · exact ⟨rfl, rfl, hempty⟩
    | _ => exact hsame
  | walk =>
    unfold Engine.step
    dsimp only
    cases e.phase with
    | walking gapMs shards resumes =>
      cases shards with
      | nil => exact hsame
      | cons i shards => exact hsame
    | _ => exact hsame
  | resume ok =>
    unfold Engine.step
    dsimp only
    cases e.phase with
    | resuming resumes =>
      cases resumes with
      | nil => exact hsame
      | cons r resumes =>
        dsimp only
        split_ifs
        · exact hsame
        · exact hsame
    | _ => exact hsame
  | write ok =>
    unfold Engine.step
    dsimp only
    cases e.phase with
    | running =>
      cases hq : e.shared.queue with
      | nil =>
        refine ⟨rfl, rfl, fun id => ?_⟩
        show e.shared.queue.filter _ <:+ _
        rw [hq]
      | cons f q =>
        dsimp only
        split_ifs
        · refine ⟨rfl, rfl, fun id => ?_⟩
          have htail : e.shared.recv.queue = e.shared.queue.tail :=
            Shared.offer_none (x := .recv) rfl
          show e.shared.recv.queue.filter _ <:+ _
          rw [htail, hq]
          exact (List.suffix_cons f q).filter _
        · refine ⟨rfl, rfl, fun id => ?_⟩
          show e.shared.dropReceiver.queue.filter _ <:+ _
          rw [hdropped]
          exact List.nil_suffix
    | _ => exact hsame
  | hangUp =>
    unfold Engine.step
    dsimp only
    cases e.phase with
    | running =>
      refine ⟨rfl, rfl, fun id => ?_⟩
      show e.shared.dropReceiver.queue.filter _ <:+ _
      rw [hdropped]
      exact hempty id
    | _ => exact hsame
  | reset =>
    unfold Engine.step
    dsimp only
    cases e.phase with
    | broken => exact ⟨rfl, rfl, hempty⟩
    | _ => exact hsame

end Queue

/-! ## The invariant -/

/-- What a task holds: the frame of the event at its place, or a SessionStats. -/
def FrameAt (L : List SessionEvent) : Option ℕ → Frame × Bool → Prop
  | some k, p => ∃ e, L[k]? = some e ∧ p.1 = upFrame e
  | none, p => ∀ id : U64, ¬ p.1.Tells id

theorem FrameAt.mono {L : List SessionEvent} (M : List SessionEvent) {o : Option ℕ}
    {p : Frame × Bool} (h : FrameAt L o p) : FrameAt (L ++ M) o p := by
  cases o with
  | none => exact h
  | some k =>
    obtain ⟨e, he, hp⟩ := h
    have hk : k < L.length := (List.getElem?_eq_some_iff.1 he).1
    exact ⟨e, by rw [List.getElem?_append_left hk, he], hp⟩

/-- The frames of new events. -/
theorem frameAt_new (L M : List SessionEvent) :
    List.Forall₂ (FrameAt (L ++ M)) ((List.range' L.length M.length).map some)
      (M.map fun e => (upFrame e, isDroppable e)) := by
  rw [List.forall₂_map_left_iff, List.forall₂_map_right_iff, List.forall₂_iff_get]
  refine ⟨List.length_range', fun i h₁ h₂ => ⟨M.get ⟨i, h₂⟩, ?_, rfl⟩⟩
  have hplace : (List.range' L.length M.length).get ⟨i, h₁⟩ = L.length + i := by
    rw [List.get_eq_getElem, List.getElem_range', one_mul]
  rw [hplace, List.getElem?_append_right (Nat.le_add_right _ _), Nat.add_sub_cancel_left]
  exact List.getElem?_eq_getElem h₂

/-- An older event of the session than another one. -/
def Before (L : List SessionEvent) (j k : ℕ) : Prop :=
  ∀ e f, L[j]? = some e → L[k]? = some f → e.sessId = f.sessId → j < k

theorem Before.mono {L : List SessionEvent} (M : List SessionEvent) {j k : ℕ} (hj : j < L.length)
    (h : k < L.length → Before L j k) : Before (L ++ M) j k := by
  intro e f he hf hid
  by_cases hk : k < L.length
  · rw [List.getElem?_append_left hj] at he
    rw [List.getElem?_append_left hk] at hf
    exact h hk e f he hf hid
  · exact lt_of_lt_of_le hj (not_lt.1 hk)

namespace Traced

variable {cfg : EngineConfig} {hmac4 : Hmac} {s : Traced cfg}

structure OrderInv (s : Traced cfg) : Prop where
  frames : ∀ w, List.Forall₂ (FrameAt s.engine.reported) (s.held w) (s.engine.tasks w)
  places : ∀ k ∈ s.queued, k < s.engine.reported.length
  waiting : ∀ id : U64, s.engine.shared.queue.filter (fun f => decide (f.Tells id)) <:+
    (eventsOf id s.enqueued).map upFrame
  task : ∀ w, (s.held w).Pairwise fun a b => ∀ j ∈ a, ∀ k ∈ b, j < k
  older : ∀ k ∈ s.queued, ∀ w j, some j ∈ s.held w → Before s.engine.reported k j
  queued : s.queued.Pairwise (Before s.engine.reported)

theorem orderInv_start (now : Instant) : OrderInv (start now : Traced cfg) where
  frames _ := .nil
  places _ hk := absurd hk List.not_mem_nil
  waiting _ := List.nil_suffix
  task _ := .nil
  older _ hk := absurd hk List.not_mem_nil
  queued := .nil

theorem OrderInv.loop (h : OrderInv s) {a : EngineAction} (ha : a.Loop) :
    OrderInv (s.step hmac4 a) := by
  obtain ⟨htasks, hreported, hqueue⟩ := step_loop s.engine hmac4 ha
  have hheld : s.heldAfter hmac4 a = s.held := by
    cases a with
    | handle => exact ha.elim
    | stats => exact ha.elim
    | push => exact ha.elim
    | _ => rfl
  have hqueued : s.queuedAfter hmac4 a = s.queued := by
    cases a with
    | push => exact ha.elim
    | _ => rfl
  unfold step
  rw [hheld, hqueued]
  have henqueued : enqueued ⟨s.engine.step hmac4 a, s.held, s.queued⟩ = s.enqueued := by
    unfold enqueued
    dsimp only
    rw [hreported]
  refine ⟨?_, ?_, ?_, h.task, ?_, ?_⟩
  · dsimp only
    rw [hreported, htasks]
    exact h.frames
  · dsimp only
    rw [hreported]
    exact h.places
  · intro id
    rw [henqueued]
    exact (hqueue id).trans (h.waiting id)
  · dsimp only
    rw [hreported]
    exact h.older
  · dsimp only
    rw [hreported]
    exact h.queued

theorem OrderInv.handle (h : OrderInv s) (w : ℕ) (x : TableAction) :
    OrderInv (s.step hmac4 (.handle w x)) := by
  by_cases hempty : (s.engine.tasks w).isEmpty
  · have hheld : s.heldAfter hmac4 (.handle w x) = Function.update s.held w
        ((List.range' s.engine.reported.length
          (s.engine.shared.sessions.act hmac4 x).2.length).map some) := if_pos hempty
    have hengine : s.engine.step hmac4 (.handle w x) = _ := if_pos hempty
    unfold step
    rw [hheld, hengine]
    set L := s.engine.reported with hL
    set M := (s.engine.shared.sessions.act hmac4 x).2 with hM
    have hget {k : ℕ} (hk : k ∈ s.queued) : (L ++ M)[k]? = L[k]? :=
      List.getElem?_append_left (h.places k hk)
    refine ⟨fun v => ?_, fun k hk => ?_, fun id => ?_, fun v => ?_, fun k hk v j hj => ?_, ?_⟩
    · dsimp only
      by_cases hv : v = w
      · subst hv
        rw [Function.update_self, Function.update_self]
        exact frameAt_new L M
      · rw [Function.update_of_ne hv, Function.update_of_ne hv]
        exact (h.frames v).imp fun _ _ hp => hp.mono M
    · show k < (L ++ M).length
      rw [List.length_append]
      exact Nat.lt_add_right _ (h.places k hk)
    · have henqueued : s.queued.filterMap (fun k => (L ++ M)[k]?) = s.enqueued :=
        List.filterMap_congr fun k hk => hget hk
      show _ <:+ (eventsOf id (s.queued.filterMap fun k => (L ++ M)[k]?)).map upFrame
      rw [henqueued]
      exact h.waiting id
    · dsimp only
      by_cases hv : v = w
      · subst hv
        rw [Function.update_self, List.pairwise_map]
        refine (List.pairwise_lt_range' : (List.range' L.length M.length).Pairwise (· < ·)).imp ?_
        intro j k hjk j' hj' k' hk'
        cases hj'
        cases hk'
        exact hjk
      · rw [Function.update_of_ne hv]
        exact h.task v
    · refine Before.mono M (h.places k hk) fun hlt => ?_
      by_cases hv : v = w
      · subst hv
        have hj' : some j ∈ Function.update s.held v ((List.range' L.length M.length).map some) v :=
          hj
        rw [Function.update_self] at hj'
        obtain ⟨j', hrange, he⟩ := List.mem_map.1 hj'
        cases he
        obtain ⟨hle, -⟩ := List.mem_range'_1.1 hrange
        exact absurd hlt (not_lt.2 hle)
      · have hj' : some j ∈ Function.update s.held w ((List.range' L.length M.length).map some) v :=
          hj
        rw [Function.update_of_ne hv] at hj'
        exact h.older k hk v j hj'
    · exact h.queued.imp_of_mem fun {j k} hj hk hjk => Before.mono M (h.places j hj) fun _ => hjk
  · have hheld : s.heldAfter hmac4 (.handle w x) = s.held := if_neg hempty
    have hengine : s.engine.step hmac4 (.handle w x) = s.engine := if_neg hempty
    unfold step
    rw [hheld, hengine]
    exact h

theorem OrderInv.stats (h : OrderInv s) (w i : ℕ) : OrderInv (s.step hmac4 (.stats w i)) := by
  by_cases hi : i < max cfg.session.shards 1
  · have hheld : s.heldAfter hmac4 (.stats w i) = _ := dif_pos hi
    have hengine : s.engine.step hmac4 (.stats w i) = _ := dif_pos hi
    unfold step
    rw [hheld, hengine]
    refine ⟨fun v => ?_, h.places, h.waiting, fun v => ?_, fun k hk v j hj => ?_, h.queued⟩
    · dsimp only
      by_cases hv : v = w
      · subst hv
        rw [Function.update_self, Function.update_self]
        refine List.rel_append (h.frames v) ?_
        rw [List.forall₂_map_left_iff, List.forall₂_map_right_iff, List.forall₂_same]
        exact fun s _ id htells => htells.2 rfl
      · rw [Function.update_of_ne hv, Function.update_of_ne hv]
        exact h.frames v
    · dsimp only
      by_cases hv : v = w
      · subst hv
        rw [Function.update_self]
        refine List.pairwise_append.2 ⟨h.task v, ?_, ?_⟩
        · refine List.pairwise_map.2 (List.pairwise_of_forall fun _ _ j hj => nomatch hj)
        · intro a _ b hb j _ k hk
          obtain ⟨_, -, rfl⟩ := List.mem_map.1 hb
          cases hk
      · rw [Function.update_of_ne hv]
        exact h.task v
    · refine h.older k hk v j ?_
      by_cases hv : v = w
      · subst hv
        have hj' : some j ∈ Function.update s.held v (s.held v ++ _) v := hj
        rw [Function.update_self] at hj'
        rcases List.mem_append.1 hj' with hj' | hj'
        · exact hj'
        · obtain ⟨_, -, he⟩ := List.mem_map.1 hj'
          cases he
      · have hj' : some j ∈ Function.update s.held w _ v := hj
        rwa [Function.update_of_ne hv] at hj'
  · have hheld : s.heldAfter hmac4 (.stats w i) = s.held := dif_neg hi
    have hengine : s.engine.step hmac4 (.stats w i) = s.engine := dif_neg hi
    unfold step
    rw [hheld, hengine]
    exact h

theorem suffix_snoc {α : Type} {l m : List α} (h : l <:+ m) (n : List α) : l ++ n <:+ m ++ n := by
  obtain ⟨t, rfl⟩ := h
  exact ⟨t, (List.append_assoc t l n).symm⟩

/-- After a push the tasks hold no more than before. -/
theorem held_push {w v j : ℕ} {now : Instant} (hj : some j ∈ s.heldAfter hmac4 (.push w now) v) :
    some j ∈ s.held v := by
  have hj' : some j ∈ Function.update s.held w (s.held w).tail v := hj
  by_cases hv : v = w
  · subst hv
    rw [Function.update_self] at hj'
    exact List.mem_of_mem_tail hj'
  · rwa [Function.update_of_ne hv] at hj'

/-- A task with nothing to push changes nothing. -/
theorem step_push_nil (h : OrderInv s) {w : ℕ} (now : Instant) (htasks : s.engine.tasks w = []) :
    s.step hmac4 (.push w now) = s := by
  have hframes := h.frames w
  rw [htasks] at hframes
  have hnil : s.held w = [] := List.forall₂_nil_right_iff.1 hframes
  have hheld : s.heldAfter hmac4 (.push w now) = s.held := by
    show Function.update s.held w (s.held w).tail = s.held
    rw [hnil]
    exact Function.update_eq_self_iff.2 hnil.symm
  have hqueued : s.queuedAfter hmac4 (.push w now) = s.queued := by
    unfold queuedAfter
    dsimp only
    rw [hnil]
  have hengine : s.engine.step hmac4 (.push w now) = s.engine := by
    unfold Engine.step
    dsimp only
    rw [htasks]
  unfold step
  rw [hheld, hqueued, hengine]

/-- What a push leaves the tasks with. -/
theorem frames_push (hmac4 : Hmac) (h : OrderInv s) {w : ℕ} (now : Instant) {p : Frame × Bool}
    {rest : List (Frame × Bool)} (htasks : s.engine.tasks w = p :: rest) (v : ℕ) :
    List.Forall₂ (FrameAt (s.engine.step hmac4 (.push w now)).reported)
      (s.heldAfter hmac4 (.push w now) v) ((s.engine.step hmac4 (.push w now)).tasks v) := by
  have hframes := h.frames w
  rw [htasks] at hframes
  obtain ⟨o, hs, -, hrest, hheld⟩ := List.forall₂_cons_right_iff.1 hframes
  obtain ⟨htasks', hreported, -⟩ := step_push s.engine hmac4 now htasks
  rw [hreported, htasks']
  show List.Forall₂ _ (Function.update s.held w (s.held w).tail v) _
  by_cases hv : v = w
  · subst hv
    rw [Function.update_self, Function.update_self, hheld]
    exact hrest
  · rw [Function.update_of_ne hv, Function.update_of_ne hv]
    exact h.frames v

theorem task_push (hmac4 : Hmac) (h : OrderInv s) (w : ℕ) (now : Instant) (v : ℕ) :
    (s.heldAfter hmac4 (.push w now) v).Pairwise fun a b => ∀ j ∈ a, ∀ k ∈ b, j < k := by
  show (Function.update s.held w (s.held w).tail v).Pairwise _
  by_cases hv : v = w
  · subst hv
    rw [Function.update_self]
    exact (h.task v).tail
  · rw [Function.update_of_ne hv]
    exact h.task v

/-- A push that puts no event of a session into the queue. -/
theorem OrderInv.push_idle (h : OrderInv s) {w : ℕ} (now : Instant) {p : Frame × Bool}
    {rest : List (Frame × Bool)} (htasks : s.engine.tasks w = p :: rest)
    (hqueued : s.queuedAfter hmac4 (.push w now) = s.queued)
    (hwaiting : ∀ id : U64,
      (s.engine.step hmac4 (.push w now)).shared.queue.filter (fun f => decide (f.Tells id)) =
        s.engine.shared.queue.filter (fun f => decide (f.Tells id))) :
    OrderInv (s.step hmac4 (.push w now)) := by
  obtain ⟨-, hreported, -⟩ := step_push s.engine hmac4 now htasks
  have henqueued : (s.step hmac4 (.push w now)).enqueued = s.enqueued := by
    unfold enqueued step
    dsimp only
    rw [hqueued, hreported]
  refine ⟨frames_push hmac4 h now htasks, ?_, fun id => ?_, task_push hmac4 h w now, ?_, ?_⟩
  · unfold step
    rw [hqueued, hreported]
    exact h.places
  · rw [henqueued]
    show (s.engine.step hmac4 (.push w now)).shared.queue.filter _ <:+ _
    rw [hwaiting]
    exact h.waiting id
  · unfold step
    dsimp only
    rw [hqueued, hreported]
    exact fun k hk v j hj => h.older k hk v j (held_push hj)
  · unfold step
    dsimp only
    rw [hqueued, hreported]
    exact h.queued

/-- After the event in place `k` no task holds an older one of its session. -/
theorem older_push (h : OrderInv s) {w k : ℕ} {now : Instant} (hwaits : s.Waits (.push w now))
    {e : SessionEvent} (he : s.engine.reported[k]? = some e) {hs : List (Option ℕ)}
    (hheld : s.held w = some k :: hs) {v j : ℕ} (hj : some j ∈ s.heldAfter hmac4 (.push w now) v) :
    Before s.engine.reported k j := by
  by_cases hv : v = w
  · subst hv
    have hj' : some j ∈ Function.update s.held v (s.held v).tail v := hj
    rw [Function.update_self, hheld] at hj'
    have hfirst := h.task v
    rw [hheld] at hfirst
    exact fun _ _ _ _ _ => (List.pairwise_cons.1 hfirst).1 _ hj' k rfl j rfl
  · intro e' f' he' hf' hid
    rw [he] at he'
    cases he'
    refine hwaits k e ?_ he v hv j f' (held_push hj) hf' hid.symm
    rw [hheld]
    rfl

/-- A push that puts an event of a session into the queue. -/
theorem OrderInv.push_event (h : OrderInv s) {w k : ℕ} (now : Instant)
    (hwaits : s.Waits (.push w now)) {e : SessionEvent} (he : s.engine.reported[k]? = some e)
    {droppable : Bool} {rest : List (Frame × Bool)}
    (htasks : s.engine.tasks w = (upFrame e, droppable) :: rest) {hs : List (Option ℕ)}
    (hheld : s.held w = some k :: hs)
    (hq : (s.engine.step hmac4 (.push w now)).shared.queue = s.engine.shared.queue ++ [upFrame e]) :
    OrderInv (s.step hmac4 (.push w now)) := by
  obtain ⟨-, hreported, -⟩ := step_push s.engine hmac4 now htasks
  have hqueued : s.queuedAfter hmac4 (.push w now) = s.queued ++ [k] := by
    unfold queuedAfter
    dsimp only
    rw [hheld]
    dsimp only
    rw [hq]
    refine if_pos ?_
    rw [List.length_append]
    exact Nat.lt_succ_self _
  have hmine : some k ∈ s.held w := by
    rw [hheld]
    exact List.mem_cons_self
  refine ⟨frames_push hmac4 h now htasks, ?_, fun id => ?_, task_push hmac4 h w now, ?_, ?_⟩
  · unfold step
    rw [hqueued, hreported]
    intro k' hk'
    rcases List.mem_append.1 hk' with hk' | hk'
    · exact h.places k' hk'
    · rw [List.mem_singleton.1 hk']
      exact (List.getElem?_eq_some_iff.1 he).1
  · have henqueued : (s.step hmac4 (.push w now)).enqueued = s.enqueued ++ [e] := by
      unfold enqueued step
      dsimp only
      rw [hqueued, hreported, List.filterMap_append, List.filterMap_cons_some he,
        List.filterMap_nil]
    rw [henqueued, eventsOf_append, List.map_append, ← told_upFrame id [e]]
    show (s.engine.step hmac4 (.push w now)).shared.queue.filter _ <:+ _
    rw [hq, List.filter_append]
    exact suffix_snoc (h.waiting id) _
  · unfold step
    dsimp only
    rw [hqueued, hreported]
    intro k' hk' v j hj
    rcases List.mem_append.1 hk' with hk' | hk'
    · exact h.older k' hk' v j (held_push hj)
    · rw [List.mem_singleton.1 hk']
      exact older_push h hwaits he hheld hj
  · unfold step
    dsimp only
    rw [hqueued, hreported]
    refine List.pairwise_append.2 ⟨h.queued, List.pairwise_singleton .., fun j hj k' hk' => ?_⟩
    rw [List.mem_singleton.1 hk']
    exact h.older j hj w k hmine

theorem OrderInv.push (h : OrderInv s) (w : ℕ) (now : Instant) (hwaits : s.Waits (.push w now)) :
    OrderInv (s.step hmac4 (.push w now)) := by
  cases htasks : s.engine.tasks w with
  | nil =>
    rw [step_push_nil h now htasks]
    exact h
  | cons p rest =>
    obtain ⟨f, droppable⟩ := p
    have hframes := h.frames w
    rw [htasks] at hframes
    obtain ⟨o, hs, hat, -, hheld⟩ := List.forall₂_cons_right_iff.1 hframes
    obtain ⟨-, -, hqueue⟩ := step_push s.engine hmac4 now htasks
    cases o with
    | none =>
      refine h.push_idle now htasks ?_ fun id => ?_
      · unfold queuedAfter
        dsimp only
        rw [hheld]
      · rcases hqueue with hq | hq
        · rw [hq]
        · rw [hq, List.filter_append, List.filter_cons_of_neg, List.filter_nil, List.append_nil]
          exact fun htells => hat id (of_decide_eq_true htells)
    | some k =>
      obtain ⟨e, he, rfl⟩ : ∃ e, s.engine.reported[k]? = some e ∧ f = upFrame e := hat
      rcases hqueue with hq | hq
      · refine h.push_idle now htasks ?_ fun id => by rw [hq]
        unfold queuedAfter
        dsimp only
        rw [hheld]
        dsimp only
        rw [hq]
        exact if_neg (lt_irrefl _)
      · exact h.push_event now hwaits he htasks hheld hq

theorem OrderInv.step (h : OrderInv s) (a : EngineAction) (hwaits : s.Waits a) :
    OrderInv (s.step hmac4 a) := by
  cases a with
  | handle w x => exact h.handle w x
  | stats w i => exact h.stats w i
  | push w now => exact h.push w now hwaits
  | _ => exact h.loop trivial

end Traced

/-- Increasing places of a list. -/
theorem sublist_of_increasing {α : Type} (L : List α) {ks : List ℕ}
    (h : ks.Pairwise (· < ·)) {n : ℕ} (hn : ∀ k ∈ ks, n ≤ k) :
    (ks.filterMap fun k => L[k]?).Sublist (L.drop n) := by
  induction ks generalizing n with
  | nil => exact List.nil_sublist _
  | cons k ks ih =>
    obtain ⟨hk, hks⟩ := List.pairwise_cons.1 h
    have hrest := ih hks (n := k + 1) fun j hj => hk j hj
    have hle : n ≤ k := hn k List.mem_cons_self
    cases he : L[k]? with
    | none =>
      rw [List.filterMap_cons_none he]
      calc (ks.filterMap fun k => L[k]?).Sublist (L.drop (k + 1)) := hrest
        List.Sublist _ (L.drop n) := List.drop_sublist_drop_left L (Nat.le_succ_of_le hle)
    | some e =>
      obtain ⟨hlt, rfl⟩ := List.getElem?_eq_some_iff.1 he
      rw [List.filterMap_cons_some he]
      refine List.Sublist.trans ?_ (List.drop_sublist_drop_left L hle)
      rw [List.drop_eq_getElem_cons hlt]
      exact hrest.cons_cons _

/-- The events of a session in the queue come from increasing places. -/
theorem Traced.OrderInv.sublist {cfg : EngineConfig} {s : Traced cfg} (h : s.OrderInv) (id : U64) :
    (eventsOf id s.enqueued).Sublist (eventsOf id s.engine.reported) := by
  set L := s.engine.reported with hL
  have hplaces : eventsOf id s.enqueued =
      (s.queued.filter fun k => L[k]?.any fun e => decide (e.sessId = id)).filterMap fun k =>
        L[k]? := by
    unfold eventsOf Traced.enqueued
    rw [List.filter_filterMap, List.filterMap_filter]
    congr 1
    funext k
    show Option.filter _ L[k]? = _
    cases L[k]? with
    | none => rfl
    | some e => rfl
  have hincreasing :
      (s.queued.filter fun k => L[k]?.any fun e => decide (e.sessId = id)).Pairwise (· < ·) := by
    refine (h.queued.sublist List.filter_sublist).imp_of_mem fun {j k} hj hk hbefore => ?_
    obtain ⟨e, he, hej⟩ := (Option.any_eq_true _ _).1 (List.mem_filter.1 hj).2
    obtain ⟨f, hf, hfk⟩ := (Option.any_eq_true _ _).1 (List.mem_filter.1 hk).2
    exact hbefore e f he hf ((of_decide_eq_true hej).trans (of_decide_eq_true hfk).symm)
  have hsub : (eventsOf id s.enqueued).Sublist L := by
    rw [hplaces]
    exact sublist_of_increasing L hincreasing fun _ _ => Nat.zero_le _
  have hself : eventsOf id (eventsOf id s.enqueued) = eventsOf id s.enqueued :=
    List.filter_eq_self.2 fun e he => (List.mem_filter.1 he).2
  rw [← hself]
  exact hsub.filter _

/-- **The order of the events.** In a run in which no task pushes past an older event of the same
session, the events of each session come into the queue in the order in which the table has reported
them, and so do their frames stand in it. -/
theorem session_order {cfg : EngineConfig} {hmac4 : Hmac} {now : Instant} {s : Traced cfg}
    (h : Reach (Traced.step hmac4) Traced.Waits (Traced.start now) s) (id : U64) :
    (eventsOf id s.enqueued).Sublist (eventsOf id s.engine.reported) ∧
      (s.engine.shared.queue.filter fun f => decide (f.Tells id)).Sublist
        ((eventsOf id s.engine.reported).map upFrame) := by
  have hinv : s.OrderInv := h.invariant (Traced.orderInv_start now) fun _ a hs ha => hs.step a ha
  exact ⟨hinv.sublist id, (hinv.waiting id).sublist.trans ((hinv.sublist id).map upFrame)⟩

/-! ## Two tasks -/

/-- The task that takes the step. -/
def EngineAction.By (v : ℕ) : EngineAction → Prop
  | .handle w _ => w = v
  | .stats w _ => w = v
  | .push w _ => w = v
  | _ => False

namespace Traced

variable {cfg : EngineConfig} (hmac4 : Hmac) (s : Traced cfg)

theorem held_other {a : EngineAction} {v : ℕ} (h : ¬ a.By v) :
    (s.step hmac4 a).held v = s.held v := by
  show s.heldAfter hmac4 a v = s.held v
  unfold heldAfter
  cases a with
  | handle w x =>
    dsimp only
    split_ifs
    · exact Function.update_of_ne (Ne.symm h) _ _
    · rfl
  | stats w i =>
    dsimp only
    split_ifs
    · exact Function.update_of_ne (Ne.symm h) _ _
    · rfl
  | push w now => exact Function.update_of_ne (Ne.symm h) _ _
  | _ => rfl

end Traced

/-- A message on Ch2 of the first session. -/
def message (peer : SocketAddr) (seq : U16) (b : U8) : TableAction :=
  .datagram peer (encode ⟨VERSION, 0, 1, seq, 0, 0⟩ [⟨CH_RELIABLE_ORDERED, 0, [b]⟩] []).1
    (Vector.replicate 8 0) 0 0

def playTraced (actions : List EngineAction) : Traced oneShard :=
  actions.foldl (Traced.step noHmac) (.start 0)

/-- The client changes its address between two messages, and they come to different tasks. The
second task is the first to push. -/
theorem overtaken : ∃ s : Traced oneShard,
    Reach (Traced.step noHmac) (fun _ _ => True) (.start 0) s ∧
      eventsOf 1 s.engine.reported = [.Open 1 (.V4 0 0) [], .Data 1 2 0 [1], .Data 1 2 0 [2]] ∧
      eventsOf 1 s.enqueued = [.Data 1 2 0 [2], .Data 1 2 0 [1]] ∧
      ¬ (s.engine.shared.queue.filter fun f => decide (f.Tells 1)).Sublist
        ((eventsOf 1 s.engine.reported).map upFrame) := by
  refine ⟨playTraced
    (greet ++ linkUp ++ [.resume true, .resume true, .handle 1 (message (.V4 0 0) 0 1),
    .handle 2 (message (.V4 0 1) 1 2), .push 2 0, .push 1 0]),
    Reach.foldl (allowed_of_forall (fun _ _ _ => trivial) _), ?_, ?_, ?_⟩
  · decide +kernel
  · decide +kernel
  · decide +kernel

/-! ### In turn -/

/-- No task from `n` on takes the step. -/
def EngineAction.taskLt (n : ℕ) : EngineAction → Bool
  | .handle w _ => w < n
  | .stats w _ => w < n
  | .push w _ => w < n
  | _ => true

theorem EngineAction.lt_of_by {a : EngineAction} {n v : ℕ} (h : a.taskLt n) (hv : a.By v) :
    v < n := by
  cases a with
  | handle w x => exact hv ▸ of_decide_eq_true h
  | stats w i => exact hv ▸ of_decide_eq_true h
  | push w now => exact hv ▸ of_decide_eq_true h
  | _ => exact hv.elim

namespace Traced

variable {cfg : EngineConfig} {hmac4 : Hmac} {s : Traced cfg} {n : ℕ}

/-- Among the tasks below `n`, no task pushes past an older event that another task holds. -/
def WaitsBelow (n : ℕ) (s : Traced cfg) : EngineAction → Prop
  | .push w _ => ∀ k ∈ (s.held w).head?.join, ∀ e ∈ s.engine.reported[k]?, ∀ v < n, v ≠ w →
      ∀ o ∈ s.held v, ∀ j ∈ o, ∀ f ∈ s.engine.reported[j]?, f.sessId = e.sessId → k < j
  | _ => True

instance (n : ℕ) (s : Traced cfg) (a : EngineAction) : Decidable (s.WaitsBelow n a) := by
  cases a with
  | push w now => exact inferInstanceAs (Decidable (∀ k ∈ (s.held w).head?.join, _))
  | _ => exact instDecidableTrue

/-- A run of the tasks below `n`. -/
theorem allowed_of_below (hnone : ∀ v, n ≤ v → s.held v = []) {actions : List EngineAction}
    (htask : ∀ a ∈ actions, a.taskLt n) (h : Allowed (step hmac4) (WaitsBelow n) s actions) :
    Allowed (step hmac4) Waits s actions := by
  induction actions generalizing s with
  | nil => trivial
  | cons a actions ih =>
    refine ⟨?_, ih (fun v hv => ?_) (fun b hb => htask b (List.mem_cons_of_mem a hb)) h.2⟩
    · have hbelow := h.1
      cases a with
      | push w now =>
        intro k e hk he v hv j f hj hf
        rcases Nat.lt_or_ge v n with hlt | hge
        · exact hbelow k (by rw [hk]; rfl) e he v hlt hv (some j) hj j rfl f hf
        · rw [hnone v hge] at hj
          cases hj
      | _ => trivial
    · have hby : ¬ a.By v := fun hby =>
        absurd (a.lt_of_by (htask a List.mem_cons_self) hby) (not_lt.2 hv)
      rw [s.held_other hmac4 hby]
      exact hnone v hv

end Traced

/-- The client changes its address between two messages, and the tasks push in the order in which
the messages came. -/
def inTurn : List EngineAction :=
  linkUp ++ [.resume true] ++ greet ++
    [.handle 1 (message (.V4 0 0) 0 1), .handle 2 (message (.V4 0 1) 1 2),
    .push 1 0, .push 2 0]

/-- When the first of them pushes, the other one holds the event that comes next. -/
theorem session_order_inTurn :
    (playTraced (inTurn.take 10)).held 1 = [some 1] ∧
      (playTraced (inTurn.take 10)).held 2 = [some 2] ∧
      eventsOf 1 (playTraced inTurn).enqueued =
        [.Open 1 (.V4 0 0) [], .Data 1 2 0 [1], .Data 1 2 0 [2]] ∧
      (eventsOf 1 (playTraced inTurn).enqueued).Sublist
        (eventsOf 1 (playTraced inTurn).engine.reported) ∧
      ((playTraced inTurn).engine.shared.queue.filter fun f => decide (f.Tells 1)).Sublist
        ((eventsOf 1 (playTraced inTurn).engine.reported).map upFrame) := by
  have hrun : Allowed (Traced.step noHmac) (Traced.WaitsBelow 3)
      (.start 0 : Traced oneShard) inTurn ∧
      (∀ a ∈ inTurn, a.taskLt 3) ∧
      (playTraced (inTurn.take 10)).held 1 = [some 1] ∧
      (playTraced (inTurn.take 10)).held 2 = [some 2] ∧
      eventsOf 1 (playTraced inTurn).enqueued =
        [.Open 1 (.V4 0 0) [], .Data 1 2 0 [1], .Data 1 2 0 [2]] := by
    decide +kernel
  obtain ⟨hallowed, htask, hone, htwo, hevents⟩ := hrun
  exact ⟨hone, htwo, hevents,
    session_order (Reach.foldl (Traced.allowed_of_below (fun _ _ => rfl) htask hallowed)) 1⟩

end SoupEngine
