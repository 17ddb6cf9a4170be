import SoupEngine.Engine.LogicLink
import SoupEngine.Engine.Stream

/-!
# SessionOpen comes first

The SessionOpen of a session is lost when it is pushed while the queue is absent or full, and when
the connection breaks with it in the queue; it is overtaken when another task pushes a frame of the
session, or the link loop visits the session, while it is still to be pushed. In a run without that,
the first frame about a session that is written is its SessionOpen (`opens_first`).
-/

namespace SoupEngine

open TransitionSystem

/-- The session has been opened. -/
def Opened (L : List SessionEvent) (id : U64) : Prop := ∃ peer token, .Open id peer token ∈ L

/-- A frame about a session that has been opened, or about none; a SessionOpen is that of an
event. -/
def Frame.From (L : List SessionEvent) (f : Frame) : Prop :=
  ∀ id, f.about = some id → Opened L id ∧ (f.ty = FRAME_SESSION_OPEN →
    ∃ peer token, .Open id peer token ∈ L ∧ f = .session_open id peer token)

section From

variable {L : List SessionEvent} {f : Frame} {id : U64}

theorem Opened.mono (h : Opened L id) (M : List SessionEvent) : Opened (L ++ M) id := by
  obtain ⟨peer, token, hmem⟩ := h
  exact ⟨peer, token, List.mem_append_left M hmem⟩

theorem Frame.From.mono (h : f.From L) (M : List SessionEvent) : f.From (L ++ M) := by
  intro id hid
  obtain ⟨hopened, hopen⟩ := h id hid
  refine ⟨hopened.mono M, fun hty => ?_⟩
  obtain ⟨peer, token, hmem, he⟩ := hopen hty
  exact ⟨peer, token, List.mem_append_left M hmem, he⟩

theorem from_upFrame {e : SessionEvent} (he : e ∈ L) (ho : Opened L e.sessId) :
    (upFrame e).From L := by
  intro id hid
  rw [about_upFrame] at hid
  cases hid
  refine ⟨ho, fun hty => ?_⟩
  cases e with
  | Open sessId peer token => exact ⟨peer, token, he, rfl⟩
  | Close sessId reason =>
    exact absurd hty (show FRAME_SESSION_CLOSE ≠ FRAME_SESSION_OPEN by decide)
  | Resume sessId gapMs =>
    exact absurd hty (show FRAME_SESSION_RESUME ≠ FRAME_SESSION_OPEN by decide)
  | Data sessId ch msgId payload =>
    exact absurd hty (show FRAME_DATA_UP ≠ FRAME_SESSION_OPEN by decide)

theorem from_session_stats (ho : Opened L id) : (Frame.session_stats id 0 0 0).From L := by
  intro id' hid
  rw [Frame.about_session_stats] at hid
  cases hid
  exact ⟨ho, fun hty => absurd hty (show FRAME_SESSION_STATS ≠ FRAME_SESSION_OPEN by decide)⟩

theorem from_of_about_none (h : f.about = none) : f.From L := fun id hid => by
  rw [h] at hid
  cases hid

theorem opens_session_open (id : U64) (peer : SocketAddr) (token : Bytes) :
    (Frame.session_open id peer token).Opens id := ⟨rfl, Frame.about_session_open id peer token⟩

end From

/-- The first frame about a session is its SessionOpen. -/
def OpensFirst (L : List SessionEvent) (written : List Frame) : Prop :=
  ∀ id f, written.find? (fun f => f.about = some id) = some f →
    ∃ peer token, .Open id peer token ∈ L ∧ f = .session_open id peer token

section First

variable {L : List SessionEvent} {written : List Frame} {f : Frame}

theorem OpensFirst.mono (h : OpensFirst L written) (M : List SessionEvent) :
    OpensFirst (L ++ M) written := by
  intro id f hf
  obtain ⟨peer, token, hmem, he⟩ := h id f hf
  exact ⟨peer, token, List.mem_append_left M hmem, he⟩

/-- One more frame: its session has been opened before, or it opens the session. -/
theorem OpensFirst.append (h : OpensFirst L written) (hf : f.From L)
    (hbefore : f.ty ≠ FRAME_SESSION_OPEN → ∀ id, f.about = some id → ∃ g ∈ written, g.Opens id) :
    OpensFirst L (written ++ [f]) := by
  intro id x hx
  rw [List.find?_append] at hx
  cases hfind : written.find? (fun f => f.about = some id) with
  | some y =>
    rw [hfind] at hx
    cases hx
    exact h id x hfind
  | none =>
    rw [hfind, Option.none_or] at hx
    have hmem := List.mem_singleton.1 (List.mem_of_find?_eq_some hx)
    have hsome := List.find?_some hx
    have habout : x.about = some id := of_decide_eq_true hsome
    subst hmem
    by_cases hty : x.ty = FRAME_SESSION_OPEN
    · exact (hf id habout).2 hty
    · obtain ⟨g, hg, -, hgid⟩ := hbefore hty id habout
      have hnone := List.find?_eq_none.1 hfind g hg
      exact absurd (decide_eq_true hgid) hnone

end First

theorem mem_update {α : Type} {tasks : ℕ → List α} {w w' : ℕ} {l : List α} {p : α} :
    p ∈ Function.update tasks w l w' ↔ w' = w ∧ p ∈ l ∨ w' ≠ w ∧ p ∈ tasks w' := by
  by_cases hw : w' = w
  · subst hw
    rw [Function.update_self]
    simp
  · rw [Function.update_of_ne hw]
    simp [hw]

/-- A list with one more item, cut at an item: the last one or an earlier one. -/
theorem snoc_split {α : Type} {q pre post : List α} {f x : α} (h : q ++ [f] = pre ++ x :: post) :
    q = pre ∧ f = x ∨ ∃ post', q = pre ++ x :: post' := by
  rcases List.eq_nil_or_concat post with rfl | ⟨post', y, rfl⟩
  · obtain ⟨hq, hx⟩ := List.append_inj' h rfl
    exact Or.inl ⟨hq, List.singleton_inj.1 hx⟩
  · rw [List.concat_eq_append, ← List.cons_append, ← List.append_assoc] at h
    exact Or.inr ⟨post', (List.append_inj' h rfl).1⟩

namespace Engine

variable {cfg : EngineConfig}

/-- No SessionOpen is lost or overtaken by the step. -/
def Keeps (e : Engine cfg) : EngineAction → Prop
  | .push w _ => ∀ f droppable rest, e.tasks w = (f, droppable) :: rest →
      (f.ty = FRAME_SESSION_OPEN → e.shared.HasPlace) ∧
        (f.ty ≠ FRAME_SESSION_OPEN → e.shared.HasPlace → ∀ id, f.about = some id →
          ∀ w', ∀ p ∈ e.tasks w', ¬ p.1.Opens id)
  | .walk => ∀ gapMs i shards resumes, e.phase = .walking gapMs (i :: shards) resumes →
      ∀ s ∈ (e.shared.sessions.shards i).values,
        (∀ w, ∀ p ∈ e.tasks w, ¬ p.1.Opens s.sessId) ∧ ∀ f ∈ e.shared.queue, ¬ f.Opens s.sessId
  | .hello ok _ => ok = false → e.phase = .greeting →
      ∀ f ∈ e.shared.queue, f.ty ≠ FRAME_SESSION_OPEN
  | .write ok => ok = false → e.phase = .running → ∀ f ∈ e.shared.queue, f.ty ≠ FRAME_SESSION_OPEN
  | .hangUp => e.phase = .running → ∀ f ∈ e.shared.queue, f.ty ≠ FRAME_SESSION_OPEN
  | _ => True

/-- The queue is open in a connection, and absent between connections. -/
def QueueFits (e : Engine cfg) : Prop :=
  match e.phase with
  | .waiting => e.shared.upTx = none
  | .broken => e.shared.upTx = some ⟨[], true⟩
  | _ => e.shared.Online

/-- Every SessionOpen has been written, or stands in the queue, or is still to be pushed; the other
frames of its session come behind it. -/
structure OpenInv (e : Engine cfg) : Prop where
  known : e.shared.sessions.All fun s => Opened e.reported s.sessId
  tasks : ∀ w, ∀ p ∈ e.tasks w, p.1.From e.reported
  queue : ∀ f ∈ e.shared.queue, f.From e.reported
  resumes : ∀ f ∈ e.resumes, ∃ id, f.about = some id ∧ f.ty ≠ FRAME_SESSION_OPEN ∧
    Opened e.reported id ∧ ∃ g ∈ e.written, g.Opens id
  behind : ∀ pre f post, e.shared.queue = pre ++ f :: post → f.ty ≠ FRAME_SESSION_OPEN →
    ∀ id, f.about = some id → ∃ g ∈ e.written ++ pre, g.Opens id
  kept : ∀ id peer token, .Open id peer token ∈ e.reported →
    .session_open id peer token ∈ e.written ∨ .session_open id peer token ∈ e.shared.queue ∨
      ∃ w, ∃ p ∈ e.tasks w, p.1 = .session_open id peer token
  first : OpensFirst e.reported e.written
  fits : e.QueueFits

section Step

variable {e : Engine cfg} {hmac4 : Hmac}

theorem openInv_start (now : Instant) : OpenInv (start now : Engine cfg) where
  known := SessionTable.all_new
  tasks _ _ hp := absurd hp List.not_mem_nil
  queue _ hf := absurd hf List.not_mem_nil
  resumes _ hf := absurd hf List.not_mem_nil
  behind pre f post h := by
    have := congrArg List.length h
    simp [start, Shared.queue, Shared.new] at this
  kept _ _ _ h := absurd h List.not_mem_nil
  first id f h := by cases h
  fits := rfl

/-- What a task does to the table. -/
theorem OpenInv.handle (h : OpenInv e) (w : ℕ) (x : TableAction) :
    OpenInv (e.step hmac4 (.handle w x)) := by
  unfold step
  dsimp only
  split_ifs with hidle
  · have hnone : e.tasks w = [] := List.isEmpty_iff.1 hidle
    set events := (e.shared.sessions.act hmac4 x).2 with hevents
    have hold : e.shared.sessions.All fun s => Opened (e.reported ++ events) s.sessId :=
      fun i connId s hs => (h.known i connId s hs).mono events
    have hopen : ∀ peer token, events = [.Open e.shared.sessions.nextSessId peer token] →
        Opened (e.reported ++ events) e.shared.sessions.nextSessId := by
      intro peer token he
      refine ⟨peer, token, List.mem_append_right _ ?_⟩
      rw [he]
      exact List.mem_cons_self
    have hany : e.shared.sessions.Guarded hmac4 PacketGuard.any x := SessionTable.guarded_any x
    have hreports := (reports_known e.shared.sessions (Opened (e.reported ++ events))).act hold hany
      hopen
    refine ⟨?_, fun w' p hp => ?_, fun f hf => (h.queue f hf).mono events, fun f hf => ?_, h.behind,
      fun id peer token hmem => ?_, h.first.mono events, h.fits⟩
    · exact (preserved_known e.shared.sessions (Opened (e.reported ++ events))).act hold hany hopen
    · rcases mem_update.1 hp with ⟨-, hp⟩ | ⟨-, hp⟩
      · obtain ⟨ev, hev, rfl⟩ := List.mem_map.1 hp
        exact from_upFrame (List.mem_append_right _ hev) (hreports ev hev)
      · exact (h.tasks w' p hp).mono events
    · obtain ⟨id, hid, hty, hopened, hwritten⟩ := h.resumes f hf
      exact ⟨id, hid, hty, hopened.mono events, hwritten⟩
    · rcases List.mem_append.1 hmem with hmem | hmem
      · rcases h.kept id peer token hmem with hw | hq | ⟨w', p, hp, he⟩
        · exact Or.inl hw
        · exact Or.inr (Or.inl hq)
        · have hne : w' ≠ w := fun hw => by
            rw [hw, hnone] at hp
            cases hp
          exact Or.inr (Or.inr ⟨w', p, mem_update.2 (Or.inr ⟨hne, hp⟩), he⟩)
      · have hnew : (Frame.session_open id peer token, false) ∈
            events.map fun ev => (upFrame ev, isDroppable ev) := List.mem_map.2 ⟨_, hmem, rfl⟩
        exact Or.inr (Or.inr ⟨w, _, mem_update.2 (Or.inl ⟨rfl, hnew⟩), rfl⟩)
  · exact h

theorem OpenInv.stats (h : OpenInv e) (w i : ℕ) : OpenInv (e.step hmac4 (.stats w i)) := by
  unfold step
  dsimp only
  split_ifs with hi
  · refine ⟨h.known, fun w' p hp => ?_, h.queue, h.resumes, h.behind, fun id peer token hmem => ?_,
      h.first, h.fits⟩
    · rcases mem_update.1 hp with ⟨-, hp⟩ | ⟨-, hp⟩
      · rcases List.mem_append.1 hp with hp | hp
        · exact h.tasks w p hp
        · obtain ⟨s, hs, rfl⟩ := List.mem_map.1 hp
          obtain ⟨connId, hget⟩ := mem_values.1 hs
          exact from_session_stats (h.known _ connId s hget)
      · exact h.tasks w' p hp
    · rcases h.kept id peer token hmem with hw | hq | ⟨w', p, hp, he⟩
      · exact Or.inl hw
      · exact Or.inr (Or.inl hq)
      · refine Or.inr (Or.inr ⟨w', p, mem_update.2 ?_, he⟩)
        by_cases hw : w' = w
        · subst hw
          exact Or.inl ⟨rfl, List.mem_append_left _ hp⟩
        · exact Or.inr ⟨hw, hp⟩
  · exact h

/-- Where a queue is open, the link loop stands in a connection. -/
theorem QueueFits.connected (h : e.QueueFits) (ho : e.shared.Online) :
    e.phase ≠ .waiting ∧ e.phase ≠ .broken := by
  obtain ⟨q, hq, hopen⟩ := ho
  unfold QueueFits at h
  constructor
  · intro hphase
    rw [hphase] at h
    cases hq.symm.trans h
  · intro hphase
    rw [hphase] at h
    cases hq.symm.trans h
    cases hopen

theorem queueFits_of_connected (h : e.phase ≠ .waiting ∧ e.phase ≠ .broken) (ho : e.shared.Online) :
    e.QueueFits := by
  unfold QueueFits
  cases hphase : e.phase with
  | waiting => exact absurd hphase h.1
  | broken => exact absurd hphase h.2
  | _ => exact ho

/-- Another state of the queue in which the same frames wait. -/
theorem OpenInv.congr_shared (h : OpenInv e) {s : Shared cfg.session}
    (hsessions : s.sessions = e.shared.sessions) (htx : s.upTx = e.shared.upTx) :
    OpenInv { e with shared := s } := by
  have hqueue : s.queue = e.shared.queue := by
    unfold Shared.queue
    rw [htx]
  refine ⟨hsessions ▸ h.known, h.tasks, hqueue ▸ h.queue, h.resumes, hqueue ▸ h.behind, ?_,
    h.first, ?_⟩
  · show ∀ id peer token, _ → _ ∨ _ ∈ s.queue ∨ _
    rw [hqueue]
    exact h.kept
  · have hfits := h.fits
    unfold QueueFits Shared.Online at hfits ⊢
    rw [htx]
    exact hfits

/-- A frame whose SessionOpen has gone before is put into the queue. -/
theorem OpenInv.enqueue (h : OpenInv e) {f : Frame} (hfrom : f.From e.reported)
    (ho : e.shared.Online)
    (hbefore : f.ty ≠ FRAME_SESSION_OPEN → ∀ id, f.about = some id →
      ∃ g ∈ e.written ++ e.shared.queue, g.Opens id)
    {s : Shared cfg.session} (hsessions : s.sessions = e.shared.sessions)
    (htx : s.upTx = some ⟨e.shared.queue ++ [f], false⟩) : OpenInv { e with shared := s } := by
  have hqueue : s.queue = e.shared.queue ++ [f] := Shared.queue_of_some htx
  refine ⟨hsessions ▸ h.known, h.tasks, fun x hx => ?_, h.resumes,
    fun pre x post hsplit hty id hid => ?_, fun id peer token hmem => ?_, h.first,
    queueFits_of_connected (h.fits.connected ho) ⟨_, htx, rfl⟩⟩
  · rcases List.mem_append.1 (hqueue ▸ hx) with hx | hx
    · exact h.queue x hx
    · rw [List.mem_singleton.1 hx]
      exact hfrom
  · rcases snoc_split (hqueue.symm.trans hsplit) with ⟨rfl, rfl⟩ | ⟨post', hold⟩
    · exact hbefore hty id hid
    · exact h.behind pre x post' hold hty id hid
  · show _ ∨ _ ∈ s.queue ∨ _
    rw [hqueue]
    rcases h.kept id peer token hmem with hw | hq | hp
    · exact Or.inl hw
    · exact Or.inr (Or.inl (List.mem_append_left _ hq))
    · exact Or.inr (Or.inr hp)

section Push

variable {w : ℕ} {f : Frame} {droppable : Bool} {rest : List (Frame × Bool)}

/-- A task is done with its next frame; if that is a SessionOpen, it is in the queue now. -/
theorem OpenInv.done (h : OpenInv e) (htasks : e.tasks w = (f, droppable) :: rest)
    (hf : f.ty = FRAME_SESSION_OPEN → f ∈ e.shared.queue) :
    OpenInv { e with tasks := Function.update e.tasks w rest } := by
  refine ⟨h.known, fun w' p hp => ?_, h.queue, h.resumes, h.behind, fun id peer token hmem => ?_,
    h.first, h.fits⟩
  · rcases mem_update.1 hp with ⟨rfl, hr⟩ | ⟨-, hr⟩
    · refine h.tasks w' p ?_
      rw [htasks]
      exact List.mem_cons_of_mem _ hr
    · exact h.tasks w' p hr
  · rcases h.kept id peer token hmem with hw | hq | ⟨w', p, hp, he⟩
    · exact Or.inl hw
    · exact Or.inr (Or.inl hq)
    · by_cases hw : w' = w
      · subst hw
        rw [htasks] at hp
        rcases List.mem_cons.1 hp with rfl | hp
        · refine Or.inr (Or.inl ?_)
          rw [← he]
          exact hf (by rw [show f = _ from he]; rfl)
        · exact Or.inr (Or.inr ⟨w', p, mem_update.2 (Or.inl ⟨rfl, hp⟩), he⟩)
      · exact Or.inr (Or.inr ⟨w', p, mem_update.2 (Or.inr ⟨hw, hp⟩), he⟩)

/-- Pushing a frame. -/
theorem OpenInv.push (h : OpenInv e) (w : ℕ) (now : Instant) (hk : e.Keeps (.push w now)) :
    OpenInv (e.step hmac4 (.push w now)) := by
  unfold step
  dsimp only
  cases htasks : e.tasks w with
  | nil => exact h
  | cons p rest =>
    obtain ⟨f, droppable⟩ := p
    obtain ⟨hplace, hbehind⟩ := hk f droppable rest htasks
    have hhead : (f, droppable) ∈ e.tasks w := by
      rw [htasks]
      exact List.mem_cons_self
    have hfrom : f.From e.reported := h.tasks w _ hhead
    obtain ⟨hsessions, ⟨hroom, htx⟩ | ⟨hno, htx⟩⟩ := e.shared.pushFrame_cases f droppable now
    · -- the SessionOpen of the session is not pending, so it has gone before
      have hbefore : f.ty ≠ FRAME_SESSION_OPEN → ∀ id, f.about = some id →
          ∃ g ∈ e.written ++ e.shared.queue, g.Opens id := by
        intro hty id hid
        obtain ⟨⟨peer, token, hmem⟩, -⟩ := hfrom id hid
        have hopens := opens_session_open id peer token
        rcases h.kept id peer token hmem with hw | hq | ⟨w', p, hp, he⟩
        · exact ⟨_, List.mem_append_left _ hw, hopens⟩
        · exact ⟨_, List.mem_append_right _ hq, hopens⟩
        · exact absurd (he ▸ hopens) (hbehind hty hroom id hid w' p hp)
      refine (h.enqueue hfrom hroom.1 hbefore hsessions htx).done htasks fun _ => ?_
      show f ∈ (e.shared.pushFrame f droppable now).queue
      rw [Shared.queue_of_some htx]
      exact List.mem_append_right _ List.mem_cons_self
    · refine (h.congr_shared hsessions htx).done htasks fun hty => ?_
      exact absurd (hplace hty) hno

end Push

theorem OpenInv.overload (h : OpenInv e) (now : Instant) :
    OpenInv (e.step hmac4 (.overload now)) := by
  show OpenInv { e with shared := e.shared.pushOverload now }
  unfold Shared.pushOverload
  split_ifs with hp
  · set s : Shared cfg.session := { e.shared with pendingOverload := false } with hs
    have hcleared : OpenInv { e with shared := s } := h.congr_shared rfl rfl
    have hnone := Frame.about_overload (e.shared.stats.droppedUp.setWidth 32)
      (e.shared.stats.droppedDown.setWidth 32)
    obtain ⟨hsessions, ⟨hroom, htx⟩ | ⟨-, htx⟩⟩ := s.pushFrame_cases
      (.overload (e.shared.stats.droppedUp.setWidth 32) (e.shared.stats.droppedDown.setWidth 32))
        false now
    · refine hcleared.enqueue (from_of_about_none hnone) hroom.1 (fun _ id hid => ?_) hsessions htx
      rw [hnone] at hid
      cases hid
    · exact hcleared.congr_shared hsessions htx
  · exact h

/-! ### The link loop -/

/-- The queue is lost with no SessionOpen in it. -/
theorem OpenInv.lose (h : OpenInv e) (hq : ∀ f ∈ e.shared.queue, f.ty ≠ FRAME_SESSION_OPEN)
    {s : Shared cfg.session} {phase : LinkPhase cfg.session}
    (hsessions : s.sessions = e.shared.sessions) (hqueue : s.queue = [])
    (hresumes : Engine.resumes { e with phase := phase } = [])
    (hfits : QueueFits { e with shared := s, phase := phase }) :
    OpenInv { e with shared := s, phase := phase } := by
  refine ⟨hsessions ▸ h.known, h.tasks, fun f hf => ?_, fun f hf => ?_, fun pre f post hsplit => ?_,
    fun id peer token hmem => ?_, h.first, hfits⟩
  · have hf' : f ∈ s.queue := hf
    rw [hqueue] at hf'
    cases hf'
  · have hf' : f ∈ Engine.resumes { e with phase := phase } := hf
    rw [hresumes] at hf'
    cases hf'
  · have := congrArg List.length (hqueue.symm.trans hsplit)
    simp at this
  · rcases h.kept id peer token hmem with hw | hold | hp
    · exact Or.inl hw
    · exact absurd rfl (hq _ hold)
    · exact Or.inr (Or.inr hp)

/-- A frame has been written whose SessionOpen was written before. -/
theorem OpenInv.wrote (h : OpenInv e) {f : Frame} (hfrom : f.From e.reported)
    (hbefore : f.ty ≠ FRAME_SESSION_OPEN → ∀ id, f.about = some id → ∃ g ∈ e.written, g.Opens id) :
    OpenInv { e with written := e.written ++ [f] } := by
  refine ⟨h.known, h.tasks, h.queue, fun r hr => ?_, fun pre x post hsplit hty id hid => ?_,
    fun id peer token hmem => ?_, h.first.append hfrom hbefore, h.fits⟩
  · obtain ⟨id, hid, hty, hopened, g, hg, hgid⟩ := h.resumes r hr
    exact ⟨id, hid, hty, hopened, g, List.mem_append_left _ hg, hgid⟩
  · obtain ⟨g, hg, hgid⟩ := h.behind pre x post hsplit hty id hid
    refine ⟨g, ?_, hgid⟩
    rcases List.mem_append.1 hg with hg | hg
    · exact List.mem_append_left _ (List.mem_append_left _ hg)
    · exact List.mem_append_right _ hg
  · rcases h.kept id peer token hmem with hw | hrest
    · exact Or.inl (List.mem_append_left _ hw)
    · exact Or.inr hrest

/-- The first frame of the queue has been written and is taken out. -/
theorem OpenInv.dequeue (h : OpenInv e) {f : Frame} {fs : List Frame}
    (hq : e.shared.queue = f :: fs) (hf : f ∈ e.written) (ho : e.shared.Online) :
    OpenInv { e with shared := e.shared.recv } := by
  have hqueue : e.shared.recv.queue = fs := by
    have htail : e.shared.recv.queue = e.shared.queue.tail := Shared.offer_none (x := .recv) rfl
    rw [htail, hq]
    rfl
  refine ⟨h.known, h.tasks, fun x hx => ?_, h.resumes, fun pre x post hsplit hty id hid => ?_,
    fun id peer token hmem => ?_, h.first,
      queueFits_of_connected (h.fits.connected ho) (ho.upStep .recv)⟩
  · have hx' : x ∈ e.shared.recv.queue := hx
    rw [hqueue] at hx'
    refine h.queue x ?_
    rw [hq]
    exact List.mem_cons_of_mem _ hx'
  · have hsplit' : fs = pre ++ x :: post := hqueue.symm.trans hsplit
    obtain ⟨g, hg, hgid⟩ := h.behind (f :: pre) x post (by rw [hq, hsplit']; rfl) hty id hid
    refine ⟨g, ?_, hgid⟩
    rcases List.mem_append.1 hg with hg | hg
    · exact List.mem_append_left _ hg
    · rcases List.mem_cons.1 hg with rfl | hg
      · exact List.mem_append_left _ hf
      · exact List.mem_append_right _ hg
  · show _ ∨ _ ∈ e.shared.recv.queue ∨ _
    rw [hqueue]
    rcases h.kept id peer token hmem with hw | hold | hp
    · exact Or.inl hw
    · rw [hq] at hold
      rcases List.mem_cons.1 hold with he | hold
      · rw [he]
        exact Or.inl hf
      · exact Or.inr (Or.inl hold)
    · exact Or.inr (Or.inr hp)

/-- The link loop goes on within a connection. -/
theorem OpenInv.goOn (h : OpenInv e) {phase : LinkPhase cfg.session} (ho : e.shared.Online)
    (hphase : phase ≠ .waiting ∧ phase ≠ .broken)
    (hresumes : ∀ f ∈ Engine.resumes { e with phase := phase }, ∃ id, f.about = some id ∧
      f.ty ≠ FRAME_SESSION_OPEN ∧ Opened e.reported id ∧ ∃ g ∈ e.written, g.Opens id) :
    OpenInv { e with phase := phase } :=
  ⟨h.known, h.tasks, h.queue, hresumes, h.behind, h.kept, h.first, queueFits_of_connected hphase ho⟩

/-- In a connection the queue is open. -/
theorem OpenInv.online (h : OpenInv e) (hphase : e.phase ≠ .waiting ∧ e.phase ≠ .broken) :
    e.shared.Online := by
  have hfits := h.fits
  unfold QueueFits at hfits
  cases hp : e.phase with
  | waiting => exact absurd hp hphase.1
  | broken => exact absurd hp hphase.2
  | _ =>
    rw [hp] at hfits
    exact hfits

theorem OpenInv.connect (h : OpenInv e) : OpenInv (e.step hmac4 .connect) := by
  unfold step
  dsimp only
  cases hphase : e.phase with
  | waiting =>
    have hnone : e.shared.upTx = none := by
      have hfits := h.fits
      unfold QueueFits at hfits
      rwa [hphase] at hfits
    have hempty : e.shared.queue = [] := Shared.queue_of_none hnone
    refine h.lose (fun f hf => ?_) rfl rfl rfl ⟨⟨[], false⟩, rfl, rfl⟩
    rw [hempty] at hf
    cases hf
  | _ => exact h

theorem OpenInv.hello (h : OpenInv e) (ok : Bool) (now : Instant) (hk : e.Keeps (.hello ok now)) :
    OpenInv (e.step hmac4 (.hello ok now)) := by
  unfold step
  dsimp only
  cases hphase : e.phase with
  | greeting =>
    have ho := h.online (by rw [hphase]; exact ⟨by simp, by simp⟩)
    cases ok with
    | false => exact h.lose (hk rfl hphase) rfl rfl rfl rfl
    | true =>
      have hnone := Frame.about_engine_hello cfg.version cfg.caps
      have hwrote := h.wrote (from_of_about_none hnone) fun _ id hid => by
        rw [hnone] at hid
        cases hid
      refine (hwrote.goOn ho ⟨by simp, by simp⟩ fun f hf => ?_).congr_shared rfl rfl
      cases hf
  | _ => exact h

theorem OpenInv.walk (h : OpenInv e) (hk : e.Keeps .walk) : OpenInv (e.step hmac4 .walk) := by
  unfold step
  dsimp only
  cases hphase : e.phase with
  | walking gapMs shards resumes =>
    have ho := h.online (by rw [hphase]; exact ⟨by simp, by simp⟩)
    have hold : ∀ f ∈ resumes, ∃ id, f.about = some id ∧ f.ty ≠ FRAME_SESSION_OPEN ∧
        Opened e.reported id ∧ ∃ g ∈ e.written, g.Opens id := by
      intro f hf
      refine h.resumes f ?_
      unfold Engine.resumes
      rw [hphase]
      exact hf
    cases shards with
    | nil => exact h.goOn ho ⟨by simp, by simp⟩ hold
    | cons i shards =>
      refine h.goOn ho ⟨by simp, by simp⟩ fun f hf => ?_
      rcases List.mem_append.1 hf with hf | hf
      · exact hold f hf
      · obtain ⟨s, hs, rfl⟩ := List.mem_map.1 hf
        obtain ⟨htasks, hqueue⟩ := hk gapMs i shards resumes hphase s hs
        obtain ⟨connId, hget⟩ := mem_values.1 hs
        obtain ⟨peer, token, hmem⟩ := h.known i connId s hget
        have hopens := opens_session_open s.sessId peer token
        refine ⟨s.sessId, Frame.about_session_resume _ _,
          show FRAME_SESSION_RESUME ≠ FRAME_SESSION_OPEN by decide, ⟨peer, token, hmem⟩, ?_⟩
        rcases h.kept s.sessId peer token hmem with hw | hq | ⟨w, p, hp, he⟩
        · exact ⟨_, hw, hopens⟩
        · exact absurd hopens (hqueue _ hq)
        · exact absurd (he ▸ hopens) (htasks w p hp)
  | _ => exact h

theorem OpenInv.resume (h : OpenInv e) (ok : Bool) : OpenInv (e.step hmac4 (.resume ok)) := by
  unfold step
  dsimp only
  cases hphase : e.phase with
  | resuming resumes =>
    have ho := h.online (by rw [hphase]; exact ⟨by simp, by simp⟩)
    have hold : ∀ f ∈ resumes, ∃ id, f.about = some id ∧ f.ty ≠ FRAME_SESSION_OPEN ∧
        Opened e.reported id ∧ ∃ g ∈ e.written, g.Opens id := by
      intro f hf
      refine h.resumes f ?_
      unfold Engine.resumes
      rw [hphase]
      exact hf
    cases resumes with
    | nil => exact h.goOn ho ⟨by simp, by simp⟩ fun f hf => absurd hf List.not_mem_nil
    | cons r resumes =>
      cases ok with
      | false => exact h.goOn ho ⟨by simp, by simp⟩ fun f hf => absurd hf List.not_mem_nil
      | true =>
        obtain ⟨id, hid, hty, hopened, hg⟩ := hold r List.mem_cons_self
        have hwrote := h.wrote (f := r) (fun id' hid' => by
            rw [hid] at hid'
            cases hid'
            exact ⟨hopened, fun ht => absurd ht hty⟩) fun _ id' hid' => by
          rw [hid] at hid'
          cases hid'
          exact hg
        refine hwrote.goOn ho ⟨by simp, by simp⟩ fun f hf => ?_
        obtain ⟨id', hid', hty', hopened', g, hg', hgid⟩ := hold f (List.mem_cons_of_mem _ hf)
        exact ⟨id', hid', hty', hopened', g, List.mem_append_left _ hg', hgid⟩
  | _ => exact h

/-- The connection breaks in `run_logic_link`. -/
theorem OpenInv.break (h : OpenInv e) (hphase : e.phase = .running)
    (hq : ∀ f ∈ e.shared.queue, f.ty ≠ FRAME_SESSION_OPEN) :
    OpenInv { e with shared := e.shared.dropReceiver, phase := .broken } := by
  obtain ⟨q, htx, -⟩ := h.online (by rw [hphase]; exact ⟨by simp, by simp⟩)
  have hdrop : e.shared.dropReceiver.upTx = some ⟨[], true⟩ := by
    unfold Shared.dropReceiver
    rw [htx]
    rfl
  exact h.lose hq rfl (Shared.queue_of_some hdrop) rfl hdrop

theorem OpenInv.write (h : OpenInv e) (ok : Bool) (hk : e.Keeps (.write ok)) :
    OpenInv (e.step hmac4 (.write ok)) := by
  unfold step
  dsimp only
  cases hphase : e.phase with
  | running =>
    cases hq : e.shared.queue with
    | nil => exact h
    | cons f fs =>
      cases ok with
      | false => exact h.break hphase (hk rfl hphase)
      | true =>
        have ho := h.online (by rw [hphase]; exact ⟨by simp, by simp⟩)
        have hmem : f ∈ e.shared.queue := by
          rw [hq]
          exact List.mem_cons_self
        have hwrote := h.wrote (h.queue f hmem) fun hty id hid => by
          obtain ⟨g, hg, hgid⟩ := h.behind [] f fs hq hty id hid
          exact ⟨g, (List.append_nil e.written) ▸ hg, hgid⟩
        have hdone := hwrote.dequeue hq (List.mem_append_right _ List.mem_cons_self) ho
        dsimp only at hdone
        rw [hphase] at hdone
        exact hdone
  | _ => exact h

theorem OpenInv.hangUp (h : OpenInv e) (hk : e.Keeps .hangUp) : OpenInv (e.step hmac4 .hangUp) := by
  unfold step
  dsimp only
  cases hphase : e.phase with
  | running => exact h.break hphase (hk hphase)
  | _ => exact h

theorem OpenInv.reset (h : OpenInv e) : OpenInv (e.step hmac4 .reset) := by
  unfold step
  dsimp only
  cases hphase : e.phase with
  | broken =>
    have hbroken : e.shared.upTx = some ⟨[], true⟩ := by
      have hfits := h.fits
      unfold QueueFits at hfits
      rwa [hphase] at hfits
    have hempty : e.shared.queue = [] := Shared.queue_of_some hbroken
    refine h.lose (fun f hf => ?_) rfl rfl rfl rfl
    rw [hempty] at hf
    cases hf
  | _ => exact h

/-- **One step.** -/
theorem OpenInv.step (h : OpenInv e) (a : EngineAction) (hk : e.Keeps a) :
    OpenInv (e.step hmac4 a) := by
  cases a with
  | handle w x => exact h.handle w x
  | stats w i => exact h.stats w i
  | push w now => exact h.push w now hk
  | overload now => exact h.overload now
  | connect => exact h.connect
  | hello ok now => exact h.hello ok now hk
  | walk => exact h.walk hk
  | resume ok => exact h.resume ok
  | write ok => exact h.write ok hk
  | hangUp => exact h.hangUp hk
  | reset => exact h.reset

end Step

/-- In a run in which no SessionOpen is lost or overtaken, the first frame about a session that is
written to the logic server is its SessionOpen, with the token of the handshake. -/
theorem opens_first {hmac4 : Hmac} {now : Instant} {e : Engine cfg}
    (h : Reach (step hmac4) Keeps (start now) e) (id : U64) (f : Frame)
    (hf : e.written.find? (fun f => f.about = some id) = some f) :
    ∃ peer token, .Open id peer token ∈ e.reported ∧ f = .session_open id peer token := by
  have hinv : OpenInv e := h.invariant (openInv_start now) fun _ a hs ha => hs.step a ha
  exact hinv.first id f hf

/-! ## Two handshakes -/

/-- An engine with one shard and without HMACs. -/
def oneShard : EngineConfig := ⟨{ plainConfig with shards := 1 }, 1, 0⟩

/-- The logic server is reached, and `for_each_session` visits the one shard. -/
def linkUp : List EngineAction := [.connect, .hello true 0, .walk, .walk]

/-- A client shakes hands with a worker, which pushes the SessionOpen. -/
def greet : List EngineAction := hello.map (EngineAction.handle 0) ++ [.push 0 0]

def play (actions : List EngineAction) : Engine oneShard := actions.foldl (step noHmac) (start 0)

/-- The handshake comes before the logic server is reached: the SessionOpen is lost, and the first
frame about the session is a SessionResume. -/
theorem resume_without_open :
    ∃ e : Engine oneShard, Reach (step noHmac) (fun _ _ => True) (start 0) e ∧
      e.written.find? (fun f => f.about = some 1) = some (.session_resume 1 0) ∧
      ¬ OpensFirst e.reported e.written := by
  have hfirst :
      (play (greet ++ linkUp ++ [.resume true])).written.find? (fun f => f.about = some 1) =
      some (.session_resume 1 0) := by
    decide +kernel
  refine ⟨_, Reach.foldl (allowed_of_forall (fun _ _ _ => trivial) _), hfirst, fun h => ?_⟩
  obtain ⟨peer, token, -, he⟩ := h 1 _ hfirst
  have hty := congrArg Frame.ty he
  exact absurd hty (show FRAME_SESSION_RESUME ≠ FRAME_SESSION_OPEN by decide)

/-- The handshake comes when the link runs: the first frame about the session is its SessionOpen. -/
theorem open_after_link :
    ∃ e : Engine oneShard, Reach (step noHmac) Keeps (start 0) e ∧
      ∃ peer token, .Open 1 peer token ∈ e.reported ∧
        e.written.find? (fun f => f.about = some 1) = some (.session_open 1 peer token) := by
  -- no session is there when the shard is visited
  have hwalk (e : Engine oneShard) (he : e.shared.sessions = .new) : e.Keeps .walk := by
    intro gapMs i shards resumes _ s hs
    obtain ⟨connId, hget⟩ := mem_values.1 hs
    rw [he] at hget
    exact (@SessionTable.all_new oneShard.session (fun _ => False) i connId s hget).elim
  -- the link runs and the queue is empty when the SessionOpen is pushed
  have hpush : (play (linkUp ++ [.resume true] ++ hello.map (EngineAction.handle 0))).Keeps
      (.push 0 0) := by
    intro f droppable rest htasks
    have hty : ((play (linkUp ++ [.resume true] ++ hello.map (EngineAction.handle 0))).tasks 0).map
        (fun p => p.1.ty) = [FRAME_SESSION_OPEN] := by
      decide +kernel
    have hqueue : (play (linkUp ++ [.resume true] ++ hello.map
        (EngineAction.handle 0))).shared.upTx.map (fun q => (q.frames, q.closed)) =
        some ([], false) := by
      decide +kernel
    rw [htasks] at hty
    obtain ⟨q, hq, hqueue⟩ := Option.map_eq_some_iff.1 hqueue
    obtain ⟨hframes, hclosed⟩ := Prod.mk.inj hqueue
    refine ⟨fun _ => ⟨⟨q, hq, hclosed⟩, ?_⟩, fun hne => absurd (List.cons.inj hty).1 hne⟩
    rw [Shared.queue_of_some hq, hframes]
    decide
  have hreach : Reach (step noHmac) Keeps (start 0)
      (play (linkUp ++ [.resume true] ++ greet ++ [.write true])) := by
    have hwritten : Allowed (step noHmac) Keeps
        (play (linkUp ++ [.resume true] ++ greet)) [.write true] :=
      ⟨fun h => Bool.noConfusion h, trivial⟩
    have hgreet : Allowed (step noHmac) Keeps (play (linkUp ++ [.resume true])) greet :=
      ⟨trivial, trivial, hpush, trivial⟩
    have hlink : Allowed (step noHmac) Keeps (start 0) (linkUp ++ [.resume true]) :=
      ⟨trivial, fun h => Bool.noConfusion h, hwalk _ rfl, hwalk _ rfl, trivial, trivial⟩
    exact Reach.foldl (allowed_append.2 ⟨allowed_append.2 ⟨hlink, hgreet⟩, hwritten⟩)
  have hfind : ((play (linkUp ++ [.resume true] ++ greet ++ [.write true])).written.find?
      (fun f => f.about = some 1)).isSome = true := by
    decide +kernel
  obtain ⟨f, hf⟩ := Option.isSome_iff_exists.1 hfind
  obtain ⟨peer, token, hmem, rfl⟩ := opens_first hreach 1 f hf
  exact ⟨_, hreach, peer, token, hmem, hf⟩

end Engine

end SoupEngine
