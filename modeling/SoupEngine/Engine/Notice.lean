import SoupEngine.Engine.Uplink

/-!
# Notice of dropped frames

A frame that finds the uplink queue full is counted, and flags an Overload unless the last flag was
raised less than `OVERLOAD_MIN_INTERVAL` ago. The maintenance loop takes the flag down every second
and pushes the Overload behind the statistics of the sessions, into the same queue. So a drop soon
after a flag that has been taken down, or an Overload that is dropped itself, leaves no flag behind,
and the next second that finds room says nothing (`noSilentDrop_iff`).
-/

namespace SoupEngine

open TransitionSystem

/-- What happens to the queue of a link that is up. -/
inductive NoticeStep
  | push (frame : Frame) (droppable : Bool) (now : Instant)
  /-- `logic_write_loop` takes the next frame. -/
  | recv
  /-- The second of the maintenance loop, with these sessions in the table. -/
  | second (ids : List U64) (now : Instant)

/-- The time of a step. -/
def NoticeStep.time? : NoticeStep → Option Instant
  | .push _ _ now => some now
  | .recv => none
  | .second _ now => some now

def statsFrame (sessId : U64) : Frame := .session_stats sessId 0 0 0

namespace Shared

variable {cfg : SessionTableConfig}

/-- The statistics of the sessions are pushed. -/
def pushStats (s : Shared cfg) (ids : List U64) (now : Instant) : Shared cfg :=
  ids.foldl (fun s sessId => s.pushFrame (statsFrame sessId) true now) s

def noticeStep (s : Shared cfg) : NoticeStep → Shared cfg
  | .push frame droppable now => s.pushFrame frame droppable now
  | .recv => s.recv
  | .second ids now => (s.pushStats ids now).pushOverload now

/-- The number of frames that a step drops because the queue is full. -/
def lost (s : Shared cfg) : NoticeStep → ℕ
  | .push _ _ _ => if UP_QUEUE_CAP ≤ s.queue.length then 1 else 0
  | .recv => 0
  | .second ids now =>
    ids.length - (UP_QUEUE_CAP - s.queue.length) +
      if (s.pushStats ids now).pendingOverload = true ∧
        UP_QUEUE_CAP ≤ (s.pushStats ids now).queue.length
      then 1 else 0

/-- The number of frames that are dropped in a run. -/
def lostIn (s : Shared cfg) : List NoticeStep → ℕ
  | [] => 0
  | x :: xs => s.lost x + (s.noticeStep x).lostIn xs

/-- The step is a second, and there is room in the queue. -/
def FindsRoom (s : Shared cfg) : NoticeStep → Prop
  | .second _ _ => s.queue.length < UP_QUEUE_CAP
  | _ => False

instance (s : Shared cfg) : (x : NoticeStep) → Decidable (s.FindsRoom x)
  | .second _ _ => inferInstanceAs (Decidable (_ < _))
  | .push _ _ _ | .recv => .isFalse id

/-- The step puts an Overload with this number of dropped frames into the queue. -/
def Reports (s : Shared cfg) (dropped : U64) (x : NoticeStep) : Prop :=
  ∃ front, (s.noticeStep x).queue =
    s.queue ++ (front ++ [.overload (dropped.setWidth 32) (s.stats.droppedDown.setWidth 32)])

/-- Every frame that is dropped is reported in the first second after it that finds room, with all
that have been dropped until then. -/
def NoSilentDrop (s : Shared cfg) (steps : List NoticeStep) : Prop :=
  ∀ as x bs y cs, steps = as ++ x :: bs ++ y :: cs →
    0 < (as.foldl noticeStep s).lost x →
    Allowed noticeStep (fun s z => ¬ s.FindsRoom z) ((as.foldl noticeStep s).noticeStep x) bs →
    ((as ++ x :: bs).foldl noticeStep s).FindsRoom y →
    ((as ++ x :: bs).foldl noticeStep s).Reports
      (s.stats.droppedUp + BitVec.ofNat 64 (s.lostIn (as ++ x :: bs))) y

variable {s : Shared cfg}

/-! ## One frame -/

/-- A pushed frame is queued or counted. -/
theorem Online.pushFrame_stats (h : s.Online) (frame : Frame) (droppable : Bool) (now : Instant) :
    (s.pushFrame frame droppable now).stats.droppedDown = s.stats.droppedDown ∧
      (s.pushFrame frame droppable now).stats.droppedUp =
        s.stats.droppedUp + BitVec.ofNat 64 (if UP_QUEUE_CAP ≤ s.queue.length then 1 else 0) := by
  by_cases hfull : UP_QUEUE_CAP ≤ s.queue.length
  · rw [pushFrame_of_full h hfull, (notifyOverload_frame _ _).2, if_pos hfull]
    exact ⟨rfl, rfl⟩
  · obtain ⟨q, hq, -, -⟩ := pushFrame_of_room h (Nat.not_le.1 hfull) frame droppable now
    rw [hq, if_neg hfull]
    exact ⟨rfl, (BitVec.add_zero _).symm⟩

/-! ## The statistics -/

theorem Online.pushStats (h : s.Online) (ids : List U64) (now : Instant) :
    (s.pushStats ids now).Online ∧
      (s.pushStats ids now).queue =
        s.queue ++ (ids.map statsFrame).take (UP_QUEUE_CAP - s.queue.length) ∧
      (s.pushStats ids now).stats.droppedDown = s.stats.droppedDown ∧
      (s.pushStats ids now).stats.droppedUp =
        s.stats.droppedUp + BitVec.ofNat 64 (ids.length - (UP_QUEUE_CAP - s.queue.length)) := by
  unfold Shared.pushStats
  induction ids generalizing s with
  | nil =>
    refine ⟨h, ?_, rfl, ?_⟩
    · rw [List.map_nil, List.take_nil, List.append_nil]
      rfl
    · rw [List.length_nil, Nat.zero_sub]
      exact (BitVec.add_zero _).symm
  | cons id ids ih =>
    obtain ⟨honline, hqueue⟩ := h.pushFrame (statsFrame id) true now
    obtain ⟨hdown, hup⟩ := h.pushFrame_stats (statsFrame id) true now
    obtain ⟨ho, hq, hd, hu⟩ := ih honline
    rw [List.foldl_cons]
    refine ⟨ho, ?_, hd.trans hdown, ?_⟩
    · rw [hq, hqueue, List.map_cons]
      by_cases hroom : s.queue.length < UP_QUEUE_CAP
      · obtain ⟨k, hk⟩ : ∃ k, UP_QUEUE_CAP - s.queue.length = k + 1 :=
          ⟨UP_QUEUE_CAP - s.queue.length - 1, by omega⟩
        have hk' : UP_QUEUE_CAP - (s.queue ++ [statsFrame id]).length = k := by
          rw [List.length_append, List.length_singleton]
          omega
        rw [if_pos hroom, hk, hk']
        calc s.queue ++ [statsFrame id] ++ (ids.map statsFrame).take k
            = s.queue ++ (statsFrame id :: (ids.map statsFrame).take k) := by
              rw [List.append_assoc, List.singleton_append]
          _ = s.queue ++ (statsFrame id :: ids.map statsFrame).take (k + 1) := by
              rw [List.take_succ_cons]
      · rw [if_neg hroom, show UP_QUEUE_CAP - s.queue.length = 0 by omega, List.take_zero,
          List.take_zero]
    · rw [hu, hup, hqueue, BitVec.add_assoc, ← BitVec.ofNat_add]
      congr 2
      by_cases hroom : s.queue.length < UP_QUEUE_CAP
      · rw [if_pos hroom, if_neg (Nat.not_le.2 hroom), List.length_append, List.length_singleton,
          List.length_cons]
        omega
      · rw [if_neg hroom, if_pos (Nat.not_lt.1 hroom), List.length_cons]
        omega

/-- As long as the statistics fit, they raise no flag. -/
theorem pushStats_of_fits (h : s.Online) {ids : List U64}
    (hfits : s.queue.length + ids.length ≤ UP_QUEUE_CAP) (now : Instant) :
    (s.pushStats ids now).pendingOverload = s.pendingOverload ∧
      (s.pushStats ids now).lastOverload = s.lastOverload := by
  unfold Shared.pushStats
  induction ids generalizing s with
  | nil => exact ⟨rfl, rfl⟩
  | cons id ids ih =>
    rw [List.length_cons] at hfits
    have hroom : s.queue.length < UP_QUEUE_CAP := by omega
    obtain ⟨honline, hqueue⟩ := h.pushFrame (statsFrame id) true now
    obtain ⟨q, hq, -, -⟩ := pushFrame_of_room h hroom (statsFrame id) true now
    rw [if_pos hroom] at hqueue
    obtain ⟨hp, hl⟩ := ih honline (by rw [hqueue, List.length_append, List.length_singleton]; omega)
    rw [List.foldl_cons]
    refine ⟨hp.trans ?_, hl.trans ?_⟩
    · rw [hq]
    · rw [hq]

/-! ## The second -/

/-- The Overload of a state. -/
def overloadFrame (s : Shared cfg) : Frame :=
  .overload (s.stats.droppedUp.setWidth 32) (s.stats.droppedDown.setWidth 32)

/-- The Overload is queued if there is room, and counted otherwise. -/
theorem Online.pushOverload (h : s.Online) (now : Instant) :
    (s.pushOverload now).Online ∧
      (s.pushOverload now).queue =
        s.queue ++
          (if s.pendingOverload = true ∧ s.queue.length < UP_QUEUE_CAP then [s.overloadFrame]
            else []) ∧
      (s.pushOverload now).stats.droppedDown = s.stats.droppedDown ∧
      (s.pushOverload now).stats.droppedUp =
        s.stats.droppedUp +
          BitVec.ofNat 64 (if s.pendingOverload = true ∧ UP_QUEUE_CAP ≤ s.queue.length then 1
            else 0) := by
  have hcleared : ({ s with pendingOverload := false } : Shared cfg).Online := h
  unfold Shared.pushOverload
  by_cases hp : s.pendingOverload = true
  · obtain ⟨honline, hqueue⟩ := hcleared.pushFrame s.overloadFrame false now
    obtain ⟨hdown, hup⟩ := hcleared.pushFrame_stats s.overloadFrame false now
    rw [if_pos hp]
    simp only [hp, true_and]
    refine ⟨honline, hqueue.trans ?_, hdown, hup⟩
    show (if s.queue.length < UP_QUEUE_CAP then s.queue ++ [s.overloadFrame] else s.queue) = _
    split_ifs
    · rfl
    · exact (List.append_nil _).symm
  · rw [if_neg hp]
    simp only [hp, false_and, if_false, List.append_nil, true_and, Bool.false_eq_true]
    exact ⟨h, (BitVec.add_zero _).symm⟩

theorem Online.noticeStep (h : s.Online) (x : NoticeStep) : (s.noticeStep x).Online := by
  cases x with
  | push frame droppable now => exact (h.pushFrame frame droppable now).1
  | recv => exact h.upStep .recv
  | second ids now => exact ((h.pushStats ids now).1.pushOverload now).1

theorem Online.foldl_noticeStep (h : s.Online) (steps : List NoticeStep) :
    (steps.foldl Shared.noticeStep s).Online := by
  induction steps generalizing s with
  | nil => exact h
  | cons x xs ih => exact ih (h.noticeStep x)

/-- **The counter** counts the frames that are dropped. -/
theorem Online.droppedUp_noticeStep (h : s.Online) (x : NoticeStep) :
    (s.noticeStep x).stats.droppedUp = s.stats.droppedUp + BitVec.ofNat 64 (s.lost x) := by
  cases x with
  | push frame droppable now => exact (h.pushFrame_stats frame droppable now).2
  | recv => exact (BitVec.add_zero _).symm
  | second ids now =>
    obtain ⟨honline, -, -, hup⟩ := h.pushStats ids now
    have hlast := (honline.pushOverload now).2.2.2
    show ((s.pushStats ids now).pushOverload now).stats.droppedUp = _
    rw [hlast, hup, BitVec.add_assoc, ← BitVec.ofNat_add]
    rfl

theorem Online.droppedUp_foldl (h : s.Online) (steps : List NoticeStep) :
    (steps.foldl Shared.noticeStep s).stats.droppedUp =
      s.stats.droppedUp + BitVec.ofNat 64 (s.lostIn steps) := by
  induction steps generalizing s with
  | nil => exact (BitVec.add_zero _).symm
  | cons x xs ih =>
    calc (xs.foldl Shared.noticeStep (s.noticeStep x)).stats.droppedUp
        = (s.noticeStep x).stats.droppedUp +
          BitVec.ofNat 64 ((s.noticeStep x).lostIn xs) := ih (h.noticeStep x)
      _ = s.stats.droppedUp + (BitVec.ofNat 64 (s.lost x) +
          BitVec.ofNat 64 ((s.noticeStep x).lostIn xs)) := by
          rw [h.droppedUp_noticeStep x, BitVec.add_assoc]
      _ = s.stats.droppedUp + BitVec.ofNat 64 (s.lostIn (x :: xs)) := by
          rw [lostIn, BitVec.ofNat_add]

theorem statsFrame_ne_overload (sessId : U64) (a b : U32) : statsFrame sessId ≠ .overload a b := by
  intro heq
  have hty : FRAME_SESSION_STATS = FRAME_OVERLOAD := congrArg Frame.ty heq
  exact absurd hty (by decide)

/-- A second reports if the statistics leave room for the Overload, and the flag is up. -/
theorem Online.reports_iff (h : s.Online) (ids : List U64) (now : Instant) :
    s.Reports s.stats.droppedUp (.second ids now) ↔
      s.queue.length + ids.length < UP_QUEUE_CAP ∧ s.pendingOverload = true := by
  obtain ⟨honline, hqueue, hdown, hup⟩ := h.pushStats ids now
  have hafter := (honline.pushOverload now).2.1
  -- without an Overload only statistics are added
  have hnone : (s.pushStats ids now).queue = ((s.pushStats ids now).pushOverload now).queue →
      ¬ s.Reports s.stats.droppedUp (.second ids now) := by
    rintro hsame ⟨front, hreport⟩
    change ((s.pushStats ids now).pushOverload now).queue = _ at hreport
    rw [← hsame, hqueue, List.append_cancel_left_eq] at hreport
    have hmem : Frame.overload (s.stats.droppedUp.setWidth 32) (s.stats.droppedDown.setWidth 32) ∈
        (ids.map statsFrame).take (UP_QUEUE_CAP - s.queue.length) := by
      rw [hreport]
      exact List.mem_append_right _ (List.mem_singleton.2 rfl)
    obtain ⟨id, -, heq⟩ := List.mem_map.1 (List.mem_of_mem_take hmem)
    exact statsFrame_ne_overload id _ _ heq
  by_cases hfits : s.queue.length + ids.length < UP_QUEUE_CAP
  · obtain ⟨hp, -⟩ := pushStats_of_fits h hfits.le now
    have hall : (ids.map statsFrame).take (UP_QUEUE_CAP - s.queue.length) = ids.map statsFrame :=
      List.take_of_length_le (by rw [List.length_map]; omega)
    have hroom : (s.pushStats ids now).queue.length < UP_QUEUE_CAP := by
      rw [hqueue, hall, List.length_append, List.length_map]
      exact hfits
    rw [hp] at hafter
    simp only [hroom, and_true] at hafter
    rw [and_iff_right hfits]
    by_cases hpending : s.pendingOverload = true
    · refine iff_of_true ⟨ids.map statsFrame, ?_⟩ hpending
      show ((s.pushStats ids now).pushOverload now).queue = _
      rw [hafter, if_pos hpending, hqueue, hall, List.append_assoc]
      unfold overloadFrame
      rw [hup, hdown, show ids.length - (UP_QUEUE_CAP - s.queue.length) = 0 by omega]
      rw [show s.stats.droppedUp + BitVec.ofNat 64 0 = s.stats.droppedUp from BitVec.add_zero _]
    · refine iff_of_false (hnone ?_) hpending
      rw [hafter, if_neg hpending, List.append_nil]
  · refine iff_of_false (hnone ?_) fun hc => hfits hc.1
    have hfull : ¬ (s.pushStats ids now).queue.length < UP_QUEUE_CAP := by
      rw [hqueue, List.length_append, List.length_take, List.length_map]
      omega
    rw [hafter, if_neg fun hc => hfull hc.2, List.append_nil]

end Shared

/-! ## What is owed -/

/-- A run, and what the flag depends on. -/
structure Watch (cfg : SessionTableConfig) where
  shared : Shared cfg
  /-- `lastOverload` when the flag was taken down the last time. -/
  mark : Instant
  /-- The flag was up in the beginning, and has not been taken down. -/
  carried : Bool
  /-- The time of the last drop since the flag was taken down. -/
  lastDrop : Option Instant
  /-- No second has found room since some drop. -/
  owed : Bool

namespace Watch

open Shared

variable {cfg : SessionTableConfig}

def start (s : Shared cfg) : Watch cfg := ⟨s, s.lastOverload, s.pendingOverload, none, false⟩

def step (w : Watch cfg) (x : NoticeStep) : Watch cfg :=
  let owed := decide (0 < w.shared.lost x) || w.owed && !decide (w.shared.FindsRoom x)
  match x with
  | .push _ _ now =>
    { w with
      shared := w.shared.noticeStep x
      lastDrop := if UP_QUEUE_CAP ≤ w.shared.queue.length then some now else w.lastDrop
      owed }
  | .recv => { w with shared := w.shared.noticeStep x, owed }
  | .second ids now =>
    let turn := w.shared.pushStats ids now
    { shared := turn.pushOverload now
      mark := turn.lastOverload
      carried := false
      lastDrop := if turn.pendingOverload = true ∧ UP_QUEUE_CAP ≤ turn.queue.length then some now
        else none
      owed }

/-- A drop since the flag was taken down came late enough to raise it again. -/
def Flagged (w : Watch cfg) : Prop :=
  w.carried = true ∨ ∃ t ∈ w.lastDrop, w.mark + OVERLOAD_MIN_INTERVAL ≤ t

/-- If a second finds room while a drop is not reported, then the statistics leave room for the
Overload, and some drop came late enough. -/
def Timely (w : Watch cfg) : NoticeStep → Prop
  | .second ids _ => w.shared.queue.length < UP_QUEUE_CAP → w.owed = true →
    w.shared.queue.length + ids.length < UP_QUEUE_CAP ∧ w.Flagged
  | _ => True

variable {w : Watch cfg} {s : Shared cfg}

theorem shared_step (w : Watch cfg) (x : NoticeStep) :
    (w.step x).shared = w.shared.noticeStep x := by
  cases x with
  | _ => rfl

theorem owed_step (w : Watch cfg) (x : NoticeStep) :
    (w.step x).owed = true ↔ 0 < w.shared.lost x ∨ w.owed = true ∧ ¬ w.shared.FindsRoom x := by
  have howed : (w.step x).owed =
      (decide (0 < w.shared.lost x) || w.owed && !decide (w.shared.FindsRoom x)) := by
    cases x with
    | _ => rfl
  rw [howed, Bool.or_eq_true, Bool.and_eq_true, decide_eq_true_iff, Bool.not_eq_true',
    decide_eq_false_iff_not]

theorem shared_foldl (s : Shared cfg) (steps : List NoticeStep) :
    (steps.foldl step (start s)).shared = steps.foldl noticeStep s := by
  induction steps using List.reverseRecOn with
  | nil => rfl
  | append_singleton steps x ih =>
    rw [List.foldl_append, List.foldl_append, ← ih]
    exact shared_step _ x

/-- A drop is owed if no second has found room after it. -/
theorem owed_iff (s : Shared cfg) (steps : List NoticeStep) :
    (steps.foldl step (start s)).owed = true ↔ ∃ as x bs, steps = as ++ x :: bs ∧
      0 < (as.foldl noticeStep s).lost x ∧
      Allowed noticeStep (fun s z => ¬ s.FindsRoom z)
        ((as.foldl noticeStep s).noticeStep x) bs := by
  induction steps using List.reverseRecOn with
  | nil =>
    refine iff_of_false Bool.false_ne_true ?_
    rintro ⟨as, x, bs, h, -⟩
    exact List.append_ne_nil_of_right_ne_nil as (List.cons_ne_nil x bs) h.symm
  | append_singleton steps z ih =>
    rw [List.foldl_append]
    show (step _ z).owed = true ↔ _
    rw [owed_step, ih, shared_foldl]
    constructor
    · rintro (hlost | ⟨⟨as, x, bs, rfl, hlost, hbs⟩, hz⟩)
      · exact ⟨steps, z, [], rfl, hlost, trivial⟩
      · refine ⟨as, x, bs ++ [z], by simp, hlost, allowed_concat.2 ⟨hbs, ?_⟩⟩
        rw [List.foldl_append, List.foldl_cons] at hz
        exact hz
    · rintro ⟨as, x, bs, h, hlost, hbs⟩
      rcases List.eq_nil_or_concat bs with rfl | ⟨bs, z', rfl⟩
      · obtain ⟨rfl, rfl⟩ := List.append_singleton_inj.1 h
        exact .inl hlost
      · rw [List.concat_eq_append] at h hbs
        have h' : steps ++ [z] = (as ++ x :: bs) ++ [z'] := by
          rw [h, List.append_assoc]
          rfl
        obtain ⟨rfl, rfl⟩ := List.append_singleton_inj.1 h'
        obtain ⟨hbs, hz⟩ := allowed_concat.1 hbs
        refine .inr ⟨⟨as, x, bs, rfl, hlost, hbs⟩, ?_⟩
        rw [List.foldl_append, List.foldl_cons]
        exact hz

/-! ## The flag -/

theorem not_sub_lt_iff {last now interval : ℕ} (h : 0 < interval) :
    ¬ now - last < interval ↔ last + interval ≤ now := by omega

/-- A drop raises the flag if the last flag was raised long enough ago. -/
theorem pendingOverload_notifyOverload (s : Shared cfg) (now : Instant) :
    ((s.notifyOverload now).pendingOverload = true ↔
      s.pendingOverload = true ∨ s.lastOverload + OVERLOAD_MIN_INTERVAL ≤ now) ∧
    ((s.notifyOverload now).pendingOverload = false →
      (s.notifyOverload now).lastOverload = s.lastOverload) := by
  have hlate : ¬ now - s.lastOverload < OVERLOAD_MIN_INTERVAL ↔
      s.lastOverload + OVERLOAD_MIN_INTERVAL ≤ now :=
    not_sub_lt_iff (by decide)
  unfold notifyOverload
  split_ifs with h
  · exact ⟨(or_iff_left fun hle => hlate.2 hle h).symm, fun _ => rfl⟩
  · exact ⟨iff_of_true rfl (.inr (hlate.1 h)), fun hf => nomatch hf⟩

/-- The flag is up if it should be, and as long as it is not the last mark is where it was. -/
structure Sound (w : Watch cfg) : Prop where
  online : w.shared.Online
  flag : w.shared.pendingOverload = true ↔ w.Flagged
  idle : w.shared.pendingOverload = false → w.shared.lastOverload = w.mark

theorem sound_start (h : s.Online) : (start s).Sound where
  online := h
  flag := by
    refine ⟨.inl, ?_⟩
    rintro (h | ⟨t, ht, -⟩)
    · exact h
    · cases ht
  idle := fun _ => rfl

theorem lastDrop_push (hfull : UP_QUEUE_CAP ≤ w.shared.queue.length) (frame : Frame)
    (droppable : Bool) (now : Instant) : (w.step (.push frame droppable now)).lastDrop = some now :=
    if_pos hfull

theorem flagged_recv : (w.step .recv).Flagged ↔ w.Flagged := Iff.rfl

theorem sound_push (h : w.Sound) (frame : Frame) (droppable : Bool) {now : Instant}
    (ht : ∀ t ∈ w.lastDrop, t ≤ now) : (w.step (.push frame droppable now)).Sound := by
  by_cases hfull : UP_QUEUE_CAP ≤ w.shared.queue.length
  · have hshared := pushFrame_of_full h.online hfull frame droppable now
    have hdrop := lastDrop_push hfull frame droppable now
    obtain ⟨hflag, hidle⟩ := pendingOverload_notifyOverload w.shared.incrDroppedUp now
    refine ⟨h.online.noticeStep _, ?_, ?_⟩
    · show (w.shared.pushFrame frame droppable now).pendingOverload = true ↔
        w.carried = true ∨ ∃ t ∈ (w.step (.push frame droppable now)).lastDrop,
        w.mark + OVERLOAD_MIN_INTERVAL ≤ t
      rw [hshared, hflag, hdrop]
      show w.shared.pendingOverload = true ∨ w.shared.lastOverload + OVERLOAD_MIN_INTERVAL ≤ now ↔ _
      simp only [Option.mem_some_iff, exists_eq_left']
      cases hp : w.shared.pendingOverload with
      | false =>
        have hnot : ¬ w.carried = true := fun hc => by
          have := h.flag.2 (.inl hc)
          rw [hp] at this
          cases this
        rw [h.idle hp, or_iff_right Bool.false_ne_true, or_iff_right hnot]
      | true =>
        refine iff_of_true (.inl rfl) ((h.flag.1 hp).imp_right ?_)
        rintro ⟨t, htd, hle⟩
        exact hle.trans (ht t htd)
    · show (w.shared.pushFrame frame droppable now).pendingOverload = false →
        (w.shared.pushFrame frame droppable now).lastOverload = w.mark
      rw [hshared]
      intro hf
      rw [hidle hf]
      refine h.idle ?_
      rw [← Bool.not_eq_true]
      intro hp
      have := hflag.2 (.inl hp)
      rw [hf] at this
      cases this
  · obtain ⟨q, hq, -, -⟩ := pushFrame_of_room h.online (Nat.not_le.1 hfull) frame droppable now
    have hdrop : (w.step (.push frame droppable now)).lastDrop = w.lastDrop := if_neg hfull
    refine ⟨h.online.noticeStep _, ?_, ?_⟩
    · show (w.shared.pushFrame frame droppable now).pendingOverload = true ↔
        w.carried = true ∨ ∃ t ∈ (w.step (.push frame droppable now)).lastDrop,
        w.mark + OVERLOAD_MIN_INTERVAL ≤ t
      rw [hdrop, hq]
      exact h.flag
    · show (w.shared.pushFrame frame droppable now).pendingOverload = false →
        (w.shared.pushFrame frame droppable now).lastOverload = w.mark
      rw [hq]
      exact h.idle

theorem sound_second (h : w.Sound) (ids : List U64) (now : Instant) :
    (w.step (.second ids now)).Sound := by
  obtain ⟨honline, -⟩ := h.online.pushStats ids now
  refine ⟨(honline.pushOverload now).1, ?_, ?_⟩
  · show ((w.shared.pushStats ids now).pushOverload now).pendingOverload = true ↔
      (false = true ∨ ∃ t ∈ (if (w.shared.pushStats ids now).pendingOverload = true ∧
        UP_QUEUE_CAP ≤ (w.shared.pushStats ids now).queue.length then some now else none),
          (w.shared.pushStats ids now).lastOverload + OVERLOAD_MIN_INTERVAL ≤ t)
    generalize w.shared.pushStats ids now = turn at honline
    have hcleared : ({ turn with pendingOverload := false } : Shared cfg).Online := honline
    rw [or_iff_right Bool.false_ne_true]
    unfold pushOverload
    by_cases hp : turn.pendingOverload = true
    · rw [if_pos hp]
      by_cases hfull : UP_QUEUE_CAP ≤ turn.queue.length
      · rw [if_pos ⟨hp, hfull⟩, pushFrame_of_full hcleared hfull,
          (pendingOverload_notifyOverload _ now).1]
        simp only [Option.mem_some_iff, exists_eq_left']
        exact or_iff_right Bool.false_ne_true
      · obtain ⟨q, hq, -, -⟩ :=
          pushFrame_of_room hcleared (Nat.not_le.1 hfull) turn.overloadFrame false now
        rw [if_neg fun hc => hfull hc.2]
        refine iff_of_false ?_ fun ⟨t, ht, _⟩ => nomatch ht
        change ¬ (({ turn with pendingOverload := false } : Shared cfg).pushFrame
          turn.overloadFrame false now).pendingOverload = true
        rw [hq]
        exact Bool.false_ne_true
    · rw [if_neg hp, if_neg fun hc => hp hc.1]
      exact iff_of_false hp fun ⟨t, ht, _⟩ => nomatch ht
  · show ((w.shared.pushStats ids now).pushOverload now).pendingOverload = false →
      ((w.shared.pushStats ids now).pushOverload now).lastOverload =
        (w.shared.pushStats ids now).lastOverload
    generalize w.shared.pushStats ids now = turn at honline
    have hcleared : ({ turn with pendingOverload := false } : Shared cfg).Online := honline
    unfold pushOverload
    by_cases hp : turn.pendingOverload = true
    · rw [if_pos hp]
      by_cases hfull : UP_QUEUE_CAP ≤ turn.queue.length
      · rw [pushFrame_of_full hcleared hfull]
        exact (pendingOverload_notifyOverload _ now).2
      · obtain ⟨q, hq, -, -⟩ :=
          pushFrame_of_room hcleared (Nat.not_le.1 hfull) turn.overloadFrame false now
        show _ → (({ turn with pendingOverload := false } : Shared cfg).pushFrame
          turn.overloadFrame false now).lastOverload = turn.lastOverload
        rw [hq]
        exact fun _ => rfl
    · rw [if_neg hp]
      exact fun _ => rfl

/-- The times of the steps of a run. -/
def times (steps : List NoticeStep) : List Instant := steps.filterMap NoticeStep.time?

theorem mem_times_of_lastDrop (s : Shared cfg) (steps : List NoticeStep) :
    ∀ t ∈ (steps.foldl step (start s)).lastDrop, t ∈ times steps := by
  induction steps using List.reverseRecOn with
  | nil => exact fun t ht => nomatch ht
  | append_singleton steps x ih =>
    intro t ht
    rw [List.foldl_append] at ht
    unfold times
    rw [List.filterMap_append]
    change t ∈ (step _ x).lastDrop at ht
    cases x with
    | push frame droppable now =>
      unfold step at ht
      dsimp only at ht
      split_ifs at ht
      · obtain rfl : now = t := Option.some.inj ht
        exact List.mem_append_right _ (List.mem_singleton.2 rfl)
      · exact List.mem_append_left _ (ih t ht)
    | recv => exact List.mem_append_left _ (ih t ht)
    | second ids now =>
      unfold step at ht
      dsimp only at ht
      split_ifs at ht
      · obtain rfl : now = t := Option.some.inj ht
        exact List.mem_append_right _ (List.mem_singleton.2 rfl)
      · cases ht

/-- In a run in which time does not go backwards the flag is right. -/
theorem sound_foldl (h : s.Online) {steps : List NoticeStep} (ht : (times steps).Pairwise (· ≤ ·)) :
    (steps.foldl step (start s)).Sound := by
  induction steps using List.reverseRecOn with
  | nil => exact sound_start h
  | append_singleton steps x ih =>
    unfold times at ht
    rw [List.filterMap_append, List.pairwise_append] at ht
    have hs := ih ht.1
    have hlast := mem_times_of_lastDrop s steps
    rw [List.foldl_append]
    show (step _ x).Sound
    cases x with
    | push frame droppable now =>
      refine sound_push hs frame droppable fun t htd => ?_
      exact ht.2.2 t (hlast t htd) now (List.mem_singleton.2 rfl)
    | recv => exact ⟨hs.online.noticeStep .recv, hs.flag, hs.idle⟩
    | second ids now => exact sound_second hs ids now

/-! ## No silent drop -/

/-- One more step: if it is a second that finds room while a drop is owed, it reports. -/
theorem noSilentDrop_concat (h : s.Online) {steps : List NoticeStep} {y : NoticeStep} :
    s.NoSilentDrop (steps ++ [y]) ↔ s.NoSilentDrop steps ∧
      ((steps.foldl step (start s)).owed = true → (steps.foldl noticeStep s).FindsRoom y →
        (steps.foldl noticeStep s).Reports (steps.foldl noticeStep s).stats.droppedUp y) := by
  rw [owed_iff]
  constructor
  · intro hall
    refine ⟨fun as x bs z cs heq => ?_, ?_⟩
    · refine hall as x bs z (cs ++ [y]) ?_
      rw [heq, List.append_assoc]
      rfl
    · rintro ⟨as, x, bs, rfl, hlost, hbs⟩ hroom
      rw [h.droppedUp_foldl]
      exact hall as x bs y [] rfl hlost hbs hroom
  · rintro ⟨hold, hnew⟩ as x bs z cs heq hlost hbs hroom
    rcases List.eq_nil_or_concat cs with rfl | ⟨cs, z', rfl⟩
    · obtain ⟨rfl, rfl⟩ := List.append_singleton_inj.1 heq
      have := hnew ⟨as, x, bs, rfl, hlost, hbs⟩ hroom
      rwa [h.droppedUp_foldl] at this
    · have heq' : steps ++ [y] = (as ++ x :: bs ++ z :: cs) ++ [z'] := by
        rw [heq, List.concat_eq_append, List.append_assoc _ _ [z']]
        rfl
      obtain ⟨rfl, rfl⟩ := List.append_singleton_inj.1 heq'
      exact hold as x bs z cs rfl hlost hbs hroom

/-- **No silent drop.** On a link that is up every dropped frame is reported in the first second
that finds room, exactly if in every such second the statistics leave room for the Overload, and
some drop since the flag was taken down the last time came late enough to raise it again. -/
theorem noSilentDrop_iff (h : s.Online) {steps : List NoticeStep}
    (ht : (times steps).Pairwise (· ≤ ·)) :
    s.NoSilentDrop steps ↔ Allowed step Timely (start s) steps := by
  induction steps using List.reverseRecOn with
  | nil =>
    refine iff_of_true (fun as x bs y cs heq => ?_) trivial
    exact absurd heq.symm (List.append_ne_nil_of_right_ne_nil _ (List.cons_ne_nil y cs))
  | append_singleton steps y ih =>
    unfold times at ht ih
    rw [List.filterMap_append, List.pairwise_append] at ht
    have hs := sound_foldl h ht.1
    rw [noSilentDrop_concat h, allowed_concat, ih ht.1, ← shared_foldl]
    refine and_congr_right fun _ => ?_
    generalize steps.foldl step (start s) = w at hs
    cases y with
    | push frame droppable now => exact iff_of_true (fun _ hroom => absurd hroom id) trivial
    | recv => exact iff_of_true (fun _ hroom => absurd hroom id) trivial
    | second ids now =>
      rw [hs.online.reports_iff, hs.flag]
      exact ⟨fun hrep hroom howed => hrep howed hroom, fun hrep howed hroom => hrep hroom howed⟩

/-- A drop that raises the flag, and a second that finds room. -/
theorem allowed_of_late (hfull : UP_QUEUE_CAP ≤ s.queue.length) (frame : Frame) (droppable : Bool)
    {dropped : Instant} (hlate : s.lastOverload + OVERLOAD_MIN_INTERVAL ≤ dropped)
    (second : Instant) :
    Allowed step Timely (start s) [.push frame droppable dropped, .recv, .second [] second] := by
  refine ⟨trivial, trivial, fun hroom _ => ?_, trivial⟩
  rw [List.length_nil, Nat.add_zero]
  exact ⟨hroom, flagged_recv.2 (.inr ⟨dropped, lastDrop_push hfull frame droppable dropped, hlate⟩)⟩

/-- After a drop whose flag is taken down soon by a second that finds the queue full, that drop is
not reported, whenever the next second comes. -/
theorem not_noSilentDrop_of_full (h : s.Online) (hfull : s.queue.length = UP_QUEUE_CAP)
    (frame : Frame) (droppable : Bool) {dropped first : Instant} (later : Instant)
    (hmark : s.lastOverload + OVERLOAD_MIN_INTERVAL ≤ dropped)
    (hsoon : first - dropped < OVERLOAD_MIN_INTERVAL) :
    ¬ s.NoSilentDrop
      [.push frame droppable dropped, .second [] first, .recv, .second [] later] := by
  intro hall
  -- the flag goes up
  have hpush : s.pushFrame frame droppable dropped =
      { s.incrDroppedUp with lastOverload := dropped, pendingOverload := true } := by
    rw [pushFrame_of_full h hfull.ge]
    unfold notifyOverload
    exact if_neg ((not_sub_lt_iff (by decide)).2 hmark)
  -- and is taken down for an Overload that is dropped
  have hsecond : (s.pushFrame frame droppable dropped).pushOverload first =
      { s.incrDroppedUp.incrDroppedUp with lastOverload := dropped, pendingOverload := false } := by
    rw [hpush]
    unfold pushOverload
    rw [if_pos rfl]
    have honline : ({ s.incrDroppedUp with
        lastOverload := dropped, pendingOverload := false } : Shared cfg).Online := h
    refine (pushFrame_of_full honline hfull.ge _ false first).trans ?_
    unfold notifyOverload
    exact if_pos hsoon
  have hlost : 0 < s.lost (.push frame droppable dropped) := by
    unfold lost
    rw [if_pos hfull.ge]
    exact Nat.one_pos
  set before := [NoticeStep.push frame droppable dropped, .second [] first, .recv] with hbefore
  have hlast : before.foldl noticeStep s =
      ({ s.incrDroppedUp.incrDroppedUp with
        lastOverload := dropped, pendingOverload := false } : Shared cfg).recv :=
    congrArg Shared.recv hsecond
  have hqueue : (before.foldl noticeStep s).queue.length < UP_QUEUE_CAP := by
    rw [hlast]
    show (Shared.upStep _ .recv).queue.length < UP_QUEUE_CAP
    rw [offer_none rfl]
    show s.queue.tail.length < UP_QUEUE_CAP
    rw [List.length_tail, hfull]
    decide
  have hreport := hall [] (.push frame droppable dropped) [.second [] first, .recv]
    (.second [] later) [] rfl hlost ⟨?_, id, trivial⟩ hqueue
  · change (before.foldl noticeStep s).Reports
      (s.stats.droppedUp + BitVec.ofNat 64 (s.lostIn before)) _ at hreport
    rw [← h.droppedUp_foldl, (h.foldl_noticeStep before).reports_iff, hlast] at hreport
    exact Bool.false_ne_true hreport.2
  · show ¬ (s.pushFrame frame droppable dropped).queue.length < UP_QUEUE_CAP
    rw [hpush]
    exact hfull.not_lt

end Watch

/-- The statistics of 4096 sessions have filled the queue of an engine that has just reached the
logic server. -/
def flooded : Shared .default := onlineEngine.pushStats (List.replicate UP_QUEUE_CAP 1) 0

theorem flooded_online : flooded.Online := (onlineEngine_online.pushStats _ 0).1

theorem flooded_full : flooded.queue.length = UP_QUEUE_CAP := by
  have hqueue := (onlineEngine_online.pushStats (List.replicate UP_QUEUE_CAP 1) 0).2.1
  have hempty : onlineEngine.queue = [] := rfl
  unfold flooded
  rw [hqueue, hempty, List.nil_append, List.length_take, List.length_map, List.length_replicate]
  exact Nat.min_self _

theorem flooded_lastOverload : flooded.lastOverload = 0 :=
  (Shared.pushStats_of_fits onlineEngine_online
    (by rw [List.length_replicate]; exact (Nat.zero_add _).le) 0).2

/-- A session is closed when the queue is full; the next second comes 900 ms later, and finds
room. -/
theorem noSilentDrop_reported : flooded.NoSilentDrop
    [.push (.session_close 1 0) false (Duration.fromMillis 100), .recv,
      .second [] (Duration.fromMillis 1000)] := by
  have hlate : flooded.lastOverload + OVERLOAD_MIN_INTERVAL ≤ Duration.fromMillis 100 := by
    rw [flooded_lastOverload]
    decide
  exact (Watch.noSilentDrop_iff flooded_online (by decide)).2
    (Watch.allowed_of_late flooded_full.ge _ false hlate _)

/-- The next second comes 50 ms later, and finds the queue still full; the one after it finds room,
and says nothing. -/
theorem noSilentDrop_fails :
    flooded.Online ∧
      (Watch.times [.push (.session_close 1 0) false (Duration.fromMillis 100),
        .second [] (Duration.fromMillis 150),
        .recv, .second [] (Duration.fromMillis 1150)]).Pairwise (· ≤ ·) ∧
      ¬ flooded.NoSilentDrop
        [.push (.session_close 1 0) false (Duration.fromMillis 100),
          .second [] (Duration.fromMillis 150), .recv, .second [] (Duration.fromMillis 1150)] := by
  refine ⟨flooded_online, by decide, ?_⟩
  refine Watch.not_noSilentDrop_of_full flooded_online flooded_full _ false _ ?_ (by decide)
  rw [flooded_lastOverload]
  decide

end SoupEngine
