import SoupEngine.Engine.Arrival
import SoupEngine.Engine.Upstream
import SoupEngine.Sdk.Inputs

/-!
# From the session table to the room

What the table reports of a session goes through a task, the queue of the link, a connection,
`dispatch` and the inbox of a room before its `OnInput` is called. Messages are lost on the way when
the link breaks or something is full; what the room is told of a session, on other channels than
that of the input, are messages that the table has reported, in order, each at most once and
unchanged (`told_in_order`).
-/

namespace SoupEngine

open TransitionSystem
open Sdk (BufId Word RoomID Server ServerAction frameWord ChInput)

/-- The message of a session in an event of the session table. -/
def SessionEvent.word (sess : U64) : SessionEvent → Option Word
  | .Data id ch msgId payload => if id = sess ∧ ch ≠ ChInput then some (msgId, payload) else none
  | _ => none

/-- The engine and the SDK, with what the rooms have been told. -/
structure Telling (cfg : EngineConfig) where
  hearing : Hearing cfg
  told : RoomID → U64 → List Word

namespace Telling

variable {cfg : EngineConfig}

/-- What a room is told of a session in a step. -/
def tells (c : Pairing cfg) (R : RoomID) (sess : U64) : PairingAction → List Word
  | .server a => if c.server.crashed = true then [] else c.server.tells R sess a
  | _ => []

def start (now : Instant) (MaxRooms inboxCap JitterBufferTicks BaselineRingSize : ℕ) :
    Telling cfg :=
  ⟨.start now MaxRooms inboxCap JitterBufferTicks BaselineRingSize, fun _ _ => []⟩

def step (hmac4 : Hmac) (s : Telling cfg) (a : PairingAction) : Telling cfg where
  hearing := s.hearing.step hmac4 a
  told R sess := s.told R sess ++ tells s.hearing.pairing R sess a

def Sound (s : Telling cfg) (a : PairingAction) : Prop := s.hearing.Sound a

end Telling

/-! ## The messages in frames -/

/-- The message in what has been heard. -/
def heardWord (sess : U64) (p : Frame × Bool) : Option Word := frameWord sess p.1.ty p.1.body

theorem word_upFrame (sess : U64) (e : SessionEvent) :
    frameWord sess (upFrame e).ty (upFrame e).body = e.word sess := by
  cases e with
  | Open sessId peer token => rfl
  | Close sessId reason => rfl
  | Resume sessId gapMs => rfl
  | Data sessId ch msgId payload =>
    have hty : (upFrame (.Data sessId ch msgId payload)).ty = Sdk.FrameDataUp := rfl
    unfold frameWord
    rw [if_pos hty]
    have hbody : (upFrame (.Data sessId ch msgId payload)).body =
      (Frame.data_up sessId ch msgId payload).body := rfl
    rw [hbody, parseData_body]
    rfl

/-- A frame with a message of the session is about the session. -/
theorem tells_of_word {sess : U64} {f : Frame} (h : frameWord sess f.ty f.body ≠ none) :
    f.ty = FRAME_DATA_UP ∧ f.Tells sess := by
  unfold frameWord at h
  split_ifs at h with hty
  · refine ⟨hty, ?_, ?_⟩
    · unfold Frame.about
      rw [if_pos (.inr (.inr (.inr (.inl hty))))]
      unfold Sdk.parseData at h
      split_ifs at h with hshort
      · exact absurd rfl h
      · dsimp only at h
        split_ifs at h with hsess
        · exact congrArg some hsess.1
        · exact absurd rfl h
    · rw [show f.ty = FRAME_DATA_UP from hty]
      decide
  · exact absurd rfl h

/-- Frames that do not belong to a greeting have all the messages. -/
theorem words_talesOf {sess : U64} {l : List (Frame × Bool)}
    (hl : ∀ p ∈ l, p.2 = true → p.1.ty ≠ FRAME_DATA_UP) :
    l.filterMap (heardWord sess) = (talesOf sess l).filterMap fun f =>
      frameWord sess f.ty f.body := by
  induction l with
  | nil => rfl
  | cons p l ih =>
    rw [List.forall_mem_cons] at hl
    have ih := ih hl.2
    by_cases hp : p.2 = false ∧ p.1.Tells sess
    · have htales : talesOf sess (p :: l) = p.1 :: talesOf sess l := by
        unfold talesOf
        rw [List.filter_cons, if_pos (decide_eq_true hp), List.map_cons]
      rw [htales, List.filterMap_cons, List.filterMap_cons, ih]
      rfl
    · have htales : talesOf sess (p :: l) = talesOf sess l := by
        unfold talesOf
        rw [List.filter_cons, if_neg (by rw [decide_eq_true_eq]; exact hp)]
      have hnone : heardWord sess p = none := by
        by_contra hsome
        obtain ⟨hty, htells⟩ := tells_of_word hsome
        refine hp ⟨?_, htells⟩
        rw [← Bool.not_eq_true]
        exact fun hmark => hl.1 hmark hty
      rw [htales, List.filterMap_cons_none hnone, ih]

/-- The frames of the events about a session have its messages. -/
theorem words_upFrame (sess : U64) (l : List SessionEvent) :
    ((eventsOf sess l).map upFrame).filterMap (fun f => frameWord sess f.ty f.body) =
      (eventsOf sess l).filterMap (SessionEvent.word sess) := by
  rw [List.filterMap_map]
  apply List.filterMap_congr
  intro e he
  exact word_upFrame sess e

/-! ## The steps of the SDK -/

namespace Pairing

variable {cfg : EngineConfig} {c : Pairing cfg} {hmac4 : Hmac}

theorem filterMap_heardWord (sess : U64) (p : Frame × Bool) :
    [p].filterMap (heardWord sess) = (heardWord sess p).toList := by
  cases h : heardWord sess p with
  | none => exact List.filterMap_cons_none h
  | some w => exact List.filterMap_cons_some h

/-- `readLoop` takes the next frame of its connection. -/
theorem told_read (hcrashed : c.server.crashed = false) (raw : BufId) (v : Sdk.Verdict)
    (queued : Bool) (R : RoomID) (sess : U64) :
    ((c.sdkStep (.read raw v queued)).server.words R sess).Sublist
      (c.server.words R sess ++
        (Hearing.hears c (.read raw v queued)).filterMap (heardWord sess)) := by
  have hsame : (c.server.words R sess).Sublist (c.server.words R sess ++
      (Hearing.hears c (.read raw v queued)).filterMap (heardWord sess)) :=
    List.sublist_append_left _ _
  unfold sdkStep
  dsimp only
  cases hreader : c.reader with
  | reading k heard =>
    dsimp only
    cases hwire : c.wire k with
    | nil => exact hsame
    | cons p rest =>
      obtain ⟨f, greeting⟩ := p
      dsimp only
      split_ifs with hfree
      · have hhears : Hearing.hears c (.read raw v queued) = [(f, greeting)] := by
          unfold Hearing.hears
          dsimp only
          rw [hreader]
          dsimp only
          rw [hwire]
          dsimp only
          rw [if_pos hfree]
        rw [hhears, filterMap_heardWord]
        exact c.server.told_step hcrashed (.frame f.ty f.body raw v queued) R sess
      · exact hsame
  | _ => exact hsame

/-- `readLoop` takes what is no frame of the engine. -/
theorem told_misread (hcrashed : c.server.crashed = false) (typ : U8) (body : Bytes) (raw : BufId)
    (v : Sdk.Verdict) (queued : Bool) (R : RoomID) (sess : U64) :
    ((c.sdkStep (.misread typ body raw v queued)).server.words R sess).Sublist
      (c.server.words R sess ++
        (Hearing.hears c (.misread typ body raw v queued)).filterMap (heardWord sess)) := by
  have hsame : (c.server.words R sess).Sublist (c.server.words R sess ++
      (Hearing.hears c (.misread typ body raw v queued)).filterMap (heardWord sess)) :=
    List.sublist_append_left _ _
  unfold sdkStep
  dsimp only
  split
  · rename_i k hreader
    split_ifs with hfree
    · have hhears : Hearing.hears c (.misread typ body raw v queued) =
          [(⟨typ, body⟩, false)] := by
        unfold Hearing.hears
        dsimp only
        rw [hreader]
        dsimp only
        rw [if_pos hfree]
      rw [hhears, filterMap_heardWord]
      exact c.server.told_step hcrashed (.frame typ body raw v queued) R sess
    · exact hsame
  · exact hsame

/-- **A step of the SDK.** What the room is told, and then what is on the way to it, was on the way
or is heard. -/
theorem told_sdkStep (hcrashed : c.server.crashed = false) (a : PairingAction) (R : RoomID)
    (sess : U64) :
    (Telling.tells c R sess a ++ (c.sdkStep a).server.words R sess).Sublist
      (c.server.words R sess ++ (Hearing.hears c a).filterMap (heardWord sess)) := by
  have hsame : (c.server.words R sess).Sublist
      (c.server.words R sess ++ (Hearing.hears c a).filterMap (heardWord sess)) :=
        List.sublist_append_left _ _
  have hquiet {x : ServerAction} (htells : c.server.tells R sess x = [])
      (hhears : Server.hears sess x = []) :
      ((c.server.step x).words R sess).Sublist (c.server.words R sess) := by
    have h := c.server.told_step hcrashed x R sess
    rwa [htells, hhears, List.append_nil] at h
  unfold sdkStep
  cases a with
  | engine x => exact hsame
  | accept =>
    dsimp only
    split_ifs <;> exact hsame
  | ensured =>
    dsimp only
    split <;> exact hsame
  | read raw v queued => exact told_read hcrashed raw v queued R sess
  | skip =>
    dsimp only
    split
    · split <;> exact hsame
    · exact hsame
  | misread typ body raw v queued => exact told_misread hcrashed typ body raw v queued R sess
  | readFails =>
    dsimp only
    split
    · split_ifs <;> exact hsame
    · exact hsame
  | writeFails =>
    dsimp only
    split_ifs <;> exact hsame
  | readerLocks =>
    dsimp only
    split_ifs
    · exact (hquiet rfl rfl).trans hsame
    · exact hsame
  | readerUnlocks =>
    dsimp only
    split_ifs
    · exact (hquiet rfl rfl).trans hsame
    · exact hsame
  | writerLocks =>
    dsimp only
    split_ifs
    · exact (hquiet rfl rfl).trans hsame
    · exact hsame
  | writerUnlocks =>
    dsimp only
    split_ifs
    · exact (hquiet rfl rfl).trans hsame
    · exact hsame
  | server x =>
    have htells : Telling.tells c R sess (.server x) = c.server.tells R sess x := by
      unfold Telling.tells
      dsimp only
      rw [if_neg (by rw [hcrashed]; exact Bool.false_ne_true)]
    rw [htells]
    have hstep := c.server.told_step hcrashed x R sess
    dsimp only
    cases x with
    | frame typ body raw v queued => exact hsame
    | dead => exact hsame
    | cleared => exact hsame
    | _ => exact hstep

/-- No message in a greeting. -/
structure Plain (c : Pairing cfg) : Prop where
  marked : ∀ n, ∀ p ∈ c.wire n, p.2 = true → p.1.ty ≠ FRAME_DATA_UP
  resuming : c.engine.Resuming

theorem Plain.engine (h : Plain c) (a : EngineAction) : Plain (c.engineStep hmac4 a) := by
  refine ⟨fun n p hp hmark => ?_, h.resuming.step a⟩
  rcases marked_engineStep h.resuming a hp hmark with hold | hty | hty
  · exact h.marked n p hold hmark
  · rw [hty]
    decide
  · rw [hty]
    decide

/-- The SDK writes nothing on a connection to it. -/
theorem wire_sdkStep (c : Pairing cfg) (a : PairingAction) (n : ℕ) :
    (c.sdkStep a).wire n ⊆ c.wire n := by
  have htail {k : ℕ} {p : Frame × Bool} {rest : List (Frame × Bool)}
      (hwire : c.wire k = p :: rest) :
      Function.update c.wire k rest n ⊆ c.wire n := by
    intro q hq
    rcases mem_update.1 hq with ⟨hn, hq⟩ | ⟨-, hq⟩
    · rw [hn, hwire]
      exact List.mem_cons_of_mem p hq
    · exact hq
  unfold sdkStep
  cases a with
  | engine x => exact List.Subset.refl _
  | read raw v queued =>
    dsimp only
    split
    · split
      · exact List.Subset.refl _
      · rename_i hwire
        split_ifs
        · exact htail hwire
        · exact List.Subset.refl _
    · exact List.Subset.refl _
  | skip =>
    dsimp only
    split
    · split
      · rename_i hwire
        exact htail hwire
      · exact List.Subset.refl _
    · exact List.Subset.refl _
  | readFails =>
    dsimp only
    split
    · split_ifs <;> exact List.Subset.refl _
    · exact List.Subset.refl _
  | misread typ body raw v queued =>
    dsimp only
    split
    · split_ifs <;> exact List.Subset.refl _
    · exact List.Subset.refl _
  | ensured =>
    dsimp only
    split <;> exact List.Subset.refl _
  | server x =>
    dsimp only
    split <;> exact List.Subset.refl _
  | _ =>
    dsimp only
    split_ifs <;> exact List.Subset.refl _

theorem Plain.sdk (h : Plain c) (a : PairingAction) : Plain (c.sdkStep a) := by
  refine ⟨fun n p hp => h.marked n p (c.wire_sdkStep a n hp), ?_⟩
  rw [engine_sdkStep]
  exact h.resuming

/-- What is dispatched is from the wire, or belongs to no greeting. -/
theorem Plain.hears (h : Plain c) {a : PairingAction} {p : Frame × Bool}
    (hp : p ∈ Hearing.hears c a) (hmark : p.2 = true) : p.1.ty ≠ FRAME_DATA_UP := by
  unfold Hearing.hears at hp
  split at hp
  · split at hp
    · rename_i k heard hreader
      split at hp
      · rename_i q rest hwire
        split_ifs at hp
        · rw [List.mem_singleton.1 hp] at hmark ⊢
          refine h.marked k q ?_ hmark
          rw [hwire]
          exact List.mem_cons_self
        · cases hp
      · cases hp
    · cases hp
  · split at hp
    · split_ifs at hp
      · rw [List.mem_singleton.1 hp] at hmark
        cases hmark
      · cases hp
    · cases hp
  · cases hp

end Pairing

/-! ## The run -/

namespace Telling

variable {cfg : EngineConfig} {hmac4 : Hmac} {s : Telling cfg}

/-- What the rooms are told is what has been heard, and that comes from what has been reported. -/
structure Faithful (s : Telling cfg) : Prop where
  order : s.hearing.InOrder
  plain : s.hearing.pairing.Plain
  heard : ∀ p ∈ s.hearing.heard, p.2 = true → p.1.ty ≠ FRAME_DATA_UP
  told : ∀ R sess, (s.told R sess ++ s.hearing.pairing.server.words R sess).Sublist
    (s.hearing.heard.filterMap (heardWord sess))

theorem faithful_start (now : Instant) (M C J B : ℕ) :
    Faithful (start now M C J B : Telling cfg) where
  order := Hearing.inOrder_start now M C J B
  plain := ⟨fun _ _ hp => absurd hp List.not_mem_nil, Engine.resuming_start now⟩
  heard _ hp := absurd hp List.not_mem_nil
  told R _ := by
    have hroom : (Sdk.Server.start M C J B).rooms[R]? = none := Std.ExtTreeMap.getElem?_empty
    show (List.append [] (Server.words (Sdk.Server.start M C J B) R _)).Sublist []
    unfold Server.words
    rw [hroom]
    exact List.Sublist.refl _

theorem Faithful.step (h : Faithful s) (a : PairingAction) (ha : s.Sound a) :
    Faithful (s.step hmac4 a) := by
  have hheard : (s.step hmac4 a).hearing.heard = s.hearing.heard ++
      if s.hearing.pairing.server.crashed = true then []
        else Hearing.hears s.hearing.pairing a := rfl
  have htold (R : RoomID) (sess : U64) :
      (s.step hmac4 a).told R sess = s.told R sess ++ tells s.hearing.pairing R sess a := rfl
  have hpairing : (s.step hmac4 a).hearing.pairing = s.hearing.pairing.step hmac4 a := rfl
  refine ⟨h.order.step a ha, ?_, ?_, fun R sess => ?_⟩
  · rw [hpairing]
    unfold Pairing.step
    split
    · exact h.plain.engine _
    · split_ifs
      · exact h.plain
      · exact h.plain.sdk a
  · rw [hheard]
    intro p hp
    rcases List.mem_append.1 hp with hp | hp
    · exact h.heard p hp
    · split_ifs at hp
      · cases hp
      · exact h.plain.hears hp
  · rw [hheard, htold, hpairing, List.filterMap_append]
    -- nothing happens in the SDK
    have hquiet (htells : tells s.hearing.pairing R sess a = [])
        (hserver : (s.hearing.pairing.step hmac4 a).server = s.hearing.pairing.server) :
        (s.told R sess ++ tells s.hearing.pairing R sess a ++
          (s.hearing.pairing.step hmac4 a).server.words R sess).Sublist
            (s.hearing.heard.filterMap (heardWord sess) ++
              (if s.hearing.pairing.server.crashed = true then []
                else Hearing.hears s.hearing.pairing a).filterMap
                (heardWord sess)) := by
      rw [htells, hserver, List.append_nil]
      exact (h.told R sess).trans (List.sublist_append_left _ _)
    by_cases heng : ∃ x, a = .engine x
    · obtain ⟨x, rfl⟩ := heng
      exact hquiet rfl rfl
    · have hsdk : s.hearing.pairing.step hmac4 a =
          if s.hearing.pairing.server.crashed = true then s.hearing.pairing
              else s.hearing.pairing.sdkStep a := by
        unfold Pairing.step
        split
        · exact absurd ⟨_, rfl⟩ heng
        · rfl
      by_cases hcrashed : s.hearing.pairing.server.crashed = true
      · refine hquiet ?_ ?_
        · unfold tells
          split
          · rw [if_pos hcrashed]
          · rfl
        · rw [hsdk, if_pos hcrashed]
      · rw [hsdk, if_neg hcrashed, if_neg hcrashed, List.append_assoc]
        have hstep := Pairing.told_sdkStep (Bool.eq_false_of_not_eq_true hcrashed) a R sess
        refine (hstep.append_left _).trans ?_
        rw [← List.append_assoc]
        exact (h.told R sess).append_right _

/-- **From the table to the room.** In a run in which no task pushes past an older event of the same
session and nothing is taken for a frame that is none, what the implementation of a room is told of
a session by `OnInput`, on other channels than that of the input, are messages that the session
table has reported of the session, in the order of the reports, each at most once and with its
bytes. -/
theorem told_in_order {now : Instant} {M C J B : ℕ}
    (h : Reach (step hmac4) Sound (start now M C J B) s) (R : RoomID) (sess : U64) :
    (s.told R sess).Sublist
      (s.hearing.pairing.engine.reported.filterMap (SessionEvent.word sess)) := by
  have hinv : s.Faithful := h.invariant (faithful_start now M C J B) fun _ a hs ha => hs.step a ha
  have hreports : (talesOf sess s.hearing.heard).Sublist
      ((eventsOf sess s.hearing.pairing.engine.reported).map upFrame) := by
    refine List.Sublist.trans ?_ ((hinv.order.order.sublist sess).map upFrame)
    refine List.Sublist.trans ?_ (hinv.order.tales sess)
    rw [talesOf_append, List.append_assoc]
    exact List.sublist_append_left _ _
  calc (s.told R sess).Sublist (s.hearing.heard.filterMap (heardWord sess)) :=
        (List.sublist_append_left _ _).trans (hinv.told R sess)
    _ = (talesOf sess s.hearing.heard).filterMap fun f => frameWord sess f.ty f.body :=
      words_talesOf hinv.heard
    List.Sublist _ (((eventsOf sess s.hearing.pairing.engine.reported).map upFrame).filterMap
        fun f => frameWord sess f.ty f.body) := hreports.filterMap _
    _ = (eventsOf sess s.hearing.pairing.engine.reported).filterMap (SessionEvent.word sess) :=
      words_upFrame sess _
    List.Sublist _ (s.hearing.pairing.engine.reported.filterMap (SessionEvent.word sess)) :=
        List.filter_sublist.filterMap _

/-! ## A room that is told -/

/-- The runs of `Hearing` are those of `Telling`. -/
theorem allowed_of_hearing {xs : List PairingAction} {s : Telling cfg}
    (h : Allowed (Hearing.step hmac4) Hearing.Sound s.hearing xs) :
    Allowed (step hmac4) Sound s xs := by
  induction xs generalizing s with
  | nil => trivial
  | cons a xs ih => exact ⟨h.1, @ih (s.step hmac4 a) h.2⟩

/-- A client comes into a room and sends a message, which the room is told. The link breaks; the
next message is heard, but the server has forgotten the session. -/
def talkInRoom : List PairingAction :=
  (Engine.linkUp ++ [EngineAction.resume true] ++ Engine.greet ++ [EngineAction.write true]).map
    .engine ++ [.accept, .ensured, .read 0 ⟨none, ⟨.RouteReject, 0⟩, false⟩ true,
      .read 0 ⟨some 1, ⟨.RouteCreate, 7⟩, true⟩ true] ++ (Server.serve 7).map .server ++
    [EngineAction.handle 0 (message (.V4 0 0) 0 7), EngineAction.push 0 0,
      EngineAction.write true].map .engine ++
    [.read 0 ⟨none, ⟨.RouteReject, 0⟩, false⟩ true, .server .send] ++
      (Server.serve 7).map .server ++
    [.engine .hangUp, .engine .reset, .readFails, .readerLocks, .server (.visit 1),
      .readerUnlocks] ++
    (Engine.linkUp ++ [EngineAction.resume true, EngineAction.resume true, EngineAction.handle 0
      (.datagram (.V4 0 0) (encode ⟨VERSION, 0, 1, 1, 0, 0⟩ [⟨CH_RELIABLE_ORDERED, 1, [8]⟩] []).1
        (Vector.replicate 8 0) 0 0), EngineAction.push 0 0, EngineAction.write true]).map .engine ++
    [.accept, .ensured, .read 0 ⟨none, ⟨.RouteReject, 0⟩, false⟩ true,
      .read 0 ⟨none, ⟨.RouteReject, 0⟩, false⟩ true, .read 0 ⟨none, ⟨.RouteReject, 0⟩, false⟩ true]

def talkedInRoom : Telling Engine.oneShard := talkInRoom.foldl (step noHmac) (start 0 1024 256 2 32)

theorem told_in_order_talkInRoom :
    talkedInRoom.told 7 1 = [(0, [7])] ∧
      talkedInRoom.hearing.pairing.engine.reported.filterMap (SessionEvent.word 1) =
        [(0, [7]), (1, [8])] ∧
      (talkedInRoom.told 7 1).Sublist
        (talkedInRoom.hearing.pairing.engine.reported.filterMap (SessionEvent.word 1)) := by
  have hrun : (∀ a ∈ talkInRoom, Hearing.OnlyBy 0 a) ∧ talkedInRoom.told 7 1 = [(0, [7])] ∧
      talkedInRoom.hearing.pairing.engine.reported.filterMap (SessionEvent.word 1) =
        [(0, [7]), (1, [8])] := by
    decide +kernel
  have hallowed :
      Allowed (step noHmac) Sound (start 0 1024 256 2 32 : Telling Engine.oneShard) talkInRoom :=
    allowed_of_hearing (Hearing.allowed_of_onlyBy hrun.1 fun _ _ => rfl)
  exact ⟨hrun.2.1, hrun.2.2, told_in_order (Reach.foldl hallowed) 7 1⟩

end Telling

end SoupEngine
