import SoupEngine.Sdk.Gauges

/-!
# What a room is told of a session

A `Data` frame on another channel than that of the input goes from `dispatch` to the `OnInput` of
the room of its session: `routeToRoom` looks the room up, sends the event later, and the room
handles its inbox in order. What has been told, and what is on the way, comes in order out of what
has been dispatched (`told_step`).
-/

namespace SoupEngine.Sdk

/-- A message: its number and its payload. -/
abbrev Word := U16 × Bytes

/-- The message of a session in an event. -/
def Post.word (sess : U64) (e : Post) : Option Word :=
  match e.ev with
  | .inData _ ch msg payload _ => if e.sess = sess ∧ ch ≠ ChInput then some (msg, payload) else none
  | _ => none

/-- The message of a session in a frame. -/
def frameWord (sess : U64) (typ : U8) (body : Bytes) : Option Word :=
  if typ = FrameDataUp then
    match parseData body with
    | .error _ => none
    | .ok (sess', ch, msg, payload) =>
      if sess' = sess ∧ ch ≠ ChInput then some (msg, payload) else none
  else none

/-- What `OnInput` is called with, apart from the player. -/
def RoomOp.word : RoomOp → Option Word
  | .onInput _ seq payload _ => some (seq, payload)
  | _ => none

/-- The messages of a session that a room has not handled. -/
def RoomProc.words (r : RoomProc) (sess : U64) : List Word := r.waiting.filterMap (Post.word sess)

namespace Server

/-- The message that `routeToRoom` is about to send to a room. -/
def onTheWay (s : Server) (R : RoomID) (sess : U64) : List Word :=
  match s.routing with
  | none => []
  | some (R', e) => if R' = R then (e.word sess).toList else []

/-- The messages of a session that are on the way to a room. -/
def words (s : Server) (R : RoomID) (sess : U64) : List Word :=
  (match s.rooms[R]? with
    | none => []
    | some r => r.words sess) ++ s.onTheWay R sess

/-- What the implementation of a room is told of a session in a step. -/
def tells (s : Server) (R : RoomID) (sess : U64) : ServerAction → List Word
  | .handle R' =>
    if R' = R then
      match s.rooms[R]? with
      | none => []
      | some r =>
        match r.place.held with
        | none => []
        | some e =>
          if s.dying = true ∧ takesLock r e = true ∨ e.sess ≠ sess then []
          else (r.room.handleEvent e.ev).2.filterMap RoomOp.word
    else []
  | _ => []

/-- The message of a session that is dispatched in a step. -/
def hears (sess : U64) : ServerAction → List Word
  | .frame typ body .. => (frameWord sess typ body).toList
  | _ => []

end Server

/-! ## The rooms -/

namespace RoomProc

variable {r : RoomProc} {sess : U64}

theorem words_offer (r : RoomProc) (inboxCap : ℕ) (e : Post) :
    ((r.offer inboxCap e).words sess).Sublist (r.words sess ++ (e.word sess).toList) := by
  unfold offer
  split_ifs
  · unfold words waiting
    dsimp only
    rw [← List.append_assoc, List.filterMap_append]
    have hone : [e].filterMap (Post.word sess) = (e.word sess).toList := by
      cases h : e.word sess with
      | none => exact List.filterMap_cons_none h
      | some w => exact List.filterMap_cons_some h
    rw [hone]
  · exact List.sublist_append_left _ _

/-- A room looks at its inbox or its place, and the events that wait are the same. -/
theorem waiting_take (r : RoomProc) : r.take.waiting = r.waiting := by
  unfold take
  split
  · rfl
  · rename_i e rest hinbox
    split
    · rfl
    · rename_i place hplace
      obtain ⟨hx, hy, -, -⟩ := held_of_receive hplace
      unfold waiting
      dsimp only
      rw [hx, hy, hinbox]
      rfl

theorem waiting_next (hheld : r.place.held = none) : r.next.waiting = r.waiting := by
  unfold next waiting
  dsimp only
  rw [hheld]
  split_ifs <;> rfl

theorem waiting_check (r : RoomProc) : r.check.waiting = r.waiting := by
  unfold check
  split
  · rename_i hplace
    exact waiting_next (by rw [hplace]; rfl)
  · rfl

theorem waiting_timer (r : RoomProc) : r.timer.waiting = r.waiting := by
  unfold timer
  split
  · rename_i hplace
    unfold waiting
    dsimp only
    rw [hplace]
    rfl
  · rfl

theorem waiting_tick (r : RoomProc) (out more : Bool) : (r.tick out more).waiting = r.waiting := by
  unfold tick
  split
  · rename_i hplace
    have hheld : r.place.held = none := by rw [hplace]; rfl
    dsimp only
    split_ifs
    · unfold waiting
      dsimp only
      rw [hplace]
      rfl
    · exact @waiting_next { r with room := { r.room with
        tick := r.room.tick + 1, stopReq := r.room.stopReq || out } } hheld
  · rfl

theorem waiting_finish (r : RoomProc) : r.finish.waiting = r.waiting := by
  unfold finish
  split_ifs <;> rfl

/-- An event is told, or it is not: nothing else is. -/
theorem tells_event {e : Post} (hheld : r.place.held = some e) :
    ((if e.sess = sess then (r.room.handleEvent e.ev).2.filterMap RoomOp.word else []) ++
      (r.after e).words sess).Sublist (r.words sess) := by
  have hwords : r.words sess = (e.word sess).toList ++ r.inbox.filterMap (Post.word sess) := by
    unfold words waiting
    rw [hheld, List.filterMap_append]
    cases h : e.word sess with
    | none => rw [Option.toList_some, List.filterMap_cons_none h]; rfl
    | some w => rw [Option.toList_some, List.filterMap_cons_some h]; rfl
  have hafter : (r.after e).words sess = r.inbox.filterMap (Post.word sess) := by
    unfold words waiting
    have hplace : (r.after e).place.held = none := (held_handled hheld).1
    rw [hplace]
    rfl
  rw [hwords, hafter]
  refine List.Sublist.append_right ?_ _
  by_cases hsess : e.sess = sess
  · rw [if_pos hsess]
    have hputs (bs : List BufId) : (bs.map RoomOp.put).filterMap RoomOp.word = [] := by
      rw [List.filterMap_eq_nil_iff]
      intro op hop
      obtain ⟨b, -, rfl⟩ := List.mem_map.1 hop
      rfl
    unfold Post.word
    cases e.ev with
    | inData p ch msg payload raw =>
      dsimp only
      unfold Room.handleEvent
      dsimp only
      by_cases hch : ch = ChInput
      · rw [if_pos hch, if_neg fun h => h.2 hch]
        unfold Room.handleCh1Input
        cases r.room.players[p]? with
        | none => exact List.nil_sublist _
        | some st =>
          dsimp only
          split_ifs
          · exact List.nil_sublist _
          · rw [hputs]
            exact List.nil_sublist _
      · have hboth : e.sess = sess ∧ ch ≠ ChInput := ⟨hsess, hch⟩
        rw [if_neg hch, if_pos hboth]
        split_ifs
        · exact List.Sublist.refl _
        · exact List.nil_sublist _
    | inOpen σ p =>
      unfold Room.handleEvent
      dsimp only
      split_ifs <;> exact List.nil_sublist _
    | inClose p reason =>
      unfold Room.handleEvent
      dsimp only
      split <;> exact List.nil_sublist _
    | inResume p gap =>
      unfold Room.handleEvent
      dsimp only
      split <;> exact List.nil_sublist _
    | inStats p rtt loss =>
      unfold Room.handleEvent
      dsimp only
      split <;> exact List.nil_sublist _
    | inOverload => exact List.nil_sublist _
  · rw [if_neg hsess]
    exact List.nil_sublist _

end RoomProc

/-! ## The server -/

namespace Server

variable {s s' : Server} {R : RoomID} {sess : U64}

/-- A room that is there, or not, in a larger state of things. -/
theorem words_mono (hrooms : ∀ r', s'.rooms[R]? = some r' → ∃ r, s.rooms[R]? = some r ∧
      (r'.words sess).Sublist (r.words sess)) (hway :
      (s'.onTheWay R sess).Sublist (s.onTheWay R sess)) :
    (s'.words R sess).Sublist (s.words R sess) := by
  unfold words
  refine List.Sublist.append ?_ hway
  cases hr' : s'.rooms[R]? with
  | none => exact List.nil_sublist _
  | some r' =>
    obtain ⟨r, hr, hsub⟩ := hrooms r' hr'
    rw [hr]
    exact hsub

/-- The same rooms. -/
theorem words_of_rooms (hrooms : s'.rooms = s.rooms)
    (hway : (s'.onTheWay R sess).Sublist (s.onTheWay R sess)) :
    (s'.words R sess).Sublist (s.words R sess) :=
  words_mono (fun r' hr' => ⟨r', hrooms ▸ hr', List.Sublist.refl _⟩) hway

/-- One room is replaced by one with no more to tell. -/
theorem words_insert {R' : RoomID} {r r' : RoomProc} (hr : s.rooms[R']? = some r)
    (hrooms : s'.rooms = s.rooms.insert R' r') (hwords : (r'.words sess).Sublist (r.words sess))
    (hway : s'.routing = s.routing) : (s'.words R sess).Sublist (s.words R sess) := by
  refine words_mono (fun x hx => ?_) ?_
  · rw [hrooms, Map.getElem?_insert] at hx
    split_ifs at hx with hR
    · rw [← Option.some.inj hx, ← hR]
      exact ⟨r, hr, hwords⟩
    · exact ⟨x, hx, List.Sublist.refl _⟩
  · unfold onTheWay
    rw [hway]

/-- Something happens in a room that no message comes of. -/
theorem words_onRoom {R' : RoomID} {g : RoomProc → RoomProc}
    (hg : ∀ r, ((g r).words sess).Sublist (r.words sess)) :
    ((s.onRoom R' g).words R sess).Sublist (s.words R sess) := by
  unfold onRoom
  cases hr : s.rooms[R']? with
  | none => exact List.Sublist.refl _
  | some r => exact words_insert hr rfl (hg r) rfl

theorem words_of_waiting {g : RoomProc → RoomProc} (hg : ∀ r, (g r).waiting = r.waiting)
    (r : RoomProc) :
    ((g r).words sess).Sublist (r.words sess) := by
  unfold RoomProc.words
  rw [hg]

/-- Events without a message. -/
theorem words_offer_none {e : Post} (he : e.word sess = none) (r : RoomProc) (inboxCap : ℕ) :
    ((r.offer inboxCap e).words sess).Sublist (r.words sess) := by
  have h := @RoomProc.words_offer sess r inboxCap e
  rwa [he, Option.toList_none, List.append_nil] at h

theorem word_inOpen (σ : U64) (p : PlayerID) (i : ℕ) :
    (⟨σ, .inOpen σ p, i⟩ : Post).word sess = none := rfl

theorem routing_sendKick (s : Server) (σ : U64) (queued : Bool) :
    (s.sendKick σ queued).routing = s.routing := by
  unfold sendKick
  split_ifs <;> rfl

theorem routing_sendKickTo (s : Server) (i : ℕ) (σ : U64) (queued : Bool) :
    (s.sendKickTo i σ queued).routing = s.routing := by
  unfold sendKickTo
  split_ifs
  · exact s.routing_sendKick σ queued
  · rfl

theorem routing_perform (i : ℕ) (queued : Bool) (ops : List RoomOp) (s : Server) :
    (ops.foldl (perform i queued) s).routing = s.routing := by
  induction ops generalizing s with
  | nil => rfl
  | cons op ops ih =>
    rw [List.foldl_cons, ih]
    cases op with
    | sendKick σ reason => exact s.routing_sendKickTo i σ queued
    | _ => rfl

theorem routing_mapSession (s : Server) (σ : U64) (p : PlayerID) (R : RoomID) (r : RoomProc)
    (queued : Bool) :
    (s.mapSession σ p R r queued).routing = s.routing := by
  unfold mapSession
  dsimp only
  split_ifs
  · rfl
  · exact routing_sendKickTo _ _ _ _

theorem routing_handleSessionOpen (s : Server) (body : Bytes) (v : Verdict) (queued : Bool) :
    (s.handleSessionOpen body v queued).routing = s.routing := by
  unfold handleSessionOpen
  split
  · rfl
  · split
    · exact s.routing_sendKick _ _
    · split_ifs
      · exact s.routing_sendKick _ _
      · rfl
      · split
        · exact s.routing_sendKick _ _
        · exact routing_mapSession _ _ _ _ _ _

/-- An opening brings a room, and an event without a message. -/
theorem words_handleSessionOpen (body : Bytes) (v : Verdict) (queued : Bool) :
    ((s.handleSessionOpen body v queued).words R sess).Sublist (s.words R sess) := by
  have hway : ((s.handleSessionOpen body v queued).onTheWay R sess).Sublist
      (s.onTheWay R sess) := by
    unfold onTheWay
    rw [routing_handleSessionOpen]
  cases h : s.opens body v with
  | none => exact words_of_rooms (rooms_handleSessionOpen_none h) hway
  | some x =>
    obtain ⟨σ, p, r⟩ := x
    rw [handleSessionOpen_of_opens h] at hway ⊢
    have hrooms := s.rooms_mapSession σ p v.Route.roomID r queued
    rcases opens_cases h with hr | ⟨hr, -, rfl⟩
    · exact words_insert hr hrooms (words_offer_none (word_inOpen σ p _) r _)
        (routing_mapSession _ _ _ _ _ _)
    · unfold words
      refine List.Sublist.append ?_ hway
      rw [hrooms, Map.getElem?_insert]
      by_cases hR : v.Route.roomID = R
      · rw [if_pos hR]
        exact (words_offer_none (word_inOpen σ p _) _ _).trans (List.nil_sublist _)
      · rw [if_neg hR]

/-- The event that is routed has the message of its frame. -/
theorem word_routed {typ : U8} {body : Bytes} {raw : BufId} {σ : U64} {ev : PlayerID → InEvent}
    (h : routed typ body raw = some (σ, ev)) (p : PlayerID) (i : ℕ) :
    (⟨σ, ev p, i⟩ : Post).word sess = none ∨
    (⟨σ, ev p, i⟩ : Post).word sess = frameWord sess typ body := by
  unfold routed at h
  split_ifs at h with hclose hresume hdata hstats
  · split at h
    · cases h
    · obtain ⟨rfl, rfl⟩ := Prod.mk.inj (Option.some.inj h)
      exact .inl rfl
  · split at h
    · cases h
    · obtain ⟨rfl, rfl⟩ := Prod.mk.inj (Option.some.inj h)
      exact .inl rfl
  · split at h
    · cases h
    · rename_i hparse
      obtain ⟨rfl, rfl⟩ := Prod.mk.inj (Option.some.inj h)
      right
      unfold frameWord
      rw [if_pos hdata, hparse]
      rfl
  · split at h
    · cases h
    · obtain ⟨rfl, rfl⟩ := Prod.mk.inj (Option.some.inj h)
      exact .inl rfl

/-- **A frame** brings its message on the way. -/
theorem words_dispatch (hidle : s.routing = none) (typ : U8) (body : Bytes) (raw : BufId)
    (v : Verdict) (queued : Bool) : ((s.dispatch typ body raw v queued).words R sess).Sublist
      (s.words R sess ++ (frameWord sess typ body).toList) := by
  unfold dispatch
  split_ifs
  · exact (words_handleSessionOpen body v queued).trans (List.sublist_append_left _ _)
  · refine List.Sublist.trans ?_ (List.sublist_append_left _ _)
    split
    · exact List.Sublist.refl _
    · refine words_mono (fun r' hr' => ?_) (List.Sublist.refl _)
      unfold setOverload at hr'
      dsimp only at hr'
      rw [Std.ExtTreeMap.getElem?_map] at hr'
      obtain ⟨r, hr, rfl⟩ := Option.map_eq_some_iff.1 hr'
      exact ⟨r, hr, words_offer_none rfl r _⟩
  · cases hrouted : routed typ body raw with
    | none => exact List.sublist_append_left _ _
    | some x =>
      obtain ⟨σ, ev⟩ := x
      dsimp only
      have hsame : (s.words R sess).Sublist (s.words R sess ++ (frameWord sess typ body).toList) :=
        List.sublist_append_left _ _
      unfold routeToRoom
      cases s.sessions[σ]? with
      | none => exact hsame
      | some ref =>
        dsimp only
        split_ifs
        · have hword := @word_routed sess typ body raw σ ev hrouted ref.player ref.stay
          have hnew (t : Server) (hrooms : t.rooms = s.rooms)
              (hrouting : t.routing = some (ref.roomID, ⟨σ, ev ref.player, ref.stay⟩)) :
              (t.words R sess).Sublist (s.words R sess ++ (frameWord sess typ body).toList) := by
            have hbefore : s.onTheWay R sess = [] := by
              unfold onTheWay
              rw [hidle]
            unfold words
            rw [hrooms, hbefore, List.append_nil]
            refine (List.Sublist.refl _).append ?_
            unfold onTheWay
            rw [hrouting]
            dsimp only
            split_ifs
            · rcases hword with hword | hword
              · rw [hword]
                exact List.nil_sublist _
              · rw [hword]
            · exact List.nil_sublist _
          split
          · exact hnew _ rfl rfl
          · exact hnew _ rfl rfl
        · exact hsame

/-- What was on the way is in the inbox, or lost. -/
theorem words_send : (s.send.words R sess).Sublist (s.words R sess) := by
  unfold send
  cases hrouting : s.routing with
  | none => exact List.Sublist.refl _
  | some x =>
    obtain ⟨R', e⟩ := x
    dsimp only
    unfold onRoom
    dsimp only
    cases hr : s.rooms[R']? with
    | none =>
      refine words_of_rooms rfl ?_
      exact List.nil_sublist _
    | some r =>
      dsimp only
      unfold words
      have hnow : ({ s with
          routing := none,
          rooms := s.rooms.insert R' (r.offer s.inboxCap e) } : Server).onTheWay R sess = [] := rfl
      have hbefore : s.onTheWay R sess = if R' = R then (e.word sess).toList else [] := by
        unfold onTheWay
        rw [hrouting]
      rw [hnow, hbefore, List.append_nil]
      dsimp only
      rw [Map.getElem?_insert]
      by_cases hR : R' = R
      · rw [if_pos hR, if_pos hR, ← hR, hr]
        exact r.words_offer s.inboxCap e
      · rw [if_neg hR, if_neg hR, List.append_nil]

/-- `onEngineDead` tells of no message. -/
theorem words_visit (σ : U64) : ((s.visit σ).words R sess).Sublist (s.words R sess) := by
  unfold visit
  cases s.sessions[σ]? with
  | none => exact List.Sublist.refl _
  | some ref =>
    have hoffer := @words_onRoom s R sess ref.roomID
      (RoomProc.offer · s.inboxCap ⟨σ, .inClose 0 LeaveDisconnect, ref.stay⟩) fun r =>
        words_offer_none rfl r _
    exact (words_of_rooms rfl (List.Sublist.refl _)).trans hoffer

theorem words_deliver {R' : RoomID} {r : RoomProc} (hr : s.rooms[R']? = some r)
    (order : List PlayerID) :
    ((s.deliver R' r order).words R sess).Sublist (s.words R sess) := by
  unfold deliver
  cases r.room.deliverReadyInputs order with
  | none => exact List.Sublist.refl _
  | some out =>
    refine words_insert hr rfl ?_ rfl
    unfold RoomProc.words RoomProc.waiting
    exact ((List.sublist_append_right _ _).filterMap _)

theorem words_leave {R' : RoomID} {r : RoomProc} {done : List PlayerID} (hr : s.rooms[R']? = some r)
    (hplace : r.place = .stop done) (p : PlayerID) (queued : Bool) :
    ((s.leave R' r done p queued).words R sess).Sublist (s.words R sess) := by
  unfold leave
  split
  · exact List.Sublist.refl _
  · split_ifs
    · exact List.Sublist.refl _
    · refine words_insert hr (rooms_sendKickTo _ _ _ _) ?_ (routing_sendKickTo _ _ _ _)
      unfold RoomProc.words RoomProc.waiting
      rw [hplace]
      exact List.Sublist.refl _

theorem words_removeRoom (R' : RoomID) :
    ((s.removeRoom R').words R sess).Sublist (s.words R sess) := by
  refine words_mono (fun r' hr' => ⟨r', ?_, List.Sublist.refl _⟩) (List.Sublist.refl _)
  unfold removeRoom at hr'
  dsimp only at hr'
  rw [Map.getElem?_erase] at hr'
  split_ifs at hr'
  exact hr'

/-- A room handles an event: its implementation is told of the message, which is no longer on the
way. -/
theorem told_handleEvent {R' : RoomID} {r : RoomProc} {e : Post} (hr : s.rooms[R']? = some r)
    (hheld : r.place.held = some e) :
    ((if R' = R ∧ e.sess = sess then (r.room.handleEvent e.ev).2.filterMap RoomOp.word else []) ++
      (s.handleEvent R' r e).words R sess).Sublist (s.words R sess) := by
  have hevent := @RoomProc.tells_event r sess e hheld
  have hrooms : (s.handleEvent R' r e).rooms = s.rooms.insert R' (r.after e) :=
    rooms_perform _ _ _ _
  have hrouting : (s.handleEvent R' r e).routing = s.routing := routing_perform _ _ _ _
  by_cases hR : R' = R
  · subst hR
    have hway : (s.handleEvent R' r e).onTheWay R' sess = s.onTheWay R' sess := by
      unfold onTheWay
      rw [hrouting]
    unfold words
    rw [hrooms, Map.getElem?_insert, if_pos rfl, hway, hr, ← List.append_assoc]
    refine List.Sublist.append_right ?_ _
    simpa only [true_and] using hevent
  · rw [if_neg fun h => hR h.1, List.nil_append]
    exact words_insert hr hrooms ((List.sublist_append_right _ _).trans hevent) hrouting

/-- A room is to handle an event; it may have none, or wait for the lock. -/
theorem told_handle (hcrashed : s.crashed ≠ true) (R' : RoomID) :
    (s.tells R sess (.handle R') ++ (s.step (.handle R')).words R sess).Sublist
      (s.words R sess) := by
  unfold tells step
  rw [if_neg hcrashed]
  dsimp only
  by_cases hR : R' = R
  · subst hR
    rw [if_pos rfl]
    cases hr : s.rooms[R']? with
    | none => exact List.Sublist.refl _
    | some r =>
      dsimp only
      cases hheld : r.place.held with
      | none => exact List.Sublist.refl _
      | some e =>
        dsimp only
        have htold := @told_handleEvent s R' sess R' r e hr hheld
        by_cases hlock : s.dying = true ∧ takesLock r e = true
        · rw [if_pos (.inl hlock), if_pos hlock]
          exact List.Sublist.refl _
        · rw [if_neg hlock]
          by_cases hsess : e.sess = sess
          · rw [if_neg (not_or.2 ⟨hlock, not_not.2 hsess⟩)]
            rwa [if_pos ⟨rfl, hsess⟩] at htold
          · rw [if_pos (.inr hsess)]
            rwa [if_neg fun h => hsess h.2] at htold
  · rw [if_neg hR, List.nil_append]
    cases hr : s.rooms[R']? with
    | none => exact List.Sublist.refl _
    | some r =>
      dsimp only
      cases hheld : r.place.held with
      | none => exact List.Sublist.refl _
      | some e =>
        dsimp only
        split_ifs
        · exact List.Sublist.refl _
        · have htold := @told_handleEvent s R sess R' r e hr hheld
          rwa [if_neg fun h => hR h.1] at htold

/-- A step that tells nothing and hears nothing brings nothing on the way. -/
theorem words_step (hcrashed : s.crashed ≠ true) {a : ServerAction}
      (hframe : ∀ typ body raw v queued,
      a ≠ .frame typ body raw v queued) (hhandle : ∀ R', a ≠ .handle R') :
    ((s.step a).words R sess).Sublist (s.words R sess) := by
  unfold step
  rw [if_neg hcrashed]
  cases a with
  | frame typ body raw v queued => exact absurd rfl (hframe typ body raw v queued)
  | handle R' => exact absurd rfl (hhandle R')
  | send => exact words_send
  | dead => exact List.Sublist.refl _
  | visit σ =>
    dsimp only
    split_ifs
    · exact words_visit σ
    · exact List.Sublist.refl _
  | cleared =>
    dsimp only
    split_ifs
    · exact List.Sublist.refl _
    · exact List.Sublist.refl _
  | take R' => exact words_onRoom (words_of_waiting RoomProc.waiting_take)
  | check R' => exact words_onRoom (words_of_waiting RoomProc.waiting_check)
  | timer R' => exact words_onRoom (words_of_waiting RoomProc.waiting_timer)
  | deliver R' order =>
    dsimp only
    cases hr : s.rooms[R']? with
    | none => exact List.Sublist.refl _
    | some r =>
      dsimp only
      split_ifs
      · exact words_deliver hr order
      · exact List.Sublist.refl _
  | tick R' out more => exact words_onRoom (words_of_waiting fun r => r.waiting_tick out more)
  | leave R' p queued =>
    dsimp only
    cases hr : s.rooms[R']? with
    | none => exact List.Sublist.refl _
    | some r =>
      dsimp only
      split
      · rename_i done hplace
        exact words_leave hr hplace p queued
      · exact List.Sublist.refl _
  | remove R' =>
    dsimp only
    split
    · exact List.Sublist.refl _
    · split
      · split_ifs
        · exact words_removeRoom R'
        · exact List.Sublist.refl _
      · exact List.Sublist.refl _
  | kick R' p reason queued =>
    dsimp only
    cases hr : s.rooms[R']? with
    | none => exact List.Sublist.refl _
    | some r =>
      dsimp only
      split_ifs
      · exact words_insert hr (rooms_perform _ _ _ _) (List.Sublist.refl _)
          (routing_perform _ _ _ _)
      · exact List.Sublist.refl _
  | finish R' => exact words_onRoom (words_of_waiting RoomProc.waiting_finish)

/-- **One step.** What is told, and then what is on the way, was on the way or is dispatched. -/
theorem told_step (s : Server) (hcrashed : s.crashed = false) (a : ServerAction) (R : RoomID)
    (sess : U64) :
    (s.tells R sess a ++ (s.step a).words R sess).Sublist (s.words R sess ++ hears sess a) := by
  have hstep : s.crashed ≠ true := by
    rw [hcrashed]
    exact Bool.false_ne_true
  have hquiet (hframe : ∀ typ body raw v queued, a ≠ .frame typ body raw v queued)
      (hhandle : ∀ R', a ≠ .handle R') :
      ((s.step a).words R sess).Sublist (s.words R sess ++ []) :=
    (words_step hstep hframe hhandle).trans (List.sublist_append_left _ _)
  cases a with
  | frame typ body raw v queued =>
    unfold step
    rw [if_neg hstep]
    dsimp only
    split_ifs with hidle
    · exact words_dispatch (Option.isNone_iff_eq_none.1 hidle.1) typ body raw v queued
    · exact List.sublist_append_left _ _
  | handle R' => exact (told_handle hstep R').trans (List.sublist_append_left _ _)
  | _ => exact hquiet (fun _ _ _ _ _ => ServerAction.noConfusion) fun _ => ServerAction.noConfusion

end Server

end SoupEngine.Sdk
