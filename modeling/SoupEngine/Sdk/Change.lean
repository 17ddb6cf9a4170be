import SoupEngine.Sdk.Registry

/-!
# The steps of the server

`Change` says what a step of the server can do to the registry, and `step_change` that it can do
nothing else. The invariants are derived from that.
-/

namespace SoupEngine.Sdk

namespace Server

/-- **What a step can do** to the registry. -/
inductive Change (s : Server) : ServerAction → Registry → Prop
  | quiet (a : ServerAction) : Change s a s.registry
  | opened {body : Bytes} {raw : BufId} {v : Verdict} {queued : Bool} {sess : U64} {p : PlayerID}
      {r : RoomProc} (hidle : s.routing = none) (hopen : s.opens body v = some (sess, p, r))
      (hroom : ¬ s.Full r) :
      Change s (.frame FrameSessionOpen body raw v queued)
        (((s.registry.begin sess v.Route.roomID).setRoom v.Route.roomID
          (r.view.append (some (.came sess s.next p)))).map sess ⟨v.Route.roomID, p, s.next⟩)
  | refused {body : Bytes} {raw : BufId} {v : Verdict} {queued : Bool} {sess : U64} {p : PlayerID}
      {r : RoomProc} (hidle : s.routing = none) (hopen : s.opens body v = some (sess, p, r))
      (hfull : s.Full r) :
      Change s (.frame FrameSessionOpen body raw v queued)
        (((s.registry.begin sess v.Route.roomID).setRoom v.Route.roomID r.view).note s.next
          (kickNotice queued))
  | closes {body : Bytes} {raw : BufId} {v : Verdict} {queued : Bool} {sess : U64} {reason : U8}
      {ref : SessionRef} (hidle : s.routing = none)
      (hclose : parseSessionClose body = .ok (sess, reason)) (hmap : s.sessions[sess]? = some ref)
      (hroom : ref.roomID ∈ s.rooms) :
      Change s (.frame FrameSessionClose body raw v queued)
        ({ s.registry with routing := some (ref.roomID, .went sess ref.stay ref.player) }.close
          ref.stay)
  | sends {R : RoomID} {e : Post} {l : Life} {r : RoomProc} (hroute : s.routing = some (R, e))
      (hlife : e.life = some l) (hr : s.rooms[R]? = some r) (hroom : ¬ s.Full r) :
      Change s .send { s.registry.setRoom R (r.view.append (some l)) with routing := none }
  | drops {R : RoomID} {e : Post} {l : Life} (hroute : s.routing = some (R, e))
      (hlife : e.life = some l) (hfull : ∀ r, s.rooms[R]? = some r → s.Full r) :
      Change s .send { s.registry with routing := none }
  | visits {sess : U64} {ref : SessionRef} {r : RoomProc} (hdying : s.dying = true)
      (hmap : s.sessions[sess]? = some ref) (hr : s.rooms[ref.roomID]? = some r)
      (hroom : ¬ s.Full r) :
      Change s (.visit sess)
        (((s.registry.setRoom ref.roomID (r.view.append (some (.went sess ref.stay 0)))).unmap
          sess).close ref.stay)
  | loses {sess : U64} {ref : SessionRef} (hdying : s.dying = true)
      (hmap : s.sessions[sess]? = some ref)
      (hfull : ∀ r, s.rooms[ref.roomID]? = some r → s.Full r) :
      Change s (.visit sess) ((s.registry.unmap sess).close ref.stay)
  | joins {R : RoomID} {r : RoomProc} {e : Post} {sess : U64} {p : PlayerID}
      (hr : s.rooms[R]? = some r) (hheld : r.place.held = some e) (hev : e.ev = .inOpen sess p)
      (hp : p ∉ r.room.players) :
      Change s (.handle R)
        ((s.registry.setRoom R (r.ahead.bind p sess e.stay)).note e.stay [.OnJoin])
  | swallows {R : RoomID} {r : RoomProc} {e : Post} {sess : U64} {p : PlayerID}
      (hr : s.rooms[R]? = some r) (hheld : r.place.held = some e) (hev : e.ev = .inOpen sess p)
      (hp : p ∈ r.room.players) :
      Change s (.handle R) (s.registry.setRoom R r.ahead)
  | leaves {R : RoomID} {r : RoomProc} {e : Post} {p : PlayerID} {reason : U8} {st : PState}
      (hr : s.rooms[R]? = some r) (hheld : r.place.held = some e) (hev : e.ev = .inClose p reason)
      (hp : r.room.players[p]? = some st) :
      Change s (.handle R)
        (((s.registry.setRoom R (r.ahead.unbind p st.sess)).unmap st.sess).note (r.stayOf p)
          [.OnLeave])
  | misses {R : RoomID} {r : RoomProc} {e : Post} {p : PlayerID} {reason : U8}
      (hr : s.rooms[R]? = some r) (hheld : r.place.held = some e) (hev : e.ev = .inClose p reason)
      (hp : r.room.players[p]? = none) :
      Change s (.handle R) (s.registry.setRoom R r.ahead)
  | kicks {R : RoomID} {r : RoomProc} {p : PlayerID} {reason : U8} {queued : Bool} {st : PState}
      (hr : s.rooms[R]? = some r) (hp : r.room.players[p]? = some st) :
      Change s (.kick R p reason queued)
        (((s.registry.setRoom R (r.view.unbind p st.sess)).unmap st.sess).note (r.stayOf p)
          (kickNotice queued ++ [.OnLeave]))
  | stops {R : RoomID} {r : RoomProc} (a : ServerAction) (hr : s.rooms[R]? = some r)
      (hpassed : r.place.passed = none) :
      Change s a (s.registry.setRoom R { r.view with passed := some [] })
  | passes {R : RoomID} {r : RoomProc} {p : PlayerID} {queued : Bool} {st : PState}
      {done : List PlayerID} (hr : s.rooms[R]? = some r) (hplace : r.place = .stop done)
      (hp : r.room.players[p]? = some st) (hdone : p ∉ done) :
      Change s (.leave R p queued)
        ((s.registry.setRoom R { r.view with passed := some (p :: done) }).note (r.stayOf p)
          (.OnLeave :: kickNotice queued))
  | removes {R : RoomID} {r : RoomProc} {done : List PlayerID} (hr : s.rooms[R]? = some r)
      (hplace : r.place = .stop done) (hall : ∀ p ∈ r.room.players, p ∈ done) :
      Change s (.remove R) (s.registry.removeRoom R)

variable {s : Server} {R : RoomID} {r : RoomProc}

/-! ## The reader -/

theorem handleSessionOpen_of_opens {body : Bytes} {v : Verdict} {queued : Bool} {sess : U64}
    {p : PlayerID} (h : s.opens body v = some (sess, p, r)) :
    s.handleSessionOpen body v queued = s.mapSession sess p v.Route.roomID r queued := by
  unfold opens at h
  unfold handleSessionOpen
  cases hparse : parseSessionOpen body with
  | error err =>
    rw [hparse] at h
    cases h
  | ok x =>
    obtain ⟨σ, addr, token⟩ := x
    rw [hparse] at h
    cases hauth : v.Authenticate with
    | none =>
      rw [hauth] at h
      cases h
    | some q =>
      rw [hauth] at h
      dsimp only at h ⊢
      split_ifs at h with hc
      obtain ⟨hreject, hdup⟩ := not_or.1 hc
      rw [if_neg hreject, if_neg hdup]
      obtain ⟨r', hr', heq⟩ := Option.map_eq_some_iff.1 h
      obtain ⟨rfl, hrest⟩ := Prod.mk.inj heq
      obtain ⟨rfl, rfl⟩ := Prod.mk.inj hrest
      rw [hr']

theorem handleSessionOpen_of_not_opens {body : Bytes} {v : Verdict} {queued : Bool}
    (h : s.opens body v = none) : (s.handleSessionOpen body v queued).registry = s.registry := by
  unfold opens at h
  unfold handleSessionOpen
  cases hparse : parseSessionOpen body with
  | error err => rfl
  | ok x =>
    obtain ⟨σ, addr, token⟩ := x
    rw [hparse] at h
    cases hauth : v.Authenticate with
    | none => exact registry_sendKick _ _ _
    | some q =>
      rw [hauth] at h
      dsimp only at h ⊢
      split_ifs at h with hc
      · rcases hc with hreject | hdup
        · rw [if_pos hreject]
          exact registry_sendKick _ _ _
        · split_ifs
          · exact registry_sendKick _ _ _
          · rfl
      · obtain ⟨hreject, hdup⟩ := not_or.1 hc
        rw [if_neg hreject, if_neg hdup, Option.map_eq_none_iff.1 h]
        exact registry_sendKick _ _ _

theorem mapSession_opened {sess : U64} {p : PlayerID} {queued : Bool} (hroom : ¬ s.Full r) :
    (s.mapSession sess p R r queued).registry =
      ((s.registry.begin sess R).setRoom R (r.view.append (some (.came sess s.next p)))).map sess
        ⟨R, p, s.next⟩ := by
  have hlt : r.inbox.length < s.inboxCap := not_le.1 hroom
  unfold mapSession
  dsimp only
  rw [if_pos hlt]
  set e : Post := ⟨sess, .inOpen sess p, s.next⟩ with he
  have hview : (r.offer s.inboxCap e).view = r.view.append (some (.came sess s.next p)) :=
    r.view_offer s.inboxCap e hlt
  have hrooms := congrArg Registry.rooms (registry_insert s R (r.offer s.inboxCap e))
  rw [hview] at hrooms
  ext1
  · exact hrooms
  · exact getElem?_insert_eq_update s.sessions sess ⟨R, p, s.next⟩
  · rfl
  · rfl
  · rfl

theorem mapSession_refused {sess : U64} {p : PlayerID} {queued : Bool} (hfull : s.Full r) :
    (s.mapSession sess p R r queued).registry =
      ((s.registry.begin sess R).setRoom R r.view).note s.next (kickNotice queued) := by
  have hge : ¬ r.inbox.length < s.inboxCap := not_lt.2 hfull
  unfold mapSession
  dsimp only
  rw [if_neg hge, registry_sendKickTo]
  congr 1
  have hoffer : r.offer s.inboxCap ⟨sess, .inOpen sess p, s.next⟩ = r := if_neg hge
  have hrooms := congrArg Registry.rooms (registry_insert s R r)
  rw [hoffer]
  ext1
  · exact hrooms
  · rfl
  · rfl
  · rfl
  · rfl

theorem registry_setOverload (s : Server) : s.setOverload.registry = s.registry := by
  ext1
  · funext R
    show ((s.rooms.map fun _ r => r.offer s.inboxCap ⟨0, .inOverload, 0⟩)[R]?).map RoomProc.view = _
    rw [Std.ExtTreeMap.getElem?_map, Option.map_map]
    refine Option.map_congr fun r _ => ?_
    exact r.view_offer_of_none s.inboxCap rfl
  · rfl
  · rfl
  · rfl
  · rfl

/-- A frame for the room of its session. -/
theorem routed_cases {typ : U8} {body : Bytes} {raw : BufId} {sess : U64} {ev : PlayerID → InEvent}
    (h : routed typ body raw = some (sess, ev)) :
    (∃ reason, typ = FrameSessionClose ∧ parseSessionClose body = .ok (sess, reason) ∧
      ev = fun p => .inClose p reason) ∨
    ∀ p i, (⟨sess, ev p, i⟩ : Post).life = none := by
  unfold routed at h
  split_ifs at h with hclose hresume hdata hstats
  · left
    split at h
    · cases h
    · rename_i σ reason hparse
      obtain ⟨rfl, rfl⟩ := Prod.mk.inj (Option.some.inj h)
      exact ⟨reason, hclose, hparse, rfl⟩
  · right
    split at h
    · cases h
    · obtain ⟨rfl, rfl⟩ := Prod.mk.inj (Option.some.inj h)
      exact fun p i => rfl
  · right
    split at h
    · cases h
    · obtain ⟨rfl, rfl⟩ := Prod.mk.inj (Option.some.inj h)
      exact fun p i => rfl
  · right
    split at h
    · cases h
    · obtain ⟨rfl, rfl⟩ := Prod.mk.inj (Option.some.inj h)
      exact fun p i => rfl

theorem Change.of_eq {a : ServerAction} {g g' : Registry} (h : s.Change a g) (he : g' = g) :
    s.Change a g' := he ▸ h

theorem change_routeToRoom {typ : U8} {body : Bytes} {raw : BufId} {v : Verdict} {queued : Bool}
    {sess : U64} {ev : PlayerID → InEvent} (hidle : s.routing = none)
    (h : routed typ body raw = some (sess, ev)) :
    s.Change (.frame typ body raw v queued) (s.routeToRoom sess ev).registry := by
  unfold routeToRoom
  cases hmap : s.sessions[sess]? with
  | none => exact .quiet _
  | some ref =>
    dsimp only
    split_ifs with hroom
    · rcases routed_cases h with ⟨reason, rfl, hparse, rfl⟩ | hnone
      · exact .closes hidle hparse hmap hroom
      · -- nothing but a close makes a player come or go
        refine Change.of_eq (.quiet _) ?_
        have hlife := hnone ref.player ref.stay
        split
        · rename_i hev
          unfold Post.life at hlife
          rw [hev] at hlife
          cases hlife
        · ext1
          · rfl
          · rfl
          · show (⟨sess, ev ref.player, ref.stay⟩ : Post).life.map (fun l => (ref.roomID, l)) = _
            rw [hlife]
            unfold registry
            rw [hidle]
            rfl
          · rfl
          · rfl
    · exact .quiet _

theorem change_dispatch {typ : U8} {body : Bytes} {raw : BufId} {v : Verdict} {queued : Bool}
    (hidle : s.routing = none) :
    s.Change (.frame typ body raw v queued) (s.dispatch typ body raw v queued).registry := by
  unfold dispatch
  split_ifs with hopen hover
  · rw [hopen]
    cases h : s.opens body v with
    | none => exact Change.of_eq (.quiet _) (handleSessionOpen_of_not_opens h)
    | some x =>
      obtain ⟨sess, p, r⟩ := x
      rw [handleSessionOpen_of_opens h]
      by_cases hfull : s.Full r
      · exact Change.of_eq (.refused hidle h hfull) (mapSession_refused hfull)
      · exact Change.of_eq (.opened hidle h hfull) (mapSession_opened hfull)
  · split
    · exact .quiet _
    · exact Change.of_eq (.quiet _) (registry_setOverload s)
  · split
    · exact .quiet _
    · exact change_routeToRoom hidle ‹_›

theorem change_send (s : Server) : s.Change .send s.send.registry := by
  unfold send
  split
  · exact .quiet _
  · rename_i R e hroute
    have hnone (h : e.life = none) :
        ({ s with routing := none } : Server).registry = s.registry := by
      ext1
      · rfl
      · rfl
      · unfold registry
        rw [hroute, Option.bind_some, h]
        rfl
      · rfl
      · rfl
    cases hlife : e.life with
    | none =>
      refine Change.of_eq (.quiet _) ?_
      rw [registry_onRoom fun r => r.view_offer_of_none _ hlife, hnone hlife]
    | some l =>
      unfold onRoom
      dsimp only
      cases hr : s.rooms[R]? with
      | none => exact .drops hroute hlife fun r h => by rw [hr] at h; cases h
      | some r =>
        dsimp only
        by_cases hfull : s.Full r
        · refine Change.of_eq (.drops hroute hlife fun r' h => ?_) ?_
          · rw [hr] at h
            exact Option.some.inj h ▸ hfull
          · have hoffer : r.offer s.inboxCap e = r := if_neg (not_lt.2 hfull)
            rw [hoffer]
            exact registry_insert_of_view (s := { s with routing := none }) hr rfl
        · refine Change.of_eq (.sends hroute hlife hr hfull) ?_
          rw [registry_insert { s with routing := none },
            r.view_offer s.inboxCap e (not_le.1 hfull), hlife]
          rfl

theorem change_visit {sess : U64} (hdying : s.dying = true) :
    s.Change (.visit sess) (s.visit sess).registry := by
  unfold visit
  cases hmap : s.sessions[sess]? with
  | none => exact .quiet _
  | some ref =>
    dsimp only
    set e : Post := ⟨sess, .inClose 0 LeaveDisconnect, ref.stay⟩ with he
    have hrecord : ∀ t : Server, ((t.removeSession sess).record ref.stay
        fun x => { x with closing := true }).registry = (t.registry.unmap sess).close ref.stay := by
      intro t
      show (t.removeSession sess).registry.close ref.stay = _
      rw [registry_removeSession]
    rw [hrecord]
    unfold onRoom
    cases hr : s.rooms[ref.roomID]? with
    | none => exact .loses hdying hmap fun r h => by rw [hr] at h; cases h
    | some r =>
      dsimp only
      by_cases hfull : s.Full r
      · refine Change.of_eq (.loses hdying hmap fun r' h => ?_) ?_
        · rw [hr] at h
          exact Option.some.inj h ▸ hfull
        · have hoffer : r.offer s.inboxCap e = r := if_neg (not_lt.2 hfull)
          rw [hoffer, registry_insert_of_view hr rfl]
      · refine Change.of_eq (.visits hdying hmap hr hfull) ?_
        rw [registry_insert, r.view_offer s.inboxCap e (not_le.1 hfull)]
        rfl

/-! ## The rooms -/

theorem perform_of_quiet {op : RoomOp} (h : op.Quiet) (i : ℕ) (queued : Bool) (s : Server) :
    s.perform i queued op = s := by
  cases op with
  | put b => rfl
  | onInput player seq payload raw => rfl
  | onResume player gapMS => rfl
  | onJoin | onLeave | removeSession | sendKick => exact h.elim

theorem foldl_perform_of_quiet {ops : List RoomOp} (h : ∀ op ∈ ops, op.Quiet) (i : ℕ)
    (queued : Bool) (s : Server) :
    ops.foldl (perform i queued) s = s := by
  induction ops with
  | nil => rfl
  | cons op ops ih =>
    obtain ⟨hop, hops⟩ := List.forall_mem_cons.1 h
    rw [List.foldl_cons, perform_of_quiet hop]
    exact ih hops

section Handle

variable {e : Post} {sess : U64} {p : PlayerID} {reason : U8}

theorem handleEvent_eq (s : Server) (R : RoomID) (r : RoomProc) (e : Post) : s.handleEvent R r e =
    (r.room.handleEvent e.ev).2.foldl
      (perform (match e.ev with | .inOpen _ _ => e.stay | .inClose p _ => r.stayOf p | _ => 0)
        false)
      { s with rooms := s.rooms.insert R (r.after e) } := rfl

theorem handleEvent_quiet (s : Server) (R : RoomID) (r : RoomProc)
    (hopen : ∀ sess p, e.ev ≠ .inOpen sess p) (hclose : ∀ p reason, e.ev ≠ .inClose p reason) :
    s.handleEvent R r e = { s with rooms := s.rooms.insert R (r.after e) } :=
  foldl_perform_of_quiet (fun _ hop => Room.quiet_of_mem_handleEvent hopen hclose r.room hop) _ _ _

theorem handleEvent_swallows (hev : e.ev = .inOpen sess p) (hp : p ∈ r.room.players) :
    s.handleEvent R r e = { s with rooms := s.rooms.insert R (r.after e) } := by
  rw [handleEvent_eq, hev, Room.ops_inOpen, if_pos hp]
  rfl

theorem handleEvent_joins (hev : e.ev = .inOpen sess p) (hp : p ∉ r.room.players) :
    s.handleEvent R r e =
      ({ s with rooms := s.rooms.insert R (r.after e) } : Server).note e.stay .OnJoin := by
  rw [handleEvent_eq, hev, Room.ops_inOpen, if_neg hp]
  rfl

theorem handleEvent_misses (hev : e.ev = .inClose p reason) (hp : r.room.players[p]? = none) :
    s.handleEvent R r e = { s with rooms := s.rooms.insert R (r.after e) } := by
  rw [handleEvent_eq, hev, Room.ops_inClose, hp]
  rfl

theorem handleEvent_leaves {st : PState} (hev : e.ev = .inClose p reason)
    (hp : r.room.players[p]? = some st) :
    s.handleEvent R r e =
      ((({ s with rooms := s.rooms.insert R (r.after e) } : Server).removeSession st.sess).note
        (r.stayOf p) .OnLeave) := by
  rw [handleEvent_eq, hev, Room.ops_inClose, hp]
  rfl

end Handle

theorem change_handleEvent {e : Post} (hr : s.rooms[R]? = some r) (hheld : r.place.held = some e) :
    s.Change (.handle R) (s.handleEvent R r e).registry := by
  have hinsert : ({ s with rooms := s.rooms.insert R (r.after e) } : Server).registry =
      s.registry.setRoom R (r.after e).view := registry_insert s R _
  by_cases hopen : ∃ sess p, e.ev = .inOpen sess p
  · obtain ⟨sess, p, hev⟩ := hopen
    by_cases hp : p ∈ r.room.players
    · refine Change.of_eq (.swallows hr hheld hev hp) ?_
      rw [handleEvent_swallows hev hp, hinsert, RoomProc.view_swallows hheld hev hp]
    · refine Change.of_eq (.joins hr hheld hev hp) ?_
      rw [handleEvent_joins hev hp, ← RoomProc.view_joins hheld hev hp, ← hinsert]
      rfl
  by_cases hclose : ∃ p reason, e.ev = .inClose p reason
  · obtain ⟨p, reason, hev⟩ := hclose
    cases hp : r.room.players[p]? with
    | none =>
      refine Change.of_eq (.misses hr hheld hev hp) ?_
      rw [handleEvent_misses hev hp, hinsert, RoomProc.view_misses hheld hev hp]
    | some st =>
      refine Change.of_eq (.leaves hr hheld hev hp) ?_
      rw [handleEvent_leaves hev hp, ← RoomProc.view_leaves hheld hev hp, ← hinsert,
        ← registry_removeSession]
      rfl
  · push Not at hopen hclose
    have hlife : e.life = none := by
      unfold Post.life
      split
      · exact absurd ‹_› (hopen _ _)
      · exact absurd ‹_› (hclose _ _)
      · rfl
    refine Change.of_eq (.quiet _) ?_
    rw [handleEvent_quiet s R r hopen hclose]
    exact registry_insert_of_view hr (RoomProc.view_after_of_none hheld hlife)

/-- `RoomCtx.Kick` of a player in the room. -/
theorem kick_eq {p : PlayerID} {st : PState} (hp : r.room.players[p]? = some st) (reason : U8)
    (queued : Bool) :
    s.kick R r p reason queued =
      ((({ s with rooms := s.rooms.insert R { r with room := (r.room.kick p reason).1 } }
      : Server).sendKickTo (r.stayOf p) st.sess queued).removeSession st.sess).note
        (r.stayOf p) .OnLeave := by
  unfold kick
  rw [(Room.kick_of_some hp reason).1]
  rfl

theorem kick_eq_of_none {p : PlayerID} (hp : r.room.players[p]? = none) (reason : U8)
    (queued : Bool) :
    s.kick R r p reason queued = { s with rooms := s.rooms.insert R r } := by
  unfold kick
  rw [Room.kick_of_none hp]
  rfl

theorem change_kick {p : PlayerID} {reason : U8} {queued : Bool} (hr : s.rooms[R]? = some r) :
    s.Change (.kick R p reason queued) (s.kick R r p reason queued).registry := by
  cases hp : r.room.players[p]? with
  | none =>
    rw [kick_eq_of_none hp]
    exact Change.of_eq (.quiet _) (registry_insert_of_view hr rfl)
  | some st =>
    refine Change.of_eq (.kicks hr hp) ?_
    rw [kick_eq hp, ← RoomProc.view_kick hp, ← registry_insert]
    set t : Server :=
      { s with rooms := s.rooms.insert R { r with room := (r.room.kick p reason).1 } }
    show ((t.sendKickTo (r.stayOf p) st.sess queued).removeSession st.sess).registry.note _
      [.OnLeave] = _
    rw [registry_removeSession, registry_sendKickTo, ← Registry.note_note]
    rfl

theorem change_deliver {order : List PlayerID} (hr : s.rooms[R]? = some r)
    (ho : r.room.IsOrder order) (hdrained : r.drained = true) :
    s.Change (.deliver R order) (s.deliver R r order).registry := by
  unfold deliver
  cases hd : r.room.deliverReadyInputs order with
  | none => exact .quiet _
  | some out =>
    obtain ⟨room, ops⟩ := out
    obtain ⟨hsess, hsessOf⟩ := Room.sessAt_deliver ho hd
    refine Change.of_eq (.quiet _) (registry_insert_of_view hr ?_)
    have hplace : r.place.held = none ∧ r.place.passed = none := by
      unfold RoomProc.drained at hdrained
      split at hdrained
      · rename_i hplace _
        rw [hplace]
        exact ⟨rfl, rfl⟩
      · rename_i hplace _
        rw [hplace]
        exact ⟨rfl, rfl⟩
      · cases hdrained
    ext1
    · show RoomProc.bound _ = r.bound
      rw [RoomProc.bound_eq, RoomProc.bound_eq]
      dsimp only
      rw [hsess]
    · show (fun sess => room.sessOf[sess]?) = _
      rw [hsessOf]
      rfl
    · show (Option.toList none ++ r.inbox).filterMap Post.life =
        (r.place.held.toList ++ r.inbox).filterMap _
      rw [hplace.1]
    · exact hplace.2.symm

theorem change_leave {done : List PlayerID} {p : PlayerID} {queued : Bool}
    (hr : s.rooms[R]? = some r) (hplace : r.place = .stop done) :
    s.Change (.leave R p queued) (s.leave R r done p queued).registry := by
  unfold leave
  cases hp : r.room.players[p]? with
  | none => exact .quiet _
  | some st =>
    dsimp only
    split_ifs with hdone
    · exact .quiet _
    · have hview : ({ r with place := .stop (p :: done) } : RoomProc).view =
          { r.view with passed := some (p :: done) } := by
        unfold RoomProc.view RoomProc.waiting
        rw [hplace]
        rfl
      refine Change.of_eq (.passes hr hplace hp hdone) ?_
      rw [registry_sendKickTo, ← hview, ← registry_insert]
      set t : Server := { s with rooms := s.rooms.insert R { r with place := .stop (p :: done) } }
      show (t.registry.note (r.stayOf p) [.OnLeave]).note (r.stayOf p) (kickNotice queued) = _
      rw [Registry.note_note]
      rfl

theorem change_removeRoom {done : List PlayerID} (hr : s.rooms[R]? = some r)
    (hplace : r.place = .stop done)
    (hall : (r.room.players.keys.all fun p => decide (p ∈ done)) = true) :
    s.Change (.remove R) (s.removeRoom R).registry := by
  have hpassed : ∀ p ∈ r.room.players, p ∈ done := fun p hp =>
    of_decide_eq_true (List.all_eq_true.1 hall p (Std.ExtTreeMap.mem_keys.2 hp))
  refine Change.of_eq (.removes hr hplace hpassed) ?_
  ext1
  · show (fun k => ((s.rooms.erase R)[k]?).map RoomProc.view) = _
    have h := getElem?_erase_eq_update s.rooms R
    have h' : (fun k => ((s.rooms.erase R)[k]?).map RoomProc.view) =
        fun k => (Function.update (fun k => s.rooms[k]?) R none k).map RoomProc.view := by
      funext k
      rw [← h]
    rw [h', map_update]
    rfl
  · funext sess
    show (s.sessions.filter fun _ ref => decide (ref.roomID ≠ R))[sess]? = _
    rw [Std.ExtTreeMap.getElem?_filter']
    rfl
  · rfl
  · rfl
  · rfl

/-- A room goes on or stops. -/
theorem change_onRoom (a : ServerAction) {f : RoomProc → RoomProc}
    (hf : ∀ r : RoomProc, (f r).view = r.view ∨
      r.place.passed = none ∧ (f r).view = { r.view with passed := some [] }) :
    s.Change a (s.onRoom R f).registry := by
  unfold onRoom
  cases hr : s.rooms[R]? with
  | none => exact .quiet _
  | some r =>
    dsimp only
    rcases hf r with hview | ⟨hpassed, hview⟩
    · exact Change.of_eq (.quiet _) (registry_insert_of_view hr hview)
    · refine Change.of_eq (.stops a hr hpassed) ?_
      rw [registry_insert, hview]

/-- **A step** of the server. -/
theorem step_change (s : Server) (a : ServerAction) (ha : s.Valid a) :
    s.Change a (s.step a).registry := by
  unfold step
  by_cases hcrashed : s.crashed = true
  · rw [if_pos hcrashed]
    exact .quiet _
  rw [if_neg hcrashed]
  cases a with
  | frame typ body raw v queued =>
    dsimp only
    split_ifs with hidle
    · exact change_dispatch (Option.isNone_iff_eq_none.1 hidle.1)
    · exact .quiet _
  | send => exact s.change_send
  | dead => exact .quiet _
  | visit sess =>
    dsimp only
    split_ifs with hdying
    · exact change_visit hdying
    · exact .quiet _
  | cleared =>
    dsimp only
    split_ifs
    · exact .quiet _
    · exact .quiet _
  | take R => exact change_onRoom _ fun r => .inl r.view_take
  | handle R =>
    dsimp only
    split
    · exact .quiet _
    · split
      · exact .quiet _
      · split_ifs
        · exact .quiet _
        · exact change_handleEvent ‹_› ‹_›
  | check R => exact change_onRoom _ RoomProc.view_check
  | timer R => exact change_onRoom _ fun r => .inl r.view_timer
  | deliver R order =>
    dsimp only
    split
    · exact .quiet _
    · rename_i r hr
      split_ifs with hdrained
      · exact change_deliver hr (ha r hr) hdrained
      · exact .quiet _
  | tick R out more => exact change_onRoom _ fun r => r.view_tick out more
  | leave R p queued =>
    dsimp only
    split
    · exact .quiet _
    · split
      · exact change_leave ‹_› ‹_›
      · exact .quiet _
  | remove R =>
    dsimp only
    split
    · exact .quiet _
    · split
      · split_ifs with hall
        · exact change_removeRoom ‹_› ‹_› hall.2
        · exact .quiet _
      · exact .quiet _
  | kick R p reason queued =>
    dsimp only
    split
    · exact .quiet _
    · split_ifs
      · exact change_kick ‹_›
      · exact .quiet _
  | finish R => exact change_onRoom _ fun r => .inl r.view_finish

end Server

end SoupEngine.Sdk
