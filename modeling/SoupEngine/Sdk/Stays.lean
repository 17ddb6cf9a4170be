import SoupEngine.Sdk.Change

/-!
# No player is lost with a room

A session that `handleSessionOpen` maps has been told to join and to leave, or has been kicked, by
the time the room has been removed, in every run in which no room is removed with a `SessionOpen`
waiting in its inbox, no room ignores one, and the outbox takes the `Kick` of a session whose room
is full (`no_player_lost`). A room that stops for its last player leaves the next one behind
(`stranded`).
-/

namespace SoupEngine.Sdk

open TransitionSystem

/-- A `SessionOpen`. -/
def InEvent.isOpen : InEvent → Bool
  | .inOpen _ _ => true
  | _ => false

/-- The event is a `SessionOpen` of a player who is there. -/
def Room.Ignores (r : Room) : InEvent → Prop
  | .inOpen _ p => p ∈ r.players
  | _ => False

instance (r : Room) : (ev : InEvent) → Decidable (r.Ignores ev)
  | .inOpen _ p => inferInstanceAs (Decidable (p ∈ r.players))
  | .inClose .. | .inResume .. | .inData .. | .inStats .. | .inOverload => .isFalse id

/-- `OnJoin` has been called and then `OnLeave`, or a `Kick` has been sent. -/
def Stay.Settled (x : Stay) : Prop :=
  [Notice.OnJoin, .OnLeave].Sublist x.notices ∨ .Kick ∈ x.notices

instance (x : Stay) : Decidable x.Settled :=
  inferInstanceAs (Decidable ([Notice.OnJoin, .OnLeave].Sublist x.notices ∨ .Kick ∈ x.notices))

namespace Server

/-- The room holds a `SessionOpen` of a player who is there, and ignores it. -/
def Swallows (s : Server) : ServerAction → Prop
  | .handle R => ∃ r ∈ s.rooms[R]?, ∃ e ∈ r.place.held, r.room.Ignores e.ev
  | _ => False

instance (s : Server) : (a : ServerAction) → Decidable (s.Swallows a)
  | .handle R =>
    inferInstanceAs (Decidable (∃ r ∈ s.rooms[R]?, ∃ e ∈ r.place.held, r.room.Ignores e.ev))
  | .frame .. | .send | .dead | .visit _ | .cleared | .take _ | .check _ | .timer _ | .deliver .. |
    .tick .. | .leave .. | .remove _ | .kick .. | .finish _ => .isFalse id

/-- The room is removed while a `SessionOpen` waits in its inbox. -/
def Forgets (s : Server) : ServerAction → Prop
  | .remove R => ∃ r ∈ s.rooms[R]?, ∃ e ∈ r.inbox, e.ev.isOpen = true
  | _ => False

instance (s : Server) : (a : ServerAction) → Decidable (s.Forgets a)
  | .remove R => inferInstanceAs (Decidable (∃ r ∈ s.rooms[R]?, ∃ e ∈ r.inbox, e.ev.isOpen = true))
  | .frame .. | .send | .dead | .visit _ | .cleared | .take _ | .handle _ | .check _ | .timer _ |
    .deliver .. | .tick .. | .leave .. | .kick .. | .finish _ => .isFalse id

/-- The inbox is full, and the outbox does not take the `Kick`. -/
def Mutes (s : Server) : ServerAction → Prop
  | .frame _ body _ v queued => queued = false ∧ ∃ x ∈ s.opens body v, s.Full x.2.2
  | _ => False

instance (s : Server) : (a : ServerAction) → Decidable (s.Mutes a)
  | .frame _ body _ v queued =>
    inferInstanceAs (Decidable (queued = false ∧ ∃ x ∈ s.opens body v, s.Full x.2.2))
  | .send | .dead | .visit _ | .cleared | .take _ | .handle _ | .check _ | .timer _ | .deliver .. |
    .tick .. | .leave .. | .remove _ | .kick .. | .finish _ => .isFalse id

/-- The steps that leave no player behind. -/
def Keeps (s : Server) (a : ServerAction) : Prop :=
  s.Valid a ∧ ¬ s.Swallows a ∧ ¬ s.Forgets a ∧ ¬ s.Mutes a

instance (s : Server) (a : ServerAction) : Decidable (s.Keeps a) :=
  inferInstanceAs (Decidable (s.Valid a ∧ ¬ s.Swallows a ∧ ¬ s.Forgets a ∧ ¬ s.Mutes a))

/-- The room that `handleSessionOpen` finds is the room that is there. -/
theorem room_of_opens {s : Server} {body : Bytes} {v : Verdict} {sess : U64} {p : PlayerID}
    {r r₀ : RoomProc} (h : s.opens body v = some (sess, p, r))
    (hr : s.rooms[v.Route.roomID]? = some r₀) :
    r = r₀ := by
  unfold opens at h
  split at h
  · split_ifs at h
    obtain ⟨r', hr', heq⟩ := Option.map_eq_some_iff.1 h
    unfold roomFor at hr'
    rw [hr] at hr'
    rw [← Option.some.inj hr'] at heq
    exact (Prod.mk.inj (Prod.mk.inj heq).2).2.symm
  · cases h

/-- A room that `handleSessionOpen` does not find is made. -/
theorem new_of_opens {s : Server} {body : Bytes} {v : Verdict} {sess : U64} {p : PlayerID}
    {r : RoomProc} (h : s.opens body v = some (sess, p, r))
    (hnone : s.rooms[v.Route.roomID]? = none) :
    r = .new s.JitterBufferTicks s.BaselineRingSize := by
  unfold opens at h
  split at h
  · split_ifs at h
    obtain ⟨r', hr', heq⟩ := Option.map_eq_some_iff.1 h
    unfold roomFor at hr'
    rw [hnone] at hr'
    dsimp only at hr'
    split_ifs at hr'
    rw [← Option.some.inj hr'] at heq
    exact (Prod.mk.inj (Prod.mk.inj heq).2).2.symm
  · cases h

end Server

theorem RoomProc.view_new (J B : ℕ) :
    (RoomProc.new J B).view = ⟨fun _ => none, fun _ => none, [], none⟩ := by
  ext1
  · funext p
    have hnot : p ∉ (RoomProc.new J B).room.players := Std.ExtTreeMap.not_mem_empty
    exact bound_eq_none.2 hnot
  · funext sess
    exact Std.ExtTreeMap.getElem?_empty
  · rfl
  · rfl

/-- Someone who is to come has a `SessionOpen` in the inbox. -/
theorem RoomProc.isOpen_of_came {r : RoomProc} (hheld : r.place.held = none) {sess : U64} {i : ℕ}
    {p : PlayerID} (h : .came sess i p ∈ r.view.lives) : ∃ e ∈ r.inbox, e.ev.isOpen = true := by
  have hlives : r.view.lives = r.inbox.filterMap Post.life := by
    show r.waiting.filterMap Post.life = _
    unfold waiting
    rw [hheld]
    rfl
  rw [hlives] at h
  obtain ⟨e, he, hlife⟩ := List.mem_filterMap.1 h
  refine ⟨e, he, ?_⟩
  unfold Post.life at hlife
  split at hlife
  · rename_i hev
    rw [hev]
    rfl
  · cases hlife
  · cases hlife

/-! ## What is told to a stay -/

/-- More has been told, and the stay has not ended. -/
structure Stay.Grows (x x' : Stay) : Prop where
  roomID : x'.roomID = x.roomID
  ended : x'.ended = x.ended
  notices : x.notices <+: x'.notices

theorem Stay.Grows.refl (x : Stay) : x.Grows x := ⟨rfl, rfl, List.prefix_refl _⟩

theorem Stay.Settled.grows {x x' : Stay} (h : x.Settled) (hx : x.Grows x') : x'.Settled := by
  rcases h with h | h
  · exact .inl (h.trans hx.notices.sublist)
  · exact .inr (hx.notices.subset h)

namespace Registry

variable {g : Registry}

theorem grows_record (i j : ℕ) {f : Stay → Stay} (hf : ∀ x : Stay, x.Grows (f x)) :
    (g.stays i).Grows ((g.record j f).stays i) := by
  show (g.stays i).Grows (Function.update g.stays j (f (g.stays j)) i)
  by_cases h : i = j
  · rw [h, Function.update_self]
    exact hf _
  · rw [Function.update_of_ne h]
    exact .refl _

theorem grows_note (i j : ℕ) (ns : List Notice) : (g.stays i).Grows ((g.note j ns).stays i) :=
  grows_record i j fun _ => ⟨rfl, rfl, List.prefix_append _ _⟩

theorem grows_close (i j : ℕ) : (g.stays i).Grows ((g.close j).stays i) :=
  grows_record i j fun _ => ⟨rfl, rfl, List.prefix_refl _⟩

theorem notices_note (i : ℕ) (ns : List Notice) :
    ((g.note i ns).stays i).notices = (g.stays i).notices ++ ns := by
  show (Function.update g.stays i _ i).notices = _
  rw [Function.update_self]

theorem stays_begin_self (sess : U64) (R : RoomID) :
    (g.begin sess R).stays g.next = ⟨sess, R, [], false, false⟩ := Function.update_self _ _ _

theorem stays_begin_of_ne (sess : U64) (R : RoomID) {i : ℕ} (h : i ≠ g.next) :
    (g.begin sess R).stays i = g.stays i := Function.update_of_ne h _ _

end Registry

/-! ## The invariant -/

/-- The room will yet tell the stay something: its `SessionOpen` waits, or its player is there and
has not been passed by `stop`. -/
def View.Holds (v : View) (i : ℕ) (x : Stay) : Prop :=
  (∃ sess p, .came sess i p ∈ v.lives) ∨
    .OnJoin ∈ x.notices ∧ ∃ p sess, v.bound p = some (sess, i) ∧ ∀ done ∈ v.passed, p ∉ done

/-- A stay has been told, or its room will tell it. -/
def Registry.Fine (g : Registry) (i : ℕ) : Prop :=
  (g.stays i).Settled ∨
    (g.stays i).ended = false ∧ ∃ v, g.rooms (g.stays i).roomID = some v ∧ v.Holds i (g.stays i)

section

variable {g g' : Registry} {i : ℕ} {v w : View} {x x' : Stay} {R : RoomID}

theorem View.Holds.grows (h : v.Holds i x) (hx : x.Grows x') : v.Holds i x' := by
  rcases h with h | ⟨hjoin, h⟩
  · exact .inl h
  · exact .inr ⟨hx.notices.subset hjoin, h⟩

theorem View.Holds.append (h : v.Holds i x) (l : Option Life) : (v.append l).Holds i x := by
  rcases h with ⟨sess, p, h⟩ | h
  · exact .inl ⟨sess, p, List.mem_append_left _ h⟩
  · exact .inr h

/-- A player comes, and another one is still to be told. -/
theorem View.Holds.bind (h : v.Holds i x) {sess : U64} {j : ℕ} {p : PlayerID} {ls : List Life}
    (hlives : v.lives = .came sess j p :: ls) (hnone : v.bound p = none) (hne : i ≠ j) :
    (View.bind { v with lives := ls } p sess j).Holds i x := by
  rcases h with ⟨σ, q, h⟩ | ⟨hjoin, q, σ, hbound, hpassed⟩
  · rw [hlives] at h
    rcases List.mem_cons.1 h with heq | h
    · cases heq
      exact absurd rfl hne
    · exact .inl ⟨σ, q, h⟩
  · refine .inr ⟨hjoin, q, σ, ?_, hpassed⟩
    have hq : q ≠ p := by
      rintro rfl
      rw [hnone] at hbound
      cases hbound
    exact (Function.update_of_ne hq _ _).trans hbound

/-- The player who comes has joined, and sits. -/
theorem View.Holds.bind_self {sess : U64} {p : PlayerID} (hjoin : .OnJoin ∈ x.notices)
    (hpassed : v.passed = none) : (View.bind v p sess i).Holds i x := by
  refine .inr ⟨hjoin, p, sess, Function.update_self _ _ _, fun done hdone => ?_⟩
  have hnone : (View.bind v p sess i).passed = none := hpassed
  rw [hnone] at hdone
  cases hdone

/-- A close has been handled, and the stay is still to be told. -/
theorem View.Holds.pop (h : v.Holds i x) {sess : U64} {j : ℕ} {p : PlayerID} {ls : List Life}
    (hlives : v.lives = .went sess j p :: ls) : View.Holds { v with lives := ls } i x := by
  rcases h with ⟨σ, q, h⟩ | h
  · rw [hlives] at h
    rcases List.mem_cons.1 h with heq | h
    · cases heq
    · exact .inl ⟨σ, q, h⟩
  · exact .inr h

/-- The rooms are as before. -/
theorem Registry.Fine.grows (h : g.Fine i) (hstay : (g.stays i).Grows (g'.stays i))
    (hrooms : g'.rooms = g.rooms) : g'.Fine i := by
  rcases h with h | ⟨hended, v, hv, hholds⟩
  · exact .inl (h.grows hstay)
  · right
    rw [hstay.ended, hstay.roomID, hrooms]
    exact ⟨hended, v, hv, hholds.grows hstay⟩

/-- One room has changed. -/
theorem Registry.Fine.setRoom (h : g.Fine i) (hstay : (g.stays i).Grows (g'.stays i))
    (hrooms : g'.rooms = Function.update g.rooms R (some w))
    (hv : ∀ v', g.rooms R = some v' → v' = v) (hholds : v.Holds i (g.stays i) →
      (g'.stays i).Settled ∨ w.Holds i (g'.stays i)) : g'.Fine i := by
  rcases h with h | ⟨hended, v', hv', hholds'⟩
  · exact .inl (h.grows hstay)
  · by_cases hR : (g.stays i).roomID = R
    · rw [hR] at hv'
      obtain rfl := hv v' hv'
      rcases hholds hholds' with h | h
      · exact .inl h
      · right
        rw [hstay.ended, hstay.roomID, hrooms, hR, Function.update_self]
        exact ⟨hended, w, rfl, h⟩
    · right
      rw [hstay.ended, hstay.roomID, hrooms, Function.update_of_ne hR]
      exact ⟨hended, v', hv', hholds'.grows hstay⟩

end

namespace Registry

/-- A stay that begins is fine: its `SessionOpen` waits. -/
theorem fine_opened (g : Registry) (v : View) (sess : U64) (p : PlayerID) (R : RoomID)
    (ref : SessionRef) :
    (((g.begin sess R).setRoom R (v.append (some (.came sess g.next p)))).map sess ref).Fine
      g.next := by
  set g' := ((g.begin sess R).setRoom R (v.append (some (.came sess g.next p)))).map sess ref with
    hg'
  have hstay : g'.stays g.next = ⟨sess, R, [], false, false⟩ := stays_begin_self sess R
  have hroom : g'.rooms R = some (v.append (some (.came sess g.next p))) :=
    Function.update_self _ _ _
  right
  rw [hstay]
  exact ⟨rfl, _, hroom, .inl ⟨sess, p, List.mem_append_right _ List.mem_cons_self⟩⟩

/-- A stay that is refused is fine: it is kicked. -/
theorem fine_refused (g : Registry) (v : View) (sess : U64) (R : RoomID) :
    (((g.begin sess R).setRoom R v).note g.next [.Kick]).Fine g.next := by
  left
  right
  rw [notices_note]
  exact List.mem_append_right _ List.mem_cons_self

/-- A player who has joined leaves. -/
theorem settled_note {g : Registry} {i : ℕ} {ns : List Notice}
    (hjoin : .OnJoin ∈ (g.stays i).notices) (hns : .OnLeave ∈ ns) :
    ((g.note i ns).stays i).Settled := by
  left
  rw [notices_note]
  exact (List.singleton_sublist.2 hjoin).append (List.singleton_sublist.2 hns)

end Registry

/-- The player of the stay is this one, or is not concerned. -/
theorem View.Holds.cases_player {r : RoomProc} {i : ℕ} {x : Stay} {p : PlayerID} {st : PState}
    (h : r.view.Holds i x) (hp : r.room.players[p]? = some st) :
    (i = r.stayOf p ∧ .OnJoin ∈ x.notices) ∨ (∃ sess q, .came sess i q ∈ r.view.lives) ∨
      .OnJoin ∈ x.notices ∧ ∃ q sess, q ≠ p ∧ r.view.bound q = some (sess, i) ∧
        ∀ done ∈ r.view.passed, q ∉ done := by
  rcases h with h | ⟨hjoin, q, sess, hbound, hpassed⟩
  · exact .inr (.inl h)
  · by_cases hq : q = p
    · have hsome : r.view.bound p = some (st.sess, r.stayOf p) := RoomProc.bound_eq_some hp
      rw [hq, hsome] at hbound
      exact .inl ⟨(Prod.mk.inj (Option.some.inj hbound)).2.symm, hjoin⟩
    · exact .inr (.inr ⟨hjoin, q, sess, hq, hbound, hpassed⟩)

namespace Server

variable {s : Server} {a : ServerAction} {g' : Registry}

/-- Every stay is fine. -/
def AllFine (g : Registry) : Prop := ∀ i < g.next, g.Fine i

theorem view_of_rooms {R : RoomID} {r : RoomProc} (hr : s.rooms[R]? = some r) (v' : View)
    (hv' : s.registry.rooms R = some v') : v' = r.view := by
  rw [registry_rooms hr] at hv'
  exact (Option.some.inj hv').symm

/-- What `handleSessionOpen` finds is what the room is, if it is there. -/
theorem view_of_opens {body : Bytes} {v : Verdict} {sess : U64} {p : PlayerID} {r : RoomProc}
    (hopen : s.opens body v = some (sess, p, r)) (v' : View)
    (hv' : s.registry.rooms v.Route.roomID = some v') : v' = r.view := by
  obtain ⟨r₀, hr₀, rfl⟩ := Option.map_eq_some_iff.1 hv'
  rw [room_of_opens hopen hr₀]

section

variable {body : Bytes} {v : Verdict} {sess : U64} {p : PlayerID} {r : RoomProc} {R : RoomID}
  {e : Post} {st : PState}

/-- A session is mapped, and its `SessionOpen` waits. -/
theorem allFine_opened (hs : AllFine s.registry) (hopen : s.opens body v = some (sess, p, r)) :
    AllFine (((s.registry.begin sess v.Route.roomID).setRoom v.Route.roomID
      (r.view.append (some (.came sess s.next p)))).map sess ⟨v.Route.roomID, p, s.next⟩) := by
  intro i hi
  by_cases hnew : i = s.registry.next
  · rw [hnew]
    exact s.registry.fine_opened r.view sess p v.Route.roomID _
  · have hlt : i < s.registry.next := lt_of_le_of_ne (Nat.lt_succ_iff.1 hi) hnew
    have hstay := Registry.stays_begin_of_ne (g := s.registry) sess v.Route.roomID hnew
    exact (hs i hlt).setRoom (v := r.view) (hstay ▸ .refl _) rfl (view_of_opens hopen) fun h =>
      .inr ((h.append _).grows (hstay ▸ .refl _))

/-- A session finds the inbox full, and is kicked. -/
theorem allFine_refused (hs : AllFine s.registry) (hopen : s.opens body v = some (sess, p, r)) :
    AllFine (((s.registry.begin sess v.Route.roomID).setRoom v.Route.roomID r.view).note s.next
      (kickNotice true)) := by
  intro i hi
  by_cases hnew : i = s.registry.next
  · rw [hnew]
    exact s.registry.fine_refused r.view sess v.Route.roomID
  · have hlt : i < s.registry.next := lt_of_le_of_ne (Nat.lt_succ_iff.1 hi) hnew
    have hstay := Registry.stays_begin_of_ne (g := s.registry) sess v.Route.roomID hnew
    have hgrows : (s.registry.stays i).Grows
        ((((s.registry.begin sess v.Route.roomID).setRoom v.Route.roomID r.view).note s.next
          (kickNotice true)).stays i) := by
      rw [← hstay]
      exact Registry.grows_note _ _ _
    exact (hs i hlt).setRoom (v := r.view) hgrows rfl (view_of_opens hopen) fun h =>
      .inr (h.grows hgrows)

theorem allFine_joins (hs : AllFine s.registry) (hr : s.rooms[R]? = some r)
    (hheld : r.place.held = some e) (hev : e.ev = .inOpen sess p) (hp : p ∉ r.room.players) :
    AllFine ((s.registry.setRoom R (r.ahead.bind p sess e.stay)).note e.stay [.OnJoin]) := by
  intro i hi
  have hgrows := Registry.grows_note (g := s.registry) i e.stay [.OnJoin]
  refine (hs i hi).setRoom hgrows rfl (view_of_rooms hr) fun h => .inr ?_
  by_cases hstay : i = e.stay
  · rw [hstay]
    refine View.Holds.bind_self ?_ (RoomProc.held_handled hheld).2.2
    show Notice.OnJoin ∈ Stay.notices _
    rw [Registry.notices_note]
    exact List.mem_append_right _ List.mem_cons_self
  · have hbind := h.bind (RoomProc.lives_inOpen hheld hev) (RoomProc.bound_eq_none.2 hp) hstay
    exact hbind.grows hgrows

/-- A player goes before the room stops: everybody else is held as before. -/
theorem allFine_unbind (hs : AllFine s.registry) (hr : s.rooms[R]? = some r)
    (hp : r.room.players[p]? = some st) {w : View}
    (hbound : ∀ q, q ≠ p → w.bound q = r.view.bound q)
    (hcame : ∀ σ j q, .came σ j q ∈ r.view.lives → .came σ j q ∈ w.lives)
    (hpassed : w.passed = r.view.passed) {ns : List Notice} (hns : .OnLeave ∈ ns) :
    AllFine (((s.registry.setRoom R w).unmap st.sess).note (r.stayOf p) ns) := by
  intro i hi
  have hgrows := Registry.grows_note (g := s.registry) i (r.stayOf p) ns
  refine (hs i hi).setRoom hgrows rfl (view_of_rooms hr) fun h => ?_
  rcases h.cases_player hp with ⟨rfl, hjoin⟩ | ⟨σ, q, h⟩ | ⟨hjoin, q, σ, hq, hheld, hnot⟩
  · exact .inl (Registry.settled_note hjoin hns)
  · exact .inr (.inl ⟨σ, q, hcame σ i q h⟩)
  · exact .inr (.inr ⟨hgrows.notices.subset hjoin, q, σ, (hbound q hq).trans hheld, hpassed ▸ hnot⟩)

/-- `stop` comes to a player. -/
theorem allFine_passes (hs : AllFine s.registry) (hr : s.rooms[R]? = some r) {done : List PlayerID}
    (hplace : r.place = .stop done) (hp : r.room.players[p]? = some st) (queued : Bool) :
    AllFine ((s.registry.setRoom R { r.view with passed := some (p :: done) }).note (r.stayOf p)
      (.OnLeave :: kickNotice queued)) := by
  intro i hi
  have hgrows :=
    Registry.grows_note (g := s.registry) i (r.stayOf p) (.OnLeave :: kickNotice queued)
  have hold : r.view.passed = some done := congrArg Place.passed hplace
  refine (hs i hi).setRoom hgrows rfl (view_of_rooms hr) fun h => ?_
  rcases h.cases_player hp with ⟨rfl, hjoin⟩ | h | ⟨hjoin, q, σ, hq, hbound, hpassed⟩
  · exact .inl (Registry.settled_note hjoin List.mem_cons_self)
  · exact .inr (.inl h)
  · refine .inr (.inr ⟨hgrows.notices.subset hjoin, q, σ, hbound, fun done' hdone' => ?_⟩)
    rw [← Option.some.inj hdone']
    exact List.not_mem_cons_of_ne_of_not_mem hq (hpassed done hold)

/-- The room that is removed holds nobody: nobody waits, and `stop` has come to all players. -/
theorem not_holds_of_removed (hr : s.rooms[R]? = some r) {done : List PlayerID}
    (hplace : r.place = .stop done) (hall : ∀ p ∈ r.room.players, p ∈ done)
    (hforget : ¬ s.Forgets (.remove R)) {i : ℕ} {x : Stay} : ¬ r.view.Holds i x := by
  rintro (⟨σ, q, hwait⟩ | ⟨-, q, σ, hbound, hpassed⟩)
  · have hheld : r.place.held = none := by rw [hplace]; rfl
    exact hforget ⟨r, hr, RoomProc.isOpen_of_came hheld hwait⟩
  · refine hpassed done (congrArg Place.passed hplace) (hall q ?_)
    by_contra hq
    have hnone : r.view.bound q = none := RoomProc.bound_eq_none.2 hq
    rw [hnone] at hbound
    cases hbound

theorem allFine_removes (hs : AllFine s.registry) (hr : s.rooms[R]? = some r) {done : List PlayerID}
    (hplace : r.place = .stop done) (hall : ∀ p ∈ r.room.players, p ∈ done)
    (hforget : ¬ s.Forgets (.remove R)) : AllFine (s.registry.removeRoom R) := by
  intro i hi
  rcases hs i hi with h | ⟨hended, v, hv, hholds⟩
  · left
    show Stay.Settled
      (if (s.stays i).roomID = R then { s.stays i with ended := true } else s.stays i)
    split_ifs
    · exact h
    · exact h
  · by_cases hR : (s.registry.stays i).roomID = R
    · rw [hR] at hv
      obtain rfl := view_of_rooms hr v hv
      exact absurd hholds (not_holds_of_removed hr hplace hall hforget)
    · right
      have hstay : (s.registry.removeRoom R).stays i = s.registry.stays i := if_neg hR
      rw [hstay]
      exact ⟨hended, v, (Function.update_of_ne hR _ _).trans hv, hholds⟩

end

theorem allFine_change (h : s.Change a g') (ha : s.Keeps a) (hs : AllFine s.registry) :
    AllFine g' := by
  obtain ⟨-, hswallow, hforget, hmute⟩ := ha
  cases h with
  | quiet => exact hs
  | opened hidle hopen hroom => exact allFine_opened hs hopen
  | @refused body raw v queued sess p r hidle hopen hfull =>
    have hqueued : queued = true := by
      by_contra hq
      exact hmute ⟨Bool.eq_false_of_not_eq_true hq, _, hopen, hfull⟩
    rw [hqueued]
    exact allFine_refused hs hopen
  | closes hidle hclose hmap hroom =>
    exact fun i hi => (hs i hi).grows (Registry.grows_close _ _) rfl
  | sends hroute hlife hr hroom =>
    exact fun i hi => (hs i hi).setRoom (.refl _) rfl (view_of_rooms hr) fun h => .inr (h.append _)
  | drops hroute hlife hfull => exact fun i hi => (hs i hi).grows (.refl _) rfl
  | visits hdying hmap hr hroom =>
    exact fun i hi => (hs i hi).setRoom (Registry.grows_close _ _) rfl (view_of_rooms hr) fun h =>
      .inr ((h.append _).grows (Registry.grows_close _ _))
  | loses hdying hmap hfull => exact fun i hi => (hs i hi).grows (Registry.grows_close _ _) rfl
  | joins hr hheld hev hp => exact allFine_joins hs hr hheld hev hp
  | @swallows R r e sess p hr hheld hev hp =>
    refine absurd ⟨r, hr, e, hheld, ?_⟩ hswallow
    rw [hev]
    exact hp
  | @leaves R r e p reason st hr hheld hev hp =>
    refine allFine_unbind (w := r.ahead.unbind p st.sess) hs hr hp
      (fun q hq => Function.update_of_ne hq _ _) (fun σ j q h => ?_) rfl List.mem_cons_self
    rw [RoomProc.lives_inClose hheld hev] at h
    exact (List.mem_cons.1 h).resolve_left (nomatch ·)
  | misses hr hheld hev hp =>
    exact fun i hi => (hs i hi).setRoom (.refl _) rfl (view_of_rooms hr) fun h =>
      .inr (h.pop (RoomProc.lives_inClose hheld hev))
  | @kicks R r p reason queued st hr hp =>
    exact allFine_unbind (w := r.view.unbind p st.sess) hs hr hp
      (fun q hq => Function.update_of_ne hq _ _) (fun σ j q h => h) rfl
        (List.mem_append_right _ List.mem_cons_self)
  | stops a hr hpassed =>
    refine fun i hi => (hs i hi).setRoom (.refl _) rfl (view_of_rooms hr) fun h => .inr ?_
    rcases h with h | ⟨hjoin, q, σ, hbound, -⟩
    · exact .inl h
    · refine .inr ⟨hjoin, q, σ, hbound, fun done hdone => ?_⟩
      rw [← Option.some.inj hdone]
      exact List.not_mem_nil
  | passes hr hplace hp hdone => exact allFine_passes hs hr hplace hp _
  | removes hr hplace hall => exact allFine_removes hs hr hplace hall hforget

/-- **No player is lost** when a room ends. -/
theorem no_player_lost {M C J B : ℕ} {s : Server} (h : Reach step Keeps (start M C J B) s) {i : ℕ}
    (hi : i < s.next) (hended : (s.stays i).ended = true) : (s.stays i).Settled := by
  have hfine : AllFine s.registry :=
    h.invariant (I := fun s => AllFine s.registry)
      (fun i hi => absurd hi (Nat.not_lt_zero i)) fun s a hs ha =>
      allFine_change (s.step_change a ha.1) ha hs
  rcases hfine i hi with h | ⟨hnot, -⟩
  · exact h
  · exact absurd (hnot.symm.trans hended) Bool.false_ne_true

/-! ## A room that stops -/

/-- The `SessionOpen` of a player whom the gatekeeper sends to the room, which it may create. -/
def openFor (sess : U64) (p : PlayerID) (R : RoomID) : ServerAction :=
  .frame FrameSessionOpen (leBytes sess ++ List.replicate 20 0) 0
    ⟨some p, ⟨.RouteCreate, R⟩, true⟩ true

/-- A `SessionClose` is dispatched and sent on. -/
def closeFor (sess : U64) : List ServerAction :=
  [.frame FrameSessionClose (leBytes sess ++ [2]) 0 ⟨none, ⟨.RouteReject, 0⟩, false⟩ true, .send]

/-- The room handles one event in `select`. -/
def serve (R : RoomID) : List ServerAction := [.take R, .handle R, .check R]

/-- In a room with an inbox for one event the second session is kicked at once, the first player is
kicked by the callback, and the room ends with two players, one of whom its outbox cannot kick. -/
def fullHouse : List ServerAction :=
  [openFor 1 1 7, openFor 2 2 7] ++ serve 7 ++
    [openFor 3 3 7, .take 7, .handle 7, .kick 7 1 9 true, .check 7] ++
    [openFor 4 4 7, .take 7, .handle 7, .finish 7, .check 7] ++
    [.leave 7 4 true, .leave 7 3 false, .remove 7]

/-- A player comes and goes, but a second one comes before the room has handled the close. -/
def strandedRun : List ServerAction :=
  [openFor 1 1 7] ++ serve 7 ++ closeFor 1 ++ [openFor 2 2 7] ++ serve 7 ++ [.remove 7]

/-- All four sessions of the run have been told. -/
theorem no_player_lost_fullHouse :
    (fullHouse.foldl step (start 1024 1 2 32)).next = 4 ∧
      ∀ i < 4, ((fullHouse.foldl step (start 1024 1 2 32)).stays i).Settled := by
  have hreach : Reach step Keeps (start 1024 1 2 32) (fullHouse.foldl step (start 1024 1 2 32)) :=
    Reach.foldl (by decide +kernel)
  have hnext : (fullHouse.foldl step (start 1024 1 2 32)).next = 4 := by decide +kernel
  have hended : ∀ i < 4, ((fullHouse.foldl step (start 1024 1 2 32)).stays i).ended = true := by
    decide +kernel
  exact ⟨hnext, fun i hi => no_player_lost hreach (hnext.symm ▸ hi) (hended i hi)⟩

/-- The room stops for its last player, and the one who waits is told nothing. -/
theorem stranded : ¬ ∀ s, Reach step Valid (start 1024 256 2 32) s →
    ∀ i < s.next, (s.stays i).ended = true → (s.stays i).Settled := by
  intro h
  have hreach :
      Reach step Valid (start 1024 256 2 32) (strandedRun.foldl step (start 1024 256 2 32)) :=
    Reach.foldl (by decide +kernel)
  exact absurd (h _ hreach 1 (by decide +kernel) (by decide +kernel)) (by decide +kernel)

end Server

end SoupEngine.Sdk
