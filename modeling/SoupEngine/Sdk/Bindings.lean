import SoupEngine.Lib.Seat
import SoupEngine.Sdk.Ghosts

/-!
# A session affects its own player only

A close removes a player only if the player is bound to its session, and once a room has handled
what it received, the session table and the two maps of the room are inverse to each other. This
holds in every run in which `handleSessionOpen` maps no player to a room that will still have the
player when it has handled what waits, `routeToRoom` sends no second close of a session after one
that waits, and the link does not break (`own_player`).
-/

namespace SoupEngine.Sdk

open TransitionSystem

/-- What an event means for the seat of a player. -/
def Life.turn (p : PlayerID) : Life → Option (Seat.Event U64)
  | .came sess _ q => if q = p then some (.take sess) else none
  | .went sess _ q => if q = p then some (.leave sess) else none

theorem Life.turn_self (p : PlayerID) (sess : U64) (i : ℕ) :
    (Life.came sess i p).turn p = some (.take sess) ∧
    (Life.went sess i p).turn p = some (.leave sess) :=
  ⟨if_pos rfl, if_pos rfl⟩

theorem Life.turn_of_ne {p q : PlayerID} (h : p ≠ q) (sess : U64) (i : ℕ) :
    (Life.came sess i p).turn q = none ∧ (Life.went sess i p).turn q = none :=
  ⟨if_neg h, if_neg h⟩

/-- The session that comes. -/
def Life.opener : Life → Option U64
  | .came sess _ _ => some sess
  | .went _ _ _ => none

namespace View

/-- Who sits on the seat of the player. -/
def seated (v : View) (p : PlayerID) : Option U64 := (v.bound p).map Prod.fst

/-- The players, their sessions and what waits fit together. -/
structure Paired (v : View) (rt : List Life) : Prop where
  owner : ∀ sess p, v.owner sess = some p ↔ v.seated p = some sess
  apart : ∀ p sess, v.seated p = some sess → ∀ i q, .came sess i q ∉ v.lives
  distinct : (v.lives.filterMap Life.opener).Nodup
  inTurn : ∀ p, Seat.InTurn (v.seated p) ((v.lives ++ rt).filterMap (Life.turn p))

variable {v : View} {rt : List Life} {sess : U64} {p q : PlayerID} {i : ℕ}

theorem seated_eq_some : v.seated p = some sess ↔ ∃ i, v.bound p = some (sess, i) := by
  unfold seated
  rw [Option.map_eq_some_iff]
  constructor
  · rintro ⟨⟨σ, i⟩, h, rfl⟩
    exact ⟨i, h⟩
  · rintro ⟨i, h⟩
    exact ⟨_, h, rfl⟩

theorem seated_unbind_self (v : View) (p : PlayerID) (sess : U64) :
    (v.unbind p sess).seated p = none := by
  have h : (v.unbind p sess).bound p = none := Function.update_self _ _ _
  unfold seated
  rw [h]
  rfl

theorem seated_unbind_of_ne (v : View) (sess : U64) (h : q ≠ p) :
    (v.unbind p sess).seated q = v.seated q := by
  have h : (v.unbind p sess).bound q = v.bound q := Function.update_of_ne h _ _
  unfold seated
  rw [h]

theorem seated_bind_self (v : View) (p : PlayerID) (sess : U64) (i : ℕ) :
    (v.bind p sess i).seated p = some sess := by
  have h : (v.bind p sess i).bound p = some (sess, i) := Function.update_self _ _ _
  unfold seated
  rw [h]
  rfl

theorem seated_bind_of_ne (v : View) (sess : U64) (i : ℕ) (h : q ≠ p) :
    (v.bind p sess i).seated q = v.seated q := by
  have h : (v.bind p sess i).bound q = v.bound q := Function.update_of_ne h _ _
  unfold seated
  rw [h]

/-! ### What the room does -/

namespace Paired

/-- What is under way arrives. -/
theorem push {l : Life} (h : v.Paired [l]) (hl : l.opener = none) :
    (v.append (some l)).Paired [] := by
  have hlives : (v.append (some l)).lives = v.lives ++ [l] := rfl
  refine ⟨h.owner, fun p sess hp i q hmem => ?_, ?_, fun p => ?_⟩
  · rw [hlives] at hmem
    rcases List.mem_append.1 hmem with hmem | hmem
    · exact h.apart p sess hp i q hmem
    · rw [← List.mem_singleton.1 hmem] at hl
      cases hl
  · rw [hlives, List.filterMap_append, List.filterMap_cons_none hl, List.filterMap_nil,
      List.append_nil]
    exact h.distinct
  · rw [hlives, List.append_nil]
    exact h.inTurn p

/-- What is under way is dropped. -/
theorem drop (h : v.Paired rt) : v.Paired [] := by
  refine ⟨h.owner, h.apart, h.distinct, fun p => ?_⟩
  have hturn := h.inTurn p
  rw [List.filterMap_append] at hturn
  rw [List.append_nil]
  exact (Seat.inTurn_append.1 hturn).1

/-- A session comes that is not known, for a player who will not be there. -/
theorem opened (h : v.Paired []) (i : ℕ) (hnew : ∀ p, v.seated p ≠ some sess)
    (hwait : ∀ k q, .came sess k q ∉ v.lives)
    (hfree : Seat.after (v.seated p) (v.lives.filterMap (Life.turn p)) = none) :
    (v.append (some (.came sess i p))).Paired [] := by
  have hlives : (v.append (some (.came sess i p))).lives = v.lives ++ [.came sess i p] := rfl
  refine ⟨h.owner, fun q σ hq k q' hmem => ?_, ?_, fun q => ?_⟩
  · rw [hlives] at hmem
    rcases List.mem_append.1 hmem with hmem | hmem
    · exact h.apart q σ hq k q' hmem
    · obtain ⟨rfl, -, -⟩ := Life.came.inj (List.mem_singleton.1 hmem)
      exact hnew q hq
  · rw [hlives, List.filterMap_append]
    refine List.Nodup.append h.distinct (List.nodup_singleton sess) ?_
    rintro σ hσ hsingle
    obtain rfl : σ = sess := List.mem_singleton.1 hsingle
    obtain ⟨l, hl, hopen⟩ := List.mem_filterMap.1 hσ
    cases l with
    | came σ' k q =>
      obtain rfl : σ' = σ := Option.some.inj hopen
      exact hwait k q hl
    | went σ' k q => cases hopen
  · have hturn := h.inTurn q
    rw [List.append_nil] at hturn
    rw [hlives, List.append_nil, List.filterMap_append]
    refine Seat.inTurn_append.2 ⟨hturn, ?_⟩
    by_cases hq : p = q
    · rw [← hq, List.filterMap_cons_some (Life.turn_self p sess i).1]
      exact ⟨hfree, trivial⟩
    · rw [List.filterMap_cons_none (Life.turn_of_ne hq sess i).1]
      trivial

/-- A mapped session is asked to leave, for the first time. -/
theorem closes (h : v.Paired []) (hat : v.seated p = some sess ∨ ∃ k, .came sess k p ∈ v.lives)
    (hfirst : ∀ k q, .went sess k q ∉ v.lives) (i : ℕ) : v.Paired [.went sess i p] := by
  refine ⟨h.owner, h.apart, h.distinct, fun q => ?_⟩
  have hturn := h.inTurn q
  rw [List.append_nil] at hturn
  rw [List.filterMap_append]
  refine Seat.inTurn_append.2 ⟨hturn, ?_⟩
  by_cases hq : p = q
  · have hafter : Seat.after (v.seated q) (v.lives.filterMap (Life.turn q)) = some sess := by
      refine Seat.after_eq_some hturn ?_ fun hmem => ?_
      · rcases hat with hat | ⟨k, hat⟩
        · exact .inl (hq ▸ hat)
        · exact .inr (List.mem_filterMap.2 ⟨_, hat, hq ▸ (Life.turn_self p sess k).1⟩)
      · obtain ⟨l, hl, hleave⟩ := List.mem_filterMap.1 hmem
        cases l with
        | came σ k q' =>
          unfold Life.turn at hleave
          dsimp only at hleave
          split_ifs at hleave
          cases hleave
        | went σ k q' =>
          unfold Life.turn at hleave
          dsimp only at hleave
          split_ifs at hleave
          obtain rfl := Seat.Event.leave.inj (Option.some.inj hleave)
          exact hfirst k q' hl
    rw [hafter, ← hq, List.filterMap_cons_some (Life.turn_self p sess i).2]
    exact ⟨fun k' hk => (Option.some.inj hk).symm, trivial⟩
  · rw [List.filterMap_cons_none (Life.turn_of_ne hq sess i).2]
    trivial

/-- A player is gone. -/
theorem unbind (h : v.Paired rt) (hp : v.seated p = some sess)
    (hone : ∀ q, v.seated q = some sess → q = p) : (v.unbind p sess).Paired rt := by
  refine ⟨fun σ q => ?_, fun q σ hq => ?_, h.distinct, fun q => ?_⟩
  · have howner : (v.unbind p sess).owner σ = if σ = sess then none else v.owner σ := by
      show Function.update v.owner sess none σ = _
      rw [Function.update_apply]
    rw [howner]
    by_cases hq : q = p
    · rw [hq, seated_unbind_self]
      refine iff_of_false ?_ (Option.some_ne_none σ).symm
      by_cases hσ : σ = sess
      · rw [if_pos hσ]
        exact (Option.some_ne_none p).symm
      · rw [if_neg hσ, h.owner, hp]
        exact fun heq => hσ (Option.some.inj heq).symm
    · rw [seated_unbind_of_ne v sess hq, ← h.owner]
      by_cases hσ : σ = sess
      · rw [if_pos hσ]
        refine iff_of_false (Option.some_ne_none q).symm ?_
        rw [hσ, h.owner]
        exact fun heq => hq (hone q heq)
      · rw [if_neg hσ]
  · by_cases hqp : q = p
    · rw [hqp, seated_unbind_self] at hq
      cases hq
    · rw [seated_unbind_of_ne v sess hqp] at hq
      exact h.apart q σ hq
  · have hturn := h.inTurn q
    by_cases hqp : q = p
    · rw [hqp] at hturn ⊢
      rw [hp] at hturn
      rw [seated_unbind_self]
      exact hturn.removed
    · rw [seated_unbind_of_ne v sess hqp]
      exact hturn

/-- A close has been handled. -/
theorem pop {ls : List Life} (h : v.Paired rt) (hv : v.lives = .went sess i p :: ls)
    (hp : v.seated p = none) : { v with lives := ls }.Paired rt := by
  refine ⟨h.owner, fun q σ hq k q' hmem => h.apart q σ hq k q' (hv ▸ List.mem_cons_of_mem _ hmem),
    ?_, fun q => ?_⟩
  · have hd := h.distinct
    have hopener : (Life.went sess i p).opener = none := rfl
    rw [hv, List.filterMap_cons_none hopener] at hd
    exact hd
  · have hturn := h.inTurn q
    rw [hv, List.cons_append] at hturn
    show Seat.InTurn (v.seated q) ((ls ++ rt).filterMap (Life.turn q))
    by_cases hq : p = q
    · rw [← hq, List.filterMap_cons_some (Life.turn_self p sess i).2] at hturn
      rw [← hq, hp]
      exact hturn.2
    · rw [List.filterMap_cons_none (Life.turn_of_ne hq sess i).2] at hturn
      exact hturn

/-- A player comes. -/
theorem bind {ls : List Life} (h : v.Paired rt) (hv : v.lives = .came sess i p :: ls)
    (hp : v.seated p = none) : ({ v with lives := ls }.bind p sess i).Paired rt := by
  set w := ({ v with lives := ls } : View).bind p sess i with hw
  have hself : w.seated p = some sess := seated_bind_self _ p sess i
  have hsame : ∀ {q}, q ≠ p → w.seated q = v.seated q := fun hq => seated_bind_of_ne _ sess i hq
  have hd := h.distinct
  have hopener : (Life.came sess i p).opener = some sess := rfl
  rw [hv, List.filterMap_cons_some hopener] at hd
  obtain ⟨hnot, hnodup⟩ := List.nodup_cons.1 hd
  have hcame : .came sess i p ∈ v.lives := hv ▸ List.mem_cons_self
  refine ⟨fun σ q => ?_, fun q σ hq k q' hmem => ?_, hnodup, fun q => ?_⟩
  · have howner : w.owner σ = if σ = sess then some p else v.owner σ := by
      show Function.update v.owner sess (some p) σ = _
      rw [Function.update_apply]
    rw [howner]
    by_cases hq : q = p
    · rw [hq, hself]
      by_cases hσ : σ = sess
      · rw [if_pos hσ]
        exact iff_of_true rfl (congrArg some hσ.symm)
      · rw [if_neg hσ, h.owner, hp]
        exact iff_of_false (Option.some_ne_none σ).symm fun heq => hσ (Option.some.inj heq).symm
    · rw [hsame hq, ← h.owner]
      by_cases hσ : σ = sess
      · rw [if_pos hσ]
        refine iff_of_false (fun heq => hq (Option.some.inj heq).symm) ?_
        rw [hσ, h.owner]
        exact fun heq => h.apart q sess heq i p hcame
      · rw [if_neg hσ]
  · by_cases hqp : q = p
    · rw [hqp, hself] at hq
      obtain rfl := Option.some.inj hq
      exact hnot (List.mem_filterMap.2 ⟨_, hmem, rfl⟩)
    · rw [hsame hqp] at hq
      exact h.apart q σ hq k q' (hv ▸ List.mem_cons_of_mem _ hmem)
  · have hturn := h.inTurn q
    rw [hv, List.cons_append] at hturn
    show Seat.InTurn (w.seated q) ((ls ++ rt).filterMap (Life.turn q))
    by_cases hq : p = q
    · rw [← hq, List.filterMap_cons_some (Life.turn_self p sess i).1] at hturn
      rw [← hq, hself]
      exact hturn.2
    · rw [List.filterMap_cons_none (Life.turn_of_ne hq sess i).1] at hturn
      rw [hsame (Ne.symm hq)]
      exact hturn

end Paired

end View

/-! ## The registry -/

namespace Registry

/-- The mapped sessions are those that wait or sit, and every room is in order. -/
structure Paired (g : Registry) : Prop where
  mapped : ∀ sess ref, g.mapped sess = some ref ↔ ∃ v, g.rooms ref.roomID = some v ∧ v.At sess ref
  routing : ∀ R l, g.routing = some (R, l) → ∀ sess i p, l ≠ .came sess i p
  room : ∀ R v, g.rooms R = some v → v.Paired (g.sent R)

variable {g g' : Registry} {R : RoomID} {v w : View} {sess : U64} {p : PlayerID} {i : ℕ}
  {ref : SessionRef}

namespace Paired

/-- Nothing that matters here has changed. -/
theorem congr (h : g.Paired) (hrooms : g'.rooms = g.rooms) (hmapped : g'.mapped = g.mapped)
    (hrouting : g'.routing = g.routing) : g'.Paired := by
  have hsent : ∀ R, g'.sent R = g.sent R := fun R => by
    unfold sent
    rw [hrouting]
  refine ⟨fun sess ref => ?_, fun R l hl => h.routing R l (hrouting ▸ hl), fun R v hv => ?_⟩
  · rw [hmapped, hrooms]
    exact h.mapped sess ref
  · rw [hsent]
    exact h.room R v (hrooms ▸ hv)

theorem at_iff (h : g.Paired) (hv : g.rooms R = some v) (hR : ref.roomID = R) :
    g.mapped sess = some ref ↔ v.At sess ref := by
  rw [h.mapped, hR, hv]
  constructor
  · rintro ⟨v', hv', hat⟩
    rwa [Option.some.inj hv']
  · exact fun hat => ⟨v, rfl, hat⟩

/-- A session sits on one seat. -/
theorem seat_unique (h : g.Paired) (hv : g.rooms R = some v) {q : PlayerID}
    (hp : v.seated p = some sess) (hq : v.seated q = some sess) : q = p := by
  obtain ⟨i, hp⟩ := View.seated_eq_some.1 hp
  obtain ⟨j, hq⟩ := View.seated_eq_some.1 hq
  have hmp : g.mapped sess = some ⟨R, p, i⟩ := (h.at_iff hv rfl).2 (.inr hp)
  have hmq : g.mapped sess = some ⟨R, q, j⟩ := (h.at_iff hv rfl).2 (.inr hq)
  rw [hmp] at hmq
  exact (SessionRef.mk.inj (Option.some.inj hmq)).2.1.symm

/-- One room has changed. -/
theorem setRoom (h : g.Paired) (hrooms : g'.rooms = Function.update g.rooms R (some w))
    (hmapped : ∀ sess ref, ref.roomID ≠ R → (g'.mapped sess = some ref ↔ g.mapped sess = some ref))
    (hat : ∀ sess ref, ref.roomID = R → (g'.mapped sess = some ref ↔ w.At sess ref))
    (hrouting : ∀ x, g'.routing = some x → g.routing = some x)
    (hsent : ∀ R', R' ≠ R → g'.sent R' = g.sent R') (hw : w.Paired (g'.sent R)) : g'.Paired := by
  refine ⟨fun sess ref => ?_, fun R l hl => h.routing R l (hrouting _ hl), fun R' v hv => ?_⟩
  · rw [hrooms]
    by_cases hR : ref.roomID = R
    · rw [hat sess ref hR, hR, Function.update_self]
      constructor
      · exact fun hat => ⟨w, rfl, hat⟩
      · rintro ⟨v, hv, hat⟩
        rwa [Option.some.inj hv]
    · rw [hmapped sess ref hR, Function.update_of_ne hR]
      exact h.mapped sess ref
  · rw [hrooms] at hv
    by_cases hR : R' = R
    · rw [hR, Function.update_self] at hv
      rw [hR, ← Option.some.inj hv]
      exact hw
    · rw [Function.update_of_ne hR] at hv
      rw [hsent R' hR]
      exact h.room R' v hv

/-- One room has changed, and the session table has not. -/
theorem setRoom_of_at (h : g.Paired) (hv : g.rooms R = some v)
    (hat : ∀ sess ref, v.At sess ref ↔ w.At sess ref) (hw : w.Paired (g.sent R)) :
    (g.setRoom R w).Paired :=
  h.setRoom rfl (fun _ _ _ => Iff.rfl) (fun sess ref hR => (h.at_iff hv hR).trans (hat sess ref))
    (fun _ hx => hx) (fun _ _ => rfl) hw

/-- The room is there, or is made. -/
theorem ensure (h : g.Paired) (hidle : g.routing = none) (hv : ∀ v', g.rooms R = some v' → v' = v)
    (hnew : g.rooms R = none → v.Paired [] ∧ ∀ sess ref, ¬ v.At sess ref) :
    (g.setRoom R v).Paired := by
  cases hR : g.rooms R with
  | some v' =>
    rw [setRoom_self (hv v' hR ▸ hR)]
    exact h
  | none =>
    obtain ⟨hpaired, hnot⟩ := hnew hR
    refine h.setRoom rfl (fun _ _ _ => Iff.rfl) (fun sess ref hroom => ?_) (fun _ hx => hx)
      (fun _ _ => rfl) ?_
    · refine iff_of_false (fun hmap => ?_) (hnot sess ref)
      obtain ⟨v', hv', -⟩ := (h.mapped sess ref).1 hmap
      rw [hroom, hR] at hv'
      cases hv'
    · have hsent : (g.setRoom R v).sent R = [] := sent_of_none hidle R
      rw [hsent]
      exact hpaired

/-- A player is gone. -/
theorem unbind (h : g.Paired) (hv : g.rooms R = some v) (hbound : v.bound p = some (sess, i)) :
    ((g.setRoom R (v.unbind p sess)).unmap sess).Paired := by
  have hp : v.seated p = some sess := View.seated_eq_some.2 ⟨i, hbound⟩
  have hroom := h.room R v hv
  have hself : ((g.setRoom R (v.unbind p sess)).unmap sess).mapped sess = none :=
    Function.update_self _ _ _
  have hother : ∀ {σ}, σ ≠ sess → ((g.setRoom R (v.unbind p sess)).unmap sess).mapped σ =
      g.mapped σ :=
    fun hσ => Function.update_of_ne hσ _ _
  refine h.setRoom rfl (fun σ ref hR => ?_) (fun σ ref hR => ?_) (fun x hx => hx) (fun _ _ => rfl)
    (hroom.unbind hp fun q hq => h.seat_unique hv hp hq)
  · by_cases hσ : σ = sess
    · rw [hσ, hself]
      refine iff_of_false (Option.some_ne_none ref).symm fun hmap => ?_
      have hmp : g.mapped sess = some ⟨R, p, i⟩ := (h.at_iff hv rfl).2 (.inr hbound)
      rw [hmp] at hmap
      exact hR ((congrArg SessionRef.roomID (Option.some.inj hmap)).symm)
    · rw [hother hσ]
  · by_cases hσ : σ = sess
    · rw [hσ, hself]
      refine iff_of_false (Option.some_ne_none ref).symm ?_
      rintro (hat | hat)
      · exact hroom.apart p sess hp _ _ hat
      · have hseat : (v.unbind p sess).seated ref.player = some sess :=
          View.seated_eq_some.2 ⟨_, hat⟩
        by_cases hq : ref.player = p
        · rw [hq, View.seated_unbind_self] at hseat
          cases hseat
        · rw [View.seated_unbind_of_ne v sess hq] at hseat
          exact hq (h.seat_unique hv hp hseat)
    · rw [hother hσ, h.at_iff hv hR]
      refine or_congr_right ?_
      by_cases hq : ref.player = p
      · have hnone : (v.unbind p sess).bound p = none := Function.update_self _ _ _
        rw [hq, hbound, hnone]
        exact iff_of_false (fun heq => hσ (Prod.mk.inj (Option.some.inj heq)).1.symm)
          (Option.some_ne_none _).symm
      · have hsame : (v.unbind p sess).bound ref.player = v.bound ref.player :=
          Function.update_of_ne hq _ _
        rw [hsame]

/-- A close has been handled that removes nobody. -/
theorem pop (h : g.Paired) (hv : g.rooms R = some v) {ls : List Life}
    (hlives : v.lives = .went sess i p :: ls) (hp : v.seated p = none) :
    (g.setRoom R { v with lives := ls }).Paired := by
  refine h.setRoom_of_at hv (fun σ ref => or_congr_left ?_) ((h.room R v hv).pop hlives hp)
  rw [hlives]
  constructor
  · intro hmem
    rcases List.mem_cons.1 hmem with heq | hmem
    · cases heq
    · exact hmem
  · exact List.mem_cons_of_mem _

/-- A player comes. -/
theorem bind (h : g.Paired) (hv : g.rooms R = some v) {ls : List Life}
    (hlives : v.lives = .came sess i p :: ls) (hp : v.seated p = none) :
    (g.setRoom R (({ v with lives := ls } : View).bind p sess i)).Paired := by
  refine h.setRoom_of_at hv (fun σ ref => ?_) ((h.room R v hv).bind hlives hp)
  have hself : (({ v with lives := ls } : View).bind p sess i).bound p = some (sess, i) :=
    Function.update_self _ _ _
  have hnone : v.bound p = none := Option.map_eq_none_iff.1 hp
  show _ ∨ _ ↔ .came σ ref.stay ref.player ∈ ls ∨ _
  rw [hlives, List.mem_cons]
  by_cases hq : ref.player = p
  · rw [hq, hself, hnone]
    constructor
    · rintro ((heq | hmem) | hb)
      · obtain ⟨rfl, hstay, -⟩ := Life.came.inj heq
        exact .inr (by rw [hstay])
      · exact .inl hmem
      · cases hb
    · rintro (hmem | hb)
      · exact .inl (.inr hmem)
      · obtain ⟨rfl, hstay⟩ := Prod.mk.inj (Option.some.inj hb)
        exact .inl (.inl (by rw [hstay]))
  · have hsame : (({ v with lives := ls } : View).bind p sess i).bound ref.player =
        v.bound ref.player :=
      Function.update_of_ne hq _ _
    have hne : Life.came σ ref.stay ref.player ≠ .came sess i p :=
      fun heq => hq (Life.came.inj heq).2.2
    rw [hsame, or_iff_right hne]

/-- A session comes that is not known, for a player who will not be there. -/
theorem opened (h : g.Paired) (hidle : g.routing = none) (hv : g.rooms R = some v)
    (hnew : g.mapped sess = none)
    (hfree : Seat.after (v.seated p) (v.lives.filterMap (Life.turn p)) = none) (i : ℕ) :
    ((g.setRoom R (v.append (some (.came sess i p)))).map sess ⟨R, p, i⟩).Paired := by
  set g' := (g.setRoom R (v.append (some (.came sess i p)))).map sess ⟨R, p, i⟩ with hg'
  have hnone : g.sent R = [] := sent_of_none hidle R
  have hroom := h.room R v hv
  rw [hnone] at hroom
  have hnot : ∀ ref : SessionRef, ref.roomID = R → ¬ v.At sess ref := fun ref hR hat => by
    rw [(h.at_iff hv hR).2 hat] at hnew
    cases hnew
  have hself : g'.mapped sess = some ⟨R, p, i⟩ := Function.update_self _ _ _
  have hother : ∀ {σ}, σ ≠ sess → g'.mapped σ = g.mapped σ := fun hσ => Function.update_of_ne hσ _ _
  have hsent : g'.sent R = [] := sent_of_none hidle R
  refine h.setRoom rfl (fun σ ref hR => ?_) (fun σ ref hR => ?_) (fun x hx => hx)
    (fun _ _ => rfl) ?_
  · by_cases hσ : σ = sess
    · rw [hσ, hself, hnew]
      refine iff_of_false (fun heq => hR ?_) (Option.some_ne_none ref).symm
      exact (congrArg SessionRef.roomID (Option.some.inj heq)).symm
    · rw [hother hσ]
  · have hlives : (v.append (some (.came sess i p))).lives = v.lives ++ [.came sess i p] := rfl
    by_cases hσ : σ = sess
    · rw [hσ, hself]
      constructor
      · intro heq
        rw [← Option.some.inj heq]
        exact .inl (List.mem_append_right _ List.mem_cons_self)
      · rintro (hmem | hb)
        · rw [hlives] at hmem
          rcases List.mem_append.1 hmem with hmem | hmem
          · exact absurd (.inl hmem) (hnot ref hR)
          · obtain ⟨-, hstay, hplayer⟩ := Life.came.inj (List.mem_singleton.1 hmem)
            rw [← hstay, ← hplayer, ← hR]
        · exact absurd (.inr hb) (hnot ref hR)
    · rw [hother hσ, h.at_iff hv hR]
      refine or_congr_left ?_
      rw [hlives, List.mem_append, List.mem_singleton, or_iff_left]
      exact fun heq => hσ (Life.came.inj heq).1
  · rw [hsent]
    refine hroom.opened i (fun q hq => ?_) (fun k q hmem => ?_) hfree
    · obtain ⟨j, hb⟩ := View.seated_eq_some.1 hq
      exact hnot ⟨R, q, j⟩ rfl (.inr hb)
    · exact hnot ⟨R, q, k⟩ rfl (.inl hmem)

/-- A `SessionClose` is looked up, and no other one of the session waits. -/
theorem closes (h : g.Paired) (hidle : g.routing = none) {ref : SessionRef}
    (hv : g.rooms ref.roomID = some v) (hat : v.At sess ref)
    (hfirst : ∀ k q, Life.went sess k q ∉ v.lives) :
    Registry.Paired { g with routing := some (ref.roomID, .went sess ref.stay ref.player) } := by
  set g' : Registry := { g with routing := some (ref.roomID, .went sess ref.stay ref.player) }
  have hroute : g'.routing = some (ref.roomID, .went sess ref.stay ref.player) := rfl
  refine ⟨h.mapped, fun R l hl σ k q heq => ?_, fun R v' hv' => ?_⟩
  · rw [hroute] at hl
    rw [← (Prod.mk.inj (Option.some.inj hl)).2] at heq
    cases heq
  · have hroom := h.room R v' hv'
    rw [sent_of_none hidle] at hroom
    by_cases hR : ref.roomID = R
    · rw [← hR] at hv' ⊢
      have hvv : g.rooms ref.roomID = some v' := hv'
      rw [hv] at hvv
      obtain rfl := Option.some.inj hvv
      rw [sent_of_some hroute]
      refine hroom.closes ?_ hfirst ref.stay
      rcases hat with hat | hat
      · exact .inr ⟨ref.stay, hat⟩
      · exact .inl (View.seated_eq_some.2 ⟨_, hat⟩)
    · rw [sent_of_ne hroute hR]
      exact hroom

/-- A close that is under way reaches its room. -/
theorem sends (h : g.Paired) {l : Life} (hsent : g.routing = some (R, l))
    (hv : g.rooms R = some v) :
    Registry.Paired { g.setRoom R (v.append (some l)) with routing := none } := by
  have hnot := h.routing R l hsent
  have hopener : l.opener = none := by
    cases l with
    | came σ k q => exact absurd rfl (hnot σ k q)
    | went σ k q => rfl
  have hpaired := h.room R v hv
  rw [sent_of_some hsent] at hpaired
  refine h.setRoom rfl (fun _ _ _ => Iff.rfl)
    (fun σ ref hR => (h.at_iff hv hR).trans (or_congr_left ?_)) (fun x hx => by cases hx)
      (fun R' hR => ?_) (hpaired.push hopener)
  · show _ ↔ Life.came σ ref.stay ref.player ∈ v.lives ++ [l]
    rw [List.mem_append, List.mem_singleton, or_iff_left]
    exact fun heq => hnot _ _ _ heq.symm
  · exact (sent_of_ne hsent (Ne.symm hR)).symm

/-- A room is removed, with the sessions mapped to it. -/
theorem removeRoom (h : g.Paired) (R : RoomID) : (g.removeRoom R).Paired := by
  refine ⟨fun sess ref => ?_, h.routing, fun R' v hv => ?_⟩
  · show (g.mapped sess).filter (fun ref => decide (ref.roomID ≠ R)) = some ref ↔
      ∃ v, Function.update g.rooms R none ref.roomID = some v ∧ v.At sess ref
    rw [Option.filter_eq_some_iff, h.mapped, decide_eq_true_iff]
    by_cases hR : ref.roomID = R
    · rw [hR, Function.update_self]
      refine iff_of_false (fun h => h.2 rfl) ?_
      rintro ⟨v, hv, -⟩
      cases hv
    · rw [Function.update_of_ne hR]
      exact and_iff_left hR
  · have hv' : Function.update g.rooms R none R' = some v := hv
    by_cases hR : R' = R
    · rw [hR, Function.update_self] at hv'
      cases hv'
    · rw [Function.update_of_ne hR] at hv'
      exact h.room R' v hv'

end Paired

end Registry

/-! ## The steps -/

namespace RoomProc

/-- The room once it has handled what waits. -/
def settled (r : RoomProc) : Room :=
  r.waiting.foldl (fun room e => (room.handleEvent e.ev).1) r.room

theorem seated_view (r : RoomProc) (p : PlayerID) : r.view.seated p = r.room.sessAt p := by
  show (r.bound p).map Prod.fst = _
  rw [bound_eq, Option.map_map]
  exact Option.map_id'

/-- Who will sit there. -/
theorem sessAt_settled (r : RoomProc) (p : PlayerID) :
    r.settled.sessAt p = Seat.after (r.view.seated p) (r.view.lives.filterMap (Life.turn p)) := by
  rw [seated_view]
  show (r.waiting.foldl _ r.room).sessAt p =
    Seat.after _ ((r.waiting.filterMap Post.life).filterMap (Life.turn p))
  generalize r.waiting = es, r.room = room
  induction es generalizing room with
  | nil => rfl
  | cons e es ih =>
    rw [List.foldl_cons, ih, Room.sessAt_handleEvent]
    cases hlife : e.life with
    | none =>
      rw [List.filterMap_cons_none hlife]
      congr 1
      unfold Post.life at hlife
      unfold Room.sessAfter
      split at hlife
      · cases hlife
      · cases hlife
      · rfl
    | some l =>
      rw [List.filterMap_cons_some hlife]
      unfold Post.life at hlife
      split at hlife
      · rename_i sess q hev
        rw [hev, ← Option.some.inj hlife]
        unfold Room.sessAfter
        dsimp only
        by_cases hq : q = p
        · rw [if_pos hq, hq, List.filterMap_cons_some (Life.turn_self p sess _).1]
          rfl
        · rw [if_neg hq, List.filterMap_cons_none (Life.turn_of_ne hq sess _).1]
      · rename_i q reason hev
        rw [hev, ← Option.some.inj hlife]
        unfold Room.sessAfter
        dsimp only
        by_cases hq : q = p
        · rw [if_pos hq, hq, List.filterMap_cons_some (Life.turn_self p _ _).2]
          rfl
        · rw [if_neg hq, List.filterMap_cons_none (Life.turn_of_ne hq _ _).2]
      · cases hlife

end RoomProc

namespace Server

/-- `handleSessionOpen` maps a player to a room that will have the player already. -/
def Crowds (s : Server) : ServerAction → Prop
  | .frame _ body _ v _ => ∃ x ∈ s.opens body v, ¬ s.Full x.2.2 ∧ x.2.1 ∈ x.2.2.settled.players
  | _ => False

instance (s : Server) : (a : ServerAction) → Decidable (s.Crowds a)
  | .frame _ body _ v _ => inferInstanceAs
      (Decidable (∃ x ∈ s.opens body v, ¬ s.Full x.2.2 ∧ x.2.1 ∈ x.2.2.settled.players))
  | .send | .dead | .visit _ | .cleared | .take _ | .handle _ | .check _ | .timer _ | .deliver .. |
    .tick .. | .leave .. | .remove _ | .kick .. | .finish _ => .isFalse id

/-- A close of the session waits in its room. -/
def Closing (s : Server) (sess : U64) : Prop :=
  ∃ ref ∈ s.sessions[sess]?, ∃ r ∈ s.rooms[ref.roomID]?,
    ∃ e ∈ r.waiting, e.sess = sess ∧ e.ev.isClose = true

instance (s : Server) (sess : U64) : Decidable (s.Closing sess) :=
  inferInstanceAs (Decidable (∃ ref ∈ s.sessions[sess]?, ∃ r ∈ s.rooms[ref.roomID]?,
    ∃ e ∈ r.waiting, e.sess = sess ∧ e.ev.isClose = true))

/-- A second `SessionClose` is dispatched while the first one waits. -/
def Repeats (s : Server) : ServerAction → Prop
  | .frame typ body _ _ _ =>
    typ = FrameSessionClose ∧ ∃ x ∈ (parseSessionClose body).toOption, s.Closing x.1
  | _ => False

instance (s : Server) : (a : ServerAction) → Decidable (s.Repeats a)
  | .frame typ body _ _ _ => inferInstanceAs
      (Decidable (typ = FrameSessionClose ∧ ∃ x ∈ (parseSessionClose body).toOption, s.Closing x.1))
  | .send | .dead | .visit _ | .cleared | .take _ | .handle _ | .check _ | .timer _ | .deliver .. |
    .tick .. | .leave .. | .remove _ | .kick .. | .finish _ => .isFalse id

/-- `onEngineDead` clears a session. -/
def Clears (s : Server) : ServerAction → Prop
  | .visit sess => s.dying = true ∧ sess ∈ s.sessions
  | _ => False

instance (s : Server) : (a : ServerAction) → Decidable (s.Clears a)
  | .visit sess => inferInstanceAs (Decidable (s.dying = true ∧ sess ∈ s.sessions))
  | .frame .. | .send | .dead | .cleared | .take _ | .handle _ | .check _ | .timer _ | .deliver .. |
    .tick .. | .leave .. | .remove _ | .kick .. | .finish _ => .isFalse id

/-- The steps that mix up no two sessions. -/
def Separates (s : Server) (a : ServerAction) : Prop :=
  s.Valid a ∧ ¬ s.Crowds a ∧ ¬ s.Repeats a ∧ ¬ s.Clears a

instance (s : Server) (a : ServerAction) : Decidable (s.Separates a) :=
  inferInstanceAs (Decidable (s.Valid a ∧ ¬ s.Crowds a ∧ ¬ s.Repeats a ∧ ¬ s.Clears a))

variable {s : Server} {a : ServerAction} {g' : Registry}

theorem not_mapped_of_opens {body : Bytes} {v : Verdict} {sess : U64} {p : PlayerID} {r : RoomProc}
    (h : s.opens body v = some (sess, p, r)) : s.registry.mapped sess = none := by
  unfold opens at h
  split at h
  · split_ifs at h with hc
    obtain ⟨r', -, heq⟩ := Option.map_eq_some_iff.1 h
    rw [← (Prod.mk.inj heq).1]
    exact Std.ExtTreeMap.getElem?_eq_none (not_or.1 hc).2
  · cases h

/-- A room that is made is in order. -/
theorem paired_new (J B : ℕ) :
    (RoomProc.new J B).view.Paired [] ∧ ∀ sess ref, ¬ (RoomProc.new J B).view.At sess ref := by
  rw [RoomProc.view_new]
  refine ⟨⟨fun sess p => ?_, (fun p sess h => nomatch h), List.nodup_nil, fun p => trivial⟩, ?_⟩
  · exact iff_of_false (Option.some_ne_none p).symm (Option.some_ne_none sess).symm
  · rintro sess ref (h | h)
    · cases h
    · cases h

theorem registry_idle (hidle : s.routing = none) : s.registry.routing = none := by
  unfold registry
  rw [hidle]
  rfl

/-- What `handleSessionOpen` finds is in order, once the room is there. -/
theorem paired_of_opens {body : Bytes} {v : Verdict} {sess : U64} {p : PlayerID} {r : RoomProc}
    (hs : s.registry.Paired) (hidle : s.routing = none) (h : s.opens body v = some (sess, p, r)) :
    (s.registry.setRoom v.Route.roomID r.view).Paired := by
  refine hs.ensure (registry_idle hidle) (fun v' hv' => ?_) fun hnone => ?_
  · obtain ⟨r₀, hr₀, rfl⟩ := Option.map_eq_some_iff.1 hv'
    rw [room_of_opens h hr₀]
  · rw [new_of_opens h (Option.map_eq_none_iff.1 hnone)]
    exact paired_new _ _

/-- A session that `handleSessionOpen` maps is the only one of its player. -/
theorem paired_mapSession {body : Bytes} {v : Verdict} {sess : U64} {p : PlayerID} {r : RoomProc}
    (hs : s.registry.Paired) (hidle : s.routing = none) (hopen : s.opens body v = some (sess, p, r))
    (hfree : p ∉ r.settled.players) :
    (((s.registry.begin sess v.Route.roomID).setRoom v.Route.roomID
      (r.view.append (some (.came sess s.next p)))).map sess ⟨v.Route.roomID, p,
      s.next⟩).Paired := by
  have hself : (s.registry.setRoom v.Route.roomID r.view).rooms v.Route.roomID = some r.view :=
    Function.update_self _ _ _
  have hseat : Seat.after (r.view.seated p) (r.view.lives.filterMap (Life.turn p)) = none := by
    rw [← RoomProc.sessAt_settled]
    refine Option.map_eq_none_iff.2 ?_
    by_contra hne
    exact hfree (Room.mem_players_iff.2 hne)
  have hopened := (paired_of_opens hs hidle hopen).opened (registry_idle hidle) hself
    (not_mapped_of_opens hopen) hseat s.next
  refine hopened.congr ?_ rfl rfl
  show Function.update s.registry.rooms _ _ =
    Function.update (Function.update s.registry.rooms _ _) _ _
  rw [Function.update_idem]

/-- A close that waits in a room is of a session that is closing. -/
theorem closing_of_went {sess : U64} {ref : SessionRef} {r : RoomProc}
    (hmap : s.sessions[sess]? = some ref) (hr : s.rooms[ref.roomID]? = some r) {k : ℕ}
    {q : PlayerID} (hmem : Life.went sess k q ∈ r.view.lives) : s.Closing sess := by
  obtain ⟨e, he, hlife⟩ := List.mem_filterMap.1 hmem
  refine ⟨ref, hmap, r, hr, e, he, ?_, isClose_of_life hlife fun _ _ _ h => by cases h⟩
  unfold Post.life at hlife
  split at hlife
  · cases hlife
  · exact (Life.went.inj (Option.some.inj hlife)).1
  · cases hlife

theorem paired_change (h : s.Change a g') (ha : s.Separates a) (hs : s.registry.Paired) :
    g'.Paired := by
  obtain ⟨-, hcrowd, hrepeat, hclear⟩ := ha
  cases h with
  | quiet => exact hs
  | opened hidle hopen hroom =>
    exact paired_mapSession hs hidle hopen fun hmem => hcrowd ⟨_, hopen, hroom, hmem⟩
  | refused hidle hopen hfull => exact (paired_of_opens hs hidle hopen).congr rfl rfl rfl
  | @closes body raw v queued sess reason ref hidle hclose hmap hroom =>
    obtain ⟨r, hr⟩ := Option.isSome_iff_exists.1 (Std.ExtTreeMap.mem_iff_isSome_getElem?.1 hroom)
    have hat : r.view.At sess ref := (hs.at_iff (registry_rooms hr) rfl).1 hmap
    refine (hs.closes (registry_idle hidle) (registry_rooms hr) hat fun k q hmem => ?_).congr
      rfl rfl rfl
    refine hrepeat ⟨rfl, (sess, reason), ?_, closing_of_went hmap hr hmem⟩
    rw [hclose]
    rfl
  | sends hroute hlife hr hroom =>
    exact hs.sends (registry_routing hroute hlife) (registry_rooms hr)
  | drops hroute hlife hfull =>
    exact ⟨hs.mapped, (fun R' l' h => nomatch h), fun R' v hv => (hs.room R' v hv).drop⟩
  | visits hdying hmap hr hroom =>
    exact absurd ⟨hdying, Std.ExtTreeMap.mem_iff_isSome_getElem?.2 (by rw [hmap]; rfl)⟩ hclear
  | loses hdying hmap hfull =>
    exact absurd ⟨hdying, Std.ExtTreeMap.mem_iff_isSome_getElem?.2 (by rw [hmap]; rfl)⟩ hclear
  | @joins R r e sess p hr hheld hev hp =>
    have hnone : r.view.seated p = none := Option.map_eq_none_iff.2 (RoomProc.bound_eq_none.2 hp)
    exact (hs.bind (registry_rooms hr) (RoomProc.lives_inOpen hheld hev) hnone).congr rfl rfl rfl
  | @swallows R r e sess p hr hheld hev hp =>
    -- whoever comes finds the seat free
    have hturn := (hs.room R r.view (registry_rooms hr)).inTurn p
    rw [RoomProc.lives_inOpen hheld hev, List.cons_append,
      List.filterMap_cons_some (Life.turn_self p sess _).1] at hturn
    exact absurd hp (RoomProc.bound_eq_none.1 (Option.map_eq_none_iff.1 hturn.1))
  | @leaves R r e p reason st hr hheld hev hp =>
    have hgone := hs.unbind (registry_rooms hr) (RoomProc.bound_eq_some hp)
    have hpop := hgone.pop (Function.update_self _ _ _) (RoomProc.lives_inClose hheld hev)
      (View.seated_unbind_self r.view p st.sess)
    refine hpop.congr ?_ rfl rfl
    show Function.update s.registry.rooms _ _ =
      Function.update (Function.update s.registry.rooms _ _) _ _
    rw [Function.update_idem]
    rfl
  | @misses R r e p reason hr hheld hev hp =>
    have hnone : r.view.bound p = none :=
      RoomProc.bound_eq_none.2 fun hmem => Room.mem_players_iff.1 hmem hp
    exact hs.pop (registry_rooms hr) (RoomProc.lives_inClose hheld hev)
      (Option.map_eq_none_iff.2 hnone)
  | kicks hr hp =>
    exact (hs.unbind (registry_rooms hr) (RoomProc.bound_eq_some hp)).congr rfl rfl rfl
  | @stops R r a hr hpassed =>
    have hv := registry_rooms hr
    have hroom := hs.room R r.view hv
    exact hs.setRoom_of_at hv (fun _ _ => Iff.rfl)
      ⟨hroom.owner, hroom.apart, hroom.distinct, hroom.inTurn⟩
  | @passes R r p queued st done hr hplace hp hdone =>
    have hv := registry_rooms hr
    have hroom := hs.room R r.view hv
    refine Registry.Paired.congr
      (g := s.registry.setRoom R { r.view with passed := some (p :: done) }) ?_
      rfl rfl rfl
    exact hs.setRoom_of_at hv (fun _ _ => Iff.rfl)
      ⟨hroom.owner, hroom.apart, hroom.distinct, hroom.inTurn⟩
  | removes hr hplace hall => exact hs.removeRoom _

theorem paired_start (M C J B : ℕ) : (start M C J B).registry.Paired := by
  have hrooms : ∀ R, (start M C J B).registry.rooms R = none := by
    intro R
    show ((∅ : Map RoomID RoomProc)[R]?).map RoomProc.view = none
    rw [Std.ExtTreeMap.getElem?_empty]
    rfl
  have hmapped : ∀ sess, (start M C J B).registry.mapped sess = none := fun sess =>
    Std.ExtTreeMap.getElem?_empty
  refine ⟨fun sess ref => ?_, (fun R l h => nomatch h), fun R v hv => ?_⟩
  · rw [hmapped, hrooms]
    refine iff_of_false (Option.some_ne_none ref).symm ?_
    rintro ⟨v, hv, -⟩
    cases hv
  · rw [hrooms] at hv
    cases hv

/-- The close that the room holds is for the session of the player, if the player is there. -/
def ClosesOwn (r : RoomProc) : Prop :=
  ∀ (e : Post) (p : PlayerID) (reason : U8) (st : PState), r.place.held = some e →
    e.ev = .inClose p reason → r.room.players[p]? = some st → st.sess = e.sess

/-- The sessions mapped to the room, its players and `sessOf` are inverse to each other. -/
def Inverse (s : Server) (R : RoomID) (r : RoomProc) : Prop :=
  ∀ (sess : U64) (p : PlayerID),
    ((∃ ref : SessionRef, s.sessions[sess]? = some ref ∧ ref.roomID = R ∧ ref.player = p) ↔
      ∃ st : PState, r.room.players[p]? = some st ∧ st.sess = sess) ∧
    (r.room.sessOf[sess]? = some p ↔ ∃ st : PState, r.room.players[p]? = some st ∧ st.sess = sess)

theorem sessAt_eq_some {r : Room} {p : PlayerID} {sess : U64} :
    r.sessAt p = some sess ↔ ∃ st : PState, r.players[p]? = some st ∧ st.sess = sess :=
  Option.map_eq_some_iff

/-- **A session affects its own player only.** -/
theorem own_player {M C J B : ℕ} (h : Reach step Separates (start M C J B) s) {R : RoomID}
    {r : RoomProc} (hr : s.rooms[R]? = some r) :
    ClosesOwn r ∧ (r.waiting = [] → s.Inverse R r) := by
  have hs : s.registry.Paired :=
    h.invariant (I := fun s => s.registry.Paired) (paired_start M C J B) fun s a hs ha =>
      paired_change (s.step_change a ha.1) ha hs
  have hv := registry_rooms hr
  have hroom := hs.room R r.view hv
  refine ⟨fun e p reason st hheld hev hp => ?_, fun hdrained sess p => ?_⟩
  · have hturn := hroom.inTurn p
    have hseat : r.view.seated p = some st.sess := by
      rw [RoomProc.seated_view]
      exact sessAt_eq_some.2 ⟨st, hp, rfl⟩
    rw [RoomProc.lives_inClose hheld hev, List.cons_append,
      List.filterMap_cons_some (Life.turn_self p e.sess _).2, hseat] at hturn
    exact hturn.1 st.sess rfl
  · have hlives : r.view.lives = [] := by
      show r.waiting.filterMap Post.life = []
      rw [hdrained]
      rfl
    rw [← sessAt_eq_some, ← RoomProc.seated_view]
    refine ⟨?_, hroom.owner sess p⟩
    constructor
    · rintro ⟨ref, hmap, hR, rfl⟩
      rcases (hs.at_iff hv hR).1 hmap with hat | hat
      · rw [hlives] at hat
        cases hat
      · exact View.seated_eq_some.2 ⟨_, hat⟩
    · intro hseat
      obtain ⟨i, hb⟩ := View.seated_eq_some.1 hseat
      have hmap : s.registry.mapped sess = some ⟨R, p, i⟩ := (hs.at_iff hv rfl).2 (.inr hb)
      exact ⟨_, hmap, rfl, rfl⟩

/-! ## Two sessions of one player -/

/-- A player comes, goes, and comes back with another session. -/
def returnRun : List ServerAction :=
  [openFor 1 1 7, openFor 2 2 7] ++ serve 7 ++ serve 7 ++ closeFor 1 ++ [openFor 3 1 7] ++
    serve 7 ++ serve 7

/-- A player comes with two sessions, and the second one is closed. -/
def doubleRun : List ServerAction :=
  [openFor 1 1 7] ++ serve 7 ++ [openFor 2 1 7] ++ serve 7 ++ closeFor 2 ++ [.take 7]

theorem own_player_return :
    ∃ r, (returnRun.foldl step (start 1024 256 2 32)).rooms[(7 : RoomID)]? = some r ∧
      (returnRun.foldl step (start 1024 256 2 32)).Inverse 7 r := by
  have hreach :
      Reach step Separates (start 1024 256 2 32) (returnRun.foldl step (start 1024 256 2 32)) :=
    Reach.foldl (by decide +kernel)
  set s := returnRun.foldl step (start 1024 256 2 32) with hs
  obtain ⟨r, hr, hdrained⟩ := drainedAt_iff.1 (by decide +kernel : s.drainedAt 7 = true)
  exact ⟨r, hr, (own_player hreach hr).2 hdrained⟩

/-- The session of the close that a room holds, and the session of its player. -/
def heldAgainst (s : Server) (R : RoomID) : Option (U64 × Option U64) :=
  (s.rooms[R]?).bind fun r => r.place.held.bind fun e =>
    match e.ev with
    | .inClose p _ => some (e.sess, r.room.sessAt p)
    | _ => none

/-- The close of the second session removes the player of the first. -/
theorem other_player : ¬ ∀ s, Reach step Valid (start 1024 256 2 32) s →
    ∀ (R : RoomID) r, s.rooms[R]? = some r → ClosesOwn r ∧ (r.waiting = [] → s.Inverse R r) := by
  intro h
  have hreach :
      Reach step Valid (start 1024 256 2 32) (doubleRun.foldl step (start 1024 256 2 32)) :=
    Reach.foldl (by decide +kernel)
  set s := doubleRun.foldl step (start 1024 256 2 32) with hs
  have hheld : s.heldAgainst 7 = some (2, some 1) := by decide +kernel
  obtain ⟨r, hr, hrest⟩ := Option.bind_eq_some_iff.1 hheld
  obtain ⟨e, he, hmatch⟩ := Option.bind_eq_some_iff.1 hrest
  split at hmatch
  · rename_i p reason hev
    obtain ⟨hsess, hat⟩ := Prod.mk.inj (Option.some.inj hmatch)
    obtain ⟨st, hst, hone⟩ := sessAt_eq_some.1 hat
    have hown := (h s hreach 7 r hr).1 e p reason st he hev hst
    rw [hone, hsess] at hown
    exact absurd hown (by decide)
  · cases hmatch

end Server

end SoupEngine.Sdk
