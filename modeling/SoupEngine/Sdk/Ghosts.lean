import SoupEngine.Sdk.Standing

/-!
# No ghost players

A session whose `SessionClose` has been dispatched, or which `onEngineDead` has come to, has left
exactly once and is not in the room, when the room has drained its inbox. This holds in every run in
which no room ignores a `SessionOpen`, `routeToRoom` does not drop a close, and `onEngineDead` comes
only to sessions of the player 0 whose inbox has room: its event names no player
(`closed_leaves_once`).
-/

namespace SoupEngine.Sdk

open TransitionSystem

namespace View

/-- The room knows the stay. -/
def Names (v : View) (i : ℕ) : Prop :=
  (∃ sess p, .came sess i p ∈ v.lives) ∨ ∃ p sess, v.bound p = some (sess, i)

/-- A mapped session waits or sits. -/
def At (v : View) (sess : U64) (ref : SessionRef) : Prop :=
  .came sess ref.stay ref.player ∈ v.lives ∨ v.bound ref.player = some (sess, ref.stay)

theorem At.names {v : View} {sess : U64} {ref : SessionRef} (h : v.At sess ref) :
    v.Names ref.stay := by
  rcases h with h | h
  · exact .inl ⟨sess, ref.player, h⟩
  · exact .inr ⟨ref.player, sess, h⟩

end View

/-! ## The invariant -/

namespace Registry

/-- What is under way to a room. -/
def sent (g : Registry) (R : RoomID) : List Life :=
  match g.routing with
  | none => []
  | some (R', l) => if R' = R then [l] else []

/-- Every stay has its place. -/
structure Orderly (g : Registry) : Prop where
  home : ∀ R v, g.rooms R = some v → ∀ i, v.Names i →
    i < g.next ∧ (g.stays i).roomID = R ∧ (g.stays i).ended = false
  mapped : ∀ sess ref, g.mapped sess = some ref → ∃ v, g.rooms ref.roomID = some v ∧ v.At sess ref
  routing : ∀ R l, g.routing = some (R, l) → ∀ sess i p, l ≠ .came sess i p
  standing : ∀ i < g.next, (g.stays i).ended = false →
    ∃ v, g.rooms (g.stays i).roomID = some v ∧
      v.Standing (g.sent (g.stays i).roomID) i (g.stays i)

section

variable {g g' : Registry} {R : RoomID} {v w : View} {i j : ℕ} {sess : U64} {ref : SessionRef}

theorem sent_of_none (h : g.routing = none) (R : RoomID) : g.sent R = [] := by
  unfold sent
  rw [h]

theorem sent_of_some {l : Life} (h : g.routing = some (R, l)) : g.sent R = [l] := by
  unfold sent
  rw [h]
  exact if_pos rfl

theorem sent_of_ne {R' : RoomID} {l : Life} (h : g.routing = some (R', l)) (hR : R' ≠ R) :
    g.sent R = [] := by
  unfold sent
  rw [h]
  exact if_neg hR

theorem stays_note_of_ne (ns : List Notice) (h : i ≠ j) : (g.note j ns).stays i = g.stays i :=
  Function.update_of_ne h _ _

theorem left_note (i : ℕ) (ns : List Notice) :
    ((g.note i ns).stays i).left = (g.stays i).left + ns.count .OnLeave := by
  unfold Stay.left
  rw [notices_note, List.count_append]

theorem closing_note (i j : ℕ) (ns : List Notice) :
    ((g.note j ns).stays i).closing = (g.stays i).closing := by
  by_cases h : i = j
  · rw [h]
    show (Function.update g.stays j _ j).closing = _
    rw [Function.update_self]
  · rw [stays_note_of_ne ns h]

theorem left_close (i j : ℕ) : ((g.close j).stays i).left = (g.stays i).left := by
  by_cases h : i = j
  · rw [h]
    show (Function.update g.stays j _ j).left = _
    rw [Function.update_self]
    rfl
  · show (Function.update g.stays j _ i).left = _
    rw [Function.update_of_ne h]

/-- The stay of a mapped session is at home in its room. -/
theorem Orderly.roomID_mapped (h : g.Orderly) (hmap : g.mapped sess = some ref) :
    (g.stays ref.stay).roomID = ref.roomID := by
  obtain ⟨v, hv, hat⟩ := h.mapped sess ref hmap
  exact (h.home _ v hv _ hat.names).2.1

/-- One room has changed. -/
theorem Orderly.setRoom (h : g.Orderly) (hv : g.rooms R = some v)
    (hrooms : g'.rooms = Function.update g.rooms R (some w)) (hnext : g'.next = g.next)
    (hgrows : ∀ i, (g.stays i).Grows (g'.stays i)) (hnames : ∀ i, w.Names i → v.Names i)
    (hmapped : ∀ sess ref, g'.mapped sess = some ref →
      g.mapped sess = some ref ∧ (v.At sess ref → w.At sess ref))
    (hrouting : ∀ x, g'.routing = some x → g.routing = some x)
    (hothers : ∀ i, (g.stays i).roomID ≠ R →
      (g.stays i).Same (g'.stays i) ∧ g.sent (g.stays i).roomID ⊆ g'.sent (g.stays i).roomID)
    (hstanding : ∀ i, v.Standing (g.sent R) i (g.stays i) → w.Standing (g'.sent R) i (g'.stays i)) :
    g'.Orderly where
  home := by
    intro R' v' hv' i hi
    rw [hnext, (hgrows i).roomID, (hgrows i).ended]
    rw [hrooms] at hv'
    by_cases hR : R' = R
    · rw [hR, Function.update_self] at hv'
      rw [hR]
      exact h.home R v hv i (hnames i ((Option.some.inj hv').symm ▸ hi))
    · rw [Function.update_of_ne hR] at hv'
      exact h.home R' v' hv' i hi
  mapped := by
    intro sess ref hmap
    obtain ⟨hold, hat⟩ := hmapped sess ref hmap
    obtain ⟨v', hv', hat'⟩ := h.mapped sess ref hold
    rw [hrooms]
    by_cases hR : ref.roomID = R
    · rw [hR, hv] at hv'
      refine ⟨w, by rw [hR, Function.update_self], hat ?_⟩
      rwa [Option.some.inj hv']
    · exact ⟨v', by rw [Function.update_of_ne hR, hv'], hat'⟩
  routing := fun R l hl => h.routing R l (hrouting _ hl)
  standing := by
    intro i hi hended
    rw [hnext] at hi
    rw [(hgrows i).ended] at hended
    obtain ⟨v', hv', hst⟩ := h.standing i hi hended
    rw [hrooms, (hgrows i).roomID]
    by_cases hR : (g.stays i).roomID = R
    · rw [hR] at hv' hst ⊢
      rw [hv] at hv'
      refine ⟨w, Function.update_self _ _ _, hstanding i ?_⟩
      rwa [Option.some.inj hv']
    · obtain ⟨hsame, hsub⟩ := hothers i hR
      exact ⟨v', by rw [Function.update_of_ne hR, hv'], (hst.weaken hsub).congr hsame⟩

/-- The room is there, or is made. -/
theorem Orderly.ensure (h : g.Orderly) (hv : ∀ v', g.rooms R = some v' → v' = v)
    (hnew : g.rooms R = none → ∀ i, ¬ v.Names i) : (g.setRoom R v).Orderly := by
  cases hR : g.rooms R with
  | some v' =>
    rw [setRoom_self (hv v' hR ▸ hR)]
    exact h
  | none =>
    have hne : ∀ {R' : RoomID} {v' : View}, g.rooms R' = some v' →
        (g.setRoom R v).rooms R' = some v' := by
      intro R' v' hv'
      refine (Function.update_of_ne ?_ _ _).trans hv'
      rintro rfl
      rw [hR] at hv'
      cases hv'
    refine ⟨fun R' v' hv' i hi => ?_, fun sess ref hmap => ?_, h.routing, fun i hi hended => ?_⟩
    · by_cases hRR : R' = R
      · rw [hRR] at hv'
        have hself : (g.setRoom R v).rooms R = some v := Function.update_self _ _ _
        rw [hself] at hv'
        exact absurd ((Option.some.inj hv').symm ▸ hi) (hnew hR i)
      · exact h.home R' v' ((Function.update_of_ne hRR _ _).symm.trans hv') i hi
    · obtain ⟨v', hv', hat⟩ := h.mapped sess ref hmap
      exact ⟨v', hne hv', hat⟩
    · obtain ⟨v', hv', hst⟩ := h.standing i hi hended
      exact ⟨v', hne hv', hst⟩

/-- A stay begins, and its `SessionOpen` waits. -/
theorem Orderly.opened (h : g.Orderly) (hv : g.rooms R = some v) (sess : U64) (p : PlayerID) :
    (((g.begin sess R).setRoom R (v.append (some (.came sess g.next p)))).map sess
      ⟨R, p, g.next⟩).Orderly := by
  set w := v.append (some (.came sess g.next p)) with hw
  have hfresh : ∀ {R' v'}, g.rooms R' = some v' → ∀ i, v'.Names i → i ≠ g.next := fun hv' i hi =>
    ne_of_lt (h.home _ _ hv' i hi).1
  have hself : Function.update g.rooms R (some w) R = some w := Function.update_self _ _ _
  have hcame : ∀ {σ k q}, Life.came σ k q ∈ w.lives → .came σ k q ∈ v.lives ∨ k = g.next := by
    intro σ k q hmem
    rcases List.mem_append.1 hmem with hmem | hmem
    · exact .inl hmem
    · exact .inr (Life.came.inj (List.mem_singleton.1 hmem)).2.1
  refine ⟨fun R' v' hv' i hi => ?_, fun σ ref hmap => ?_, h.routing, fun i hi hended => ?_⟩
  · show i < g.next + 1 ∧ ((g.begin sess R).stays i).roomID = R' ∧
      ((g.begin sess R).stays i).ended = false
    have hold (hlt : i < g.next ∧ (g.stays i).roomID = R' ∧ (g.stays i).ended = false) :
        i < g.next + 1 ∧ ((g.begin sess R).stays i).roomID = R' ∧
          ((g.begin sess R).stays i).ended = false := by
      rw [stays_begin_of_ne sess R (ne_of_lt hlt.1)]
      exact ⟨Nat.lt_succ_of_lt hlt.1, hlt.2⟩
    by_cases hR : R' = R
    · rw [hR] at hv' hold ⊢
      obtain rfl := Option.some.inj (hself.symm.trans hv')
      by_cases hnew : i = g.next
      · rw [hnew, stays_begin_self]
        exact ⟨Nat.lt_succ_self _, rfl, rfl⟩
      · refine hold (h.home R v hv i ?_)
        rcases hi with ⟨σ, q, hmem⟩ | hi
        · exact .inl ⟨σ, q, (hcame hmem).resolve_right hnew⟩
        · exact .inr hi
    · exact hold (h.home R' v' ((Function.update_of_ne hR _ _).symm.trans hv') i hi)
  · show ∃ v, Function.update g.rooms R (some w) ref.roomID = some v ∧ v.At σ ref
    have hmap' : Function.update g.mapped sess (some ⟨R, p, g.next⟩) σ = some ref := hmap
    by_cases hσ : σ = sess
    · rw [hσ, Function.update_self] at hmap'
      rw [← Option.some.inj hmap', hσ]
      exact ⟨w, hself, .inl (List.mem_append_right _ List.mem_cons_self)⟩
    · rw [Function.update_of_ne hσ] at hmap'
      obtain ⟨v', hv', hat⟩ := h.mapped σ ref hmap'
      by_cases hR : ref.roomID = R
      · rw [hR] at hv' ⊢
        rw [hv] at hv'
        obtain rfl := Option.some.inj hv'
        refine ⟨w, hself, ?_⟩
        rcases hat with hat | hat
        · exact .inl (List.mem_append_left _ hat)
        · exact .inr hat
      · exact ⟨v', (Function.update_of_ne hR _ _).trans hv', hat⟩
  · show ∃ v, Function.update g.rooms R (some w) ((g.begin sess R).stays i).roomID = some v ∧
      v.Standing (g.sent ((g.begin sess R).stays i).roomID) i ((g.begin sess R).stays i)
    by_cases hnew : i = g.next
    · rw [hnew, stays_begin_self]
      have hsplit : w.lives = v.lives ++ .came sess g.next p :: [] := rfl
      refine ⟨w, hself,
        .waits hsplit (fun σ q hmem => ?_) (fun q σ hb => ?_) rfl fun hc => by cases hc⟩
      · rw [List.append_nil] at hmem
        exact hfresh hv _ (.inl ⟨σ, q, hmem⟩) rfl
      · exact hfresh hv _ (.inr ⟨q, σ, hb⟩) rfl
    · have hlt : i < g.next := lt_of_le_of_ne (Nat.lt_succ_iff.1 hi) hnew
      have hstay : (g.begin sess R).stays i = g.stays i := stays_begin_of_ne sess R hnew
      have hended' : ((g.begin sess R).stays i).ended = false := hended
      rw [hstay] at hended' ⊢
      obtain ⟨v', hv', hst⟩ := h.standing i hlt hended'
      by_cases hR : (g.stays i).roomID = R
      · rw [hR] at hv' hst ⊢
        rw [hv] at hv'
        obtain rfl := Option.some.inj hv'
        refine ⟨w, hself, (hst.weaken (List.subset_cons_self _ _)).push fun σ q heq => ?_⟩
        exact hnew (Life.came.inj heq).2.1.symm
      · exact ⟨v', (Function.update_of_ne hR _ _).trans hv', hst⟩

/-- A stay begins and is refused. -/
theorem Orderly.refused (h : g.Orderly) (hv : g.rooms R = some v) (sess : U64) (ns : List Notice) :
    ((g.begin sess R).note g.next ns).Orderly := by
  have hfresh : ∀ {R' v'}, g.rooms R' = some v' → ∀ i, v'.Names i → i ≠ g.next := fun hv' i hi =>
    ne_of_lt (h.home _ _ hv' i hi).1
  have hstay : ∀ i, i ≠ g.next → ((g.begin sess R).note g.next ns).stays i = g.stays i :=
      fun i hne =>
    (stays_note_of_ne ns hne).trans (stays_begin_of_ne sess R hne)
  refine ⟨fun R' v' hv' i hi => ?_, h.mapped, h.routing, fun i hi hended => ?_⟩
  · rw [hstay i (hfresh hv' i hi)]
    obtain ⟨hlt, hrest⟩ := h.home R' v' hv' i hi
    exact ⟨Nat.lt_succ_of_lt hlt, hrest⟩
  · by_cases hnew : i = g.next
    · have hself : ((g.begin sess R).note g.next ns).stays g.next =
          ⟨sess, R, ns, false, false⟩ := by
        show Function.update (g.begin sess R).stays g.next _ g.next = _
        rw [Function.update_self, stays_begin_self]
        rfl
      rw [hnew, hself]
      refine ⟨v, hv, .gone (fun σ q hmem => ?_) (fun q σ hb => ?_) fun hc => by cases hc⟩
      · exact hfresh hv _ (.inl ⟨σ, q, hmem⟩) rfl
      · exact hfresh hv _ (.inr ⟨q, σ, hb⟩) rfl
    · rw [hstay i hnew] at hended ⊢
      exact h.standing i (lt_of_le_of_ne (Nat.lt_succ_iff.1 hi) hnew) hended

/-- A player is gone. -/
theorem Orderly.unbind (h : g.Orderly) (hv : g.rooms R = some v) {p : PlayerID}
    (hbound : v.bound p = some (sess, j)) {ns : List Notice} (hns : ns.count .OnLeave = 1) :
    (((g.setRoom R (v.unbind p sess)).unmap sess).note j ns).Orderly := by
  have hhome := (h.home R v hv j (.inr ⟨p, sess, hbound⟩)).2.1
  have hsame : ∀ q, q ≠ p → (v.unbind p sess).bound q = v.bound q :=
    fun q hq => Function.update_of_ne hq _ _
  refine h.setRoom hv rfl rfl (fun i => grows_note i j ns) (fun i hi => ?_) (fun σ ref hmap => ?_)
    (fun x hx => hx) (fun i hi => ⟨?_, List.Subset.refl _⟩) fun i hst => ?_
  · rcases hi with hi | ⟨q, σ, hb⟩
    · exact .inl hi
    · by_cases hq : q = p
      · rw [hq] at hb
        have hnone : (v.unbind p sess).bound p = none := Function.update_self _ _ _
        rw [hnone] at hb
        cases hb
      · exact .inr ⟨q, σ, (hsame q hq).symm.trans hb⟩
  · have hmap' : Function.update g.mapped sess none σ = some ref := hmap
    by_cases hσ : σ = sess
    · rw [hσ, Function.update_self] at hmap'
      cases hmap'
    · rw [Function.update_of_ne hσ] at hmap'
      refine ⟨hmap', fun hat => ?_⟩
      rcases hat with hat | hat
      · exact .inl hat
      · have hq : ref.player ≠ p := by
          intro hq
          rw [hq, hbound] at hat
          exact hσ (Prod.mk.inj (Option.some.inj hat)).1.symm
        exact .inr ((hsame _ hq).trans hat)
  · have hne : i ≠ j := by
      rintro rfl
      exact hi hhome
    exact stays_note_of_ne (g := g) ns hne ▸ .refl _
  · refine hst.unbind hbound (closing_note (g := g) i j ns) (fun hij => ?_) (fun hne => ?_) sess
    · rw [hij, ← hns]
      exact left_note (g := g) j ns
    · exact congrArg Stay.left (stays_note_of_ne (g := g) ns hne)

/-- An event has been handled that makes nobody come or go. -/
theorem Orderly.pop (h : g.Orderly) (hv : g.rooms R = some v) {ls : List Life} {k : ℕ}
    {p : PlayerID} (hlives : v.lives = .went sess k p :: ls) (hbound : v.bound p = none)
    (hpassed : v.passed = none) :
    (g.setRoom R { v with lives := ls }).Orderly := by
  refine h.setRoom hv rfl rfl (fun i => .refl _) (fun i hi => ?_)
    (fun σ ref hmap => ⟨hmap, fun hat => ?_⟩) (fun x hx => hx)
      (fun i _ => ⟨.refl _, List.Subset.refl _⟩)
    fun i hst => hst.pop hlives (fun σ q h => by cases h) (fun q σ k h => ?_) hpassed
  · rcases hi with ⟨σ, q, hmem⟩ | hi
    · refine .inl ⟨σ, q, ?_⟩
      rw [hlives]
      exact List.mem_cons_of_mem _ hmem
    · exact .inr hi
  · rcases hat with hat | hat
    · rw [hlives] at hat
      rcases List.mem_cons.1 hat with heq | hat
      · cases heq
      · exact .inl hat
    · exact .inr hat
  · cases h
    exact hbound

/-- A `SessionClose` is looked up. -/
theorem Orderly.closes (h : g.Orderly) (hidle : g.routing = none)
    (hmap : g.mapped sess = some ref) :
    ({ g with routing := some (ref.roomID, .went sess ref.stay ref.player) }.close
      ref.stay).Orderly := by
  set g' := { g with routing := some (ref.roomID, .went sess ref.stay ref.player) }.close
    ref.stay with hg'
  have hgrows : ∀ i, (g.stays i).Grows (g'.stays i) := fun i => grows_close i ref.stay
  have hroute : g'.routing = some (ref.roomID, .went sess ref.stay ref.player) := rfl
  obtain ⟨v, hv, hat⟩ := h.mapped sess ref hmap
  refine ⟨fun R' v' hv' i hi => ?_, h.mapped, fun R' l hl σ k q heq => ?_, fun i hi hended => ?_⟩
  · rw [(hgrows i).roomID, (hgrows i).ended]
    exact h.home R' v' hv' i hi
  · rw [hroute] at hl
    rw [← (Prod.mk.inj (Option.some.inj hl)).2] at heq
    cases heq
  · rw [(hgrows i).ended] at hended
    rw [(hgrows i).roomID]
    obtain ⟨v', hv', hst⟩ := h.standing i hi hended
    rw [sent_of_none hidle] at hst
    refine ⟨v', hv', ?_⟩
    by_cases hi : i = ref.stay
    · rw [hi, h.roomID_mapped hmap] at hv' ⊢
      rw [hv] at hv'
      obtain rfl := Option.some.inj hv'
      rw [sent_of_some hroute]
      rw [hi] at hst
      exact (hst.weaken (List.nil_subset _)).closed hat ⟨sess, ref.stay, List.mem_cons_self⟩
        (left_close _ _)
    · have hsame : g'.stays i = g.stays i := Function.update_of_ne hi _ _
      rw [hsame]
      exact hst.weaken (List.nil_subset _)

/-- A close that is under way reaches its room. -/
theorem Orderly.sends {l : Life} (h : g.Orderly) (hsent : g.routing = some (R, l))
    (hv : g.rooms R = some v) :
    Orderly { g.setRoom R (v.append (some l)) with routing := none } := by
  have hnot : ∀ {i σ q}, l ≠ .came σ i q := fun {i σ q} => h.routing R l hsent σ i q
  refine h.setRoom hv rfl rfl (fun i => .refl _) (fun i hi => ?_)
    (fun sess ref hmap => ⟨hmap, fun hat => ?_⟩) (fun x hx => by cases hx)
      (fun i hi => ⟨.refl _, ?_⟩)
    fun i hst => ?_
  · rcases hi with ⟨σ, q, hmem⟩ | hi
    · rcases List.mem_append.1 hmem with hmem | hmem
      · exact .inl ⟨σ, q, hmem⟩
      · exact absurd (List.mem_singleton.1 hmem).symm hnot
    · exact .inr hi
  · rcases hat with hat | hat
    · exact .inl (List.mem_append_left _ hat)
    · exact .inr hat
  · rw [sent_of_ne hsent (Ne.symm hi)]
    exact List.nil_subset _
  · rw [sent_of_some hsent] at hst
    exact hst.push fun σ q => hnot

/-- A close that is under way to a room that is gone is dropped. -/
theorem Orderly.drops {l : Life} (h : g.Orderly) (hsent : g.routing = some (R, l))
    (hgone : g.rooms R = none) : Orderly { g with routing := none } := by
  refine ⟨h.home, h.mapped, (fun R' l' h => nomatch h), fun i hi hended => ?_⟩
  obtain ⟨v, hv, hst⟩ := h.standing i hi hended
  refine ⟨v, hv, hst.weaken ?_⟩
  have hne : R ≠ (g.stays i).roomID := by
    intro hR
    rw [← hR, hgone] at hv
    cases hv
  rw [sent_of_ne hsent hne]
  exact List.nil_subset _

/-- `onEngineDead` comes to a session of the player 0. -/
theorem Orderly.visits (h : g.Orderly) (hmap : g.mapped sess = some ref)
    (hv : g.rooms ref.roomID = some v) (hplayer : ref.player = 0) :
    (((g.setRoom ref.roomID (v.append (some (.went sess ref.stay 0)))).unmap sess).close
      ref.stay).Orderly := by
  have hhome := h.roomID_mapped hmap
  have hat : v.At sess ref := by
    obtain ⟨v', hv', hat⟩ := h.mapped sess ref hmap
    rw [hv] at hv'
    rwa [Option.some.inj hv']
  refine h.setRoom hv rfl rfl (fun i => grows_close i ref.stay) (fun i hi => ?_)
    (fun σ ref' hmap' => ?_) (fun x hx => hx) (fun i hi => ?_) fun i hst => ?_
  · rcases hi with ⟨σ, q, hmem⟩ | hi
    · rcases List.mem_append.1 hmem with hmem | hmem
      · exact .inl ⟨σ, q, hmem⟩
      · cases List.mem_singleton.1 hmem
    · exact .inr hi
  · refine ⟨?_, fun hat => ?_⟩
    · have hmap'' : Function.update g.mapped sess none σ = some ref' := hmap'
      by_cases hσ : σ = sess
      · rw [hσ, Function.update_self] at hmap''
        cases hmap''
      · rwa [Function.update_of_ne hσ] at hmap''
    · rcases hat with hat | hat
      · exact .inl (List.mem_append_left _ hat)
      · exact .inr hat
  · have hne : i ≠ ref.stay := by
      rintro rfl
      exact hi hhome
    have hsame : (g.close ref.stay).stays i = g.stays i := Function.update_of_ne hne _ _
    exact ⟨hsame ▸ .refl _, List.Subset.refl _⟩
  · -- first the event is under way, then it arrives
    have hst' := hst.weaken (List.subset_cons_self (Life.went sess ref.stay 0) (g.sent ref.roomID))
    refine View.Standing.push ?_ fun σ q h => by cases h
    by_cases hi : i = ref.stay
    · rw [hi] at hst' ⊢
      refine hst'.closed hat ?_ (left_close _ _)
      rw [hplayer]
      exact ⟨sess, ref.stay, List.mem_cons_self⟩
    · have hsame : (g.close ref.stay).stays i = g.stays i := Function.update_of_ne hi _ _
      exact hsame ▸ hst'

/-- A player comes. -/
theorem Orderly.bind (h : g.Orderly) (hv : g.rooms R = some v) {ls : List Life} {p : PlayerID}
    (hlives : v.lives = .came sess j p :: ls) (hnone : v.bound p = none)
    (hpassed : v.passed = none) :
    ((g.setRoom R (View.bind { v with lives := ls } p sess j)).note j [.OnJoin]).Orderly := by
  have hsame : ∀ i, (g.stays i).Same ((g.note j [.OnJoin]).stays i) := by
    intro i
    refine ⟨closing_note i j _, ?_⟩
    by_cases hi : i = j
    · rw [hi, left_note]
      rfl
    · rw [stays_note_of_ne _ hi]
  refine h.setRoom hv rfl rfl (fun i => grows_note i j _) (fun i hi => ?_)
    (fun σ ref hmap => ⟨hmap, fun hat => ?_⟩) (fun x hx => hx)
      (fun i _ => ⟨hsame i, List.Subset.refl _⟩)
    fun i hst => hst.bind hlives hnone hpassed (hsame i)
  · rcases hi with ⟨σ, q, hmem⟩ | ⟨q, σ, hb⟩
    · refine .inl ⟨σ, q, ?_⟩
      rw [hlives]
      exact List.mem_cons_of_mem _ hmem
    · by_cases hq : q = p
      · left
        have hself : (View.bind { v with lives := ls } p sess j).bound q = some (sess, j) :=
          hq ▸ Function.update_self _ _ _
        rw [hself] at hb
        refine ⟨sess, p, ?_⟩
        rw [hlives, (Prod.mk.inj (Option.some.inj hb)).2]
        exact List.mem_cons_self
      · exact .inr ⟨q, σ, (Function.update_of_ne hq _ _).symm.trans hb⟩
  · rcases hat with hat | hat
    · rw [hlives] at hat
      rcases List.mem_cons.1 hat with heq | hat
      · obtain ⟨rfl, hstay, rfl⟩ := Life.came.inj heq
        right
        rw [hstay]
        exact Function.update_self _ _ _
      · exact .inl hat
    · have hq : ref.player ≠ p := by
        intro hq
        rw [hq, hnone] at hat
        cases hat
      exact .inr ((Function.update_of_ne hq _ _).trans hat)

/-- `stop` comes to a player. -/
theorem Orderly.pass (h : g.Orderly) (hv : g.rooms R = some v) {p : PlayerID}
    (hbound : v.bound p = some (sess, j)) (done : List PlayerID) (ns : List Notice) :
    ((g.setRoom R { v with passed := some (p :: done) }).note j ns).Orderly := by
  have hhome := (h.home R v hv j (.inr ⟨p, sess, hbound⟩)).2.1
  refine h.setRoom hv rfl rfl (fun i => grows_note i j _) (fun i hi => hi)
    (fun σ ref hmap => ⟨hmap, fun hat => hat⟩) (fun x hx => hx)
    (fun i hi => ⟨?_, List.Subset.refl _⟩) fun i hst => ?_
  · have hne : i ≠ j := by
      rintro rfl
      exact hi hhome
    exact stays_note_of_ne (g := g) _ hne ▸ .refl _
  · exact hst.pass hbound (closing_note _ _ _)
      (fun hne => congrArg Stay.left (stays_note_of_ne _ hne)) _

/-- A room is removed. -/
theorem Orderly.removeRoom (h : g.Orderly) (R : RoomID) : (g.removeRoom R).Orderly := by
  have hstay : ∀ {i}, (g.stays i).roomID ≠ R → (g.removeRoom R).stays i = g.stays i :=
    fun h => if_neg h
  have hended : ∀ {i}, (g.stays i).roomID = R → ((g.removeRoom R).stays i).ended = true :=
    fun h => congrArg Stay.ended (if_pos h)
  have hrooms : ∀ {R' : RoomID} {v : View}, (g.removeRoom R).rooms R' = some v →
      R' ≠ R ∧ g.rooms R' = some v := by
    intro R' v hv
    have hv' : Function.update g.rooms R none R' = some v := hv
    by_cases hR : R' = R
    · rw [hR, Function.update_self] at hv'
      cases hv'
    · rw [Function.update_of_ne hR] at hv'
      exact ⟨hR, hv'⟩
  refine ⟨fun R' v hv i hi => ?_, fun sess ref hmap => ?_, h.routing, fun i hi hnot => ?_⟩
  · obtain ⟨hR, hv'⟩ := hrooms hv
    have hhome := h.home R' v hv' i hi
    rw [hstay (hhome.2.1 ▸ hR)]
    exact hhome
  · have hmap' : (g.mapped sess).filter (fun ref => decide (ref.roomID ≠ R)) = some ref := hmap
    obtain ⟨hold, hne⟩ := Option.filter_eq_some_iff.1 hmap'
    obtain ⟨v, hv, hat⟩ := h.mapped sess ref hold
    exact ⟨v, (Function.update_of_ne (of_decide_eq_true hne) _ _).trans hv, hat⟩
  · by_cases hR : (g.stays i).roomID = R
    · rw [hended hR] at hnot
      cases hnot
    · rw [hstay hR] at hnot ⊢
      obtain ⟨v, hv, hst⟩ := h.standing i hi hnot
      exact ⟨v, (Function.update_of_ne hR _ _).trans hv, hst⟩

end

end Registry

/-! ## The steps -/

/-- A `SessionClose`. -/
def InEvent.isClose : InEvent → Bool
  | .inClose _ _ => true
  | _ => false

theorem isClose_of_life {e : Post} {l : Life} (h : e.life = some l)
    (hl : ∀ sess i p, l ≠ .came sess i p) :
    e.ev.isClose = true := by
  unfold Post.life at h
  split at h
  · exact absurd (Option.some.inj h).symm (hl _ _ _)
  · rename_i hev
    rw [hev]
    rfl
  · cases h

namespace Server

/-- A close finds the inbox full. -/
def Overflows (s : Server) : ServerAction → Prop
  | .send => ∃ x ∈ s.routing, x.2.ev.isClose = true ∧ ∃ r ∈ s.rooms[x.1]?, s.Full r
  | _ => False

instance (s : Server) : (a : ServerAction) → Decidable (s.Overflows a)
  | .send => inferInstanceAs
      (Decidable (∃ x ∈ s.routing, x.2.ev.isClose = true ∧ ∃ r ∈ s.rooms[x.1]?, s.Full r))
  | .frame .. | .dead | .visit _ | .cleared | .take _ | .handle _ | .check _ | .timer
    _ | .deliver .. | .tick .. | .leave .. | .remove _ | .kick .. | .finish _ => .isFalse id

/-- `onEngineDead` comes to a session of another player than 0, or finds the inbox full. -/
def Misnames (s : Server) : ServerAction → Prop
  | .visit sess => ∃ ref ∈ s.sessions[sess]?, ref.player ≠ 0 ∨ ∃ r ∈ s.rooms[ref.roomID]?, s.Full r
  | _ => False

instance (s : Server) : (a : ServerAction) → Decidable (s.Misnames a)
  | .visit sess => inferInstanceAs
      (Decidable (∃ ref ∈ s.sessions[sess]?, ref.player ≠ 0 ∨ ∃ r ∈ s.rooms[ref.roomID]?, s.Full r))
  | .frame .. | .send | .dead | .cleared | .take _ | .handle _ | .check _ | .timer _ | .deliver .. |
    .tick .. | .leave .. | .remove _ | .kick .. | .finish _ => .isFalse id

/-- The steps that lose no close. -/
def Carries (s : Server) (a : ServerAction) : Prop :=
  s.Valid a ∧ ¬ s.Swallows a ∧ ¬ s.Overflows a ∧ ¬ s.Misnames a

instance (s : Server) (a : ServerAction) : Decidable (s.Carries a) :=
  inferInstanceAs (Decidable (s.Valid a ∧ ¬ s.Swallows a ∧ ¬ s.Overflows a ∧ ¬ s.Misnames a))

/-- A room that `handleSessionOpen` makes is empty. -/
theorem not_names_of_opens {s : Server} {body : Bytes} {v : Verdict} {sess : U64} {p : PlayerID}
    {r : RoomProc} (h : s.opens body v = some (sess, p, r))
    (hnone : s.rooms[v.Route.roomID]? = none) (i : ℕ) : ¬ r.view.Names i := by
  rw [new_of_opens h hnone, RoomProc.view_new]
  rintro (⟨σ, q, hmem⟩ | ⟨q, σ, hb⟩)
  · cases hmem
  · cases hb

section

variable {s : Server} {a : ServerAction} {g' : Registry}

/-- What `handleSessionOpen` finds is orderly, once the room is there. -/
theorem ensured_of_opens {body : Bytes} {v : Verdict} {sess : U64} {p : PlayerID} {r : RoomProc}
    (hs : s.registry.Orderly) (h : s.opens body v = some (sess, p, r)) :
    (s.registry.setRoom v.Route.roomID r.view).Orderly := by
  refine hs.ensure (fun v' hv' => ?_) fun hnone => not_names_of_opens h ?_
  · obtain ⟨r₀, hr₀, rfl⟩ := Option.map_eq_some_iff.1 hv'
    rw [room_of_opens h hr₀]
  · exact Option.map_eq_none_iff.1 hnone

/-- A session that `handleSessionOpen` maps waits in its room. -/
theorem orderly_mapSession {body : Bytes} {v : Verdict} {sess : U64} {p : PlayerID} {r : RoomProc}
    (hs : s.registry.Orderly) (hopen : s.opens body v = some (sess, p, r)) :
    (((s.registry.begin sess v.Route.roomID).setRoom v.Route.roomID
      (r.view.append (some (.came sess s.next p)))).map sess ⟨v.Route.roomID, p,
      s.next⟩).Orderly := by
  have h := (ensured_of_opens hs hopen).opened (Function.update_self _ _ _) sess p
  have heq : ((s.registry.setRoom v.Route.roomID r.view).begin sess v.Route.roomID).setRoom
      v.Route.roomID (r.view.append (some (.came sess s.next p))) =
        (s.registry.begin sess v.Route.roomID).setRoom v.Route.roomID
          (r.view.append (some (.came sess s.next p))) := by
    unfold Registry.setRoom Registry.begin
    dsimp only
    rw [Function.update_idem]
  exact (congrArg (fun g => (Registry.map g sess ⟨v.Route.roomID, p, s.next⟩).Orderly) heq).mp h

/-- A close that a player is there for: the player goes, and then the event. -/
theorem orderly_leave {R : RoomID} {r : RoomProc} {e : Post} {p : PlayerID} {reason : U8}
    {st : PState} (hs : s.registry.Orderly) (hr : s.rooms[R]? = some r)
    (hheld : r.place.held = some e) (hev : e.ev = .inClose p reason)
    (hp : r.room.players[p]? = some st) :
    (((s.registry.setRoom R (r.ahead.unbind p st.sess)).unmap st.sess).note (r.stayOf p)
      [.OnLeave]).Orderly := by
  have hlives := RoomProc.lives_inClose hheld hev
  have hpassed : r.view.passed = none := (RoomProc.held_handled hheld).2.2
  have hone : [Notice.OnLeave].count .OnLeave = 1 := rfl
  have hgone := hs.unbind (registry_rooms hr) (RoomProc.bound_eq_some hp) hone
  have hpop := hgone.pop (Function.update_self _ _ _) hlives (Function.update_self _ _ _) hpassed
  have heq : ∀ v w : View, (((s.registry.setRoom R v).unmap st.sess).note (r.stayOf p)
      [.OnLeave]).setRoom R w = ((s.registry.setRoom R w).unmap st.sess).note (r.stayOf p)
        [.OnLeave] := by
    intro v w
    unfold Registry.note Registry.record Registry.unmap Registry.setRoom
    dsimp only
    rw [Function.update_idem]
  rw [heq] at hpop
  exact hpop

/-- What is under way is the close that `routeToRoom` holds. -/
theorem registry_routing {R : RoomID} {e : Post} {l : Life} (hroute : s.routing = some (R, e))
    (hlife : e.life = some l) : s.registry.routing = some (R, l) := by
  unfold registry
  rw [hroute, Option.bind_some, hlife]
  rfl

theorem orderly_change (h : s.Change a g') (ha : s.Carries a) (hs : s.registry.Orderly) :
    g'.Orderly := by
  obtain ⟨-, hswallow, hoverflow, hmisname⟩ := ha
  cases h with
  | quiet => exact hs
  | opened hidle hopen hroom => exact orderly_mapSession hs hopen
  | @refused body raw v queued sess p r hidle hopen hfull =>
    exact (ensured_of_opens hs hopen).refused (Function.update_self _ _ _) sess (kickNotice queued)
  | closes hidle hclose hmap hroom =>
    refine hs.closes ?_ hmap
    unfold registry
    rw [hidle]
    rfl
  | sends hroute hlife hr hroom =>
    exact hs.sends (registry_routing hroute hlife) (registry_rooms hr)
  | @drops R e l hroute hlife hfull =>
    have hsent := registry_routing hroute hlife
    have hclose : e.ev.isClose = true := isClose_of_life hlife (hs.routing R l hsent)
    refine hs.drops hsent (Option.map_eq_none_iff.2 ?_)
    cases hr : s.rooms[R]? with
    | none => rfl
    | some r => exact absurd ⟨(R, e), hroute, hclose, r, hr, hfull r hr⟩ hoverflow
  | @visits sess ref r hdying hmap hr hroom =>
    refine hs.visits hmap (registry_rooms hr) ?_
    by_contra hne
    exact hmisname ⟨ref, hmap, .inl hne⟩
  | @loses sess ref hdying hmap hfull =>
    obtain ⟨v, hv, -⟩ := hs.mapped sess ref hmap
    obtain ⟨r, hr, -⟩ := Option.map_eq_some_iff.1 hv
    exact absurd ⟨ref, hmap, .inr ⟨r, hr, hfull r hr⟩⟩ hmisname
  | joins hr hheld hev hp =>
    exact hs.bind (registry_rooms hr) (RoomProc.lives_inOpen hheld hev)
      (RoomProc.bound_eq_none.2 hp) (RoomProc.held_handled hheld).2.2
  | @swallows R r e sess p hr hheld hev hp =>
    refine absurd ⟨r, hr, e, hheld, ?_⟩ hswallow
    rw [hev]
    exact hp
  | leaves hr hheld hev hp => exact orderly_leave hs hr hheld hev hp
  | @misses R r e p reason hr hheld hev hp =>
    have hnone : r.view.bound p = none :=
      RoomProc.bound_eq_none.2 fun hmem => Room.mem_players_iff.1 hmem hp
    have hpassed : r.view.passed = none := (RoomProc.held_handled hheld).2.2
    exact hs.pop (registry_rooms hr) (RoomProc.lives_inClose hheld hev) hnone hpassed
  | @kicks R r p reason queued st hr hp =>
    refine hs.unbind (registry_rooms hr) (RoomProc.bound_eq_some hp) ?_
    cases queued with
    | false => rfl
    | true => rfl
  | stops a hr hpassed =>
    exact hs.setRoom (registry_rooms hr) rfl rfl (fun i => .refl _) (fun i hi => hi)
      (fun σ ref hmap => ⟨hmap, fun hat => hat⟩) (fun x hx => hx)
      (fun i _ => ⟨.refl _, List.Subset.refl _⟩) fun i hst => hst.stop
  | passes hr hplace hp hdone =>
    exact hs.pass (registry_rooms hr) (RoomProc.bound_eq_some hp) _ _
  | removes hr hplace hall => exact hs.removeRoom _

theorem orderly_start (M C J B : ℕ) : (start M C J B).registry.Orderly where
  home := fun R v hv => by
    have hnone : (start M C J B).registry.rooms R = none := by
      show ((∅ : Map RoomID RoomProc)[R]?).map RoomProc.view = none
      rw [Std.ExtTreeMap.getElem?_empty]
      rfl
    rw [hnone] at hv
    cases hv
  mapped := fun sess ref hmap => by
    have hnone : (start M C J B).registry.mapped sess = none := Std.ExtTreeMap.getElem?_empty
    rw [hnone] at hmap
    cases hmap
  routing := fun R l h => nomatch h
  standing := fun i hi => absurd hi (Nat.not_lt_zero i)

/-- **A closed session leaves exactly once**, and is gone when the room has drained its inbox. -/
theorem closed_leaves_once {M C J B : ℕ} (h : Reach step Carries (start M C J B) s) {i : ℕ}
    (hi : i < s.next) (hclosing : (s.stays i).closing = true) (hended : (s.stays i).ended = false)
    {r : RoomProc} (hr : s.rooms[(s.stays i).roomID]? = some r) (hdrained : r.waiting = [])
    (hsent : ∀ e, s.routing = some ((s.stays i).roomID, e) → e.ev.isClose = false) :
    (s.stays i).left = 1 ∧ ∀ p ∈ r.room.players, r.stayOf p ≠ i := by
  have hs : s.registry.Orderly :=
    h.invariant (I := fun s => s.registry.Orderly) (orderly_start M C J B) fun s a hs ha =>
      orderly_change (s.step_change a ha.1) ha hs
  obtain ⟨v, hv, hst⟩ := hs.standing i hi hended
  have hv' : s.registry.rooms (s.registry.stays i).roomID = some r.view := registry_rooms hr
  rw [hv'] at hv
  obtain rfl := Option.some.inj hv
  have hlives : r.view.lives = [] := by
    show r.waiting.filterMap Post.life = []
    rw [hdrained]
    rfl
  have hnone : s.registry.sent (s.registry.stays i).roomID = [] := by
    cases hroute : s.registry.routing with
    | none => exact Registry.sent_of_none hroute _
    | some x =>
      obtain ⟨R, l⟩ := x
      refine Registry.sent_of_ne hroute ?_
      rintro rfl
      obtain ⟨⟨R', e⟩, hx, hlife⟩ := Option.bind_eq_some_iff.1 hroute
      obtain ⟨l', hl', heq⟩ := Option.map_eq_some_iff.1 hlife
      obtain ⟨rfl, rfl⟩ := Prod.mk.inj heq
      have hclose := isClose_of_life hl' (hs.routing _ _ hroute)
      rw [hsent e hx] at hclose
      cases hclose
  have hnot : ∀ {p : PlayerID},
      ¬ Leaves p (r.view.lives ++ s.registry.sent (s.registry.stays i).roomID) := by
    rintro p ⟨σ, k, hmem⟩
    rw [hlives, hnone] at hmem
    cases hmem
  cases hst with
  | @waits sess p xs ys hcame =>
    rw [hlives] at hcame
    exact absurd hcame.symm (List.append_ne_nil_of_right_ne_nil _ (List.cons_ne_nil _ _))
  | sits _ _ _ _ hclose => exact absurd (hclose hclosing) hnot
  | gone _ hfree hleft =>
    refine ⟨?_, fun p hp hstay => ?_⟩
    · rcases hleft hclosing with h | ⟨-, p, hp⟩
      · exact h
      · exact absurd hp hnot
    · rw [Room.mem_players_iff] at hp
      obtain ⟨st, hst⟩ := Option.ne_none_iff_exists'.1 hp
      have hbound : r.view.bound p = some (st.sess, r.stayOf p) := RoomProc.bound_eq_some hst
      rw [hstay] at hbound
      exact hfree p st.sess hbound

end

/-! ## The link breaks -/

/-- `onEngineDead` clears one session. -/
def breakFor (sess : U64) : List ServerAction := [.dead, .visit sess, .cleared]

/-- A player comes, is told to go, and the room has handled it. Another is still there. -/
def closedRun : List ServerAction :=
  [openFor 1 1 7, openFor 2 2 7] ++ serve 7 ++ serve 7 ++ closeFor 1 ++ serve 7

/-- A player comes, the link breaks, and the room has handled what it was told. -/
def ghostRun : List ServerAction := [openFor 1 1 7] ++ serve 7 ++ breakFor 1 ++ serve 7

/-- The room of a run has nothing left to handle. -/
def drainedAt (s : Server) (R : RoomID) : Bool := (s.rooms[R]?).any fun r => r.waiting.isEmpty

theorem drainedAt_iff {s : Server} {R : RoomID} :
    s.drainedAt R = true ↔ ∃ r, s.rooms[R]? = some r ∧ r.waiting = [] := by
  unfold drainedAt
  rw [Option.any_eq_true]
  simp only [List.isEmpty_iff]

theorem closed_leaves_once_closed :
    ∃ r ∈ (closedRun.foldl step (start 1024 256 2 32)).rooms[(7 : RoomID)]?,
      ((closedRun.foldl step (start 1024 256 2 32)).stays 0).left = 1 ∧
        ∀ p ∈ r.room.players, r.stayOf p ≠ 0 := by
  have hreach :
      Reach step Carries (start 1024 256 2 32) (closedRun.foldl step (start 1024 256 2 32)) :=
    Reach.foldl (by decide +kernel)
  set s := closedRun.foldl step (start 1024 256 2 32) with hs
  obtain ⟨r, hr, hdrained⟩ := drainedAt_iff.1 (by decide +kernel : s.drainedAt 7 = true)
  have hroom : (s.stays 0).roomID = 7 := by decide +kernel
  have hidle : s.routing.isNone = true := by decide +kernel
  refine ⟨r, hr, closed_leaves_once hreach (by decide +kernel) (by decide +kernel)
    (by decide +kernel) (hroom ▸ hr) hdrained fun e he => ?_⟩
  rw [he] at hidle
  cases hidle

/-- The event of `onEngineDead` names no player, so that the player stays for ever. -/
theorem ghost : ¬ ∀ s, Reach step Valid (start 1024 256 2 32) s →
    ∀ i < s.next, (s.stays i).closing = true → (s.stays i).ended = false →
      ∀ r, s.rooms[(s.stays i).roomID]? = some r → r.waiting = [] → s.routing = none →
        (s.stays i).left = 1 ∧ ∀ p ∈ r.room.players, r.stayOf p ≠ i := by
  intro h
  have hreach :
      Reach step Valid (start 1024 256 2 32) (ghostRun.foldl step (start 1024 256 2 32)) :=
    Reach.foldl (by decide +kernel)
  set s := ghostRun.foldl step (start 1024 256 2 32) with hs
  obtain ⟨r, hr, hdrained⟩ := drainedAt_iff.1 (by decide +kernel : s.drainedAt 7 = true)
  have hroom : (s.stays 0).roomID = 7 := by decide +kernel
  have hidle : s.routing = none := Option.isNone_iff_eq_none.1 (by decide +kernel)
  have hleft :=
    (h s hreach 0 (by decide +kernel) (by decide +kernel) (by decide +kernel) r (hroom ▸ hr)
    hdrained hidle).1
  exact absurd hleft (by decide +kernel)

end Server

end SoupEngine.Sdk
