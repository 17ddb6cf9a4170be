import SoupEngine.Sdk.Repeat
import SoupEngine.Sdk.Snapshot

/-!
# What the header of a snapshot answers

The header of a snapshot names the last input that the room has taken of the player, from which the
client predicts on. It is the truth: since the player came, or came back, `OnInput` has been given
exactly the inputs up to that number, without a gap and each once (`headers_answer`).
-/

namespace SoupEngine.Sdk

open InsertionSort TransitionSystem

/-- The numbers of so many inputs, back from the last one. -/
def countdown (last : InputSeq) (n : ℕ) : List InputSeq :=
  (List.range n).map fun j => last - BitVec.ofNat 16 j

/-- The numbers of the inputs from the buffer of a player among what a delivery does. -/
def freshOf (q : PlayerID) (ops : List RoomOp) : List InputSeq :=
  ops.filterMap fun
    | .onInput p seq _ raw => if p = q ∧ raw.isSome = true then some seq else none
    | _ => none

/-- A show with the numbers of the inputs that every player has been given since the player came, or
came back. -/
structure Answering where
  scene : Show
  given : PlayerID → List InputSeq

/-- A player who has been given these inputs. -/
structure PState.Answers (st : PState) (given : List InputSeq) : Prop where
  pooled : ∀ e ∈ st.jbuf, e.raw.isSome = true
  started : st.hasInput = true ↔ given ≠ []
  unstarted : given = [] → st.lastSeq = 0
  numbers : given.Perm (countdown st.lastSeq given.length)

namespace Answering

variable (cfg : SnapshotConfig)

def start (JitterBufferTicks BaselineRingSize : ℕ) : Answering :=
  ⟨.start JitterBufferTicks BaselineRingSize, fun _ => []⟩

/-- What a player has been given after an action. -/
def givenAfter (v : Answering) (q : PlayerID) : ShowAction → List InputSeq
  | .event (.inOpen _ p) => if p = q ∧ p ∉ v.scene.room.players then [] else v.given q
  | .event (.inResume p _) => if p = q then [] else v.given q
  | .deliver order =>
    if v.scene.room.IsOrder order then
      match v.scene.room.deliverReadyInputs order with
      | none => v.given q
      | some (_, ops) => v.given q ++ freshOf q ops
    else v.given q
  | _ => v.given q

def step (v : Answering) (a : ShowAction) : Answering :=
  ⟨(v.scene.act cfg a).1, fun q => if v.scene.crashed = true then v.given q else v.givenAfter q a⟩

/-- All players have been given what their headers say. -/
def Truthful (v : Answering) : Prop :=
  ∀ (q : PlayerID) (st : PState), v.scene.room.players[q]? = some st → st.Answers (v.given q)

end Answering

/-! ## One player -/

theorem countdown_succ (last : InputSeq) (n : ℕ) :
    countdown (last + 1) (n + 1) = (last + 1) :: countdown last n := by
  unfold countdown
  rw [List.range_succ_eq_map, List.map_cons, List.map_map]
  congr 1
  · exact BitVec.sub_zero _
  · refine List.map_congr_left fun j _ => ?_
    show last + 1 - BitVec.ofNat 16 (j + 1) = last - BitVec.ofNat 16 j
    rw [← BitVec.ofNat_add_ofNat]
    exact add_sub_add_right_eq_sub last (BitVec.ofNat 16 j) 1

namespace PState

variable {st : PState} {given : List InputSeq}

/-- A player who has just come, or come back. -/
theorem answers_nil (hbuf : st.jbuf = []) (hin : st.hasInput = false) (hlast : st.lastSeq = 0) :
    st.Answers [] where
  pooled e he := by
    rw [hbuf] at he
    exact absurd he List.not_mem_nil
  started := iff_of_false (by rw [hin]; exact Bool.false_ne_true) fun h => h rfl
  unstarted _ := hlast
  numbers := List.Perm.refl _

/-- The header does not depend on the rest of the state. -/
theorem Answers.congr (h : st.Answers given) {st' : PState}
    (hbuf : ∀ e ∈ st'.jbuf, e.raw.isSome = true) (hin : st'.hasInput = st.hasInput)
    (hlast : st'.lastSeq = st.lastSeq) : st'.Answers given where
  pooled := hbuf
  started := by rw [hin]; exact h.started
  unstarted := by rw [hlast]; exact h.unstarted
  numbers := by rw [hlast]; exact h.numbers

theorem Answers.insertJitter (h : st.Answers given) {e : JitterEntry} (he : e.raw.isSome = true) :
    (st.insertJitter e).1.Answers given := by
  rcases st.insertJitter_cases e with hst | hst
  · rw [hst]
    exact h
  · rw [hst]
    refine h.congr (fun x hx => ?_) rfl rfl
    rcases List.eq_or_mem_of_mem_insertIdx hx with rfl | hold
    · exact he
    · split_ifs at hold
      · exact h.pooled x (List.mem_of_mem_tail hold)
      · exact h.pooled x hold

/-- The next input in sequence is given. -/
theorem Answers.consume (h : st.Answers given) {e : JitterEntry}
    (hnext : st.hasInput = true → e.seq = st.lastSeq + 1) :
    (st.consume e).Answers (given ++ [e.seq]) where
  pooled := h.pooled
  started := iff_of_true rfl (List.append_ne_nil_of_right_ne_nil _ (List.cons_ne_nil _ _))
  unstarted hnil := absurd hnil (List.append_ne_nil_of_right_ne_nil _ (List.cons_ne_nil _ _))
  numbers := by
    show (given ++ [e.seq]).Perm (countdown e.seq (given ++ [e.seq]).length)
    rw [List.length_append, List.length_singleton]
    cases hin : st.hasInput with
    | false =>
      have hnil : given = [] := not_not.1 (mt h.started.2 (by rw [hin]; exact Bool.false_ne_true))
      rw [hnil]
      show [e.seq].Perm [e.seq - 0#16]
      rw [BitVec.sub_zero]
    | true =>
      rw [hnext hin, countdown_succ]
      exact List.perm_append_comm.trans (h.numbers.cons _)

theorem Answers.consumed (h : st.Answers given) {es : List JitterEntry} (hes : st.InSequence es) :
    (st.consumed es).Answers (given ++ es.map JitterEntry.seq) := by
  induction es generalizing st given with
  | nil =>
    rw [List.map_nil, List.append_nil]
    exact h
  | cons e es ih =>
    obtain ⟨hnext, hrest⟩ := inSequence_cons.1 hes
    have hgiven := ih (h.consume hnext) hrest
    rw [List.append_assoc] at hgiven
    exact hgiven

/-- A tick gives what it takes. -/
theorem Answers.deliver (h : st.Answers given) (tick : Tick) (p : PlayerID) :
    (st.deliver tick p).1.Answers (given ++ (st.taken tick).map JitterEntry.seq) := by
  have hbuf := st.jbuf_deliver tick p
  rw [deliver_eq]
  refine (h.consumed (st.drains_taken tick).2).congr (fun e he => h.pooled e ?_) rfl rfl
  rw [hbuf]
  exact List.mem_append_right _ he

theorem Answers.perm (h : st.Answers given) {given' : List InputSeq} (hp : given'.Perm given) :
    st.Answers given' where
  pooled := h.pooled
  started := by
    rw [h.started, not_iff_not]
    exact ⟨fun hn => (hn ▸ hp).eq_nil, fun hn => (hn ▸ hp.symm).eq_nil⟩
  unstarted hn := h.unstarted (hn ▸ hp.symm).eq_nil
  numbers := by
    rw [hp.length_eq]
    exact hp.trans h.numbers

/-- What is passed on from the buffer is what has been taken. -/
theorem fresh_ready (hpool : ∀ e ∈ st.jbuf, e.raw.isSome = true) (tick : Tick) (p : PlayerID) :
    ((st.deliver tick p).2.1.filterMap fun d => if d.raw.isSome = true then some d.seq else none) =
      (st.taken tick).map JitterEntry.seq := by
  have hfresh : ∀ e ∈ st.taken tick, e.raw.isSome = true := fun e he => by
    refine hpool e ?_
    rw [st.jbuf_deliver tick p]
    exact List.mem_append_left _ he
  have hrepeat : ((st.deliver tick p).1.repeated tick p).filterMap
      (fun d => if d.raw.isSome = true then some d.seq else none) = [] := by
    refine List.filterMap_eq_nil_iff.2 fun d hd => ?_
    unfold repeated at hd
    split_ifs at hd
    · rw [List.mem_singleton.1 hd]
      rfl
    · exact absurd hd List.not_mem_nil
  show (((st.taken tick).map (freshDeliver p)) ++ (st.deliver tick p).1.repeated tick p).filterMap
    _ = _
  rw [List.filterMap_append, hrepeat, List.append_nil, List.filterMap_map, ← List.filterMap_eq_map]
  exact List.filterMap_congr fun e he => if_pos (hfresh e he)

end PState

/-! ## Steps -/

namespace Answering

variable {cfg : SnapshotConfig} {v : Answering}

/-- What a delivery passes on to a player. -/
theorem freshOf_deliver {r r' : Room} {order : List PlayerID} {ops : List RoomOp}
    (ho : r.IsOrder order) (hd : r.deliverReadyInputs order = some (r', ops)) {q : PlayerID}
    {st : PState} (hst : r.players[q]? = some st) (hpool : ∀ e ∈ st.jbuf, e.raw.isSome = true) :
    (freshOf q ops).Perm ((st.taken r.tick).map JitterEntry.seq) := by
  obtain ⟨-, -, pend, hsorts, rfl⟩ := Room.deliverReadyInputs_eq_some ho hd
  have hready : r.readyOf q = (st.deliver r.tick q).2.1 := by
    unfold Room.readyOf
    rw [hst]
  have hputs : ∀ puts : List BufId, freshOf q (puts.map .put) = [] := fun puts => by
    unfold freshOf
    rw [List.filterMap_map]
    exact List.filterMap_eq_nil_iff.2 fun b _ => rfl
  have hpend : ∀ ds : List PendingDeliver, freshOf q (ds.map Room.onInputOf) =
      (ds.filter (·.player = q)).filterMap fun d => if d.raw.isSome = true then some d.seq
        else none := fun ds => by
    unfold freshOf
    rw [List.filterMap_map, List.filterMap_filter]
    refine List.filterMap_congr fun d _ => ?_
    show (if d.player = q ∧ d.raw.isSome = true then some d.seq else none) = _
    by_cases hq : d.player = q
    · simp only [hq, true_and, decide_true, if_true]
    · simp only [hq, false_and, decide_false, if_false, Bool.false_eq_true]
  have happend : ∀ xs ys : List RoomOp, freshOf q (xs ++ ys) = freshOf q xs ++ freshOf q ys :=
    fun xs ys => List.filterMap_append
  rw [happend, hputs, List.nil_append, hpend]
  refine ((hsorts.perm.filter _).filterMap _).trans ?_
  rw [Room.filter_player_pending ho q, hready, PState.fresh_ready hpool]

theorem answers_stateAfter (h : v.Truthful) (q : PlayerID) (ev : InEvent) {st' : PState}
    (hst' : v.scene.room.stateAfter q ev = some st') :
    st'.Answers (v.givenAfter q (.event ev)) := by
  have hold : v.scene.room.players[q]? = some st' → st'.Answers (v.given q) := h q st'
  cases ev with
  | inOpen sess p =>
    simp only [Room.stateAfter] at hst'
    show st'.Answers (if p = q ∧ p ∉ v.scene.room.players then [] else v.given q)
    by_cases hq : p = q
    · subst hq
      rw [if_pos rfl] at hst'
      obtain rfl := Option.some.inj hst'
      cases hst : v.scene.room.players[p]? with
      | none =>
        have hout : p ∉ v.scene.room.players := fun hmem => Room.mem_players_iff.1 hmem hst
        rw [if_pos ⟨rfl, hout⟩]
        exact PState.answers_nil rfl rfl rfl
      | some st =>
        have hin : p ∈ v.scene.room.players :=
          Room.mem_players_iff.2 (by rw [hst]; exact Option.some_ne_none _)
        rw [if_neg fun hc => hc.2 hin]
        exact h p st hst
    · rw [if_neg hq] at hst'
      rw [if_neg fun hc => hq hc.1]
      exact hold hst'
  | inClose p reason =>
    simp only [Room.stateAfter] at hst'
    split_ifs at hst' with hq
    exact hold hst'
  | inResume p gap =>
    simp only [Room.stateAfter] at hst'
    show st'.Answers (if p = q then [] else v.given q)
    by_cases hq : p = q
    · rw [if_pos hq] at hst' ⊢
      obtain ⟨st, hst, rfl⟩ := Option.map_eq_some_iff.1 hst'
      exact PState.answers_nil rfl rfl rfl
    · rw [if_neg hq] at hst' ⊢
      exact hold hst'
  | inData p ch msg payload raw =>
    simp only [Room.stateAfter] at hst'
    split_ifs at hst' with hq
    · obtain ⟨st, hst, rfl⟩ := Option.map_eq_some_iff.1 hst'
      have hat : (v.scene.room.atInput st payload).Answers (v.given q) :=
        (h q st hst).congr (h q st hst).pooled rfl rfl
      exact hat.insertJitter rfl
    · exact hold hst'
  | inStats p rtt loss =>
    simp only [Room.stateAfter] at hst'
    split_ifs at hst' with hq
    · obtain ⟨st, hst, rfl⟩ := Option.map_eq_some_iff.1 hst'
      exact (h q st hst).congr (h q st hst).pooled rfl rfl
    · exact hold hst'
  | inOverload => exact hold hst'

theorem truthful_step (h : v.Truthful) (a : ShowAction) : (v.step cfg a).Truthful := by
  by_cases hc : v.scene.crashed = true
  · have hsame : (v.scene.act cfg a).1 = v.scene := by
      unfold Show.act
      rw [if_pos hc]
    intro q st hst
    unfold step at hst ⊢
    dsimp only at hst ⊢
    rw [hsame] at hst
    rw [if_pos hc]
    exact h q st hst
  intro q st' hst'
  unfold step Show.act at hst'
  rw [if_neg hc] at hst'
  show st'.Answers (if v.scene.crashed = true then v.given q else v.givenAfter q a)
  rw [if_neg hc]
  cases a with
  | event ev =>
    exact answers_stateAfter h q ev (((v.scene.room.handleEvent_spec ev).1 q).symm.trans hst')
  | kick p reason =>
    have hkick := ((v.scene.room.kick_spec p reason).1 q).symm.trans hst'
    split_ifs at hkick
    exact h q st' hkick
  | requestKeyframe p =>
    dsimp only at hst'
    unfold Room.requestKeyframe at hst'
    cases hst : v.scene.room.players[p]? with
    | none =>
      rw [hst] at hst'
      exact h q st' hst'
    | some st =>
      rw [hst] at hst'
      have hnew : (v.scene.room.players.insert p { st with forceKeyframe := true })[q]? =
        some st' := hst'
      rw [Room.getElem?_update hst fun st => { st with forceKeyframe := true }] at hnew
      split_ifs at hnew with hq
      · obtain ⟨st₀, hst₀, rfl⟩ := Option.map_eq_some_iff.1 hnew
        exact (h q st₀ hst₀).congr (h q st₀ hst₀).pooled rfl rfl
      · exact h q st' hnew
  | deliver order =>
    dsimp only at hst'
    unfold givenAfter
    dsimp only
    by_cases ho : v.scene.room.IsOrder order
    · rw [if_pos ho] at hst' ⊢
      cases hd : v.scene.room.deliverReadyInputs order with
      | none =>
        rw [hd] at hst'
        exact h q st' hst'
      | some out =>
        obtain ⟨r', ops⟩ := out
        rw [hd] at hst'
        have hr' : r'.players[q]? = some st' := hst'
        obtain ⟨st, hst, rfl⟩ :=
          Option.map_eq_some_iff.1 (((Room.deliver_spec ho hd).1 q).symm.trans hr')
        have hfresh := freshOf_deliver ho hd hst (h q st hst).pooled
        exact ((h q st hst).deliver v.scene.room.tick q).perm (hfresh.append_left _)
    · rw [if_neg ho] at hst' ⊢
      exact h q st' hst'
  | schedule order written =>
    show st'.Answers (v.given q)
    dsimp only at hst'
    split_ifs at hst' with ho
    · cases hout : (v.scene.room.scheduleSnapshots cfg order written).2 with
      | none =>
        rw [hout] at hst'
        exact h q st' hst'
      | some r' =>
        rw [hout] at hst'
        have hr' : r'.players[q]? = some st' := hst'
        by_cases hdue : v.scene.room.Due cfg
        · obtain ⟨-, f, hf, hplayers⟩ := (Room.scheduleSnapshots_due hdue).2 r' hout
          obtain ⟨st, hst, rfl⟩ := Option.map_eq_some_iff.1 ((hplayers q).symm.trans hr')
          have hsent : (st.sent v.scene.room.tick (written q)).Answers (v.given q) :=
            (h q st hst).congr (h q st hst).pooled rfl rfl
          rcases hf with rfl | rfl
          · exact hsent
          · exact hsent.congr hsent.pooled rfl rfl
        · rw [(Room.scheduleSnapshots_idle hdue).2 r' hout] at hr'
          exact h q st' hr'
    · exact h q st' hst'

theorem truthful_start (J B : ℕ) : (start J B).Truthful := by
  intro q st hst
  have hnone : (start J B).scene.room.players[q]? = none := Std.ExtTreeMap.getElem?_empty
  rw [hnone] at hst
  cases hst

/-- **Truthful headers.** In every run of a room, whenever a snapshot is sent to a player, the
inputs that `OnInput` has been given from the player's buffer since the player came, or came back,
are those up to the number in its header, without a gap and each once; if there are none, the header
says 0. -/
theorem headers_answer (cfg : SnapshotConfig) (J B : ℕ) {v : Answering}
    (h : Reach (step cfg) (fun _ _ => True) (start J B) v) (a : ShowAction) :
    ∀ x ∈ (v.scene.act cfg a).2,
      (v.given x.player).Perm (countdown x.lastSeq (v.given x.player).length) ∧
      (v.given x.player = [] → x.lastSeq = 0) := by
  have htrue : v.Truthful := h.invariant (truthful_start J B) fun v a hv _ => truthful_step hv a
  intro x hx
  obtain ⟨-, st, hst, heq⟩ := Show.mem_act.1 hx
  have hans := htrue x.player st hst
  have hlast : x.lastSeq = st.lastSeq := congrArg Snapshot.lastSeq heq
  rw [hlast]
  exact ⟨hans.numbers, hans.unstarted⟩

/-- Player 1 sends the inputs 1 and 2, which are due two ticks later. -/
def twoInputs : List ShowAction :=
  [.event (.inOpen 5 1), .event (.inData 1 1 0 [0, 0, 0, 0, 1, 0, 0, 0] 0),
    .event (.inData 1 1 0 [0, 0, 0, 0, 2, 0, 0, 0] 1), .schedule [1] fun _ =>
      0, .schedule [1] fun _ => 0, .deliver [1]]

/-- The next snapshot answers input 2, after inputs 1 and 2 have been given. -/
theorem headers_answer_two : ∃ v, Reach (step ⟨20, 20, 100, 0⟩) (fun _ _ => True) (start 2 32) v ∧
    ∃ x ∈ (v.scene.act ⟨20, 20, 100, 0⟩ (.schedule [1] fun _ => 0)).2, x.lastSeq = 2 ∧
      v.given x.player = [1, 2] ∧
      (v.given x.player).Perm (countdown x.lastSeq (v.given x.player).length) := by
  have hall : Allowed (step ⟨20, 20, 100, 0⟩) (fun _ _ => True) (start 2 32) twoInputs :=
    allowed_of_forall (fun _ _ _ => trivial) (start 2 32)
  have hreach := Reach.foldl hall
  have hsent : ((twoInputs.foldl (step ⟨20, 20, 100, 0⟩) (start 2 32)).scene.act ⟨20, 20, 100, 0⟩
      (.schedule [1] fun _ => 0)).2 = [⟨1, 2, 2, ⟨0, true⟩⟩] := by decide +kernel
  have hmem : (⟨1, 2, 2,
      ⟨0, true⟩⟩ : Snapshot) ∈ ((twoInputs.foldl (step ⟨20, 20, 100, 0⟩) (start 2 32)).scene.act
      ⟨20, 20, 100, 0⟩ (.schedule [1] fun _ => 0)).2 := hsent ▸ List.mem_singleton_self _
  refine ⟨_, hreach, _, hmem, rfl, ?_, (headers_answer ⟨20, 20, 100, 0⟩ 2 32 hreach _ _ hmem).1⟩
  decide +kernel

end Answering

end SoupEngine.Sdk
