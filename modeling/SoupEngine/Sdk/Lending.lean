import SoupEngine.Sdk.Ownership

/-!
# Buffers lent to the room implementation

The buffer of an input that a tick delivers is put back before the call of `OnInput` that sees it;
in runs in which no tick delivers an input the buffer of every call is kept until the call is over
(`read_pool_iff`).
-/

namespace SoupEngine.Sdk

open TransitionSystem

namespace Pool

/-! ## The bytes in the buffers -/

/-- The buffers of events and entries have the bytes of their frames. -/
structure Intact (s : Pool) : Prop where
  posted : ∀ p ch msg payload raw, (.post (.inData p ch msg payload raw) ∈ s.pending ∨
    .inData p ch msg payload raw ∈ s.inbox) → payload <:+ s.mem raw
  entries : ∀ q, ∀ e ∈ s.room.jbufOf q, ∃ b, e.raw = some b ∧ e.payload <:+ s.mem b

/-- What a room passes on with a buffer has the bytes of the frame, and is put back afterwards. -/
def Backed (s : Pool) : Prop :=
  ∀ q seq payload b rest, .onInput q seq payload (some b) :: rest <:+ s.todo →
    .put b ∈ rest ∧ payload <:+ s.mem b

theorem jbufOf_start (J B : ℕ) (q : PlayerID) : (start J B).room.jbufOf q = [] := by
  have : (start J B).room.players[q]? = none := Std.ExtTreeMap.getElem?_empty
  exact Run.jbufOf_eq this

theorem intact_start (J B : ℕ) : Intact (start J B) := by
  refine ⟨fun p ch msg payload raw h => ?_, fun q e he => ?_⟩
  · rcases h with h | h
    · cases h
    · cases h
  · rw [jbufOf_start] at he
    cases he

/-- Nothing new but what comes from the inbox. -/
theorem Intact.of_sub {s s' : Pool} (h : Intact s) (hmem : s'.mem = s.mem)
    (hposted : ∀ ev, (.post ev ∈ s'.pending ∨ ev ∈ s'.inbox) → .post ev ∈ s.pending ∨ ev ∈ s.inbox)
    (hentries : ∀ q, ∀ e ∈ s'.room.jbufOf q, e ∈ s.room.jbufOf q ∨ ∃ p ch msg payload raw,
      .inData p ch msg payload raw ∈ s.inbox ∧ e.raw = some raw ∧ e.payload <:+ payload) :
      Intact s' := by
  refine ⟨fun p ch msg payload raw hev => ?_, fun q e he => ?_⟩
  · rw [hmem]
    exact h.posted p ch msg payload raw (hposted _ hev)
  · rw [hmem]
    rcases hentries q e he with hold | ⟨p, ch, msg, payload, raw, hin, hraw, hsuf⟩
    · exact h.entries q e hold
    · exact ⟨raw, hraw, hsuf.trans (h.posted p ch msg payload raw (.inr hin))⟩

/-- The buffer that the reader holds is nowhere else. -/
theorem Owned.ne_reader {s : Pool} (h : Owned s) {b c : BufId} (hr : s.reader = some b)
    (hc : c ∈ s.inbox.filterMap InEvent.raw ∨ c ∈ s.todo.filterMap RoomOp.buf ∨
      ∃ q, c ∈ s.room.rawsOf q) : c ≠ b := by
  rintro rfl
  have hheld := count_held s c
  rw [hr, Option.toList_some, List.count_singleton_self] at hheld
  rcases hc with hc | hc | ⟨q, hc⟩
  · have h1 := h.once c 0
    have h2 := List.count_pos_iff.2 hc
    omega
  · have h1 := h.once c 0
    have h2 := List.count_pos_iff.2 hc
    omega
  · have h1 := h.once c q
    have h2 := List.count_pos_iff.2 hc
    omega

theorem intact_frame {s : Pool} (ho : Owned s) (h : Intact s) {b : BufId} (hr : s.reader = some b)
    (typ : U8) (body : Bytes) (dest : Option PlayerID) :
    Intact { s with
      mem := Function.update s.mem b body
      reader := none
      pending := dispatch typ body b dest } := by
  refine ⟨fun p ch msg payload raw hev => ?_, fun q e he => ?_⟩
  · dsimp only at hev ⊢
    rcases hev with hev | hev
    · obtain ⟨rfl, hsuf⟩ := dispatch_post hev
      rw [Function.update_self]
      exact hsuf
    · have hne : raw ≠ b := ho.ne_reader hr (.inl (List.mem_filterMap.2 ⟨_, hev, rfl⟩))
      rw [Function.update_of_ne hne]
      exact h.posted p ch msg payload raw (.inr hev)
  · obtain ⟨c, hc, hsuf⟩ := h.entries q e he
    have hne : c ≠ b := ho.ne_reader hr (.inr (.inr ⟨q, List.mem_filterMap.2 ⟨e, he, hc⟩⟩))
    refine ⟨c, hc, ?_⟩
    show e.payload <:+ Function.update s.mem b body c
    rw [Function.update_of_ne hne]
    exact hsuf

theorem intact_step (s : Pool) (a : PoolAction) (ho : Owned s) (h : Intact s) (ha : s.Valid a) :
    Intact (s.step a) := by
  unfold step
  by_cases hc : s.crashed = true
  · rw [if_pos hc]
    exact h
  rw [if_neg hc]
  cases a with
  | get b =>
    dsimp only
    split_ifs
    · exact h.of_sub rfl (fun _ h => h) fun q e he => .inl he
    · exact h.of_sub rfl (fun _ h => h) fun q e he => .inl he
    · exact h
  | refuse =>
    dsimp only
    cases s.reader with
    | none => exact h
    | some b =>
      refine h.of_sub rfl (fun ev hev => ?_) fun q e he => .inl he
      rcases hev with hev | hev
      · cases List.mem_singleton.1 hev
      · exact .inr hev
  | frame typ body dest =>
    dsimp only
    cases hr : s.reader with
    | none => exact h
    | some b => exact intact_frame ho h hr typ body dest
  | read =>
    dsimp only
    cases hp : s.pending with
    | nil => exact h
    | cons op ops =>
      cases op with
      | put b =>
        refine h.of_sub rfl (fun ev hev => ?_) fun q e he => .inl he
        rw [hp]
        rcases hev with hev | hev
        · exact .inl (List.mem_cons_of_mem _ hev)
        · exact .inr hev
      | post ev' =>
        refine h.of_sub rfl (fun ev hev => ?_) fun q e he => .inl he
        rw [hp]
        rcases hev with hev | hev
        · exact .inl (List.mem_cons_of_mem _ hev)
        · rcases List.mem_append.1 hev with hev | hev
          · exact .inr hev
          · rw [List.mem_singleton.1 hev]
            exact .inl List.mem_cons_self
  | take =>
    dsimp only
    cases s.todo with
    | cons op ops => exact h
    | nil =>
      cases hin : s.inbox with
      | nil => exact h
      | cons ev rest =>
        obtain ⟨p, hmoves⟩ := s.room.handleEvent_moves ev
        refine h.of_sub rfl (fun ev' hev => ?_) fun q e he => ?_
        · rw [hin]
          rcases hev with hev | hev
          · exact .inl hev
          · exact .inr (List.mem_cons_of_mem _ hev)
        · rcases hmoves.arrives q e he with hold | ⟨p, ch, msg, payload, raw, rfl, hraw, hsuf⟩
          · exact .inl hold
          · exact .inr ⟨p, ch, msg, payload, raw, by rw [hin]; exact List.mem_cons_self, hraw, hsuf⟩
  | tick order =>
    dsimp only
    cases s.todo with
    | cons op ops => exact h
    | nil =>
      dsimp only
      cases hd : s.room.deliverReadyInputs order with
      | none => exact h.of_sub rfl (fun _ h => h) fun q e he => .inl he
      | some out =>
        obtain ⟨r', ops⟩ := out
        obtain ⟨-, -, hentries⟩ := Room.tick_moves ha hd
        exact h.of_sub rfl (fun _ h => h) fun q e he => .inl (hentries q e he)
  | act =>
    dsimp only
    cases s.todo with
    | nil => exact h
    | cons op ops =>
      cases op with
      | put b => exact h.of_sub rfl (fun _ h => h) fun q e he => .inl he
      | onInput p seq payload raw => exact h.of_sub rfl (fun _ h => h) fun q e he => .inl he
      | onJoin p => exact h.of_sub rfl (fun _ h => h) fun q e he => .inl he
      | onLeave p why => exact h.of_sub rfl (fun _ h => h) fun q e he => .inl he
      | onResume p gap => exact h.of_sub rfl (fun _ h => h) fun q e he => .inl he
      | removeSession sess => exact h.of_sub rfl (fun _ h => h) fun q e he => .inl he
      | sendKick sess reason => exact h.of_sub rfl (fun _ h => h) fun q e he => .inl he
  | kick p reason =>
    have hplayers := (s.room.kick_spec p reason).1
    refine h.of_sub rfl (fun _ h => h) fun q e he => .inl ?_
    change e ∈ (s.room.kick p reason).1.jbufOf q at he
    rw [Run.jbufOf_eq (hplayers q)] at he
    split_ifs at he
    · cases he
    · exact he

/-! ## Runs without delivered input -/

/-- No tick that goes through takes an input from a buffer: no head of a buffer is due and next in
sequence. -/
def Careful (s : Pool) : PoolAction → Prop
  | .tick order => s.room.IsOrder order ∧ (s.room.LeastFirst order →
      ∀ (p : PlayerID) (st : PState), s.room.players[p]? = some st →
        ∀ e ∈ st.jbuf.head?, ¬ st.Drains s.room.tick [e])
  | a => s.Valid a

theorem valid_of_careful {s : Pool} {a : PoolAction} (h : s.Careful a) : s.Valid a := by
  cases a with
  | tick order => exact h.1
  | _ => exact h

/-- What is passed on next is not in the pool, and still has its bytes. -/
def Lent (s : Pool) : Prop :=
  ∀ q seq payload b rest, s.todo = .onInput q seq payload (some b) :: rest →
    b ∉ s.free ∧ payload <:+ s.mem b

theorem Backed.lent {s : Pool} (h : Backed s) (ho : Owned s) : Lent s := by
  intro q seq payload b rest htodo
  obtain ⟨hput, hsuf⟩ := h q seq payload b rest (by rw [htodo])
  refine ⟨fun hfree => ?_, hsuf⟩
  have hmem : b ∈ s.todo.filterMap RoomOp.buf := by
    rw [htodo]
    exact List.mem_filterMap.2 ⟨_, List.mem_cons_of_mem _ hput, rfl⟩
  have h1 := List.count_pos_iff.2 hmem
  have h2 := ho.once b 0
  have h3 : s.freeCount b = 1 := if_pos hfree
  have h4 := count_held s b
  omega

theorem Backed.of_suffix {s s' : Pool} (h : Backed s) (hmem : s'.mem = s.mem)
    (htodo : ∀ q seq payload b rest, .onInput q seq payload (some b) :: rest <:+ s'.todo →
      .onInput q seq payload (some b) :: rest <:+ s.todo) : Backed s' := by
  intro q seq payload b rest hs
  rw [hmem]
  exact h q seq payload b rest (htodo q seq payload b rest hs)

theorem backed_frame {s : Pool} (ho : Owned s) (h : Backed s) {b : BufId} (hr : s.reader = some b)
    (typ : U8) (body : Bytes) (dest : Option PlayerID) :
    Backed { s with
      mem := Function.update s.mem b body
      reader := none
      pending := dispatch typ body b dest } := by
  intro q seq payload c rest hs
  obtain ⟨hput, hsuf⟩ := h q seq payload c rest hs
  have hmem : c ∈ s.todo.filterMap RoomOp.buf :=
    List.mem_filterMap.2 ⟨_, hs.subset (List.mem_cons_of_mem _ hput), rfl⟩
  have hne : c ≠ b := ho.ne_reader hr (.inr (.inl hmem))
  refine ⟨hput, ?_⟩
  show payload <:+ Function.update s.mem b body c
  rw [Function.update_of_ne hne]
  exact hsuf

/-- A tick that takes nothing only passes repetitions on, which need no buffer. -/
theorem raw_none_of_idle {r r' : Room} {order : List PlayerID} {ops : List RoomOp}
    (ho : r.IsOrder order) (hd : r.deliverReadyInputs order = some (r', ops))
    (hidle : ∀ (p : PlayerID) (st : PState), r.players[p]? = some st → st.taken r.tick = [])
    (q : PlayerID) (seq : InputSeq) (payload : Bytes) (b : BufId) :
    .onInput q seq payload (some b) ∉ ops := by
  intro hmem
  obtain ⟨-, -, pend, hsorts, rfl⟩ := Room.deliverReadyInputs_eq_some ho hd
  rcases List.mem_append.1 hmem with hmem | hmem
  · obtain ⟨_, _, h⟩ := List.mem_map.1 hmem
    cases h
  · obtain ⟨d, hpend, heq⟩ := List.mem_map.1 hmem
    have hready := (Room.mem_pending ho).1 (hsorts.perm.mem_iff.1 hpend)
    have hraw : d.raw = some b := by
      unfold Room.onInputOf at heq
      injection heq
    unfold Room.readyOf at hready
    cases hst : r.players[d.player]? with
    | none =>
      rw [hst] at hready
      cases hready
    | some st =>
      rw [hst] at hready
      rcases List.mem_append.1 (show d ∈ (st.taken r.tick).map _ ++ _ from hready) with h | h
      · rw [hidle d.player st hst] at h
        cases h
      · unfold PState.repeated at h
        split_ifs at h
        · rw [List.mem_singleton.1 h] at hraw
          cases hraw
        · cases h

/-- None of the operations of a kick passes a buffer on. -/
theorem backed_kick {s : Pool} (h : Backed s) (p : PlayerID) (reason : U8) :
    Backed { s with
      room := (s.room.kick p reason).1
      todo := (s.room.kick p reason).2 ++ s.todo } := by
  refine h.of_suffix rfl fun q seq payload b rest hs => ?_
  change _ <:+ (s.room.kick p reason).2 ++ s.todo at hs
  unfold Room.kick at hs
  cases hst : s.room.players[p]? with
  | none =>
    rw [hst] at hs
    exact hs
  | some st =>
    rw [hst] at hs
    rcases List.suffix_cons_iff.1 hs with hs | hs
    · cases (List.cons.inj hs).1
    · rcases List.suffix_cons_iff.1 hs with hs | hs
      · cases (List.cons.inj hs).1
      · rcases List.suffix_cons_iff.1 hs with hs | hs
        · cases (List.cons.inj hs).1
        · exact hs

theorem backed_step (s : Pool) (a : PoolAction) (ho : Owned s) (hi : Intact s) (h : Backed s)
    (ha : s.Careful a) : Backed (s.step a) := by
  unfold step
  by_cases hc : s.crashed = true
  · rw [if_pos hc]
    exact h
  rw [if_neg hc]
  cases a with
  | get b =>
    dsimp only
    by_cases hidle : s.reader = none ∧ s.pending = []
    · rw [if_pos hidle]
      exact h.of_suffix rfl fun _ _ _ _ _ hs => hs
    · rw [if_neg hidle]
      exact h
  | refuse =>
    dsimp only
    cases s.reader with
    | none => exact h
    | some b => exact h.of_suffix rfl fun _ _ _ _ _ hs => hs
  | frame typ body dest =>
    dsimp only
    cases hr : s.reader with
    | none => exact h
    | some b => exact backed_frame ho h hr typ body dest
  | read =>
    dsimp only
    cases s.pending with
    | nil => exact h
    | cons op ops =>
      cases op with
      | put b => exact h.of_suffix rfl fun _ _ _ _ _ hs => hs
      | post ev => exact h.of_suffix rfl fun _ _ _ _ _ hs => hs
  | take =>
    dsimp only
    cases htodo : s.todo with
    | cons op ops => exact h
    | nil =>
      cases hin : s.inbox with
      | nil => exact h
      | cons ev rest =>
        obtain ⟨p, hmoves⟩ := s.room.handleEvent_moves ev
        intro q seq payload b rest' hs
        obtain ⟨hput, p, ch, msg, rfl⟩ := hmoves.backed q seq payload b rest' hs
        exact ⟨hput, hi.posted p ch msg payload b (.inr (by rw [hin]; exact List.mem_cons_self))⟩
  | tick order =>
    dsimp only
    cases htodo : s.todo with
    | cons op ops => exact h
    | nil =>
      dsimp only
      cases hd : s.room.deliverReadyInputs order with
      | none =>
        refine h.of_suffix rfl fun _ _ _ _ _ hs => ?_
        rw [htodo]
        exact hs
      | some out =>
        obtain ⟨r', ops⟩ := out
        have hleast := (Room.deliverReadyInputs_eq_some ha.1 hd).1
        have hidle : ∀ (p : PlayerID) (st : PState), s.room.players[p]? = some st →
            st.taken s.room.tick = [] :=
          fun p st hst => (st.taken_eq_nil_iff _).2 (ha.2 hleast p st hst)
        intro q seq payload b rest hs
        exact absurd (hs.subset List.mem_cons_self) (raw_none_of_idle ha.1 hd hidle q seq payload b)
  | act =>
    dsimp only
    cases htodo : s.todo with
    | nil => exact h
    | cons op ops =>
      have hsub : ∀ q seq payload b rest, .onInput q seq payload (some b) :: rest <:+ ops →
          .onInput q seq payload (some b) :: rest <:+ s.todo := by
        intro q seq payload b rest hs
        rw [htodo]
        exact hs.trans (List.suffix_cons op ops)
      cases op with
      | put b => exact h.of_suffix rfl hsub
      | onInput p seq payload raw => exact h.of_suffix rfl hsub
      | onJoin p => exact h.of_suffix rfl hsub
      | onLeave p why => exact h.of_suffix rfl hsub
      | onResume p gap => exact h.of_suffix rfl hsub
      | removeSession sess => exact h.of_suffix rfl hsub
      | sendKick sess reason => exact h.of_suffix rfl hsub
  | kick p reason => exact backed_kick h p reason

/-! ## A delivered input -/

/-- The room goroutine carries on alone. -/
theorem act_iterate (n : ℕ) {s : Pool} (hc : s.crashed = false) (hn : n ≤ s.todo.length) :
    ((fun s : Pool => s.step .act)^[n] s).todo = s.todo.drop n ∧
      (∀ b ∈ s.free, b ∈ ((fun s : Pool => s.step .act)^[n] s).free) ∧
      ∀ b, .put b ∈ s.todo.take n → b ∈ ((fun s : Pool => s.step .act)^[n] s).free := by
  induction n generalizing s with
  | zero => exact ⟨rfl, fun b hb => hb, fun b hb => by cases hb⟩
  | succ n ih =>
    rw [Function.iterate_succ_apply]
    cases htodo : s.todo with
    | nil =>
      rw [htodo] at hn
      cases hn
    | cons op ops =>
      rw [htodo, List.length_cons] at hn
      have hstep : (s.step .act).todo = ops ∧ (s.step .act).crashed = false ∧
          (∀ b ∈ s.free, b ∈ (s.step .act).free) ∧ ∀ b, op = .put b → b ∈ (s.step .act).free := by
        unfold step
        rw [if_neg (by rw [hc]; exact Bool.false_ne_true)]
        dsimp only
        rw [htodo]
        cases op with
        | put b =>
          refine ⟨rfl, hc, fun c hcm => Finset.mem_insert_of_mem hcm, fun c hcb => ?_⟩
          injection hcb with hcb
          rw [← hcb]
          exact Finset.mem_insert_self _ _
        | onInput p seq payload raw => exact ⟨rfl, hc, fun c hcm => hcm, fun c hcb => by cases hcb⟩
        | onJoin p => exact ⟨rfl, hc, fun c hcm => hcm, fun c hcb => by cases hcb⟩
        | onLeave p why => exact ⟨rfl, hc, fun c hcm => hcm, fun c hcb => by cases hcb⟩
        | onResume p gap => exact ⟨rfl, hc, fun c hcm => hcm, fun c hcb => by cases hcb⟩
        | removeSession sess => exact ⟨rfl, hc, fun c hcm => hcm, fun c hcb => by cases hcb⟩
        | sendKick sess reason => exact ⟨rfl, hc, fun c hcm => hcm, fun c hcb => by cases hcb⟩
      obtain ⟨h1, h2, h3, h4⟩ := hstep
      obtain ⟨ih1, ih2, ih3⟩ := ih h2 (by rw [h1]; omega)
      rw [h1] at ih1 ih3
      refine ⟨ih1, fun b hb => ih2 b (h3 b hb), fun b hb => ?_⟩
      rw [List.take_succ_cons] at hb
      rcases List.mem_cons.1 hb with hb | hb
      · exact ih2 b (h4 b hb.symm)
      · exact ih3 b hb

/-- After a tick that delivers an input, the call of `OnInput` for it finds its buffer in the
pool. -/
theorem not_lent_of_taken {s : Pool} (hi : Intact s) (hc : s.crashed = false) (htodo : s.todo = [])
    {order : List PlayerID} (ho : s.room.IsOrder order) (hleast : s.room.LeastFirst order)
    {p : PlayerID} {st : PState} (hst : s.room.players[p]? = some st) {e : JitterEntry}
    (he : e ∈ st.taken s.room.tick) :
    ∃ n, ¬ Lent ((fun s : Pool => s.step .act)^[n] (s.step (.tick order))) := by
  obtain ⟨pend, hsorts, hd⟩ := (Room.deliverReadyInputs_spec s.room ho).1 hleast
  have hbuf : e ∈ s.room.jbufOf p := by
    rw [Run.jbufOf_eq hst]
    show e ∈ st.jbuf
    rw [st.jbuf_deliver s.room.tick p]
    exact List.mem_append_left _ he
  obtain ⟨b, hb, -⟩ := hi.entries p e hbuf
  have hput : b ∈ order.flatMap s.room.putsOf := by
    refine List.mem_flatMap.2 ⟨p, (ho.2 p).2 (Room.mem_players_iff.2 ?_), ?_⟩
    · rw [hst]
      exact Option.some_ne_none st
    · unfold Room.putsOf
      rw [hst]
      exact List.mem_filterMap.2 ⟨e, he, hb⟩
  have hpend : PState.freshDeliver p e ∈ pend := by
    refine hsorts.perm.mem_iff.2 ((Room.mem_pending ho).2 ?_)
    show _ ∈ s.room.readyOf p
    unfold Room.readyOf
    rw [hst]
    exact List.mem_append_left _ (List.mem_map_of_mem he)
  obtain ⟨front, back, hsplit⟩ := List.append_of_mem hpend
  set puts := (order.flatMap s.room.putsOf).map RoomOp.put with hputs
  have hstep : (s.step (.tick order)).todo = puts ++ front.map Room.onInputOf ++
      .onInput p e.seq e.payload (some b) :: back.map Room.onInputOf ∧
      (s.step (.tick order)).crashed = false := by
    unfold step
    rw [if_neg (by rw [hc]; exact Bool.false_ne_true)]
    dsimp only
    rw [htodo]
    dsimp only
    rw [hd]
    refine ⟨?_, hc⟩
    show puts ++ pend.map Room.onInputOf = _
    rw [hsplit, List.map_append, List.map_cons, List.append_assoc, ← hb]
    rfl
  set n := (puts ++ front.map Room.onInputOf).length with hn
  obtain ⟨hdrop, -, hfree⟩ := act_iterate n hstep.2 (by rw [hstep.1, List.length_append]; omega)
  refine ⟨n, fun hlent => ?_⟩
  rw [hstep.1, List.drop_left] at hdrop
  refine (hlent p e.seq e.payload b _ hdrop).1 (hfree b ?_)
  rw [hstep.1, List.take_left]
  exact List.mem_append_left _ (List.mem_map_of_mem hput)

end Pool

open Pool

/-- **Ownership of the read buffers.** In no run is a buffer put back while it is in the pool. In
every run whose ticks deliver no input, the buffer behind every call of `OnInput` is out of the pool
and has the bytes of its frame; and after every tick that delivers one there is a call that finds
its buffer in the pool. -/
theorem read_pool_iff (JitterBufferTicks BaselineRingSize : ℕ) :
    (∀ s, Reach step Valid (start JitterBufferTicks BaselineRingSize) s → s.twice = false) ∧
      (∀ s, Reach step Careful (start JitterBufferTicks BaselineRingSize) s → s.Lent) ∧
      ∀ s order, Reach step Valid (start JitterBufferTicks BaselineRingSize) s → s.crashed = false →
        s.todo = [] → s.room.IsOrder order → ¬ s.Careful (.tick order) →
        ∃ n, ¬ ((fun s : Pool => s.step .act)^[n] (s.step (.tick order))).Lent := by
  have howned : ∀ {s}, Reach step Valid (start JitterBufferTicks BaselineRingSize) s → Owned s :=
    fun h => h.invariant (owned_start _ _) owned_step
  have hintact : ∀ {s}, Reach step Valid (start JitterBufferTicks BaselineRingSize) s → Intact s :=
    fun h => h.invariant' (intact_start _ _) fun s a hr hi ha => intact_step s a (howned hr) hi ha
  have hvalid : ∀ {s}, Reach step Careful (start JitterBufferTicks BaselineRingSize) s →
      Reach step Valid (start JitterBufferTicks BaselineRingSize) s :=
    fun h => h.mono fun _ _ => valid_of_careful
  refine ⟨fun s hs => (howned hs).single, fun s hs => ?_,
    fun s order hs hc htodo ho hcareless => ?_⟩
  · have hbacked : Backed s := by
      refine hs.invariant' ?_ fun s a hr hb ha => ?_
      · intro q seq payload b rest h
        cases List.suffix_nil.1 h
      · exact backed_step s a (howned (hvalid hr)) (hintact (hvalid hr)) hb ha
    exact hbacked.lent (howned (hvalid hs))
  · by_contra hlent
    refine hcareless ⟨ho, fun hleast p st hst => (st.taken_eq_nil_iff _).1 ?_⟩
    by_contra hne
    obtain ⟨e, he⟩ := List.exists_mem_of_ne_nil _ hne
    exact hlent (not_lent_of_taken (hintact hs) hc htodo ho hleast hst he)

/-- A frame with data on this channel. -/
def dataBody (ch : U8) (payload : Bytes) : Bytes := List.replicate 8 0 ++ [ch, 0, 0] ++ payload

/-- A player joins and sends a reliable message, which the room takes. -/
def messageRun : List PoolAction :=
  [.get 0, .frame FrameSessionOpen (List.replicate 28 0) (some 1), .read, .read, .take, .act,
    .get 1, .frame FrameDataUp (dataBody 2 [5]) (some 1), .read, .take]

/-- A run without ticks is careful. -/
theorem allowed_careful {as : List PoolAction} (hticks : ∀ a ∈ as, ∀ order, a ≠ .tick order)
    {s : Pool} (h : Allowed step Valid s as) : Allowed step Careful s as := by
  induction as generalizing s with
  | nil => exact trivial
  | cons a as ih =>
    refine ⟨?_, ih (fun a ha => hticks a (List.mem_cons_of_mem _ ha)) h.2⟩
    cases a with
    | tick order => exact absurd rfl (hticks _ List.mem_cons_self order)
    | _ => exact h.1

/-- The message is passed on with its buffer out of the pool. -/
theorem read_pool_message :
    (messageRun.foldl step (start 2 32)).todo = [.onInput 1 0 [5] (some 1), .put 1] ∧
      (messageRun.foldl step (start 2 32)).Lent ∧
      (messageRun.foldl step (start 2 32)).twice = false := by
  have hvalid : Allowed step Valid (start 2 32) messageRun := by decide +kernel
  have hcareful : Allowed step Careful (start 2 32) messageRun := by
    refine allowed_careful (fun a ha order h => ?_) hvalid
    rw [h] at ha
    simp [messageRun] at ha
  refine ⟨by decide +kernel, (read_pool_iff 2 32).2.1 _ (Reach.foldl hcareful), ?_⟩
  exact (read_pool_iff 2 32).1 _ (Reach.foldl hvalid)

/-- A player joins and sends an input; the third tick delivers it and puts its buffer back. -/
def inputRun : List PoolAction :=
  [.get 0, .frame FrameSessionOpen (List.replicate 28 0) (some 1), .read, .read, .take, .act,
    .get 1, .frame FrameDataUp (dataBody 1 [0, 0, 0, 0, 0, 0, 0, 0, 7]) (some 1), .read, .take,
    .tick [1], .tick [1], .tick [1], .act]

/-- Before the room sees the input, the reader gets the buffer and reads another frame into it. -/
def overwritingRun : List PoolAction :=
  inputRun ++ [.get 1, .frame FrameDataUp (dataBody 1 [0, 0, 0, 0, 1, 0, 0, 0, 9]) (some 1)]

@[irreducible] def delivering : Pool := inputRun.foldl step (start 2 32)

@[irreducible] def overwritten : Pool := overwritingRun.foldl step (start 2 32)

/-- The call for the input finds its buffer in the pool, or with other bytes. -/
theorem read_pool_overwrites :
    (Reach step Valid (start 2 32) delivering ∧ ¬ delivering.Lent ∧
      delivering.todo.head? = some (.onInput 1 0 [7] (some 1)) ∧ 1 ∈ delivering.free) ∧
    Reach step Valid (start 2 32) overwritten ∧ ¬ overwritten.Lent ∧
      overwritten.todo.head? = some (.onInput 1 0 [7] (some 1)) ∧ ¬ [7] <:+ overwritten.mem 1 := by
  have htodo : delivering.todo.head? = some (.onInput 1 0 [7] (some 1)) := by decide +kernel
  have htodo' : overwritten.todo.head? = some (.onInput 1 0 [7] (some 1)) := by decide +kernel
  have hmem : ¬ [7] <:+ overwritten.mem 1 := by decide +kernel
  have hfree : 1 ∈ delivering.free := by decide +kernel
  have hreach : Reach step Valid (start 2 32) delivering := by
    unfold delivering
    exact Reach.foldl (by decide +kernel)
  have hreach' : Reach step Valid (start 2 32) overwritten := by
    unfold overwritten
    exact Reach.foldl (by decide +kernel)
  refine ⟨⟨hreach, fun h => ?_, htodo, hfree⟩, hreach', fun h => ?_, htodo', hmem⟩
  · obtain ⟨rest, hrest⟩ := List.head?_eq_some_iff.1 htodo
    exact (h 1 0 [7] 1 rest hrest).1 hfree
  · obtain ⟨rest, hrest⟩ := List.head?_eq_some_iff.1 htodo'
    exact hmem (h 1 0 [7] 1 rest hrest).2

end SoupEngine.Sdk
