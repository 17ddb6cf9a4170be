import SoupEngine.Link.Kept

/-!
# Ch2 among the other channels

All channels share one counter, and Ch2 delivers strictly consecutive numbers. So when everything
has arrived, the Ch2 messages have been delivered exactly if none was sent after a message of
another channel (`ch2_delivery_iff`).
-/

namespace SoupEngine

open TransitionSystem Release

namespace Link

/-- The Ch2 message whose first number is `i`. -/
def ch2Message (l : Link) (i : ℕ) : Option (U16 × Bytes) :=
  match l.log[i]? with
  | some e =>
    if e.call.first = i ∧ e.call.ch = CH_RELIABLE_ORDERED then some (e.call.msgId, e.call.payload)
    else none
  | none => none

/-- The Ch2 messages in the order they were sent. -/
def ch2Sent (l : Link) : List (U16 × Bytes) := (List.range l.log.length).filterMap l.ch2Message

/-- No Ch2 message was sent after a message of another channel. -/
def Ch2First (l : Link) : Prop :=
  ∀ (i j : ℕ) (e e' : Sent), i < j → l.log[i]? = some e → l.log[j]? = some e' →
    e'.call.ch = CH_RELIABLE_ORDERED → e.call.ch = CH_RELIABLE_ORDERED

/-- Arrivals are orderly and `b` does not give up a group. -/
def Undisturbed (l : Link) (x : Action) : Prop := l.Orderly x ∧ l.KeepsGroups x

instance (l : Link) (x : Action) : Decidable (l.Undisturbed x) :=
  inferInstanceAs (Decidable (_ ∧ _))

variable {cfg : SessionTableConfig} {l : Link} {D : Finset ℕ} {c : Call} {i : ℕ}

theorem Whole.reassembled_eq (h : Whole l) (hw : Wired cfg l) (hc : l.Numbered c i) :
    c.reassembled = c.payload := by
  unfold Call.reassembled
  by_cases hf : c.Fragmented
  · rw [if_pos hf]
    obtain ⟨htot, -, -, -⟩ := h.total_eq hw hc hf
    have hcount : c.count = fragmentCount c.payload := if_pos hf
    have hT : FRAGMENT_THRESHOLD = 1100 := rfl
    refine List.take_of_length_le ?_
    rw [htot, hcount]
    unfold fragmentCount divCeil
    rw [hT]
    omega
  · rw [if_neg hf]

/-- What a number delivers is the message that starts there. -/
theorem slot_eq_message (hwh : Whole l) (hw : Wired cfg l) {e : Sent} (he : l.log[i]? = some e)
    (h2 : e.call.ch = CH_RELIABLE_ORDERED) :
    (l.slot i ≠ placeholder ∧ l.ch2Message i = some (l.slot i)) ∨
      (l.slot i = placeholder ∧ l.ch2Message i = none) := by
  rw [slot_of_log he]
  unfold ch2Message Call.slot
  rw [he]
  dsimp only
  by_cases hfirst : e.call.first = i
  · left
    have hre := hwh.reassembled_eq hw ⟨e, he, rfl⟩
    obtain ⟨bytes, hb⟩ := Option.isSome_iff_exists.1 (hwh.datagram i e he)
    obtain ⟨header, hcar⟩ := hw.carried i e bytes he hb
    have hid : e.call.msgId ≤ 0x0FFF := hcar.valid.2
    rw [if_pos hfirst.symm, if_pos ⟨hfirst, h2⟩, hre]
    refine ⟨fun hp => ?_, rfl⟩
    have hp' : e.call.msgId = 0xFFFF := congrArg Prod.fst hp
    rw [hp'] at hid
    exact absurd hid (by decide)
  · right
    rw [if_neg (Ne.symm hfirst), if_neg fun h => hfirst h.1]
    exact ⟨rfl, rfl⟩

theorem delivered_eq_messages (hwh : Whole l) (hw : Wired cfg l) {p : ℕ}
    (hp : ∀ i < p, ∃ e : Sent, l.log[i]? = some e ∧ e.call.ch = CH_RELIABLE_ORDERED) :
    delivered l.slot 0 p = (List.range p).filterMap l.ch2Message := by
  unfold delivered
  rw [Nat.sub_zero, ← List.range_eq_range']
  have hsub : ∀ i ∈ List.range p, i < p := fun i hi => List.mem_range.1 hi
  generalize List.range p = is at hsub
  induction is with
  | nil => rfl
  | cons i is ih =>
    obtain ⟨e, he, h2⟩ := hp i (hsub i List.mem_cons_self)
    have htail := ih fun j hj => hsub j (List.mem_cons_of_mem i hj)
    rw [List.map_cons, List.filter_cons]
    rcases slot_eq_message hwh hw he h2 with ⟨hne, hm⟩ | ⟨heq, hm⟩
    · rw [List.filterMap_cons_some hm, if_pos (decide_eq_true hne), htail]
    · rw [List.filterMap_cons_none hm, if_neg fun h => (of_decide_eq_true h : _ ≠ placeholder) heq,
        htail]

theorem ch2Sent_split (h : l.pos ≤ l.log.length) :
    l.ch2Sent = (List.range l.pos).filterMap l.ch2Message ++
      (List.range' l.pos (l.log.length - l.pos)).filterMap l.ch2Message := by
  unfold ch2Sent
  obtain ⟨d, hd⟩ := Nat.exists_eq_add_of_le h
  rw [hd, Nat.add_sub_cancel_left]
  calc (List.range (l.pos + d)).filterMap l.ch2Message
      = (List.range l.pos ++ List.range' l.pos d).filterMap l.ch2Message := by
        rw [List.range_eq_range', List.range_eq_range', ← List.range'_append, Nat.zero_add,
          Nat.one_mul]
    _ = (List.range l.pos).filterMap l.ch2Message ++
          (List.range' l.pos d).filterMap l.ch2Message := List.filterMap_append

/-- When everything has been received, what is delivered is all of Ch2 exactly if Ch2 came first. -/
theorem Complete.delivered_iff (h : Complete cfg l D) (hall : ∀ i < l.log.length, i ∈ l.received) :
    ch2Data l.events = l.ch2Sent ↔ l.Ch2First := by
  have hw := h.sound.wired
  have hR := h.sound.receiving
  have hpos : l.pos ≤ l.log.length := by
    by_contra hc
    obtain ⟨e, he, -⟩ := hR.ordered l.log.length (by omega)
    have := (List.getElem?_eq_some_iff.1 he).1
    omega
  have hbuf : ∀ (j : ℕ) (e : Sent), l.log[j]? = some e → e.call.ch = CH_RELIABLE_ORDERED →
      j ∈ D := by
    intro j e he h2
    refine h.mem_of_received ⟨e, he, rfl⟩ h2 fun k hk => hall _ ?_
    obtain ⟨e', he', -⟩ := h.whole.numbers j e he k hk
    exact (List.getElem?_eq_some_iff.1 he').1
  rw [hR.events, delivered_eq_messages h.whole hw hR.ordered, ch2Sent_split hpos]
  constructor
  · intro heq i j e e' hij he he' h2
    by_contra hne
    have hnil := List.self_eq_append_right.1 heq
    have hnD : i ∉ D := by
      intro hi
      obtain ⟨-, d, hd, hch⟩ := hR.buffered i hi
      rw [he] at hd
      cases hd
      exact hne hch
    have hle : l.pos ≤ i := by
      rw [hR.front]
      exact front_le hnD
    -- the call of number `j` starts after `i`, so its message is still missing
    have hfirst : i < e'.call.first := by
      by_contra hc
      obtain ⟨d, hd, hcall⟩ := hw.block j e' he' i (not_lt.1 hc) hij.le
      rw [he] at hd
      cases hd
      exact hne (by rw [hcall]; exact h2)
    obtain ⟨d, hd, hcall⟩ := hw.block j e' he' _ le_rfl (hw.number j e' he').1
    have hlt := (List.getElem?_eq_some_iff.1 hd).1
    have hmsg : l.ch2Message e'.call.first = some (e'.call.msgId, e'.call.payload) := by
      unfold ch2Message
      rw [hd]
      dsimp only
      rw [hcall]
      exact if_pos ⟨rfl, h2⟩
    have hmem : (e'.call.msgId, e'.call.payload) ∈
        (List.range' l.pos (l.log.length - l.pos)).filterMap l.ch2Message :=
      List.mem_filterMap.2 ⟨_, List.mem_range'_1.2 ⟨by omega, by omega⟩, hmsg⟩
    rw [hnil] at hmem
    cases hmem
  · intro hord
    suffices hnil : (List.range' l.pos (l.log.length - l.pos)).filterMap l.ch2Message = [] by
      rw [hnil, List.append_nil]
    refine List.filterMap_eq_nil_iff.2 fun j hj => ?_
    have hj := List.mem_range'_1.1 hj
    have hnpos : l.pos ∉ D := by
      rw [hR.front]
      exact front_not_mem D
    unfold ch2Message
    cases he : l.log[j]? with
    | none => rfl
    | some e =>
      refine if_neg fun hcond => ?_
      rcases Nat.eq_or_lt_of_le hj.1 with heq | hlt
      · exact hnpos (heq ▸ hbuf j e he hcond.2)
      · have hp : l.log[l.pos]? = some l.log[l.pos] := List.getElem?_eq_getElem (by omega)
        exact hnpos (hbuf _ _ hp (hord _ _ _ _ hlt hp he hcond.2))

end Link

open Link

/-- **Channels.** In every run without failed calls and disturbed groups, when every datagram has
been received, the Ch2 messages delivered are those sent, in order, if and only if no Ch2 message
was sent after a message of another channel. -/
theorem ch2_delivery_iff (hmac4 : Hmac) (cfg : SessionTableConfig) (a b : Opening) {l : Link}
    (h : Reach (step hmac4 cfg) Undisturbed (start a b) l) (hok : l.failed = false)
    (hall : ∀ i < l.log.length, i ∈ l.received) :
    ch2Data l.events = l.ch2Sent ↔ l.Ch2First := by
  have hinv : l.failed = false → ∃ D, Complete cfg l D := by
    refine h.invariant (I := fun l => l.failed = false → ∃ D, Complete cfg l D) ?_ ?_
    · exact fun _ => ⟨∅, complete_start a b⟩
    · intro l x ih hx hfail
      obtain ⟨D, hD⟩ := ih (failed_of_step hfail)
      exact ⟨_, complete_step hmac4 hD hx.1 hx.2 hfail⟩
  obtain ⟨D, hD⟩ := hinv hok
  exact hD.delivered_iff hall

/-- A Ch2 message is sent before one on Ch0; both arrive, and the first is delivered. -/
theorem ch2_delivery_iff_before :
    ∃ l, Reach (step (fun _ _ => Vector.replicate 4 0) .default) Undisturbed
        (start ⟨1, 1, .V4 0 0, 0, [], 0⟩ ⟨1, 1, .V4 1 0, 0, [], 0⟩) l ∧ l.ch2Sent = [(7, [1])] ∧
      (ch2Data l.events = l.ch2Sent ↔ l.Ch2First) := by
  have h0 : Reach (step (fun _ _ => Vector.replicate 4 0) .default) Undisturbed
    (start ⟨1, 1, .V4 0 0, 0, [], 0⟩ ⟨1, 1, .V4 1 0, 0, [], 0⟩) _ := .start
  have h1 := h0.next (.sendA 2 7 [1] 0) ⟨True.intro, True.intro⟩
  have h2 := h1.next (.sendA 0 7 [2] 0) ⟨True.intro, True.intro⟩
  have h3 := h2.next (.arrive 1 (.V4 0 0) 0 0)
    ⟨orderly_plain (.V4 0 0) 0 0 (by decide +kernel) (by decide +kernel), True.intro⟩
  have h4 := h3.next (.arrive 0 (.V4 0 0) 0 0)
    ⟨orderly_plain (.V4 0 0) 0 0 (by decide +kernel) (by decide +kernel), True.intro⟩
  exact ⟨_, h4, by decide +kernel,
    ch2_delivery_iff _ _ _ _ h4 (by decide +kernel) (by decide +kernel)⟩

/-- A Ch2 message is sent after one on Ch0; both arrive in order, and nothing is delivered on
Ch2. -/
theorem ch2_delivery_blocked :
    ∃ l, Reach (step (fun _ _ => Vector.replicate 4 0) .default) Undisturbed
        (start ⟨1, 1, .V4 0 0, 0, [], 0⟩ ⟨1, 1, .V4 1 0, 0, [], 0⟩) l ∧ l.failed = false ∧
      (∀ i < l.log.length, i ∈ l.received) ∧ l.b.state = .Active ∧ l.ch2Sent = [(7, [2])] ∧
      ch2Data l.events = [] := by
  have h0 : Reach (step (fun _ _ => Vector.replicate 4 0) .default) Undisturbed
    (start ⟨1, 1, .V4 0 0, 0, [], 0⟩ ⟨1, 1, .V4 1 0, 0, [], 0⟩) _ := .start
  have h1 := h0.next (.sendA 0 7 [1] 0) ⟨True.intro, True.intro⟩
  have h2 := h1.next (.sendA 2 7 [2] 0) ⟨True.intro, True.intro⟩
  have h3 := h2.next (.arrive 0 (.V4 0 0) 0 0)
    ⟨orderly_plain (.V4 0 0) 0 0 (by decide +kernel) (by decide +kernel), True.intro⟩
  have h4 := h3.next (.arrive 1 (.V4 0 0) 0 0)
    ⟨orderly_plain (.V4 0 0) 0 0 (by decide +kernel) (by decide +kernel), True.intro⟩
  exact ⟨_, h4, by decide +kernel, by decide +kernel, by decide +kernel, by decide +kernel,
    by decide +kernel⟩

end SoupEngine
