import SoupEngine.Protocol.FrameBody

/-!
# The instructions of the logic server

A builder for every instruction makes a frame, which the dispatcher of the engine takes apart by its
type. `carried_iff`: what is built is dispatched as the instruction exactly if it is no `Kick`, a
byte counts the sessions of a `Multicast`, and the body is within the limit. The builder of `Kick`
leaves the type of a `Send`.
-/

namespace SoupEngine

inductive Instruction
  | Send (sess_id : U64) (ch : U8) (msg_id : U16) (payload : Bytes)
  | Multicast (ids : List U64) (ch : U8) (msg_id : U16) (payload : Bytes)
  | Kick (sess_id : U64) (reason : U8)
  | SetBudget (sess_id : U64) (kbps : U16)
  deriving DecidableEq

/-- `handle_logic_frame`, to the instruction that it carries out, if any. An error ends the link. -/
def handle_logic_frame (frame : Frame) : Except Error (Option Instruction) :=
  if frame.ty = FRAME_LOGIC_HELLO then .ok none
  else if frame.ty = FRAME_SEND then
    (Frame.parse_data frame.body).map fun (sess_id, ch, msg_id, payload) =>
      some (.Send sess_id ch msg_id payload)
  else if frame.ty = FRAME_MULTICAST then
    (Frame.parse_multicast frame.body).map fun (ids, ch, msg_id, payload) =>
      some (.Multicast ids ch msg_id payload)
  else if frame.ty = FRAME_KICK then
    (Frame.parse_session_close frame.body).map fun (sess_id, reason) => some (.Kick sess_id reason)
  else if frame.ty = FRAME_SET_BUDGET then
    (Frame.parse_set_budget frame.body).map fun (sess_id, kbps) => some (.SetBudget sess_id kbps)
  else .ok none

namespace Instruction

/-- The frame that the builder makes. -/
def frame : Instruction → Frame
  | Send sess_id ch msg_id payload => Frame.send sess_id ch msg_id payload
  | Multicast ids ch msg_id payload => Frame.multicast ids ch msg_id payload
  | Kick sess_id reason => Frame.kick sess_id reason
  | SetBudget sess_id kbps => Frame.set_budget sess_id kbps

/-- The frame is encoded and split off again, and dispatched as the instruction. -/
def Carried (i : Instruction) : Prop :=
  ∃ bytes frame, Frame.encode i.frame.ty i.frame.body = .ok bytes ∧
    Frame.try_decode bytes = .ok (some (frame, [])) ∧ handle_logic_frame frame = .ok (some i)

/-- The instruction is no `Kick`, has its sessions counted and fits a frame. -/
def Sound : Instruction → Prop
  | Send _ _ _ payload => 11 + payload.length ≤ MAX_FRAME_BODY
  | Multicast ids _ _ payload =>
    ids.length ≤ 255 ∧ 4 + 8 * ids.length + payload.length ≤ MAX_FRAME_BODY
  | Kick _ _ => False
  | SetBudget _ _ => True

/-! ## The frame on the stream -/

theorem encode_frame (f : Frame) :
    Frame.encode f.ty f.body = if f.body.length ≤ MAX_FRAME_BODY then .ok f.bytes
      else .error (.Protocol s!"帧体超限: {f.body.length} > {MAX_FRAME_BODY}") := by
  unfold Frame.encode
  by_cases h : f.body.length ≤ MAX_FRAME_BODY
  · rw [if_neg (Nat.not_lt.2 h), if_pos h]
    rfl
  · rw [if_pos (Nat.lt_of_not_le h), if_neg h]

/-- The engine gets the frame as it was built, if the body is within the limit. -/
theorem carried_iff_dispatched (i : Instruction) :
    i.Carried ↔ i.frame.body.length ≤ MAX_FRAME_BODY ∧
      handle_logic_frame i.frame = .ok (some i) := by
  constructor
  · rintro ⟨bytes, frame, henc, hdec, hdisp⟩
    rw [encode_frame] at henc
    split_ifs at henc with hfit
    rw [← Except.ok.inj henc, Frame.try_decode_of_le hfit] at hdec
    have hsame : i.frame = frame := congrArg Prod.fst (Option.some.inj (Except.ok.inj hdec))
    exact ⟨hfit, hsame ▸ hdisp⟩
  · rintro ⟨hfit, hdisp⟩
    refine ⟨i.frame.bytes, i.frame, ?_, Frame.try_decode_of_le hfit, hdisp⟩
    rw [encode_frame, if_pos hfit]

/-! ## The dispatcher -/

theorem handle_of_send (body : Bytes) : handle_logic_frame ⟨FRAME_SEND, body⟩ =
    (Frame.parse_data body).map fun (sess_id, ch, msg_id, payload) =>
      some (.Send sess_id ch msg_id payload) := rfl

theorem handle_of_multicast (body : Bytes) : handle_logic_frame ⟨FRAME_MULTICAST, body⟩ =
    (Frame.parse_multicast body).map fun (ids, ch, msg_id, payload) =>
      some (.Multicast ids ch msg_id payload) := rfl

theorem handle_of_set_budget (body : Bytes) : handle_logic_frame ⟨FRAME_SET_BUDGET, body⟩ =
    (Frame.parse_set_budget body).map fun (sess_id, kbps) => some (.SetBudget sess_id kbps) := rfl

theorem handle_send (sess_id : U64) (ch : U8) (msg_id : U16) (payload : Bytes) :
    handle_logic_frame (Frame.send sess_id ch msg_id payload) =
      .ok (some (.Send sess_id ch msg_id payload)) := by
  refine (handle_of_send _).trans ?_
  rw [Frame.parse_data_body]
  rfl

theorem handle_multicast (ids : List U64) (ch : U8) (msg_id : U16) (payload : Bytes) :
    handle_logic_frame (Frame.multicast ids ch msg_id payload) =
      .ok (some (.Multicast ids ch msg_id payload)) ↔
      ids.length ≤ 255 := by
  have hhandle := handle_of_multicast (Frame.multicast ids ch msg_id payload).body
  rw [← Frame.parse_multicast_iff ids ch msg_id payload]
  refine (Iff.of_eq (congrArg (· = _) hhandle)).trans ?_
  cases Frame.parse_multicast (Frame.multicast ids ch msg_id payload).body with
  | error e => exact iff_of_false (fun h => nomatch h) fun h => nomatch h
  | ok out =>
    obtain ⟨ids', ch', msg_id', payload'⟩ := out
    constructor
    · intro h
      cases h
      rfl
    · intro h
      cases h
      rfl

theorem handle_set_budget (sess_id : U64) (kbps : U16) :
    handle_logic_frame (Frame.set_budget sess_id kbps) = .ok (some (.SetBudget sess_id kbps)) := by
  refine (handle_of_set_budget (Frame.set_budget sess_id kbps).body).trans ?_
  rw [Frame.parse_set_budget_body]
  rfl

/-- A `Kick` is taken for a `Send`, and is too short for one. -/
theorem handle_kick (sess_id : U64) (reason : U8) :
    handle_logic_frame (Frame.kick sess_id reason) = .error (.Protocol "Data body 过短") := by
  have hlen : (Frame.session_close sess_id reason).body.length = 9 := by simp [Frame.session_close]
  refine (handle_of_send _).trans ?_
  unfold Frame.parse_data
  rw [if_pos (by rw [hlen]; omega)]
  rfl

/-- **Builders and dispatcher.** The frame of an instruction is encoded, split off and dispatched as
that instruction if and only if the instruction is sound. -/
theorem carried_iff (i : Instruction) : i.Carried ↔ i.Sound := by
  rw [carried_iff_dispatched]
  cases i with
  | Send sess_id ch msg_id payload =>
    show (Frame.data_up sess_id ch msg_id payload).body.length ≤ _ ∧ _ ↔ _
    rw [Frame.length_data_up]
    exact and_iff_left (handle_send sess_id ch msg_id payload)
  | Multicast ids ch msg_id payload =>
    show (Frame.multicast ids ch msg_id payload).body.length ≤ _ ∧ _ ↔ _ ∧ _
    rw [Frame.length_multicast, and_comm]
    exact and_congr_left' (handle_multicast ids ch msg_id payload)
  | Kick sess_id reason =>
    refine iff_of_false ?_ id
    rintro ⟨-, h⟩
    have hkick : handle_logic_frame (Frame.kick sess_id reason) =
      .ok (some (.Kick sess_id reason)) := h
    rw [handle_kick] at hkick
    cases hkick
  | SetBudget sess_id kbps =>
    refine iff_of_true ⟨?_, handle_set_budget sess_id kbps⟩ trivial
    show (leBytes sess_id ++ leBytes kbps).length ≤ _
    rw [List.length_append, length_leBytes, length_leBytes]
    decide

/-- A `Kick` is not carried. -/
theorem kick_not_carried : ¬ (Kick 1 2).Carried := by
  intro h
  have hkick : handle_logic_frame (Frame.kick 1 2) = .ok (some (.Kick 1 2)) :=
    ((carried_iff_dispatched (Kick 1 2)).1 h).2
  rw [handle_kick] at hkick
  cases hkick

end Instruction

end SoupEngine
