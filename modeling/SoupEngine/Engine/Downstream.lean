import SoupEngine.Sdk.Buffer

/-!
# From the rooms to the engine

A room sends to one player, to some or to all of them. What it puts on the outbox is a frame of the
engine (`started`), and is read back as what was sent as long as the frame may count its sessions
and fits the engine.
-/

namespace SoupEngine

open Sdk

/-- The arms of `handle_logic_frame` for `Send` and `Multicast`: the sessions, the channel, the
message and the payload. -/
def parse_down (frame : Frame) : Option (List U64 × U8 × U16 × Bytes) :=
  if frame.ty = FRAME_SEND then
    ((Frame.parse_data frame.body).map fun (sess_id, rest) => ([sess_id], rest)).toOption
  else if frame.ty = FRAME_MULTICAST then (Frame.parse_multicast frame.body).toOption
  else none

/-- To whom a room sends. -/
inductive Targets (r : Room)
  | send (player : PlayerID)
  | multicast (players : List PlayerID)
  | broadcast (order : {order : List PlayerID // r.IsOrder order})

namespace Targets

variable {r : Room}

/-- The players in order. -/
def players : Targets r → List PlayerID
  | send player => [player]
  | multicast players => players
  | broadcast order => order

/-- The sessions of those who are online, in order. -/
def sessions (t : Targets r) : List U64 := r.sessions t.players

/-- `BeginSend`, `BeginMulticast` or `BeginBroadcast`. -/
def start (t : Targets r) (b : Buffer) (ch : U8) (msg : U16) : Buffer :=
  match t with
  | send player => r.BeginSend b player ch msg
  | multicast players => r.BeginMulticast b players ch msg
  | broadcast order => r.BeginBroadcast b order ch msg

/-- The frame that the engine would build for the same sessions. -/
def frame (t : Targets r) (ch : U8) (msg : U16) (payload : Bytes) : Frame :=
  match t with
  | send _ => Frame.send (t.sessions.headD 0) ch msg payload
  | _ => Frame.multicast t.sessions ch msg payload

/-- The sessions can be counted in the frame. -/
def Counted (t : Targets r) : Prop :=
  match t with
  | send _ => True
  | _ => t.sessions.length ≤ 255

/-- The length of the head in the body. -/
def headLen (t : Targets r) : ℕ :=
  match t with
  | send _ => 11
  | _ => 4 + 8 * t.sessions.length

/-- What is put on the outbox is split into one frame, which is read back as what was sent; to
nobody, nothing is sent. -/
def Carried (t : Targets r) (b : Buffer) (ch : U8) (msg : U16) (ps : List Put) : Prop :=
  match Commit (writeAll ps (t.start b ch msg)) with
  | none => t.sessions = []
  | some bytes => ∃ frame, Frame.try_decode bytes = .ok (some (frame, [])) ∧
      parse_down frame = some (t.sessions, ch, msg, payloadOf ps)

/-! ## What is put on the outbox -/

theorem sessions_send (player : PlayerID) :
    (send player : Targets r).sessions = ((r.players[player]?).map PState.sess).toList := by
  unfold sessions players Room.sessions
  cases h : r.players[player]? <;> simp [h]

theorem length_sessions (players : List PlayerID) :
    (r.sessions players).length = players.countP fun p => decide (p ∈ r.players) := by
  unfold Room.sessions
  induction players with
  | nil => rfl
  | cons p ps ih =>
    cases h : r.players[p]? with
    | none =>
      have hnot : p ∉ r.players := by
        rw [← Std.ExtTreeMap.isSome_getElem?_iff_mem, h]
        simp
      rw [List.filterMap_cons_none (by rw [h]; rfl), List.countP_cons_of_neg (by simpa using hnot),
        ih]
    | some st =>
      have hmem : p ∈ r.players := by
        rw [← Std.ExtTreeMap.isSome_getElem?_iff_mem, h]
        rfl
      rw [List.filterMap_cons_some (by rw [h]; rfl), List.length_cons,
        List.countP_cons_of_pos (by simpa using hmem), ih]

/-- Who walks the map meets every player once. -/
theorem length_order {order : List PlayerID} (ho : r.IsOrder order) :
    order.length = r.players.size := by
  have hperm : order.Perm r.players.keys := by
    refine (List.perm_ext_iff_of_nodup ho.1 Std.ExtTreeMap.nodup_keys).2 fun p => ?_
    rw [ho.2 p, Std.ExtTreeMap.mem_keys]
  rw [hperm.length_eq, Std.ExtTreeMap.length_keys]

theorem length_sessions_order {order : List PlayerID} (ho : r.IsOrder order) :
    (r.sessions order).length = r.players.size := by
  rw [length_sessions, ← length_order ho, List.countP_eq_length]
  intro p hp
  exact decide_eq_true ((ho.2 p).1 hp)

/-- A multicast is put on the outbox as the frame of the engine. -/
theorem Commit_beginMulti {sessions : List U64} {n : ℕ} (hn : sessions.length = n) (b : Buffer)
    (ch : U8) (msg : U16) (ps : List Put) : Commit (writeAll ps (beginMulti b n sessions ch msg)) =
      if sessions = [] then none
          else some (Frame.multicast sessions ch msg (payloadOf ps)).bytes := by
  have hclosed : (writeAll ps (beginMulti b n sessions ch msg)).closed = false := by
    rw [closed_writeAll]
    unfold beginMulti
    dsimp only
    split_ifs <;> rfl
  split_ifs with hnil
  · subst hnil
    have hinvalid : (writeAll ps (beginMulti b n [] ch msg)).invalid = true := by
      rw [invalid_writeAll]
      unfold beginMulti
      dsimp only
      rw [if_pos (show n = 0 from hn.symm)]
    unfold Commit
    rw [if_neg (by rw [hclosed]; decide), if_pos hinvalid]
  · have hpos : n ≠ 0 := by
      rw [← hn]
      exact fun h0 => hnil (List.length_eq_zero_iff.1 h0)
    have hinvalid : (writeAll ps (beginMulti b n sessions ch msg)).invalid = false := by
      rw [invalid_writeAll]
      unfold beginMulti
      dsimp only
      rw [if_neg hpos]
      rfl
    obtain ⟨front, hfront, hholds⟩ := holds_beginMulti hn hpos b ch msg
    rw [Commit_eq (holds_writeAll hholds ps) hfront hclosed hinvalid, ← hn]
    rfl

theorem Commit_BeginSend (player : PlayerID) (b : Buffer) (ch : U8) (msg : U16) (ps : List Put) :
    Commit (writeAll ps (r.BeginSend b player ch msg)) =
      (r.players[player]?).map fun st => (Frame.send st.sess ch msg (payloadOf ps)).bytes := by
  have hclosed : (writeAll ps (r.BeginSend b player ch msg)).closed = false := by
    rw [closed_writeAll]
    unfold Room.BeginSend
    dsimp only
    split <;> rfl
  cases hst : r.players[player]? with
  | none =>
    have hinvalid : (writeAll ps (r.BeginSend b player ch msg)).invalid = true := by
      rw [invalid_writeAll]
      unfold Room.BeginSend
      dsimp only
      rw [hst]
    unfold Commit
    rw [if_neg (by rw [hclosed]; decide), if_pos hinvalid]
    rfl
  | some st =>
    have hinvalid : (writeAll ps (r.BeginSend b player ch msg)).invalid = false := by
      rw [invalid_writeAll]
      unfold Room.BeginSend
      dsimp only
      rw [hst]
      rfl
    obtain ⟨front, hfront, hholds⟩ := holds_BeginSend hst b ch msg
    rw [Commit_eq (holds_writeAll hholds ps) hfront hclosed hinvalid]
    rfl

/-- **What is put on the outbox**, for whatever buffer the pool gives: the frame of the engine, and
nothing if nobody is online. -/
theorem started (t : Targets r) (b : Buffer) (ch : U8) (msg : U16) (ps : List Put) :
    Commit (writeAll ps (t.start b ch msg)) =
      if t.sessions = [] then none else some (t.frame ch msg (payloadOf ps)).bytes := by
  cases t with
  | send player =>
    refine (Commit_BeginSend player b ch msg ps).trans ?_
    unfold frame
    rw [sessions_send]
    cases r.players[player]? with
    | none => rfl
    | some st => rfl
  | multicast players => exact Commit_beginMulti (length_sessions players) b ch msg ps
  | broadcast order => exact Commit_beginMulti (length_sessions_order order.2) b ch msg ps

/-! ## What the engine reads -/

theorem length_frame (t : Targets r) (ch : U8) (msg : U16) (payload : Bytes) :
    (t.frame ch msg payload).body.length = t.headLen + payload.length := by
  cases t with
  | send player => exact Frame.length_data_up _ ch msg payload
  | multicast players => exact Frame.length_multicast _ ch msg payload
  | broadcast order => exact Frame.length_multicast _ ch msg payload

/-- The engine reads the sessions exactly if they can be counted. -/
theorem parse_down_frame {t : Targets r} (hne : t.sessions ≠ []) (ch : U8) (msg : U16)
    (payload : Bytes) :
    parse_down (t.frame ch msg payload) = some (t.sessions, ch, msg, payload) ↔ t.Counted := by
  have hmulti (ids : List U64) :
      parse_down (Frame.multicast ids ch msg payload) = some (ids, ch, msg, payload) ↔
      ids.length ≤ 255 := by
    rw [← Frame.parse_multicast_iff ids ch msg payload]
    show (Frame.parse_multicast (Frame.multicast ids ch msg payload).body).toOption = _ ↔ _
    cases Frame.parse_multicast (Frame.multicast ids ch msg payload).body with
    | error e => exact iff_of_false (fun h => nomatch h) fun h => nomatch h
    | ok out =>
      exact ⟨fun h => congrArg Except.ok (Option.some.inj h),
        fun h => congrArg some (Except.ok.inj h)⟩
  cases t with
  | send player =>
    refine iff_of_true ?_ trivial
    unfold frame
    rw [sessions_send] at hne ⊢
    cases hst : r.players[player]? with
    | none =>
      rw [hst] at hne
      exact absurd rfl hne
    | some st =>
      have hread := Frame.parse_data_body st.sess ch msg payload
      show parse_down (Frame.send st.sess ch msg payload) = some ([st.sess], ch, msg, payload)
      unfold parse_down Frame.send
      dsimp only
      rw [if_pos rfl, hread]
      rfl
  | multicast players => exact hmulti _
  | broadcast order => exact hmulti _

/-- The bytes are split into one frame, which is read back, exactly if the sessions can be counted
and the body is within the limit. -/
theorem read_back_iff {t : Targets r} (hne : t.sessions ≠ []) (ch : U8) (msg : U16)
    (payload : Bytes) :
    (∃ frame, Frame.try_decode (t.frame ch msg payload).bytes = .ok (some (frame, [])) ∧
      parse_down frame = some (t.sessions, ch, msg, payload)) ↔
      t.Counted ∧ t.headLen + payload.length ≤ MAX_FRAME_BODY := by
  rw [← parse_down_frame hne ch msg payload, ← length_frame t ch msg]
  constructor
  · rintro ⟨frame, hsplit, hread⟩
    have hfit := (Frame.try_decode_bytes _).1 ⟨frame, hsplit⟩
    rw [Frame.try_decode_of_le hfit] at hsplit
    have hsame : t.frame ch msg payload = frame :=
      congrArg Prod.fst (Option.some.inj (Except.ok.inj hsplit))
    exact ⟨by rw [hsame, hread], hfit⟩
  · exact fun h => ⟨_, Frame.try_decode_of_le h.2, h.1⟩

/-- **Down the link.** A room sends, with any buffer of the pool and whatever is written: what is
put on the outbox is read back as what was sent exactly if nobody is online, or if the sessions of a
multicast are no more than 255 and the body is within the limit. -/
theorem downstream_iff (r : Room) (t : Targets r) (b : Buffer) (ch : U8) (msg : U16)
    (ps : List Put) :
    t.Carried b ch msg ps ↔
      t.sessions = [] ∨ t.Counted ∧ t.headLen + (payloadOf ps).length ≤ MAX_FRAME_BODY := by
  unfold Carried
  rw [started]
  split_ifs with hnil
  · exact iff_of_true hnil (.inl hnil)
  · rw [or_iff_right hnil]
    exact read_back_iff hnil ch msg (payloadOf ps)

/-- A broadcast to more players than a byte counts is not read back. -/
theorem broadcast_crowd {order : List PlayerID} (ho : r.IsOrder order) (h : 255 < r.players.size)
    (b : Buffer) (ch : U8) (msg : U16) (ps : List Put) :
    ¬ (broadcast ⟨order, ho⟩ : Targets r).Carried b ch msg ps := by
  have hlen : (broadcast ⟨order, ho⟩ : Targets r).sessions.length = r.players.size :=
    length_sessions_order ho
  have hne : (broadcast ⟨order, ho⟩ : Targets r).sessions ≠ [] := by
    intro hnil
    rw [hnil, List.length_nil] at hlen
    omega
  unfold Carried
  rw [started, if_neg hne]
  intro hread
  have hcount : (broadcast ⟨order, ho⟩ : Targets r).sessions.length ≤ 255 :=
    ((read_back_iff hne ch msg _).1 hread).1
  omega

/-- A room with 256 players, each in the session of the same number. -/
def crowded : Room :=
  (List.range 256).foldl (fun r i =>
    { r with players := r.players.insert (BitVec.ofNat 32 i) (r.joined (BitVec.ofNat 64 i)) })
      (Room.new 2 8)

theorem isOrder_keys (r : Room) : r.IsOrder r.players.keys :=
  ⟨Std.ExtTreeMap.nodup_keys, fun _ => Std.ExtTreeMap.mem_keys⟩

/-- The count in the frame is 0. -/
theorem broadcast_uncounted :
    ¬ (broadcast ⟨crowded.players.keys, isOrder_keys crowded⟩ : Targets crowded).Carried
      ⟨List.replicate 4096 0, 0, 0, false, false, false⟩ 2 5 [.U8 9] :=
  broadcast_crowd (isOrder_keys crowded) (by decide +kernel) _ 2 5 _

end Targets

end SoupEngine
