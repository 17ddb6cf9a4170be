import SoupEngine.Protocol.FrameBody
import SoupEngine.Sdk.Address

/-!
# What the engine says and what the SDK understands

For every event on the way to the logic server, the parsers of both sides against the constructor of
the engine. `upstream_iff`: they read the same fields, exactly if the address is not an IPv6 address
whose octets 4 to 15 are zero.
-/

namespace SoupEngine

open SoupEngine.Frame SoupEngine.Sdk

/-- A token of a `SessionOpen`. -/
structure Token where
  bytes : Bytes
  length_le : bytes.length ≤ 65535

/-- What the engine reports to the logic server. -/
inductive UpEvent
  | Open (sess_id : U64) (addr : SocketAddr) (token : Token)
  | Close (sess_id : U64) (reason : U8)
  | Resume (sess_id : U64) (gap_ms : U32)
  | Data (sess_id : U64) (ch : U8) (msg_id : U16) (payload : Bytes)
  | SessionStats (sess_id : U64) (rtt_ms loss_permille out_kbps : U16)
  | Overload (dropped_up dropped_down : U32)

/-- The address as a `net.IP`. -/
def SocketAddr.netIP (a : SocketAddr) : Bytes :=
  match a with
  | .V4 .. =>
    netIPv4 (a.octets.getD 0 0) (a.octets.getD 1 0) (a.octets.getD 2 0) (a.octets.getD 3 0)
  | .V6 .. => a.octets

/-- The text of an address. -/
def SocketAddr.text (a : SocketAddr) : String :=
  String.ofList (joinHostPort (ipString a.netIP) (itoa a.port.toNat))

namespace UpEvent

/-- Both sides read the fields of the event in the body. -/
def Agrees : UpEvent → Prop
  | .Open sess_id addr token =>
    (∃ addr', parse_session_open (session_open sess_id addr token.bytes).body =
        .ok (sess_id, addr', token.bytes) ∧ addr'.map SocketAddr.ipPort = some addr.ipPort) ∧
      parseSessionOpenAddr (session_open sess_id addr token.bytes).body =
        .ok (sess_id, addr.text, token.bytes)
  | .Close sess_id reason =>
    parse_session_close (session_close sess_id reason).body = .ok (sess_id, reason) ∧
      parseSessionClose (session_close sess_id reason).body = .ok (sess_id, reason)
  | .Resume sess_id gap_ms =>
    parse_session_resume (session_resume sess_id gap_ms).body = .ok (sess_id, gap_ms) ∧
      parseSessionResume (session_resume sess_id gap_ms).body = .ok (sess_id, gap_ms)
  | .Data sess_id ch msg_id payload =>
    parse_data (data_up sess_id ch msg_id payload).body = .ok (sess_id, ch, msg_id, payload) ∧
      parseData (data_up sess_id ch msg_id payload).body = .ok (sess_id, ch, msg_id, payload)
  | .SessionStats sess_id rtt_ms loss_permille out_kbps =>
    parseSessionStats (session_stats sess_id rtt_ms loss_permille out_kbps).body =
      .ok (sess_id, rtt_ms, loss_permille, out_kbps)
  | .Overload dropped_up dropped_down =>
    parseOverload (overload dropped_up dropped_down).body = .ok (dropped_up, dropped_down)

/-- The address of the event is told apart. -/
def ToldApart : UpEvent → Prop
  | .Open _ addr _ => Tagged addr
  | _ => True

end UpEvent

/-! ## The address in the SDK -/

theorem v4_of_tail {b : Bytes} : ((slice b 4 16).all fun x => decide (x = 0)) = v4TailZero b := rfl

theorem decodeAddr_V4 (ip : U32) (port : U16) :
    decodeAddr (encode_addr (.V4 ip port)) = (SocketAddr.V4 ip port).text := by
  have hget {i : ℕ} (hi : i < 4) :
      (encode_addr (.V4 ip port)).getD i 0 = ((leBytes ip).reverse).getD i 0 := by
    show ((leBytes ip).reverse ++ List.replicate 12 0 ++ leBytes port).getD i 0 = _
    rw [List.append_assoc, List.getD_eq_getElem?_getD,
      List.getElem?_append_left (by simpa using hi), List.getD_eq_getElem?_getD]
  unfold decodeAddr
  dsimp only
  rw [v4_of_tail, if_pos (v4TailZero_V4 ip port), port_encode_addr, hget (by omega),
    hget (by omega), hget (by omega), hget (by omega)]
  rfl

theorem decodeAddr_V6 {ip : BitVec 128} (h : ip.setWidth 96 ≠ 0) (port : U16) (f s : U32) :
    decodeAddr (encode_addr (.V6 ip port f s)) = (SocketAddr.V6 ip port f s).text := by
  have hip : slice (encode_addr (.V6 ip port f s)) 0 16 = (leBytes ip).reverse :=
    slice_first (by simp)
  unfold decodeAddr
  dsimp only
  rw [v4_of_tail, if_neg fun hz => h ((v4TailZero_V6 ip port f s).1 hz), port_encode_addr, hip]
  rfl

/-- An IPv6 address that is taken for IPv4 is rendered without brackets. -/
theorem decodeAddr_V6_ne {ip : BitVec 128} (h : ip.setWidth 96 = 0) (port : U16) (f s : U32) :
    decodeAddr (encode_addr (.V6 ip port f s)) ≠ (SocketAddr.V6 ip port f s).text := by
  have htail := (v4TailZero_V6 ip port f s).2 h
  set octets := (leBytes ip).reverse with hoctets
  have hlen : octets.length = 16 := by simp [hoctets]
  -- octets 10 and 11 are zero, and so the address is not one of `::ffff:0:0/96`
  have hmapped : octets.take 12 ≠ List.replicate 10 0 ++ [0xFF, 0xFF] := by
    intro heq
    have hmem : (0xFF : U8) ∈ slice (encode_addr (.V6 ip port f s)) 4 16 := by
      have htwelve : slice (encode_addr (.V6 ip port f s)) 4 16 = octets.drop 4 := by
        show slice (octets ++ leBytes port) 4 16 = _
        unfold slice
        rw [List.take_left' hlen]
      have hsplit : octets.drop 4 = (octets.take 12).drop 4 ++ octets.drop 12 := by
        conv_lhs => rw [← List.take_append_drop 12 octets]
        rw [List.drop_append_of_le_length (by rw [List.length_take]; omega)]
      rw [htwelve, hsplit, heq]
      exact List.mem_append_left _ (by decide)
    unfold v4TailZero at htail
    rw [List.all_eq_true] at htail
    exact absurd (htail _ hmem) (by decide)
  have hcolon : ':' ∈ ipString octets := by
    unfold ipString
    rw [if_neg hmapped]
    exact colon_mem_ip6String (by omega)
  intro heq
  have htext := congrArg (fun t => t.toList.head?) heq
  unfold decodeAddr SocketAddr.text SocketAddr.netIP SocketAddr.octets at htext
  dsimp only at htext
  rw [v4_of_tail, if_pos htail, String.toList_ofList, String.toList_ofList, ipString_netIPv4]
    at htext
  unfold joinHostPort at htext
  rw [if_neg (colon_not_mem_dotted _ _ _ _), if_pos hcolon] at htext
  exact head_dotted _ _ _ _ _ htext

/-- **The address in the SDK.** -/
theorem decodeAddr_iff (a : SocketAddr) : decodeAddr (encode_addr a) = a.text ↔ Tagged a := by
  cases a with
  | V4 ip port => exact iff_of_true (decodeAddr_V4 ip port) trivial
  | V6 ip port f s =>
    by_cases h : ip.setWidth 96 = 0
    · exact iff_of_false (decodeAddr_V6_ne h port f s) (not_not.2 h)
    · exact iff_of_true (decodeAddr_V6 h port f s) h

/-! ## The bodies in the SDK -/

theorem parseSessionOpen_body (sess_id : U64) (addr : SocketAddr) (token : Token) :
    parseSessionOpenAddr (session_open sess_id addr token.bytes).body =
      .ok (sess_id, decodeAddr (encode_addr addr), token.bytes) := by
  obtain ⟨hlen, hsess, haddr, htl, htoken⟩ := session_open_fields sess_id addr token.length_le
  unfold parseSessionOpenAddr parseSessionOpen
  rw [if_neg (by rw [hlen]; omega)]
  dsimp only
  rw [htl, if_neg (by rw [hlen]; omega), hsess, haddr, htoken]
  rfl

theorem parseSessionClose_body (sess_id : U64) (reason : U8) :
    parseSessionClose (session_close sess_id reason).body = .ok (sess_id, reason) := by
  have h := parse_session_close_body sess_id reason
  unfold parse_session_close at h
  unfold parseSessionClose
  split_ifs at h ⊢
  exact congrArg Except.ok (Except.ok.inj h)

theorem parseSessionResume_body (sess_id : U64) (gap_ms : U32) :
    parseSessionResume (session_resume sess_id gap_ms).body = .ok (sess_id, gap_ms) := by
  have h := parse_session_resume_body sess_id gap_ms
  unfold parse_session_resume at h
  unfold parseSessionResume
  split_ifs at h ⊢
  exact congrArg Except.ok (Except.ok.inj h)

theorem parseData_body (sess_id : U64) (ch : U8) (msg_id : U16) (payload : Bytes) :
    parseData (data_up sess_id ch msg_id payload).body = .ok (sess_id, ch, msg_id, payload) := by
  obtain ⟨hlen, hsess, hch, hmsg, hpayload⟩ := data_fields sess_id ch msg_id payload
  unfold parseData
  rw [if_neg hlen, hsess, hch, hmsg, hpayload]

theorem parseSessionStats_body (sess_id : U64) (rtt_ms loss_permille out_kbps : U16) :
    parseSessionStats (session_stats sess_id rtt_ms loss_permille out_kbps).body =
      .ok (sess_id, rtt_ms, loss_permille, out_kbps) := by
  have hlen : (session_stats sess_id rtt_ms loss_permille out_kbps).body.length = 14 := by
    simp [session_stats]
  have hsess : fromLe 64 (slice (session_stats sess_id rtt_ms loss_permille out_kbps).body 0 8) =
      sess_id := by
    unfold session_stats
    rw [List.append_assoc, List.append_assoc]
    exact sess_of_body sess_id _
  have hrtt : slice (session_stats sess_id rtt_ms loss_permille out_kbps).body 8 10 =
      leBytes rtt_ms := by
    unfold session_stats
    rw [List.append_assoc]
    exact slice_mid (by simp) (by simp)
  have hloss : slice (session_stats sess_id rtt_ms loss_permille out_kbps).body 10 12 =
      leBytes loss_permille :=
    slice_mid (by simp) (by simp)
  have hkbps : slice (session_stats sess_id rtt_ms loss_permille out_kbps).body 12 14 =
      leBytes out_kbps :=
    slice_last (by simp) (by simp)
  unfold parseSessionStats
  rw [if_neg (by rw [hlen]; omega), hsess, hrtt, hloss, hkbps, fromLe_leBytes (by decide),
    fromLe_leBytes (by decide), fromLe_leBytes (by decide)]

theorem parseOverload_body (dropped_up dropped_down : U32) :
    parseOverload (overload dropped_up dropped_down).body = .ok (dropped_up, dropped_down) := by
  have hlen : (overload dropped_up dropped_down).body.length = 8 := by simp [overload]
  have hup : slice (overload dropped_up dropped_down).body 0 4 = leBytes dropped_up :=
    slice_first (by simp)
  have hdown : slice (overload dropped_up dropped_down).body 4 8 = leBytes dropped_down :=
    slice_last (by simp) (by simp)
  unfold parseOverload
  rw [if_neg (by rw [hlen]; omega), hup, hdown, fromLe_leBytes (by decide),
    fromLe_leBytes (by decide)]

/-- **Frames from the engine.** For every event the parsers of the engine and of the SDK read the
fields that the event has, if and only if its address is told apart. -/
theorem upstream_iff (e : UpEvent) : e.Agrees ↔ e.ToldApart := by
  cases e with
  | Open sess_id addr token =>
    unfold UpEvent.Agrees UpEvent.ToldApart
    dsimp only
    rw [parse_session_open_body sess_id addr token.length_le, parseSessionOpen_body]
    constructor
    · rintro ⟨⟨addr', hparse, haddr⟩, -⟩
      obtain rfl : decode_addr (encode_addr addr) = addr' :=
        congrArg (fun x => x.2.1) (Except.ok.inj hparse)
      exact (decode_addr_iff addr).1 haddr
    · intro h
      rw [(decodeAddr_iff addr).2 h]
      exact ⟨⟨_, rfl, (decode_addr_iff addr).2 h⟩, rfl⟩
  | Close sess_id reason =>
    exact iff_of_true ⟨parse_session_close_body sess_id reason,
      parseSessionClose_body sess_id reason⟩ trivial
  | Resume sess_id gap_ms =>
    exact iff_of_true ⟨parse_session_resume_body sess_id gap_ms,
      parseSessionResume_body sess_id gap_ms⟩ trivial
  | Data sess_id ch msg_id payload =>
    exact iff_of_true ⟨parse_data_body sess_id ch msg_id payload,
      parseData_body sess_id ch msg_id payload⟩ trivial
  | SessionStats sess_id rtt_ms loss_permille out_kbps =>
    exact iff_of_true (parseSessionStats_body sess_id rtt_ms loss_permille out_kbps) trivial
  | Overload dropped_up dropped_down =>
    exact iff_of_true (parseOverload_body dropped_up dropped_down) trivial

/-- `[1234:5678::]:80`. -/
def shortAddr : SocketAddr := .V6 (0x12345678 <<< 96) 80 0 0

/-- The address is read as `18.52.86.120:80`. -/
theorem upstream_short : ¬ ∀ e : UpEvent, e.Agrees := by
  have hrust : decode_addr (encode_addr shortAddr) = some (.V4 0x12345678 80) := by decide +kernel
  intro h
  obtain ⟨⟨addr', hparse, haddr⟩, -⟩ := h (.Open 1 shortAddr ⟨[], Nat.zero_le _⟩)
  rw [parse_session_open_body 1 shortAddr (Nat.zero_le _), hrust] at hparse
  obtain rfl : some (SocketAddr.V4 0x12345678 80) = addr' :=
    congrArg (fun x => x.2.1) (Except.ok.inj hparse)
  exact absurd haddr (by decide +kernel)

end SoupEngine
