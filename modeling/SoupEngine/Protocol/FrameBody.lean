import SoupEngine.Protocol.Frame

/-!
# The bodies of frames, read back

The engine has a parser for the body of most frames. The address of a `SessionOpen` has no tag: an
address whose octets 4 to 15 are zero is read as IPv4.
-/

namespace SoupEngine

/-- A part in the middle. -/
theorem slice_mid {a b c : Bytes} {lo hi : ℕ} (hlo : a.length = lo)
    (hhi : a.length + b.length = hi) :
    slice (a ++ b ++ c) lo hi = b := by
  unfold slice
  rw [← hlo, ← hhi, ← List.length_append, List.take_left, List.drop_left]

/-- The part at the end. -/
theorem slice_last {a b : Bytes} {lo hi : ℕ} (hlo : a.length = lo)
    (hhi : a.length + b.length = hi) :
    slice (a ++ b) lo hi = b := by
  rw [← List.append_nil (a ++ b), slice_mid hlo hhi]

/-- The part at the front. -/
theorem slice_first {a b : Bytes} {hi : ℕ} (hhi : a.length = hi) : slice (a ++ b) 0 hi = a := by
  unfold slice
  rw [← hhi, List.take_left, List.drop_zero]

/-- The octets of an address, first octet first. -/
def SocketAddr.octets : SocketAddr → Bytes
  | .V4 ip _ => (leBytes ip).reverse
  | .V6 ip _ _ _ => (leBytes ip).reverse

def SocketAddr.port : SocketAddr → U16
  | .V4 _ port => port
  | .V6 _ port _ _ => port

/-- The IP of an address, and its port. -/
def SocketAddr.ipPort : SocketAddr → (U32 ⊕ BitVec 128) × U16
  | .V4 ip port => (.inl ip, port)
  | .V6 ip port _ _ => (.inr ip, port)

def FRAME_SEND : U8 := 0x81
def FRAME_MULTICAST : U8 := 0x82
def FRAME_KICK : U8 := 0x83
def FRAME_SET_BUDGET : U8 := 0x84
def FRAME_LOGIC_HELLO : U8 := 0x90

namespace Frame

/-- A frame to one session; the body is that of a `Data` frame. -/
def send (sess_id : U64) (ch : U8) (msg_id : U16) (payload : Bytes) : Frame :=
  ⟨FRAME_SEND, (data_up sess_id ch msg_id payload).body⟩

/-- A frame to some sessions, whose number is written in one byte. -/
def multicast (ids : List U64) (ch : U8) (msg_id : U16) (payload : Bytes) : Frame :=
  ⟨FRAME_MULTICAST,
    [BitVec.ofNat 8 ids.length] ++ ids.flatMap leBytes ++ [ch] ++ leBytes msg_id ++ payload⟩

/-- The body of any frame becomes that of a `Send` frame. -/
def into_send (f : Frame) : Frame := ⟨FRAME_SEND, f.body⟩

def kick (sess_id : U64) (reason : U8) : Frame := (session_close sess_id reason).into_send

def set_budget (sess_id : U64) (kbps : U16) : Frame :=
  ⟨FRAME_SET_BUDGET, leBytes sess_id ++ leBytes kbps⟩

/-- The octets behind the first four are zero. -/
def v4TailZero (bytes : Bytes) : Bool := (slice bytes 4 16).all fun b => decide (b = 0)

def decode_addr (bytes : Bytes) : Option SocketAddr :=
  if bytes.length < ADDR_LEN then none
  else
    let port := fromLe 16 (slice bytes 16 18)
    if v4TailZero bytes = true then some (.V4 (fromLe 32 (slice bytes 0 4).reverse) port)
    else some (.V6 (fromLe 128 (slice bytes 0 16).reverse) port 0 0)

def parse_session_open (body : Bytes) : Except Error (U64 × Option SocketAddr × Bytes) :=
  if body.length < 8 + ADDR_LEN + 2 then .error (.Protocol "SessionOpen body 过短")
  else
    let token_len := (fromLe 16 (slice body (8 + ADDR_LEN) (8 + ADDR_LEN + 2))).toNat
    let start := 8 + ADDR_LEN + 2
    let stop := start + token_len
    if body.length < stop then .error (.Protocol "token 越界")
    else .ok (fromLe 64 (slice body 0 8), decode_addr (slice body 8 (8 + ADDR_LEN)),
      slice body start stop)

def parse_session_close (body : Bytes) : Except Error (U64 × U8) :=
  if body.length < 9 then .error (.Protocol "SessionClose body 过短")
  else .ok (fromLe 64 (slice body 0 8), body.getD 8 0)

def parse_session_resume (body : Bytes) : Except Error (U64 × U32) :=
  if body.length < 12 then .error (.Protocol "SessionResume body 过短")
  else .ok (fromLe 64 (slice body 0 8), fromLe 32 (slice body 8 12))

def parse_data (body : Bytes) : Except Error (U64 × U8 × U16 × Bytes) :=
  if body.length < 11 then .error (.Protocol "Data body 过短")
  else .ok (fromLe 64 (slice body 0 8), body.getD 8 0, fromLe 16 (slice body 9 11), body.drop 11)

def parse_multicast (body : Bytes) : Except Error (List U64 × U8 × U16 × Bytes) :=
  if body.length = 0 then .error (.Protocol "Multicast body 为空")
  else
    let n := (body.getD 0 0).toNat
    let ids_end := 1 + n * 8
    if body.length < ids_end + 3 then .error (.Protocol "Multicast body 过短")
    else
      let ids := (List.range n).map fun i => fromLe 64 (slice body (1 + i * 8) (1 + i * 8 + 8))
      .ok (ids, body.getD ids_end 0, fromLe 16 (slice body (ids_end + 1) (ids_end + 3)),
        body.drop (ids_end + 3))

def parse_set_budget (body : Bytes) : Except Error (U64 × U16) :=
  if body.length < 10 then .error (.Protocol "SetBudget body 过短")
  else .ok (fromLe 64 (slice body 0 8), fromLe 16 (slice body 8 10))

/-! ## Addresses -/

theorem length_encode_addr (a : SocketAddr) : (encode_addr a).length = ADDR_LEN := by
  cases a <;> simp [encode_addr, ADDR_LEN]

theorem port_encode_addr (a : SocketAddr) : fromLe 16 (slice (encode_addr a) 16 18) = a.port := by
  have hport : slice (encode_addr a) 16 18 = leBytes a.port := by
    cases a with
    | V4 ip port => exact slice_last (by simp) (by simp)
    | V6 ip port f s => exact slice_last (by simp) (by simp)
  rw [hport]
  exact fromLe_leBytes (by decide) _

theorem v4TailZero_V4 (ip : U32) (port : U16) : v4TailZero (encode_addr (.V4 ip port)) = true := by
  have htail : slice (encode_addr (.V4 ip port)) 4 16 = List.replicate 12 0 :=
    slice_mid (by simp) (by simp)
  unfold v4TailZero
  rw [htail]
  decide

/-- The octets behind the first four are the low 96 bits. -/
theorem v4TailZero_V6 (ip : BitVec 128) (port : U16) (f s : U32) :
    v4TailZero (encode_addr (.V6 ip port f s)) = true ↔ ip.setWidth 96 = 0 := by
  have hocts : leBytes ip = LittleEndian.toBytes 12 ip.toNat ++
      LittleEndian.toBytes 4 (ip.toNat / 256 ^ 12) :=
    LittleEndian.toBytes_add 12 4 ip.toNat
  have htail : slice (encode_addr (.V6 ip port f s)) 4 16 =
      (LittleEndian.toBytes 12 ip.toNat).reverse := by
    show slice ((leBytes ip).reverse ++ leBytes port) 4 16 = _
    rw [hocts, List.reverse_append]
    exact slice_mid (by simp) (by simp)
  have hlow : ip.setWidth 96 = 0 ↔ ip.toNat % 256 ^ 12 = 0 := by
    rw [← BitVec.toNat_inj, BitVec.toNat_setWidth]
    rfl
  unfold v4TailZero
  rw [htail, hlow, ← LittleEndian.toBytes_eq_zero_iff, List.all_eq_true]
  simp

theorem decode_addr_V4 (ip : U32) (port : U16) :
    decode_addr (encode_addr (.V4 ip port)) = some (.V4 ip port) := by
  have hip : slice (encode_addr (.V4 ip port)) 0 4 = (leBytes ip).reverse := by
    show slice ((leBytes ip).reverse ++ List.replicate 12 0 ++ leBytes port) 0 4 = _
    rw [List.append_assoc]
    exact slice_first (by simp)
  unfold decode_addr
  rw [length_encode_addr, if_neg (Nat.lt_irrefl _)]
  dsimp only
  rw [if_pos (v4TailZero_V4 ip port), port_encode_addr, hip, List.reverse_reverse,
    fromLe_leBytes (by decide)]
  rfl

theorem decode_addr_V6 (ip : BitVec 128) (port : U16) (f s : U32) :
    decode_addr (encode_addr (.V6 ip port f s)) =
      if ip.setWidth 96 = 0
        then some (.V4 (fromLe 32 (slice (encode_addr (.V6 ip port f s)) 0 4).reverse) port)
      else some (.V6 ip port 0 0) := by
  have hip : slice (encode_addr (.V6 ip port f s)) 0 16 = (leBytes ip).reverse :=
    slice_first (by simp)
  unfold decode_addr
  rw [length_encode_addr, if_neg (Nat.lt_irrefl _)]
  dsimp only
  rw [if_congr (v4TailZero_V6 ip port f s) rfl rfl, port_encode_addr, hip, List.reverse_reverse,
    fromLe_leBytes (by decide)]
  rfl

/-- Only an IPv6 address whose low 96 bits are 0 is taken for another one. -/
def Tagged : SocketAddr → Prop
  | .V4 _ _ => True
  | .V6 ip _ _ _ => ip.setWidth 96 ≠ 0

/-- **The address** is read back, as far as its IP and its port, exactly if it is told apart. -/
theorem decode_addr_iff (a : SocketAddr) :
    (decode_addr (encode_addr a)).map SocketAddr.ipPort = some a.ipPort ↔ Tagged a := by
  cases a with
  | V4 ip port =>
    rw [decode_addr_V4]
    exact iff_of_true rfl trivial
  | V6 ip port f s =>
    rw [decode_addr_V6]
    unfold Tagged
    split_ifs with h
    · refine iff_of_false ?_ (not_not.2 h)
      intro heq
      have hsum := congrArg Prod.fst (Option.some.inj heq)
      cases hsum
    · exact iff_of_true rfl h

/-! ## Bodies -/

theorem session_open_fields (sess_id : U64) (addr : SocketAddr) {token : Bytes}
    (h : token.length ≤ 65535) :
    (session_open sess_id addr token).body.length = 28 + token.length ∧
      fromLe 64 (slice (session_open sess_id addr token).body 0 8) = sess_id ∧
      slice (session_open sess_id addr token).body 8 26 = encode_addr addr ∧
      (fromLe 16 (slice (session_open sess_id addr token).body 26 28)).toNat = token.length ∧
      slice (session_open sess_id addr token).body 28 (28 + token.length) = token := by
  have haddr := length_encode_addr addr
  unfold ADDR_LEN at haddr
  show (leBytes sess_id ++ encode_addr addr ++ leBytes (BitVec.ofNat 16 token.length) ++
    token).length = _ ∧ _
  refine ⟨by simp [haddr]; omega, ?_, ?_, ?_, ?_⟩
  · have hslice : slice (session_open sess_id addr token).body 0 8 = leBytes sess_id := by
      unfold session_open
      rw [List.append_assoc, List.append_assoc]
      exact slice_first (by simp)
    rw [hslice]
    exact fromLe_leBytes (by decide) _
  · unfold session_open
    rw [List.append_assoc]
    exact slice_mid (by simp) (by simp [haddr])
  · have hslice : slice (session_open sess_id addr token).body 26 28 =
        leBytes (BitVec.ofNat 16 token.length) := slice_mid (by simp [haddr]) (by simp [haddr])
    rw [hslice, fromLe_leBytes (by decide), BitVec.toNat_ofNat]
    exact Nat.mod_eq_of_lt (by omega)
  · exact slice_last (by simp [haddr]) (by simp [haddr])

theorem parse_session_open_body (sess_id : U64) (addr : SocketAddr) {token : Bytes}
    (h : token.length ≤ 65535) :
    parse_session_open (session_open sess_id addr token).body =
      .ok (sess_id, decode_addr (encode_addr addr), token) := by
  obtain ⟨hlen, hsess, haddr, htl, htoken⟩ := session_open_fields sess_id addr h
  unfold parse_session_open ADDR_LEN
  rw [if_neg (by rw [hlen]; omega)]
  dsimp only
  rw [htl, if_neg (by rw [hlen]; omega), hsess, haddr, htoken]

/-- The session in front of a body. -/
theorem sess_of_body (sess_id : U64) (rest : Bytes) :
    fromLe 64 (slice (leBytes sess_id ++ rest) 0 8) = sess_id := by
  rw [slice_first (by simp), fromLe_leBytes (by decide)]

theorem parse_session_close_body (sess_id : U64) (reason : U8) :
    parse_session_close (session_close sess_id reason).body = .ok (sess_id, reason) := by
  have hlen : (session_close sess_id reason).body.length = 9 := by simp [session_close]
  have hreason : (session_close sess_id reason).body.getD 8 0 = reason := by simp [session_close]
  unfold parse_session_close
  rw [if_neg (by rw [hlen]; omega), hreason]
  exact congrArg (fun x => Except.ok (x, reason)) (sess_of_body sess_id _)

theorem parse_session_resume_body (sess_id : U64) (gap_ms : U32) :
    parse_session_resume (session_resume sess_id gap_ms).body = .ok (sess_id, gap_ms) := by
  have hlen : (session_resume sess_id gap_ms).body.length = 12 := by simp [session_resume]
  have hgap : slice (session_resume sess_id gap_ms).body 8 12 = leBytes gap_ms :=
    slice_last (by simp) (by simp)
  unfold parse_session_resume
  rw [if_neg (by rw [hlen]; omega), hgap, fromLe_leBytes (by decide)]
  exact congrArg (fun x => Except.ok (x, gap_ms)) (sess_of_body sess_id _)

/-- The fields of the body of a `Data` frame. -/
theorem data_fields (sess_id : U64) (ch : U8) (msg_id : U16) (payload : Bytes) :
    ¬ (data_up sess_id ch msg_id payload).body.length < 11 ∧
      fromLe 64 (slice (data_up sess_id ch msg_id payload).body 0 8) = sess_id ∧
      (data_up sess_id ch msg_id payload).body.getD 8 0 = ch ∧
      fromLe 16 (slice (data_up sess_id ch msg_id payload).body 9 11) = msg_id ∧
      (data_up sess_id ch msg_id payload).body.drop 11 = payload := by
  have hmsg : slice (data_up sess_id ch msg_id payload).body 9 11 = leBytes msg_id :=
    slice_mid (by simp) (by simp)
  refine ⟨by simp [data_up]; omega, ?_, by simp [data_up], ?_, ?_⟩
  · unfold data_up
    rw [List.append_assoc, List.append_assoc]
    exact sess_of_body sess_id _
  · rw [hmsg]
    exact fromLe_leBytes (by decide) _
  · exact List.drop_left' (by simp)

theorem parse_data_body (sess_id : U64) (ch : U8) (msg_id : U16) (payload : Bytes) :
    parse_data (data_up sess_id ch msg_id payload).body = .ok (sess_id, ch, msg_id, payload) := by
  obtain ⟨hlen, hsess, hch, hmsg, hpayload⟩ := data_fields sess_id ch msg_id payload
  unfold parse_data
  rw [if_neg hlen, hsess, hch, hmsg, hpayload]

theorem length_flatMap_leBytes (ids : List U64) :
    (ids.flatMap leBytes).length = 8 * ids.length := by
  induction ids with
  | nil => rfl
  | cons id rest ih =>
    rw [List.flatMap_cons, List.length_append, length_leBytes, ih, List.length_cons]
    omega

/-- The sessions behind the count, one at a time. -/
theorem ids_of_body (x : U8) (ids : List U64) (rest : Bytes) :
    ((List.range ids.length).map fun i =>
      fromLe 64 (slice ([x] ++ ids.flatMap leBytes ++ rest) (1 + i * 8) (1 + i * 8 + 8))) =
        ids := by
  refine List.ext_getElem (by simp) fun i h _ => ?_
  rw [List.length_map, List.length_range] at h
  have hparts : ids.flatMap leBytes =
      (ids.take i).flatMap leBytes ++ leBytes ids[i] ++ (ids.drop (i + 1)).flatMap leBytes := by
    conv_lhs => rw [← List.take_append_drop i ids, List.drop_eq_getElem_cons h]
    rw [List.flatMap_append, List.flatMap_cons, ← List.append_assoc]
  have hbefore : ([x] ++ (ids.take i).flatMap leBytes).length = 1 + i * 8 := by
    rw [List.length_append, length_flatMap_leBytes, List.length_take, List.length_singleton]
    omega
  have hslice : slice ([x] ++ ids.flatMap leBytes ++ rest) (1 + i * 8) (1 + i * 8 + 8) =
      leBytes ids[i] := by
    rw [hparts, show [x] ++ ((ids.take i).flatMap leBytes ++ leBytes ids[i] ++
      (ids.drop (i + 1)).flatMap leBytes) ++ rest =
        ([x] ++ (ids.take i).flatMap leBytes) ++ leBytes ids[i] ++
        ((ids.drop (i + 1)).flatMap leBytes ++ rest) by simp only [List.append_assoc]]
    exact slice_mid hbefore (by rw [hbefore, length_leBytes])
  rw [List.getElem_map, List.getElem_range, hslice]
  exact fromLe_leBytes (by decide) _

theorem parse_multicast_body {ids : List U64} (h : ids.length ≤ 255) (ch : U8) (msg_id : U16)
    (payload : Bytes) :
    parse_multicast (multicast ids ch msg_id payload).body = .ok (ids, ch, msg_id, payload) := by
  have hids := length_flatMap_leBytes ids
  have hbody : (multicast ids ch msg_id payload).body.length =
      4 + 8 * ids.length + payload.length := by
    simp [multicast, hids]
    omega
  have hcount : ((multicast ids ch msg_id payload).body.getD 0 0).toNat = ids.length := by
    simp [multicast]
    omega
  have hfront : ([BitVec.ofNat 8 ids.length] ++ ids.flatMap leBytes : Bytes).length =
      1 + ids.length * 8 := by
    simp [hids]
    omega
  have hsessions := ids_of_body (BitVec.ofNat 8 ids.length) ids ([ch] ++ leBytes msg_id ++ payload)
  have hch : (multicast ids ch msg_id payload).body.getD (1 + ids.length * 8) 0 = ch := by
    unfold multicast
    rw [List.append_assoc, List.append_assoc, ← hfront, List.getD_eq_getElem?_getD,
      List.getElem?_append_right le_rfl, Nat.sub_self]
    rfl
  have hmsg : slice (multicast ids ch msg_id payload).body (1 + ids.length * 8 + 1)
      (1 + ids.length * 8 + 3) = leBytes msg_id := by
    refine slice_mid ?_ ?_ <;> simp [hids] <;> omega
  unfold parse_multicast
  dsimp only
  rw [if_neg (by omega), hcount, if_neg (by omega), hch, hmsg, fromLe_leBytes (by decide)]
  have hdrop : (multicast ids ch msg_id payload).body.drop (1 + ids.length * 8 + 3) = payload :=
    List.drop_left' (by simp [hids]; omega)
  rw [hdrop]
  refine congrArg (fun x => Except.ok (x, ch, msg_id, payload)) ?_
  unfold multicast
  rw [List.append_assoc _ [ch], List.append_assoc _ ([ch] ++ leBytes msg_id)]
  exact hsessions

/-- No more sessions are read than a byte counts. -/
theorem parse_multicast_length {body payload : Bytes} {ids : List U64} {ch : U8} {msg_id : U16}
    (h : parse_multicast body = .ok (ids, ch, msg_id, payload)) : ids.length ≤ 255 := by
  unfold parse_multicast at h
  dsimp only at h
  split_ifs at h
  have hids := congrArg (fun x => x.1.length) (Except.ok.inj h)
  dsimp only at hids
  rw [List.length_map, List.length_range] at hids
  have hlt := (body.getD 0 0).isLt
  omega

/-- The sessions of a `Multicast` are read back exactly if a byte counts them. -/
theorem parse_multicast_iff (ids : List U64) (ch : U8) (msg_id : U16) (payload : Bytes) :
    parse_multicast (multicast ids ch msg_id payload).body = .ok (ids, ch, msg_id, payload) ↔
      ids.length ≤ 255 :=
  ⟨parse_multicast_length, fun h => parse_multicast_body h ch msg_id payload⟩

theorem length_multicast (ids : List U64) (ch : U8) (msg_id : U16) (payload : Bytes) :
    (multicast ids ch msg_id payload).body.length = 4 + 8 * ids.length + payload.length := by
  simp [multicast]
  omega

theorem length_data_up (sess_id : U64) (ch : U8) (msg_id : U16) (payload : Bytes) :
    (data_up sess_id ch msg_id payload).body.length = 11 + payload.length := by
  simp [data_up]
  omega

theorem parse_set_budget_body (sess_id : U64) (kbps : U16) :
    parse_set_budget (set_budget sess_id kbps).body = .ok (sess_id, kbps) := by
  have hlen : (set_budget sess_id kbps).body.length = 10 := by simp [set_budget]
  have hkbps : slice (set_budget sess_id kbps).body 8 10 = leBytes kbps :=
    slice_last (by simp) (by simp)
  unfold parse_set_budget
  rw [if_neg (by rw [hlen]; omega), hkbps, fromLe_leBytes (by decide)]
  exact congrArg (fun x => Except.ok (x, kbps)) (sess_of_body sess_id _)

/-! ## One frame on the stream -/

theorem try_decode_of_le {f : Frame} (h : f.body.length ≤ MAX_FRAME_BODY) :
    try_decode f.bytes = .ok (some (f, [])) := by
  have hlen : f.bytes.length = 5 + f.body.length := by
    unfold bytes
    simp
    omega
  have hfield : (fromLe 32 (slice f.bytes 0 4)).toNat = f.body.length := by
    have hslice : slice f.bytes 0 4 = leBytes (BitVec.ofNat 32 f.body.length) := by
      unfold bytes
      rw [List.append_assoc]
      exact slice_first (by simp)
    unfold MAX_FRAME_BODY at h
    rw [hslice, fromLe_leBytes (by decide), BitVec.toNat_ofNat]
    exact Nat.mod_eq_of_lt (by omega)
  have hty : f.bytes.getD 4 0 = f.ty := by
    unfold bytes
    simp
  have hbody : slice f.bytes 5 (5 + f.body.length) = f.body := by
    unfold bytes
    exact slice_last (by simp) (by simp)
  have hrest : f.bytes.drop (5 + f.body.length) = [] := List.drop_eq_nil_of_le hlen.le
  unfold try_decode FRAME_HEADER_LEN
  dsimp only
  rw [if_neg (by omega), hfield, if_neg (by omega), if_neg (by omega), hty, hbody, hrest]

/-- The bytes of a frame are split into that frame and nothing else, exactly if its body is within
the limit. -/
theorem try_decode_bytes (f : Frame) :
    (∃ g, try_decode f.bytes = .ok (some (g, []))) ↔ f.body.length ≤ MAX_FRAME_BODY := by
  constructor
  · rintro ⟨g, h⟩
    have hlen : f.bytes.length = 5 + f.body.length := by
      unfold bytes
      simp
      omega
    unfold try_decode at h
    dsimp only at h
    split_ifs at h with hshort hmax hwhole
    · cases h
    · cases h
    have hrest := congrArg List.length (congrArg Prod.snd (Option.some.inj (Except.ok.inj h)))
    rw [List.length_drop, List.length_nil, hlen] at hrest
    unfold FRAME_HEADER_LEN at hrest
    omega
  · intro h
    exact ⟨f, try_decode_of_le h⟩

end Frame

end SoupEngine
