import SoupEngine.Engine.Instruction
import SoupEngine.Engine.ReadLoop
import SoupEngine.Lib.Hops
import SoupEngine.Lib.TransitionSystem

/-!
# From the outbox to the engine

`flushOutbox` and `trySend` put frames into the outbox, `writeLoop` writes them on the connection
that `ensure` has given it, and `logic_read_loop` takes them off and carries out their instructions.
A connection may break at any time on both sides; `writeLoop` may then still hold the dead one, and
loses the frame that it takes next. Nothing is carried out twice, out of order or changed
(`obeyed_in_order`), and the SDK counts the frames that it loses (`frames_accounted`).
-/

namespace SoupEngine

open StreamDecoder TransitionSystem Hops

/-! ## Instructions, session by session -/

/-- A multicast is carried out one session after the other. -/
def Instruction.each : Instruction → List Instruction
  | .Multicast ids ch msg_id payload => ids.map fun id => .Send id ch msg_id payload
  | i => [i]

/-- What the engine does for a frame. -/
def Frame.instructions (f : Frame) : List Instruction :=
  match handle_logic_frame f with
  | .ok (some i) => i.each
  | .ok none => []
  | .error _ => []

/-! ## The system -/

namespace Sdk

def defaultOutboxCap : ℕ := 4096

/-- Where `writeLoop` is. -/
inductive Writer
  | ensure
  | holding (k : ℕ)
  /-- In `conn.Write`, which has written `nn` bytes. -/
  | writing (k : ℕ) (f : Frame) (nn : ℕ)

/-- The frame that is being written. -/
def Writer.frames : Writer → List Frame
  | .writing _ f _ => [f]
  | _ => []

/-- What has been written of it on a connection. -/
def Writer.part : Writer → ℕ → Bytes
  | .writing k f nn, n => if k = n then f.bytes.take nn else []
  | _, _ => []

end Sdk

open Sdk (Writer defaultOutboxCap)

structure Downlink where
  outbox : List Frame
  OutDrops : ℕ
  /-- The number of connections that the engine has made. -/
  made : ℕ
  /-- The number of connections that the SDK has accepted. -/
  accepted : ℕ
  /-- `engineConn.cur`. -/
  cur : Option ℕ
  /-- The connection of `readLoop`, if it is not in `ensure`. -/
  reader : Option ℕ
  writer : Writer
  /-- The bytes on a connection that the engine has not read. -/
  pipe : ℕ → Bytes
  /-- The connection in `run_logic_link`. -/
  link : Option ℕ
  read_buf : Bytes
  /-- What `handle_logic_frame` has yet to do. -/
  todo : List Instruction
  /-- The frames that have been offered to the outbox, and those that it has taken. -/
  offered : ℕ
  sent : List Frame
  /-- The frames that have been written whole, with their connections. -/
  written : List (Frame × ℕ)
  /-- The frames that `read_frame` has returned, with their connections. -/
  taken : List (Frame × ℕ)
  /-- The instructions that have been carried out. -/
  done : List Instruction

inductive DownAction
  | offer (f : Frame)
  | connect
  | hangUp
  | accept
  | readerEnsured
  | writerEnsured
  /-- `conn.Read` fails. -/
  | readFails
  | take
  | write (n : ℕ)
  /-- `conn.Write` fails. -/
  | writeFails
  /-- `read_frame` looks at its buffer, and reads if it has to. -/
  | read (n : ℕ)
  | obey

namespace Downlink

def start : Downlink where
  outbox := []
  OutDrops := 0
  made := 0
  accepted := 0
  cur := none
  reader := none
  writer := .ensure
  pipe := fun _ => []
  link := none
  read_buf := []
  todo := []
  offered := 0
  sent := []
  written := []
  taken := []
  done := []

/-- The engine drops the connection. -/
def hangUp (s : Downlink) : Downlink := { s with link := none, read_buf := [], todo := [] }

def markDead (s : Downlink) (k : ℕ) : Downlink :=
  { s with cur := if s.cur = some k then none else s.cur }

/-- `handle_logic_frame`, as far as the first instruction. -/
def handle (s : Downlink) (k : ℕ) (f : Frame) (rest : Bytes) : Downlink :=
  let s := { s with read_buf := rest, taken := s.taken ++ [(f, k)] }
  match handle_logic_frame f with
  | .error _ => s.hangUp
  | .ok none => s
  | .ok (some i) => { s with todo := i.each }

/-- A round of `read_frame`. -/
def read (s : Downlink) (k n : ℕ) : Downlink :=
  match Frame.try_decode s.read_buf with
  | .error _ => s.hangUp
  | .ok (some (f, rest)) => s.handle k f rest
  | .ok none =>
    if MAX_FRAME_BODY + FRAME_HEADER_LEN < s.read_buf.length then s.hangUp
    else
      { s with
        read_buf := s.read_buf ++ (s.pipe k).take (min n 4096)
        pipe := Function.update s.pipe k ((s.pipe k).drop (min n 4096)) }

/-- `conn.Write` goes on, and returns after the last byte. -/
def write (s : Downlink) (k : ℕ) (f : Frame) (nn n : ℕ) : Downlink :=
  let s := { s with pipe := Function.update s.pipe k (s.pipe k ++ (f.bytes.drop nn).take n) }
  if f.bytes.length ≤ nn + n then { s with writer := .ensure, written := s.written ++ [(f, k)] }
  else { s with writer := .writing k f (nn + n) }

/-- A step; where it does not fit nothing happens. A connection that is no longer `cur` has been
closed. -/
def step (s : Downlink) : DownAction → Downlink
  | .offer f =>
    if s.outbox.length < defaultOutboxCap then
      { s with offered := s.offered + 1, sent := s.sent ++ [f], outbox := s.outbox ++ [f] }
    else { s with offered := s.offered + 1, OutDrops := s.OutDrops + 1 }
  | .connect =>
    if s.link = none
      then { s with link := some s.made, made := s.made + 1, read_buf := [], todo := [] } else s
  | .hangUp => s.hangUp
  | .accept =>
    if s.cur = none ∧ s.accepted < s.made
      then { s with cur := some s.accepted, accepted := s.accepted + 1 } else s
  | .readerEnsured => if s.reader = none then { s with reader := s.cur } else s
  | .writerEnsured =>
    match s.writer, s.cur with
    | .ensure, some k => { s with writer := .holding k }
    | _, _ => s
  | .readFails =>
    match s.reader with
    | some k => { s.markDead k with reader := none }
    | none => s
  | .take =>
    match s.writer, s.outbox with
    | .holding k, f :: rest => { s with outbox := rest, writer := .writing k f 0 }
    | _, _ => s
  | .write n =>
    match s.writer with
    | .writing k f nn => if s.cur = some k then s.write k f nn n else s
    | _ => s
  | .writeFails =>
    match s.writer with
    | .writing k _ _ => { s.markDead k with writer := .ensure, OutDrops := s.OutDrops + 1 }
    | _ => s
  | .read n =>
    match s.link, s.todo with
    | some k, [] => s.read k n
    | _, _ => s
  | .obey =>
    match s.todo with
    | [] => s
    | i :: rest => { s with todo := rest, done := s.done ++ [i] }

/-- The length of a body goes into its header. -/
def Valid (_ : Downlink) : DownAction → Prop
  | .offer f => f.body.length < 2 ^ 32
  | _ => True

instance (s : Downlink) (a : DownAction) : Decidable (s.Valid a) := by
  unfold Valid
  split <;> infer_instance

end Downlink

/-! ## The frames on a connection -/

/-- The length fits the header. -/
def Frame.Short (f : Frame) : Prop := f.body.length < 2 ^ 32

theorem Frame.length_bytes (f : Frame) : f.bytes.length = FRAME_HEADER_LEN + f.body.length := by
  unfold bytes FRAME_HEADER_LEN
  rw [List.length_append, List.length_append, length_leBytes, List.length_singleton]

/-- The header of a frame stands in its first five bytes. -/
theorem header_of_isPrefix {f : Frame} (hf : f.Short) {p rest : Bytes} (hp : p <+: f.bytes ++ rest)
    (hlen : FRAME_HEADER_LEN ≤ p.length) :
    (fromLe 32 (slice p 0 4)).toNat = f.body.length ∧ p.getD 4 0 = f.ty := by
  obtain ⟨q, hq⟩ := hp
  unfold Frame.Short at hf
  have h5 : 5 ≤ p.length := hlen
  have hl : (leBytes (BitVec.ofNat 32 f.body.length)).length = 4 := length_leBytes _
  have hbytes : f.bytes ++ rest = leBytes (BitVec.ofNat 32 f.body.length) ++
      (f.ty :: (f.body ++ rest)) := by
    unfold Frame.bytes
    simp
  have htake : slice p 0 4 = leBytes (BitVec.ofNat 32 f.body.length) := by
    have hpq : (p ++ q).take 4 = p.take 4 := List.take_append_of_le_length (by omega)
    unfold slice
    rw [List.drop_zero, ← hpq, hq, hbytes, List.take_left' hl]
  have hget : p[4]? = some f.ty := by
    have hpq : (p ++ q)[4]? = p[4]? := List.getElem?_append_left (by omega)
    rw [← hpq, hq, hbytes, List.getElem?_append_right (by omega), hl]
    rfl
  rw [htake, fromLe_leBytes (by norm_num), BitVec.toNat_ofNat, Nat.mod_eq_of_lt (by omega)]
  refine ⟨rfl, ?_⟩
  rw [List.getD_eq_getElem?_getD, hget]
  rfl

theorem splitUds_short {p : Bytes} (h : p.length < FRAME_HEADER_LEN) :
    UdsReader.splitUds p = .more := by
  unfold UdsReader.splitUds Frame.try_decode
  rw [if_pos h]

/-- A frame that is too large is refused as soon as its header is there. -/
theorem splitUds_bad {f : Frame} (hf : f.Short) (hbig : ¬ f.body.length ≤ MAX_FRAME_BODY)
    {p rest : Bytes} (hp : p <+: f.bytes ++ rest) (hlen : FRAME_HEADER_LEN ≤ p.length) :
    UdsReader.splitUds p = .bad := by
  obtain ⟨hn, -⟩ := header_of_isPrefix hf hp hlen
  unfold UdsReader.splitUds Frame.try_decode
  rw [if_neg (by omega)]
  dsimp only
  rw [hn, if_pos (by omega)]

/-- How the engine splits what the SDK writes. -/
theorem framing_uds : Framing UdsReader.splitUds Frame.bytes Frame.Short
    (fun f => f.body.length ≤ MAX_FRAME_BODY) where
  nil := rfl
  ne_nil f _ h := by
    have hlen := congrArg List.length h
    rw [Frame.length_bytes, List.length_nil] at hlen
    unfold FRAME_HEADER_LEN at hlen
    omega
  item f hf hfit rest := by
    have hlen : (f.bytes ++ rest).length = FRAME_HEADER_LEN + f.body.length + rest.length := by
      rw [List.length_append, Frame.length_bytes]
    obtain ⟨hn, hty⟩ := header_of_isPrefix hf (List.prefix_refl (f.bytes ++ rest)) (by omega)
    have htotal : (f.bytes ++ rest).drop (FRAME_HEADER_LEN + f.body.length) = rest :=
      List.drop_left' (Frame.length_bytes f)
    have hbody : slice (f.bytes ++ rest) FRAME_HEADER_LEN (FRAME_HEADER_LEN + f.body.length) =
        f.body := by
      unfold slice
      rw [List.take_left' (Frame.length_bytes f)]
      unfold Frame.bytes FRAME_HEADER_LEN
      exact List.drop_left' (by rw [List.length_append, length_leBytes]; rfl)
    unfold UdsReader.splitUds Frame.try_decode
    rw [if_neg (by omega)]
    dsimp only
    rw [hn, if_neg (by omega), if_neg (by omega), hty, htotal, hbody]
  short f hf hfit p q hq he := by
    by_cases h : p.length < FRAME_HEADER_LEN
    · exact splitUds_short h
    · have hp : p <+: f.bytes ++ [] := by
        rw [List.append_nil]
        exact ⟨q, he.symm⟩
      obtain ⟨hn, -⟩ := header_of_isPrefix hf hp (by omega)
      have hlen := congrArg List.length he
      rw [Frame.length_bytes, List.length_append] at hlen
      have hpos := List.length_pos_iff.2 hq
      unfold UdsReader.splitUds Frame.try_decode
      rw [if_neg h]
      dsimp only
      rw [hn, if_neg (by omega), if_pos (by omega)]
  bad f hf hbig rest := splitUds_bad hf hbig (List.prefix_refl _) (by
    rw [List.length_append, Frame.length_bytes]
    omega)
  bad_short f hf hbig p q _ he := by
    by_cases h : p.length < FRAME_HEADER_LEN
    · exact .inl (splitUds_short h)
    · have hp : p <+: f.bytes ++ [] := by
        rw [List.append_nil]
        exact ⟨q, he.symm⟩
      exact .inr (splitUds_bad hf hbig hp (by omega))

/-- Nothing of a frame has been written. -/
theorem cut_nil : Cut Frame.bytes Frame.Short [] := by
  refine ⟨⟨0, []⟩, ?_, Frame.bytes ⟨0, []⟩, ?_, rfl⟩
  · show (0 : ℕ) < 2 ^ 32
    decide
  · exact framing_uds.ne_nil ⟨0, []⟩ (show (0 : ℕ) < 2 ^ 32 by decide)

/-! ## The invariant -/

namespace Downlink

variable {s : Downlink}

/-- The connection has not been closed. -/
def Open (s : Downlink) (n : ℕ) : Prop := s.cur = some n ∨ s.accepted ≤ n

/-- What the engine has yet to take of a connection are the frames that have been written on it and
that it has not taken, and then a first part of a frame; if the connection is not closed, of the one
that is being written. -/
def Streams (s : Downlink) (n : ℕ) : Prop :=
  ∃ fs tail, on n s.written = on n s.taken ++ fs ∧
    s.read_buf ++ s.pipe n = fs.flatMap Frame.bytes ++ tail ∧
    Cut Frame.bytes Frame.Short tail ∧ (s.Open n → tail = s.writer.part n)

/-- Of the frames that the outbox has taken `writeLoop` is done with these, in order; each has been
written whole on one connection, or is lost. -/
def Accounts (s : Downlink) (past : List (Frame × Option ℕ)) : Prop :=
  s.sent = past.map Prod.fst ++ (s.writer.frames ++ s.outbox) ∧
    s.written = (past.filterMap fun x => x.2.map fun k => (x.1, k)) ∧
    s.offered + past.countP (fun x => x.2.isNone) = s.sent.length + s.OutDrops

structure Orderly (s : Downlink) : Prop where
  cur : ∀ k, s.cur = some k → k + 1 = s.accepted
  accepted : s.accepted ≤ s.made
  holding : ∀ k, s.writer = .holding k → k < s.accepted
  writing : ∀ k f nn, s.writer = .writing k f nn → k < s.accepted ∧ nn < f.bytes.length
  link : ∀ n, s.link = some n → n + 1 = s.made
  fresh : ∀ n, s.made ≤ n → s.pipe n = []
  writtenOn : ∀ x ∈ s.written, x.2 < s.accepted
  takenOn : ∀ x ∈ s.taken, x.2 < s.made
  forward : Forward s.written
  onward : Forward s.taken
  short : ∀ f ∈ s.sent, f.Short
  accounts : ∃ past, s.Accounts past
  takes : ∀ n, on n s.taken <+: on n s.written
  streams : ∀ n, s.link = some n → s.Streams n
  obeyed : (s.done ++ s.todo).Sublist (s.taken.flatMap fun x => x.1.instructions)

theorem orderly_start : Orderly start where
  cur _ h := by cases h
  accepted := le_rfl
  holding _ h := by cases h
  writing _ _ _ h := by cases h
  link _ h := by cases h
  fresh _ _ := rfl
  writtenOn _ h := absurd h List.not_mem_nil
  takenOn _ h := absurd h List.not_mem_nil
  forward := List.Pairwise.nil
  onward := List.Pairwise.nil
  short _ h := absurd h List.not_mem_nil
  accounts := ⟨[], rfl, rfl, rfl⟩
  takes _ := List.prefix_refl _
  streams _ h := by cases h
  obeyed := List.Sublist.refl _

theorem sublist_of_past (past : List (Frame × Option ℕ)) :
    ((past.filterMap fun x => x.2.map fun k => (x.1, k)).map Prod.fst).Sublist
      (past.map Prod.fst) := by
  induction past with
  | nil => exact List.Sublist.refl _
  | cons x past ih =>
    obtain ⟨f, o⟩ := x
    cases o with
    | none => exact ih.cons f
    | some k => exact ih.cons_cons f

/-- What has been written are frames that the outbox has taken. -/
theorem Orderly.sent (h : Orderly s) :
    (s.written.map Prod.fst ++ (s.writer.frames ++ s.outbox)).Sublist s.sent := by
  obtain ⟨past, hframes, hwritten, -⟩ := h.accounts
  rw [hframes, hwritten]
  exact (sublist_of_past past).append_right _

/-! ## The engine -/

theorem Orderly.hangUp (h : Orderly s) : Orderly s.hangUp :=
  { h with
    link := fun n hn => by cases hn
    streams := fun n hn => by cases hn
    obeyed := by
      refine List.Sublist.trans ?_ h.obeyed
      show (s.done ++ []).Sublist _
      rw [List.append_nil]
      exact List.sublist_append_left _ _ }

theorem Orderly.connect (h : Orderly s) (hlink : s.link = none) : Orderly (s.step .connect) := by
  unfold step
  dsimp only
  rw [if_pos hlink]
  refine { h with
    accepted := h.accepted.trans (Nat.le_succ _)
    link := fun n hn => ?_
    fresh := fun n hn => h.fresh n ((Nat.le_succ _).trans hn)
    takenOn := fun x hx => (h.takenOn x hx).trans (Nat.lt_succ_self _)
    streams := fun n hn => ?_
    obeyed := ?_ }
  · rw [← Option.some.inj hn]
  · rw [← Option.some.inj hn]
    have hwritten : on s.made s.written = [] :=
      on_eq_nil fun x hx => ((h.writtenOn x hx).trans_le h.accepted).ne
    have htaken : on s.made s.taken = [] := on_eq_nil fun x hx => (h.takenOn x hx).ne
    have hpart : s.writer.part s.made = [] := by
      cases hw : s.writer with
      | writing k f nn =>
        have hk : k ≠ s.made := ((h.writing k f nn hw).1.trans_le h.accepted).ne
        exact if_neg hk
      | _ => rfl
    refine ⟨[], [], ?_, ?_, cut_nil, fun _ => hpart.symm⟩
    · rw [hwritten]
      show [] = on s.made s.taken ++ []
      rw [htaken]
      rfl
    · exact h.fresh s.made le_rfl
  · refine List.Sublist.trans ?_ h.obeyed
    show (s.done ++ []).Sublist _
    rw [List.append_nil]
    exact List.sublist_append_left _ _

/-- The frames that have been written. -/
theorem Orderly.short_written (h : Orderly s) {n : ℕ} {f : Frame} (hf : f ∈ on n s.written) :
    f.Short := by
  obtain ⟨x, hx, rfl⟩ := List.mem_map.1 hf
  refine h.short _ (h.sent.subset ?_)
  exact List.mem_append_left _ (List.mem_map_of_mem (List.mem_filter.1 hx).1)

/-- **A frame is taken** off the stream: it is the next one that has been written. -/
theorem Orderly.handle (h : Orderly s) {k : ℕ} {f : Frame} {rest : Bytes} (hlink : s.link = some k)
    (hdec : Frame.try_decode s.read_buf = .ok (some (f, rest))) (htodo : s.todo = []) :
    Orderly (s.handle k f rest) := by
  obtain ⟨fs, tail, hfs, hbytes, hcut, htail⟩ := h.streams k hlink
  have hshort : ∀ g ∈ fs, g.Short := fun g hg => @Orderly.short_written s h k g (by
    rw [hfs]
    exact List.mem_append_right _ hg)
  have hsplit : UdsReader.splitUds s.read_buf = .item f rest := by
    unfold UdsReader.splitUds
    rw [hdec]
  obtain ⟨gs, rfl, hgs⟩ := framing_uds.next hshort hcut hbytes hsplit
  have htaken : on k (s.taken ++ [(f, k)]) = on k s.taken ++ [f] := on_append_self _ _ _
  have hnext : Orderly { s with read_buf := rest, taken := s.taken ++ [(f, k)] } :=
    { h with
      takenOn := fun x hx => by
        rcases List.mem_append.1 hx with hx | hx
        · exact h.takenOn x hx
        · rw [List.mem_singleton.1 hx]
          exact (Nat.lt_succ_self k).trans_eq (h.link k hlink)
      onward := h.onward.append_one (fun x hx => by
        have hx := h.takenOn x hx
        have hk := h.link k hlink
        omega) f
      takes := fun n => by
        show on n (s.taken ++ [(f, k)]) <+: on n s.written
        by_cases hn : k = n
        · subst hn
          rw [htaken, hfs]
          exact (List.prefix_append_right_inj _).2 (List.prefix_append [f] gs)
        · rw [on_append_ne _ _ hn]
          exact h.takes n
      streams := fun n hn => by
        obtain rfl : k = n := Option.some.inj (hlink.symm.trans hn)
        refine ⟨gs, tail, ?_, hgs, hcut, htail⟩
        show on k s.written = on k (s.taken ++ [(f, k)]) ++ gs
        rw [htaken, hfs, List.append_assoc]
        rfl
      obeyed := by
        show (s.done ++ s.todo).Sublist ((s.taken ++ [(f, k)]).flatMap fun x => x.1.instructions)
        rw [List.flatMap_append]
        exact h.obeyed.trans (List.sublist_append_left _ _) }
  unfold Downlink.handle
  dsimp only
  cases hhandle : handle_logic_frame f with
  | error e => exact hnext.hangUp
  | ok x =>
    cases x with
    | none => exact hnext
    | some i =>
      refine { hnext with obeyed := ?_ }
      have hinstr : f.instructions = i.each := by
        unfold Frame.instructions
        rw [hhandle]
      show (s.done ++ i.each).Sublist ((s.taken ++ [(f, k)]).flatMap fun x => x.1.instructions)
      rw [List.flatMap_append, List.flatMap_singleton, hinstr]
      have hold := h.obeyed
      rw [htodo, List.append_nil] at hold
      exact hold.append_right _

theorem Orderly.read (h : Orderly s) {k : ℕ} (hlink : s.link = some k) (htodo : s.todo = [])
    (n : ℕ) :
    Orderly (s.read k n) := by
  unfold Downlink.read
  cases hdec : Frame.try_decode s.read_buf with
  | error e => exact h.hangUp
  | ok x =>
    cases x with
    | some y =>
      obtain ⟨f, rest⟩ := y
      exact h.handle hlink hdec htodo
    | none =>
      dsimp only
      split_ifs
      · exact h.hangUp
      · refine { h with fresh := fun m hm => ?_, streams := fun m hm => ?_ }
        · have hk := h.link k hlink
          have hm' : s.made ≤ m := hm
          have hne : m ≠ k := by omega
          show Function.update s.pipe k _ m = []
          rw [Function.update_of_ne hne]
          exact h.fresh m hm
        · obtain rfl : k = m := Option.some.inj (hlink.symm.trans hm)
          obtain ⟨fs, tail, hfs, hbytes, hcut, htail⟩ := h.streams k hlink
          refine ⟨fs, tail, hfs, ?_, hcut, htail⟩
          show s.read_buf ++ (s.pipe k).take (min n 4096) ++ Function.update s.pipe k _ k = _
          rw [Function.update_self, List.append_assoc, List.take_append_drop]
          exact hbytes

theorem Orderly.obey (h : Orderly s) : Orderly (s.step .obey) := by
  unfold step
  dsimp only
  cases htodo : s.todo with
  | nil => exact h
  | cons i rest =>
    refine { h with obeyed := ?_ }
    have hobeyed := h.obeyed
    rw [htodo] at hobeyed
    show (s.done ++ [i] ++ rest).Sublist _
    rw [List.append_assoc]
    exact hobeyed

/-! ## The SDK -/

theorem Orderly.offer (h : Orderly s) {f : Frame} (hf : f.Short) : Orderly (s.step (.offer f)) := by
  unfold step
  dsimp only
  obtain ⟨past, hframes, hwritten, hlost⟩ := h.accounts
  split_ifs
  · refine { h with short := fun g hg => ?_, accounts := ⟨past, ?_, hwritten, ?_⟩ }
    · rcases List.mem_append.1 hg with hg | hg
      · exact h.short g hg
      · rw [List.mem_singleton.1 hg]
        exact hf
    · show s.sent ++ [f] = past.map Prod.fst ++ (s.writer.frames ++ (s.outbox ++ [f]))
      rw [hframes, List.append_assoc, List.append_assoc]
    · show s.offered + 1 + past.countP _ = (s.sent ++ [f]).length + s.OutDrops
      rw [List.length_append, List.length_singleton]
      omega
  · refine { h with accounts := ⟨past, hframes, hwritten, ?_⟩ }
    show s.offered + 1 + past.countP _ = s.sent.length + (s.OutDrops + 1)
    omega

/-- `markDead` closes a connection, or it is closed already. -/
theorem Orderly.markDead (h : Orderly s) (k : ℕ) : Orderly (s.markDead k) := by
  have hcur {n : ℕ} (hn : (s.markDead k).cur = some n) : s.cur = some n := by
    have hn' : (if s.cur = some k then none else s.cur) = some n := hn
    split_ifs at hn' with hk
    exact hn'
  refine { h with cur := fun n hn => h.cur n (hcur hn), streams := fun n hn => ?_ }
  obtain ⟨fs, tail, hfs, hbytes, hcut, htail⟩ := h.streams n hn
  exact ⟨fs, tail, hfs, hbytes, hcut, fun hopen => htail (hopen.imp_left hcur)⟩

/-- It is closed afterwards. -/
theorem not_open_markDead {k : ℕ} (hk : k < s.accepted) : ¬ (s.markDead k).Open k := by
  rintro (hcur | hle)
  · have hcur' : (if s.cur = some k then none else s.cur) = some k := hcur
    split_ifs at hcur' with hcur''
    exact hcur'' hcur'
  · exact absurd hle (not_le.2 hk)

theorem Orderly.accept (h : Orderly s) : Orderly (s.step .accept) := by
  unfold step
  dsimp only
  split_ifs with hfree
  · obtain ⟨hnone, hlt⟩ := hfree
    refine { h with
      cur := fun k hk => ?_
      accepted := hlt
      holding := fun k hk => (h.holding k hk).trans (Nat.lt_succ_self _)
      writing := fun k f nn hw =>
        ⟨(h.writing k f nn hw).1.trans (Nat.lt_succ_self _), (h.writing k f nn hw).2⟩
      writtenOn := fun x hx => (h.writtenOn x hx).trans (Nat.lt_succ_self _)
      streams := fun n hn => ?_ }
    · rw [← Option.some.inj hk]
    · obtain ⟨fs, tail, hfs, hbytes, hcut, htail⟩ := h.streams n hn
      refine ⟨fs, tail, hfs, hbytes, hcut, fun hopen => htail (.inr ?_)⟩
      rcases hopen with hcur | hle
      · exact (Option.some.inj hcur).le
      · exact (Nat.le_succ _).trans hle
  · exact h

theorem Orderly.writerEnsured (h : Orderly s) : Orderly (s.step .writerEnsured) := by
  unfold step
  dsimp only
  split
  · rename_i k hw hcur
    have hnone (n : ℕ) : s.writer.part n = [] := by rw [hw]; rfl
    obtain ⟨past, hframes, hwritten, hlost⟩ := h.accounts
    rw [hw] at hframes
    refine { h with
      holding := fun n hn => ?_
      writing := fun n f nn hn => by cases hn
      accounts := ⟨past, hframes, hwritten, hlost⟩
      streams := fun n hn => ?_ }
    · cases hn
      exact (Nat.lt_succ_self k).trans_eq (h.cur k hcur)
    · obtain ⟨fs, tail, hfs, hbytes, hcut, htail⟩ := h.streams n hn
      exact ⟨fs, tail, hfs, hbytes, hcut, fun hopen => (htail hopen).trans (hnone n)⟩
  · exact h

theorem Orderly.take (h : Orderly s) : Orderly (s.step .take) := by
  unfold step
  dsimp only
  cases hw : s.writer with
  | holding k =>
    cases hout : s.outbox with
    | nil => exact h
    | cons f rest =>
      obtain ⟨past, hframes, hwritten, hlost⟩ := h.accounts
      rw [hw, hout] at hframes
      refine { h with
        holding := fun n hn => by cases hn
        writing := fun n g nn hn => ?_
        accounts := ⟨past, hframes, hwritten, hlost⟩
        streams := fun n hn => ?_ }
      · cases hn
        refine ⟨h.holding k hw, ?_⟩
        rw [Frame.length_bytes]
        unfold FRAME_HEADER_LEN
        omega
      · obtain ⟨fs, tail, hfs, hbytes, hcut, htail⟩ := h.streams n hn
        refine ⟨fs, tail, hfs, hbytes, hcut, fun hopen => (htail hopen).trans ?_⟩
        rw [hw]
        show [] = if k = n then f.bytes.take 0 else []
        rw [List.take_zero, ite_self]
  | _ => exact h

theorem Orderly.writeFails (h : Orderly s) : Orderly (s.step .writeFails) := by
  unfold step
  dsimp only
  cases hw : s.writer with
  | writing k f nn =>
    have hdead := h.markDead k
    have hclosed := not_open_markDead (h.writing k f nn hw).1
    obtain ⟨past, hframes, hwritten, hlost⟩ := h.accounts
    rw [hw] at hframes
    refine { hdead with
      holding := fun n hn => by cases hn
      writing := fun n g nn hn => by cases hn
      accounts := ⟨past ++ [(f, none)], ?_, ?_, ?_⟩
      streams := fun n hn => ?_ }
    · show s.sent = (past ++ [(f, none)]).map Prod.fst ++ ([] ++ s.outbox)
      rw [List.map_append, List.append_assoc]
      exact hframes
    · show s.written = _
      rw [List.filterMap_append, hwritten]
      exact (List.append_nil _).symm
    · have hone : [(f, (none : Option ℕ))].countP (fun x => x.2.isNone) = 1 := rfl
      show s.offered + (past ++ [(f, none)]).countP _ = s.sent.length + (s.OutDrops + 1)
      rw [List.countP_append, hone]
      omega
    · obtain ⟨fs, tail, hfs, hbytes, hcut, htail⟩ := hdead.streams n hn
      refine ⟨fs, tail, hfs, hbytes, hcut, fun hopen => ?_⟩
      have htail := htail hopen
      have hwriter : (s.markDead k).writer = .writing k f nn := hw
      rw [hwriter] at htail
      -- the connection has been closed
      have hne : k ≠ n := by
        rintro rfl
        exact hclosed hopen
      have hnil : (Writer.writing k f nn).part n = [] := if_neg hne
      exact htail.trans hnil
  | _ => exact h

section Write

variable {k : ℕ} {f : Frame} {nn : ℕ}

/-- What waits on the connections on which nothing is written is as before. -/
theorem Orderly.pipe_of_ne {m : ℕ} (hm : m ≠ k) (chunk : Bytes) {fs : List Frame} {tail : Bytes}
    (hbytes : s.read_buf ++ s.pipe m = fs.flatMap Frame.bytes ++ tail) :
    s.read_buf ++ Function.update s.pipe k (s.pipe k ++ chunk) m =
      fs.flatMap Frame.bytes ++ tail := by
  rw [Function.update_of_ne hm]
  exact hbytes

theorem Orderly.fresh_update (h : Orderly s) (hw : s.writer = .writing k f nn) (chunk : Bytes)
    {m : ℕ} (hm : s.made ≤ m) : Function.update s.pipe k (s.pipe k ++ chunk) m = [] := by
  have hk := (h.writing k f nn hw).1
  have hle := h.accepted
  rw [Function.update_of_ne (by omega)]
  exact h.fresh m hm

/-- **The rest of the frame is written**, on the connection that is `cur`. -/
theorem Orderly.write_whole (h : Orderly s) (hw : s.writer = .writing k f nn)
    (hcur : s.cur = some k) {n : ℕ} (hall : f.bytes.length ≤ nn + n) :
    Orderly { s with
      pipe := Function.update s.pipe k (s.pipe k ++ (f.bytes.drop nn).take n)
      writer := .ensure
      written := s.written ++ [(f, k)] } := by
  obtain ⟨hk, hnn⟩ := h.writing k f nn hw
  have hlast : k + 1 = s.accepted := h.cur k hcur
  obtain ⟨past, hframes, hwritten, hlost⟩ := h.accounts
  rw [hw] at hframes
  have hbytes' : f.bytes.take nn ++ (f.bytes.drop nn).take n = f.bytes := by
    have hrest : (f.bytes.drop nn).length ≤ n := by
      rw [List.length_drop]
      omega
    rw [List.take_of_length_le hrest, List.take_append_drop]
  refine { h with
    holding := fun m hm => by cases hm
    writing := fun m g mm hm => by cases hm
    fresh := fun m hm => h.fresh_update hw _ hm
    writtenOn := fun x hx => ?_
    forward := h.forward.append_one (fun x hx => by
      have hx := h.writtenOn x hx
      omega) f
    accounts := ⟨past ++ [(f, some k)], ?_, ?_, ?_⟩
    takes := fun m => ?_
    streams := fun m hm => ?_ }
  · rcases List.mem_append.1 hx with hx | hx
    · exact h.writtenOn x hx
    · rw [List.mem_singleton.1 hx]
      exact hk
  · show s.sent = (past ++ [(f, some k)]).map Prod.fst ++ ([] ++ s.outbox)
    rw [List.map_append, List.append_assoc]
    exact hframes
  · show s.written ++ [(f, k)] = _
    rw [List.filterMap_append, hwritten]
    rfl
  · have hnone : [(f, some k)].countP (fun x => x.2.isNone) = 0 := rfl
    show s.offered + (past ++ [(f, some k)]).countP _ = s.sent.length + s.OutDrops
    rw [List.countP_append, hnone]
    exact hlost
  · show on m s.taken <+: on m (s.written ++ [(f, k)])
    rw [on_append]
    exact (h.takes m).trans (List.prefix_append _ _)
  · obtain ⟨fs, tail, hfs, hbytes, hcut, htail⟩ := h.streams m hm
    by_cases hmk : m = k
    · subst hmk
      have hpart : (Writer.writing m f nn).part m = f.bytes.take nn := if_pos rfl
      have htail := htail (.inl hcur)
      rw [hw, hpart] at htail
      refine ⟨fs ++ [f], [], ?_, ?_, cut_nil, fun _ => rfl⟩
      · show on m (s.written ++ [(f, m)]) = on m s.taken ++ (fs ++ [f])
        rw [on_append_self, hfs, List.append_assoc]
      · show s.read_buf ++ Function.update s.pipe m (s.pipe m ++ (f.bytes.drop nn).take n) m = _
        rw [Function.update_self]
        calc s.read_buf ++ (s.pipe m ++ (f.bytes.drop nn).take n)
            = fs.flatMap Frame.bytes ++ (f.bytes.take nn ++ (f.bytes.drop nn).take n) := by
              rw [← List.append_assoc, hbytes, htail, List.append_assoc]
          _ = fs.flatMap Frame.bytes ++ f.bytes := by rw [hbytes']
          _ = (fs ++ [f]).flatMap Frame.bytes ++ [] := by
              rw [List.flatMap_append, List.flatMap_singleton, List.append_nil]
    · refine ⟨fs, tail, ?_, pipe_of_ne hmk _ hbytes, hcut, fun hopen => (htail hopen).trans ?_⟩
      · show on m (s.written ++ [(f, k)]) = _
        rw [on_append_ne _ _ (Ne.symm hmk)]
        exact hfs
      · rw [hw]
        exact if_neg (Ne.symm hmk)

/-- **Some more bytes of the frame are written**, on the connection that is `cur`. -/
theorem Orderly.write_part (h : Orderly s) (hw : s.writer = .writing k f nn)
    (hcur : s.cur = some k) {n : ℕ} (hpart : nn + n < f.bytes.length) :
    Orderly { s with
      pipe := Function.update s.pipe k (s.pipe k ++ (f.bytes.drop nn).take n)
      writer := .writing k f (nn + n) } := by
  obtain ⟨past, hframes, hwritten, hlost⟩ := h.accounts
  rw [hw] at hframes
  have hmem : f ∈ s.sent := by
    have hsent := h.sent
    rw [hw] at hsent
    exact hsent.subset (List.mem_append_right _ (List.mem_append_left _ List.mem_cons_self))
  refine { h with
    holding := fun m hm => by cases hm
    writing := fun m g mm hm => ?_
    fresh := fun m hm => h.fresh_update hw _ hm
    accounts := ⟨past, hframes, hwritten, hlost⟩
    streams := fun m hm => ?_ }
  · cases hm
    exact ⟨(h.writing k f nn hw).1, hpart⟩
  · obtain ⟨fs, tail, hfs, hbytes, hcut, htail⟩ := h.streams m hm
    by_cases hmk : m = k
    · subst hmk
      have hfirst : (Writer.writing m f nn).part m = f.bytes.take nn := if_pos rfl
      have htail := htail (.inl hcur)
      rw [hw, hfirst] at htail
      refine ⟨fs, f.bytes.take (nn + n), hfs, ?_, ?_, fun _ => ?_⟩
      · show s.read_buf ++ Function.update s.pipe m (s.pipe m ++ (f.bytes.drop nn).take n) m = _
        rw [Function.update_self]
        calc s.read_buf ++ (s.pipe m ++ (f.bytes.drop nn).take n)
            = fs.flatMap Frame.bytes ++ (f.bytes.take nn ++ (f.bytes.drop nn).take n) := by
              rw [← List.append_assoc, hbytes, htail, List.append_assoc]
          _ = fs.flatMap Frame.bytes ++ f.bytes.take (nn + n) := by rw [List.take_add]
      · refine ⟨f, h.short f hmem, f.bytes.drop (nn + n), ?_, (List.take_append_drop _ _).symm⟩
        rw [← List.length_pos_iff, List.length_drop]
        omega
      · exact (if_pos rfl).symm
    · refine ⟨fs, tail, hfs, pipe_of_ne hmk _ hbytes, hcut, fun hopen => (htail hopen).trans ?_⟩
      have hnil (mm : ℕ) : (Writer.writing k f mm).part m = [] := if_neg (Ne.symm hmk)
      rw [hw, hnil]
      exact (hnil _).symm

/-- **More bytes are written**, on the connection that is `cur`. -/
theorem Orderly.write (h : Orderly s) (hw : s.writer = .writing k f nn) (hcur : s.cur = some k)
    (n : ℕ) : Orderly (s.write k f nn n) := by
  unfold Downlink.write
  dsimp only
  split_ifs with hall
  · exact h.write_whole hw hcur hall
  · exact h.write_part hw hcur (not_le.1 hall)

end Write

theorem Orderly.step (h : Orderly s) {a : DownAction} (ha : s.Valid a) : Orderly (s.step a) := by
  cases a with
  | offer f => exact h.offer ha
  | connect =>
    by_cases hlink : s.link = none
    · exact h.connect hlink
    · unfold Downlink.step
      dsimp only
      rw [if_neg hlink]
      exact h
  | hangUp => exact h.hangUp
  | accept => exact h.accept
  | readerEnsured =>
    unfold Downlink.step
    dsimp only
    split_ifs
    · exact { h with }
    · exact h
  | writerEnsured => exact h.writerEnsured
  | readFails =>
    unfold Downlink.step
    dsimp only
    cases s.reader with
    | none => exact h
    | some k => exact { h.markDead k with }
  | take => exact h.take
  | write n =>
    unfold Downlink.step
    dsimp only
    cases hw : s.writer with
    | writing k f nn =>
      dsimp only
      split_ifs with hcur
      · exact h.write hw hcur n
      · exact h
    | _ => exact h
  | writeFails => exact h.writeFails
  | read n =>
    unfold Downlink.step
    dsimp only
    cases hlink : s.link with
    | none => exact h
    | some k =>
      cases htodo : s.todo with
      | nil => exact h.read hlink htodo n
      | cons i rest => exact h
  | obey => exact h.obey

/-! ## The run -/

/-- **In order.** Over any number of connections, what the engine carries out are instructions of
the frames that the outbox has taken, in the order in which it has taken them, each at most once and
unchanged. -/
theorem obeyed_in_order (h : Reach step Valid start s) :
    s.done.Sublist (s.sent.flatMap Frame.instructions) := by
  have hinv : s.Orderly := h.invariant orderly_start fun _ _ hs ha => hs.step ha
  have htaken : s.taken.Sublist s.written :=
    sublist_of_on hinv.onward hinv.forward fun n => (hinv.takes n).sublist
  have hwritten : (s.written.map Prod.fst).Sublist s.sent :=
    (List.sublist_append_left _ _).trans hinv.sent
  calc s.done.Sublist (s.taken.flatMap fun x => x.1.instructions) :=
        (List.sublist_append_left _ _).trans hinv.obeyed
    _ = (s.taken.map Prod.fst).flatMap Frame.instructions := (List.flatMap_map _ _ _).symm
    List.Sublist _ (s.sent.flatMap Frame.instructions) :=
        ((htaken.map Prod.fst).trans hwritten).flatMap _

/-- A frame comes down, and the link breaks while the writer waits for the next one. That one is
lost on the dead connection, and the third comes down by the second connection. -/
def broken : List DownAction :=
  [.connect, .accept, .readerEnsured, .writerEnsured, .offer (Frame.send 1 2 0 [7]), .take,
    .write 3, .read 100,
    .write 100, .read 100, .read 0, .obey, .writerEnsured, .hangUp, .readFails, .connect, .accept,
    .readerEnsured,
    .offer (Frame.send 1 2 1 [8]), .take, .write 100, .writeFails,
    .offer (Frame.multicast [1, 2] 2 2 [9]),
    .writerEnsured, .take, .write 100, .read 100, .read 100, .obey, .obey]

def brokenLink : Downlink := broken.foldl step start

theorem obeyed_in_order_broken :
    brokenLink.done = [.Send 1 2 0 [7], .Send 1 2 2 [9], .Send 2 2 2 [9]] ∧
      brokenLink.done.Sublist (brokenLink.sent.flatMap Frame.instructions) := by
  have hrun : Allowed step Valid start broken ∧
      brokenLink.done = [.Send 1 2 0 [7], .Send 1 2 2 [9], .Send 2 2 2 [9]] := by
    decide +kernel
  exact ⟨hrun.2, obeyed_in_order (Reach.foldl hrun.1)⟩

/-- **Accounted for.** The frames that the outbox has taken are, in order, those that `writeLoop` is
done with, the one that is being written and those that wait. Each of the first has been written
whole on one connection, which gives all that has been written, or is lost; `OutDrops` counts these
and the frames that the outbox has refused. What the engine has taken off a connection are the first
frames that have been written whole on it. -/
theorem frames_accounted (h : Reach step Valid start s) :
    (∃ past : List (Frame × Option ℕ),
      s.sent = past.map Prod.fst ++ (s.writer.frames ++ s.outbox) ∧
        s.written = (past.filterMap fun x => x.2.map fun k => (x.1, k)) ∧
        s.offered + past.countP (fun x => x.2.isNone) = s.sent.length + s.OutDrops) ∧
      ∀ n, on n s.taken <+: on n s.written := by
  have hinv : s.Orderly := h.invariant orderly_start fun _ _ hs ha => hs.step ha
  exact ⟨hinv.accounts, hinv.takes⟩

theorem frames_accounted_broken :
    brokenLink.offered = 3 ∧ brokenLink.OutDrops = 1 ∧
      brokenLink.written = [(Frame.send 1 2 0 [7], 0), (Frame.multicast [1, 2] 2 2 [9], 1)] ∧
      (∃ past : List (Frame × Option ℕ),
        brokenLink.sent = past.map Prod.fst ++ (brokenLink.writer.frames ++ brokenLink.outbox) ∧
          brokenLink.written = (past.filterMap fun x => x.2.map fun k => (x.1, k)) ∧
          brokenLink.offered + past.countP (fun x => x.2.isNone) =
            brokenLink.sent.length + brokenLink.OutDrops) ∧
      ∀ n, on n brokenLink.taken <+: on n brokenLink.written := by
  have hrun : Allowed step Valid start broken ∧ brokenLink.offered = 3 ∧ brokenLink.OutDrops = 1 ∧
      brokenLink.written = [(Frame.send 1 2 0 [7], 0), (Frame.multicast [1, 2] 2 2 [9], 1)] := by
    decide +kernel
  exact ⟨hrun.2.1, hrun.2.2.1, hrun.2.2.2, frames_accounted (Reach.foldl hrun.1)⟩

end Downlink

end SoupEngine
