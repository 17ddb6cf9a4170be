import SoupEngine.Engine.Downstream
import SoupEngine.Lib.Custody
import SoupEngine.Lib.TransitionSystem

/-!
# The buffers of the frames that go out

The rooms, each in a goroutine of its own, take buffers from `bufPool`, write in them and commit or
abort them; `flushOutbox` hands what is committed to the outbox, `writeLoop` writes it to the
connection and puts the buffers back in the pool, from which any room may get them again. `SendPool`
has the memory; `Mail` is the same with messages in the place of buffers. `send_pool_refines`: in
every run in which the rooms keep to the contract of `Buffer`, the two show the same, and every
buffer is at one place.

The rooms themselves, the connection and the end of the process are left out: who is in a room when
a message is begun comes with the action.
-/

namespace SoupEngine.Sdk

open TransitionSystem Function

/-- The initial capacity of a buffer. -/
def poolBufferCap : ℕ := 4096

/-- `bufPool.New`. -/
def Buffer.new : Buffer := ⟨List.replicate poolBufferCap 0, 0, 0, false, false, false⟩

/-- `Commit` of a buffer that is valid writes the length in front. -/
def Buffer.seal (b : Buffer) : Buffer :=
  { b with closed := true, data := patch b.data 0 (leBytes (BitVec.ofNat 32 (b.off + b.len - 5))) }

/-- `b.data[:n]` in `flushOutbox`. -/
def Buffer.sent (b : Buffer) : Bytes := b.data.take (b.off + b.len)

/-- `outFrame`: bytes of its own, or the first `n` bytes of a buffer. -/
inductive OutFrame
  | plain (data : Bytes)
  | pooled (b : BufId) (n : ℕ)

/-- The buffer that goes back to the pool when the frame has been written. -/
def OutFrame.buf : OutFrame → Option BufId
  | .plain _ => none
  | .pooled b _ => some b

/-- The bytes of the frame. -/
def OutFrame.read (mem : BufId → Buffer) : OutFrame → Bytes
  | .plain data => data
  | .pooled b n => (mem b).data.take n

/-- What a room has of buffers. -/
structure Bench where
  /-- Begun by the implementation of the room, and neither committed nor aborted. -/
  drafts : List BufId
  outFrames : List BufId
  /-- In the loop of `flushOutbox`. -/
  flushing : Bool

/-- The pool and the goroutines around it. The rooms are numbered. -/
structure SendPool where
  free : List BufId
  /-- The buffer that the pool makes when it has to make one. -/
  next : BufId
  mem : BufId → Buffer
  rooms : ℕ → Bench
  outbox : List OutFrame
  /-- The frame that `writeLoop` has received. -/
  writing : Option OutFrame
  /-- What has been passed to `conn.Write`, and whether it returned without error. -/
  written : List (Bytes × Bool)

inductive SendAction
  /-- `Begin*` of the room `R`, to these of the players that `r` shows, with the buffer `b` of the
  pool. -/
  | start (R : ℕ) (b : BufId) (r : Room) (tgt : Targets r) (ch : U8) (msg : U16)
  | put (R : ℕ) (b : BufId) (p : Put)
  | commit (R : ℕ) (b : BufId)
  | abort (R : ℕ) (b : BufId)
  /-- `flushOutbox` is called. -/
  | flush (R : ℕ)
  /-- A round of the loop of `flushOutbox`, or its end. -/
  | push (R : ℕ)
  /-- `trySend`. -/
  | trySend (typ : U8) (body : Bytes)
  /-- `writeLoop` receives a frame. -/
  | take
  /-- `conn.Write` returns. -/
  | write (ok : Bool)

namespace SendPool

def new : SendPool := ⟨[], 0, fun _ => .new, fun _ => ⟨[], [], false⟩, [], none, []⟩

def onBench (s : SendPool) (R : ℕ) (f : Bench → Bench) : SendPool :=
  { s with rooms := update s.rooms R (f (s.rooms R)) }

def write (s : SendPool) (b : BufId) (x : Buffer) : SendPool := { s with mem := update s.mem b x }

/-- `bufPool.Put`. -/
def put (s : SendPool) (b : BufId) : SendPool := { s with free := b :: s.free }

/-- `bufPool.Get` gives this buffer. -/
def get (s : SendPool) (b : BufId) : SendPool :=
  { s with free := s.free.erase b, next := if b = s.next then s.next + 1 else s.next }

def commit (s : SendPool) (R : ℕ) (b : BufId) : SendPool :=
  if (s.mem b).closed = true then s
  else
    let s' := s.onBench R fun x => { x with drafts := x.drafts.erase b }
    if (s.mem b).invalid = true then (s'.write b { s.mem b with closed := true }).put b
    else (s'.write b (s.mem b).seal).onBench R fun x => { x with outFrames := x.outFrames ++ [b] }

def abort (s : SendPool) (R : ℕ) (b : BufId) : SendPool :=
  if (s.mem b).closed = true then s
  else
    ((s.onBench R fun x => { x with drafts := x.drafts.erase b }).write b
      { s.mem b with closed := true }).put b

/-- A round of the loop of `flushOutbox`. -/
def push (cap : ℕ) (s : SendPool) (R : ℕ) : SendPool :=
  match (s.rooms R).outFrames with
  | [] => s.onBench R fun x => { x with flushing := false }
  | b :: rest =>
    let s' := s.onBench R fun x => { x with outFrames := rest }
    if s.outbox.length < cap then
      { s' with outbox := s.outbox ++ [.pooled b ((s.mem b).off + (s.mem b).len)] }
    else s'.put b

def step (cap : ℕ) (s : SendPool) : SendAction → SendPool
  | .start R b _ tgt ch msg =>
    if (s.rooms R).flushing = true then s
    else
      ((s.get b).write b (tgt.start (s.mem b) ch msg)).onBench R fun x =>
        { x with drafts := b :: x.drafts }
  | .put R b p => if (s.rooms R).flushing = true then s else s.write b (p.run (s.mem b))
  | .commit R b => if (s.rooms R).flushing = true then s else s.commit R b
  | .abort R b => if (s.rooms R).flushing = true then s else s.abort R b
  | .flush R => s.onBench R fun x => { x with flushing := true }
  | .push R => if (s.rooms R).flushing = true then s.push cap R else s
  | .trySend typ body =>
    if s.outbox.length < cap
      then { s with outbox := s.outbox ++ [.plain (Frame.bytes ⟨typ, body⟩)] } else s
  | .take =>
    match s.writing, s.outbox with
    | none, f :: rest => { s with outbox := rest, writing := some f }
    | _, _ => s
  | .write ok =>
    match s.writing with
    | none => s
    | some f =>
      let s' : SendPool := { s with writing := none, written := s.written ++ [(f.read s.mem, ok)] }
      match f.buf with
      | none => s'
      | some b => s'.put b

/-- The pool gives a buffer that it has or makes one. A room writes in a buffer that it has begun
and neither committed nor aborted; to commit or abort one that is closed does no harm. -/
def Careful (s : SendPool) : SendAction → Prop
  | .start _ b .. => b ∈ s.free ∨ b = s.next
  | .put R b _ => b ∈ (s.rooms R).drafts
  | .commit R b | .abort R b => b ∈ (s.rooms R).drafts ∨ (s.mem b).closed = true
  | _ => True

instance (s : SendPool) : (a : SendAction) → Decidable (s.Careful a)
  | .start _ b .. => inferInstanceAs (Decidable (b ∈ s.free ∨ b = s.next))
  | .put R b _ => inferInstanceAs (Decidable (b ∈ (s.rooms R).drafts))
  | .commit R b | .abort R b =>
    inferInstanceAs (Decidable (b ∈ (s.rooms R).drafts ∨ (s.mem b).closed = true))
  | .flush _ | .push _ | .trySend .. | .take | .write _ => .isTrue trivial

end SendPool

/-! ## Messages in the place of buffers -/

/-- A message that has been begun, and what has been written so far. -/
structure Letter where
  room : Room
  tgt : Targets room
  ch : U8
  msg : U16
  ps : List Put

/-- The frame of a message, if it is to anybody. -/
def Letter.frame (l : Letter) : Option Frame :=
  if l.tgt.sessions = [] then none else some (l.tgt.frame l.ch l.msg (payloadOf l.ps))

/-- What a room has of messages. -/
structure Tray where
  drafts : BufId → Option Letter
  outFrames : List Frame
  flushing : Bool

structure Mail where
  rooms : ℕ → Tray
  outbox : List Frame
  writing : Option Frame
  written : List (Frame × Bool)

namespace Mail

def new : Mail := ⟨fun _ => ⟨fun _ => none, [], false⟩, [], none, []⟩

def onTray (t : Mail) (R : ℕ) (f : Tray → Tray) : Mail :=
  { t with rooms := update t.rooms R (f (t.rooms R)) }

/-- The message is no longer being written. -/
def close (t : Mail) (R : ℕ) (b : BufId) : Mail :=
  t.onTray R fun x => { x with drafts := update x.drafts b none }

def commit (t : Mail) (R : ℕ) (b : BufId) : Mail :=
  match (t.rooms R).drafts b with
  | none => t
  | some l =>
    match l.frame with
    | none => t.close R b
    | some f => (t.close R b).onTray R fun x => { x with outFrames := x.outFrames ++ [f] }

def abort (t : Mail) (R : ℕ) (b : BufId) : Mail :=
  match (t.rooms R).drafts b with
  | none => t
  | some _ => t.close R b

def push (cap : ℕ) (t : Mail) (R : ℕ) : Mail :=
  match (t.rooms R).outFrames with
  | [] => t.onTray R fun x => { x with flushing := false }
  | f :: rest =>
    let t' := t.onTray R fun x => { x with outFrames := rest }
    if t.outbox.length < cap then { t' with outbox := t.outbox ++ [f] } else t'

def step (cap : ℕ) (t : Mail) : SendAction → Mail
  | .start R b r tgt ch msg =>
    if (t.rooms R).flushing = true then t
    else t.onTray R fun x => { x with drafts := update x.drafts b (some ⟨r, tgt, ch, msg, []⟩) }
  | .put R b p =>
    if (t.rooms R).flushing = true then t
    else
      t.onTray R fun x => { x with
        drafts := update x.drafts b ((x.drafts b).map fun l => { l with ps := l.ps ++ [p] }) }
  | .commit R b => if (t.rooms R).flushing = true then t else t.commit R b
  | .abort R b => if (t.rooms R).flushing = true then t else t.abort R b
  | .flush R => t.onTray R fun x => { x with flushing := true }
  | .push R => if (t.rooms R).flushing = true then t.push cap R else t
  | .trySend typ body =>
    if t.outbox.length < cap then { t with outbox := t.outbox ++ [⟨typ, body⟩] } else t
  | .take =>
    match t.writing, t.outbox with
    | none, f :: rest => { t with outbox := rest, writing := some f }
    | _, _ => t
  | .write ok =>
    match t.writing with
    | none => t
    | some f => { t with writing := none, written := t.written ++ [(f, ok)] }

end Mail

/-! ## Where the buffers are -/

/-- The places of buffers. -/
inductive Spot
  | pool
  | draft (R : ℕ)
  | staged (R : ℕ)
  | outbox
  | writer

/-- The buffers at a place. -/
def SendPool.has (s : SendPool) : Spot → List BufId
  | .pool => s.free
  | .draft R => (s.rooms R).drafts
  | .staged R => (s.rooms R).outFrames
  | .outbox => s.outbox.filterMap OutFrame.buf
  | .writer => (s.writing.bind OutFrame.buf).toList

/-- A buffer in which a message is being written. -/
def Letter.drafted (l : Letter) (b : Buffer) : Buffer := writeAll l.ps (l.tgt.start b l.ch l.msg)

/-- The buffers of a room show its messages. -/
structure Bench.Shows (mem : BufId → Buffer) (x : Bench) (y : Tray) : Prop where
  flushing : x.flushing = y.flushing
  draft : ∀ b ∈ x.drafts, ∃ l old, y.drafts b = some l ∧ mem b = l.drafted old
  undrafted : ∀ b, b ∉ x.drafts → y.drafts b = none
  staged : x.outFrames.map (fun b => (mem b).sent) = y.outFrames.map Frame.bytes

/-- The buffers show the messages, and `own` says where each buffer is that has been made. -/
structure SendPool.Shows (s : SendPool) (t : Mail) (own : BufId → Option Spot) : Prop where
  custody : Custody own s.has
  made : ∀ b, own b = none ↔ s.next ≤ b
  rooms : ∀ R, (s.rooms R).Shows s.mem (t.rooms R)
  outbox : s.outbox.map (OutFrame.read s.mem) = t.outbox.map Frame.bytes
  writing : s.writing.map (OutFrame.read s.mem) = t.writing.map Frame.bytes
  written : s.written = t.written.map fun x => (x.1.bytes, x.2)

/-! ## A message in a buffer -/

theorem closed_start {r : Room} (tgt : Targets r) (b : Buffer) (ch : U8) (msg : U16) :
    (tgt.start b ch msg).closed = false := by
  cases tgt with
  | send player =>
    show (r.BeginSend b player ch msg).closed = false
    unfold Room.BeginSend
    dsimp only
    split <;> rfl
  | multicast players =>
    show (beginMulti b _ _ ch msg).closed = false
    unfold beginMulti
    dsimp only
    split_ifs <;> rfl
  | broadcast order =>
    show (beginMulti b _ _ ch msg).closed = false
    unfold beginMulti
    dsimp only
    split_ifs <;> rfl

namespace Letter

variable (l : Letter) (old : Buffer)

theorem closed_drafted : (l.drafted old).closed = false := by
  unfold drafted
  rw [closed_writeAll]
  exact closed_start l.tgt old l.ch l.msg

/-- One more call of `Put*`. -/
theorem drafted_put (p : Put) :
    ({ l with ps := l.ps ++ [p] } : Letter).drafted old = p.run (l.drafted old) := by
  show writeAll (l.ps ++ [p]) _ = p.run (writeAll l.ps _)
  unfold writeAll
  rw [List.foldl_append]
  rfl

/-- **What a commit stages**: nothing for a message to nobody, and otherwise the frame of the
message, whatever the buffer held before. -/
theorem sealed : if (l.drafted old).invalid = true then l.frame = none
    else ∃ f, l.frame = some f ∧ (l.drafted old).seal.sent = f.bytes := by
  have hcommit := Targets.started l.tgt old l.ch l.msg l.ps
  change Commit (l.drafted old) = _ at hcommit
  unfold Commit at hcommit
  rw [if_neg (by rw [closed_drafted]; decide)] at hcommit
  unfold frame
  by_cases hnil : l.tgt.sessions = []
  · rw [if_pos hnil] at hcommit ⊢
    split_ifs at hcommit ⊢
    rfl
  · rw [if_neg hnil] at hcommit ⊢
    split_ifs at hcommit ⊢
    exact ⟨_, rfl, Option.some.inj hcommit⟩

end Letter

namespace SendPool

variable {s s' : SendPool} {t t' : Mail} {own own' : BufId → Option Spot} {R : ℕ} {b : BufId}

/-! ## What a change of one buffer leaves as it is -/

/-- What is staged shows the same as long as its buffers are the same. -/
theorem Shows.staged_read (h : s.Shows t own) {mem : BufId → Buffer}
    (hmem : ∀ c, c ≠ b → mem c = s.mem c) (hb : own b ≠ some (.staged R)) :
    (s.rooms R).outFrames.map (fun c => (mem c).sent) = (t.rooms R).outFrames.map Frame.bytes := by
  rw [← (h.rooms R).staged]
  exact h.custody.map_congr (k := .staged R) hb fun c hc => congrArg Buffer.sent (hmem c hc)

/-- So does a draft. -/
theorem Shows.draft_read (h : s.Shows t own) {mem : BufId → Buffer}
    (hmem : ∀ c, c ≠ b → mem c = s.mem c) {c : BufId} (hc : c ∈ (s.rooms R).drafts) (hne : c ≠ b) :
    ∃ l old, (t.rooms R).drafts c = some l ∧ mem c = l.drafted old := by
  rw [hmem c hne]
  exact (h.rooms R).draft c hc

theorem Shows.bench (h : s.Shows t own) {mem : BufId → Buffer} (hmem : ∀ c, c ≠ b → mem c = s.mem c)
    (hdraft : own b ≠ some (.draft R)) (hstaged : own b ≠ some (.staged R)) :
    (s.rooms R).Shows mem (t.rooms R) := by
  refine ⟨(h.rooms R).flushing, fun c hc => h.draft_read hmem hc ?_, (h.rooms R).undrafted,
    h.staged_read hmem hstaged⟩
  rintro rfl
  exact h.custody.notMem (k := .draft R) hdraft hc

/-- So do the frames of the outbox. -/
theorem Shows.outbox_read (h : s.Shows t own) {mem : BufId → Buffer}
    (hmem : ∀ c, c ≠ b → mem c = s.mem c) (hb : own b ≠ some .outbox) :
    s.outbox.map (OutFrame.read mem) = t.outbox.map Frame.bytes := by
  rw [← h.outbox]
  apply List.map_congr_left
  intro f hf
  cases f with
  | plain data => rfl
  | pooled c n =>
    have hc : c ≠ b := by
      rintro rfl
      refine h.custody.notMem (k := .outbox) hb ?_
      show c ∈ s.outbox.filterMap OutFrame.buf
      exact List.mem_filterMap.2 ⟨_, hf, rfl⟩
    show (mem c).data.take n = _
    rw [hmem c hc]
    rfl

theorem Shows.writing_read (h : s.Shows t own) {mem : BufId → Buffer}
    (hmem : ∀ c, c ≠ b → mem c = s.mem c) (hb : own b ≠ some .writer) :
    s.writing.map (OutFrame.read mem) = t.writing.map Frame.bytes := by
  rw [← h.writing]
  cases hw : s.writing with
  | none => rfl
  | some f =>
    cases f with
    | plain data => rfl
    | pooled c n =>
      have hc : c ≠ b := by
        rintro rfl
        refine h.custody.notMem (k := .writer) hb ?_
        show c ∈ (s.writing.bind OutFrame.buf).toList
        rw [hw]
        exact List.mem_singleton_self c
      show some ((mem c).data.take n) = _
      rw [hmem c hc]
      rfl

/-- **A room does something with a buffer** that was its own draft, in the pool or not yet made: all
the others show what they did. -/
theorem Shows.of_room (h : s.Shows t own) (hcustody : Custody own' s'.has)
    (hmade : ∀ c, own' c = none ↔ s'.next ≤ c) (hmem : ∀ c, c ≠ b → s'.mem c = s.mem c)
    (hspot : own b = none ∨ own b = some .pool ∨ own b = some (.draft R))
    (hbench : (s'.rooms R).Shows s'.mem (t'.rooms R))
    (hrooms : ∀ R', R' ≠ R → s'.rooms R' = s.rooms R')
    (htrays : ∀ R', R' ≠ R → t'.rooms R' = t.rooms R')
    (hout : s'.outbox = s.outbox ∧ s'.writing = s.writing ∧ s'.written = s.written)
    (hout' : t'.outbox = t.outbox ∧ t'.writing = t.writing ∧ t'.written = t.written) :
    s'.Shows t' own' := by
  have hne (k : Spot) (hk : k ≠ .pool) (hkR : k ≠ .draft R) : own b ≠ some k := by
    rcases hspot with hb | hb | hb <;> rw [hb]
    · exact fun heq => by cases heq
    · exact fun heq => hk (Option.some.inj heq).symm
    · exact fun heq => hkR (Option.some.inj heq).symm
  refine ⟨hcustody, hmade, fun R' => ?_, ?_, ?_, ?_⟩
  · by_cases hR : R' = R
    · rw [hR]
      exact hbench
    · rw [hrooms R' hR, htrays R' hR]
      refine h.bench hmem (hne _ (fun heq => by cases heq) fun heq => hR ?_)
        (hne _ (fun heq => by cases heq) fun heq => by cases heq)
      exact Spot.draft.inj heq
  · rw [hout.1, hout'.1]
    exact h.outbox_read hmem (hne _ (fun heq => by cases heq) fun heq => by cases heq)
  · rw [hout.2.1, hout'.2.1]
    exact h.writing_read hmem (hne _ (fun heq => by cases heq) fun heq => by cases heq)
  · rw [hout.2.2, hout'.2.2]
    exact h.written

/-! ## The steps -/

/-- A buffer that the pool gives. -/
theorem Shows.given (h : s.Shows t own) (hb : b ∈ s.free ∨ b = s.next) :
    own b = none ∨ own b = some .pool := by
  rcases hb with hb | rfl
  · exact .inr ((h.custody.mem_iff .pool b).1 hb)
  · exact .inl ((h.made _).2 le_rfl)

/-- The pool makes buffers one after the other. -/
theorem Shows.made_get (h : s.Shows t own) (hb : b ∈ s.free ∨ b = s.next) (k : Spot) (c : BufId) :
    update own b (some k) c = none ↔ (s.get b).next ≤ c := by
  show _ ↔ (if b = s.next then s.next + 1 else s.next) ≤ c
  by_cases hc : c = b
  · rw [hc, update_self]
    refine iff_of_false (fun heq => by cases heq) fun hle => ?_
    split_ifs at hle with hnext
    · rw [hnext] at hle
      exact Nat.not_succ_le_self _ hle
    · have hown : own b = none := (h.made b).2 hle
      have hpool := (h.custody.mem_iff .pool b).1 (hb.resolve_right hnext)
      rw [hown] at hpool
      cases hpool
  · rw [update_of_ne hc, h.made]
    split_ifs with hnext
    · rw [← hnext]
      exact ⟨fun hle => Nat.lt_of_le_of_ne hle (Ne.symm hc), Nat.le_of_lt⟩
    · rfl

theorem Shows.start (h : s.Shows t own) (hb : b ∈ s.free ∨ b = s.next) (R : ℕ) {r : Room}
    (tgt : Targets r) (ch : U8) (msg : U16) :
    (((s.get b).write b (tgt.start (s.mem b) ch msg)).onBench R fun x =>
      { x with drafts := b :: x.drafts }).Shows
        (t.onTray R fun x => { x with drafts := update x.drafts b (some ⟨r, tgt, ch, msg, []⟩) })
        (update own b (some (.draft R))) := by
  have hspot := h.given hb
  have hdraft (R' : ℕ) : own b ≠ some (.draft R') := by
    rcases hspot with hown | hown <;> rw [hown] <;> exact fun heq => by cases heq
  have hstaged (R' : ℕ) : own b ≠ some (.staged R') := by
    rcases hspot with hown | hown <;> rw [hown] <;> exact fun heq => by cases heq
  have hmem (c : BufId) (hc : c ≠ b) : update s.mem b (tgt.start (s.mem b) ch msg) c = s.mem c :=
    update_of_ne hc _ _
  refine h.of_room ?_ (fun c => ?_) hmem (hspot.imp_right .inl) ?_
    (fun R' hR => update_of_ne hR _ _) (fun R' hR => update_of_ne hR _ _) ⟨rfl, rfl, rfl⟩
      ⟨rfl, rfl, rfl⟩
  · refine h.custody.move (hdraft R) ?_ (fun k hk => ?_) fun k hk hother => ?_
    · show (update s.rooms R _ R).drafts.Perm _
      rw [update_self]
      exact .refl _
    · rcases hspot with hown | hown <;> rw [hown] at hk
      · cases hk
      · rw [← Option.some.inj hk]
        rfl
    · cases k with
      | pool => exact List.erase_of_not_mem (h.custody.notMem hother)
      | draft R' =>
        have hR : R' ≠ R := fun heq => hk (by rw [heq])
        exact congrArg Bench.drafts (update_of_ne hR _ _)
      | staged R' =>
        show (update s.rooms R _ R').outFrames = (s.rooms R').outFrames
        by_cases hR : R' = R
        · rw [hR, update_self]
          rfl
        · rw [update_of_ne hR]
      | outbox => rfl
      | writer => rfl
  · exact h.made_get hb _ c
  · show (update s.rooms R _ R).Shows _ (update t.rooms R _ R)
    rw [update_self, update_self]
    refine ⟨(h.rooms R).flushing, fun c hc => ?_, fun c hc => ?_, h.staged_read hmem (hstaged R)⟩
    · rcases List.mem_cons.1 hc with rfl | hc
      · exact ⟨_, s.mem c, update_self .., update_self ..⟩
      · have hne : c ≠ b := by
          rintro rfl
          exact h.custody.notMem (k := .draft R) (hdraft R) hc
        show ∃ l old, update (t.rooms R).drafts b _ c = some l ∧ _
        rw [update_of_ne hne]
        exact h.draft_read hmem hc hne
    · obtain ⟨hne, hc⟩ := not_or.1 fun hmem => hc (List.mem_cons.2 hmem)
      exact (update_of_ne hne _ _).trans ((h.rooms R).undrafted c hc)

theorem Shows.put (h : s.Shows t own) (hb : b ∈ (s.rooms R).drafts) (p : Put) :
    (s.write b (p.run (s.mem b))).Shows
      (t.onTray R fun x => { x with
        drafts := update x.drafts b ((x.drafts b).map fun l => { l with ps := l.ps ++ [p] }) })
      own := by
  have hown : own b = some (.draft R) := (h.custody.mem_iff (.draft R) b).1 hb
  have hmem (c : BufId) (hc : c ≠ b) : update s.mem b (p.run (s.mem b)) c = s.mem c :=
    update_of_ne hc _ _
  refine h.of_room h.custody h.made hmem (.inr (.inr hown)) ?_ (fun _ _ => rfl)
    (fun R' hR => update_of_ne hR _ _) ⟨rfl, rfl, rfl⟩ ⟨rfl, rfl, rfl⟩
  obtain ⟨l, old, hl, hdraft⟩ := (h.rooms R).draft b hb
  show (s.rooms R).Shows _ (update t.rooms R _ R)
  rw [update_self]
  refine ⟨(h.rooms R).flushing, fun c hc => ?_, fun c hc => ?_,
    h.staged_read hmem (by rw [hown]; exact fun heq => by cases heq)⟩
  · by_cases hne : c = b
    · subst hne
      refine ⟨{ l with ps := l.ps ++ [p] }, old, ?_, ?_⟩
      · show update (t.rooms R).drafts c _ c = _
        rw [update_self, hl]
        rfl
      · show update s.mem c _ c = _
        rw [update_self, l.drafted_put, hdraft]
    · show ∃ l old, update (t.rooms R).drafts b _ c = some l ∧ _
      rw [update_of_ne hne]
      exact h.draft_read hmem hc hne
  · have hne : c ≠ b := fun heq => hc (by rw [heq]; exact hb)
    exact (update_of_ne hne _ _).trans ((h.rooms R).undrafted c hc)

/-- **A draft is closed**, and goes to the pool or on the list of the room. -/
theorem Shows.closed (h : s.Shows t own) (hb : b ∈ (s.rooms R).drafts) {k : Spot}
    (hk : k = .pool ∨ k = .staged R) (hhas : s'.has k = b :: s.has k ∨ s'.has k = s.has k ++ [b])
    (hdrafts : s'.has (.draft R) = (s.rooms R).drafts.erase b)
    (hothers : ∀ k', k' ≠ k → k' ≠ .draft R → s'.has k' = s.has k') (hnext : s'.next = s.next)
    (hmem : ∀ c, c ≠ b → s'.mem c = s.mem c)
    (hflushing : (s'.rooms R).flushing = (s.rooms R).flushing)
    (htray : (t'.rooms R).drafts = update (t.rooms R).drafts b none ∧
      (t'.rooms R).flushing = (t.rooms R).flushing)
    (hstaged : (s'.rooms R).outFrames.map (fun c => (s'.mem c).sent) =
      (t'.rooms R).outFrames.map Frame.bytes)
    (hrooms : ∀ R', R' ≠ R → s'.rooms R' = s.rooms R')
    (htrays : ∀ R', R' ≠ R → t'.rooms R' = t.rooms R')
    (hout : s'.outbox = s.outbox ∧ s'.writing = s.writing ∧ s'.written = s.written)
    (hout' : t'.outbox = t.outbox ∧ t'.writing = t.writing ∧ t'.written = t.written) :
    s'.Shows t' (update own b (some k)) := by
  have hown : own b = some (.draft R) := (h.custody.mem_iff (.draft R) b).1 hb
  have hne : k ≠ .draft R := by
    rcases hk with rfl | rfl <;> exact fun heq => by cases heq
  have hnot : own b ≠ some k := by
    rw [hown]
    exact fun heq => hne (Option.some.inj heq).symm
  refine h.of_room ?_ (fun c => ?_) hmem (.inr (.inr hown))
    ⟨hflushing.trans ((h.rooms R).flushing.trans htray.2.symm),
    fun c hc => ?_, fun c hc => ?_, hstaged⟩ hrooms htrays hout hout'
  · refine h.custody.move hnot ?_ (fun k' hk' => ?_) fun k' hk' hother => ?_
    · rcases hhas with hhas | hhas <;> rw [hhas]
      exact List.perm_append_singleton b _
    · rw [hown] at hk'
      rw [← Option.some.inj hk']
      exact hdrafts
    · refine hothers k' hk' ?_
      rintro rfl
      exact hother hown
  · rw [hnext]
    by_cases hc : c = b
    · rw [hc, update_self, ← h.made b, hown]
      exact iff_of_false (fun heq => by cases heq) fun heq => by cases heq
    · rw [update_of_ne hc]
      exact h.made c
  · have hdrafts' : (s'.rooms R).drafts = (s.rooms R).drafts.erase b := hdrafts
    have hnodup : (s.rooms R).drafts.Nodup := h.custody.nodup (.draft R)
    rw [hdrafts', hnodup.mem_erase_iff] at hc
    rw [htray.1, update_of_ne hc.1]
    exact h.draft_read hmem hc.2 hc.1
  · have hdrafts' : (s'.rooms R).drafts = (s.rooms R).drafts.erase b := hdrafts
    have hnodup : (s.rooms R).drafts.Nodup := h.custody.nodup (.draft R)
    rw [hdrafts', hnodup.mem_erase_iff] at hc
    rw [htray.1]
    by_cases heq : c = b
    · rw [heq, update_self]
    · rw [update_of_ne heq]
      exact (h.rooms R).undrafted c fun hmem => hc ⟨heq, hmem⟩

/-- A draft goes back to the pool. -/
theorem Shows.discard (h : s.Shows t own) (hb : b ∈ (s.rooms R).drafts) (x : Buffer) :
    (((s.onBench R fun y => { y with drafts := y.drafts.erase b }).write b x).put b).Shows
      (t.close R b) (update own b (some .pool)) := by
  have hown : own b = some (.draft R) := (h.custody.mem_iff (.draft R) b).1 hb
  have hmem (c : BufId) (hc : c ≠ b) : update s.mem b x c = s.mem c := update_of_ne hc _ _
  have hself : update s.rooms R { s.rooms R with drafts := (s.rooms R).drafts.erase b } R =
      { s.rooms R with drafts := (s.rooms R).drafts.erase b } := update_self ..
  have hstaged := h.staged_read hmem (R := R) (by rw [hown]; exact fun heq => by cases heq)
  have hout (R' : ℕ) :
      (update s.rooms R { s.rooms R with drafts := (s.rooms R).drafts.erase b } R').outFrames =
      (s.rooms R').outFrames := by
    by_cases hR : R' = R
    · rw [hR, hself]
    · rw [update_of_ne hR]
  refine h.closed hb (.inl rfl) (.inl rfl) (congrArg Bench.drafts hself)
    (fun k hk hkR => ?_) rfl hmem
    (congrArg Bench.flushing hself :) ?_ ?_ (fun R' hR => update_of_ne hR _ _)
    (fun R' hR => update_of_ne hR _ _) ⟨rfl, rfl, rfl⟩ ⟨rfl, rfl, rfl⟩
  · cases k with
    | pool => exact absurd rfl hk
    | draft R' => exact congrArg Bench.drafts (update_of_ne (fun heq => hkR (by rw [heq])) _ _)
    | staged R' => exact hout R'
    | outbox => rfl
    | writer => rfl
  · show (update t.rooms R _ R).drafts = _ ∧ (update t.rooms R _ R).flushing = _
    rw [update_self]
    exact ⟨rfl, rfl⟩
  · show (update s.rooms R _ R).outFrames.map _ = (update t.rooms R _ R).outFrames.map _
    rw [hself, update_self]
    exact hstaged

/-- A draft is staged. -/
theorem Shows.stage (h : s.Shows t own) (hb : b ∈ (s.rooms R).drafts) {x : Buffer} {f : Frame}
    (hx : x.sent = f.bytes) :
    (((s.onBench R fun y => { y with drafts := y.drafts.erase b }).write b x).onBench R fun y =>
      { y with outFrames := y.outFrames ++ [b] }).Shows
        ((t.close R b).onTray R fun y => { y with outFrames := y.outFrames ++ [f] })
        (update own b (some (.staged R))) := by
  have hown : own b = some (.draft R) := (h.custody.mem_iff (.draft R) b).1 hb
  have hmem (c : BufId) (hc : c ≠ b) : update s.mem b x c = s.mem c := update_of_ne hc _ _
  have hstaged := h.staged_read hmem (R := R) (by rw [hown]; exact fun heq => by cases heq)
  have hself :
      (((s.onBench R fun y => { y with drafts := y.drafts.erase b }).write b x).onBench R fun y =>
      { y with outFrames := y.outFrames ++ [b] }).rooms R =
        ⟨(s.rooms R).drafts.erase b, (s.rooms R).outFrames ++ [b], (s.rooms R).flushing⟩ := by
    show update (update s.rooms R _) R _ R = _
    rw [update_self]
    show (⟨(update s.rooms R _ R).drafts, (update s.rooms R _ R).outFrames ++ [b],
      (update s.rooms R _ R).flushing⟩ : Bench) = _
    rw [update_self]
  have hother (R' : ℕ) (hR : R' ≠ R) :
      (((s.onBench R fun y => { y with drafts := y.drafts.erase b }).write b
      x).onBench R fun y => { y with outFrames := y.outFrames ++ [b] }).rooms R' = s.rooms R' := by
    show update (update s.rooms R _) R _ R' = _
    rw [update_of_ne hR, update_of_ne hR]
  have htray :
      ((t.close R b).onTray R fun y => { y with outFrames := y.outFrames ++ [f] }).rooms R =
      ⟨update (t.rooms R).drafts b none, (t.rooms R).outFrames ++ [f], (t.rooms R).flushing⟩ := by
    show update (update t.rooms R _) R _ R = _
    rw [update_self]
    show (⟨(update t.rooms R _ R).drafts, (update t.rooms R _ R).outFrames ++ [f],
      (update t.rooms R _ R).flushing⟩ : Tray) = _
    rw [update_self]
  refine h.closed hb (.inr rfl) (.inr (congrArg Bench.outFrames hself))
    (congrArg Bench.drafts hself) (fun k hk hkR => ?_) rfl hmem
      (congrArg Bench.flushing hself :) ?_ ?_ hother (fun R' hR => ?_)
    ⟨rfl, rfl, rfl⟩ ⟨rfl, rfl, rfl⟩
  · cases k with
    | pool => rfl
    | draft R' => exact congrArg Bench.drafts (hother R' fun heq => hkR (by rw [heq]))
    | staged R' => exact congrArg Bench.outFrames (hother R' fun heq => hk (by rw [heq]))
    | outbox => rfl
    | writer => rfl
  · rw [htray]
    exact ⟨rfl, rfl⟩
  · rw [hself, htray, List.map_append, List.map_append]
    refine congrArg₂ _ hstaged ?_
    show [(update s.mem b x b).sent] = [f.bytes]
    rw [update_self, hx]
  · show update (update t.rooms R _) R _ R' = _
    rw [update_of_ne hR, update_of_ne hR]

/-- A draft is open. -/
theorem Shows.open_draft (h : s.Shows t own) (hb : b ∈ (s.rooms R).drafts) :
    (s.mem b).closed = false := by
  obtain ⟨l, old, -, hdraft⟩ := (h.rooms R).draft b hb
  rw [hdraft, l.closed_drafted]

theorem Shows.commit (h : s.Shows t own) (hb : b ∈ (s.rooms R).drafts ∨ (s.mem b).closed = true) :
    ∃ own', (s.commit R b).Shows (t.commit R b) own' := by
  unfold SendPool.commit Mail.commit
  by_cases hdraft : b ∈ (s.rooms R).drafts
  · obtain ⟨l, old, hl, hmem⟩ := (h.rooms R).draft b hdraft
    have hsealed := l.sealed old
    rw [if_neg (by rw [h.open_draft hdraft]; decide), hl]
    dsimp only
    rw [hmem]
    by_cases hinvalid : (l.drafted old).invalid = true
    · rw [if_pos hinvalid] at hsealed ⊢
      rw [hsealed]
      exact ⟨_, h.discard hdraft _⟩
    · rw [if_neg hinvalid] at hsealed ⊢
      obtain ⟨f, hf, hbytes⟩ := hsealed
      rw [hf]
      exact ⟨_, h.stage hdraft hbytes⟩
  · rw [if_pos (hb.resolve_left hdraft), (h.rooms R).undrafted b hdraft]
    exact ⟨own, h⟩

/-- The mark of `flushOutbox`. -/
theorem Shows.mark (h : s.Shows t own) (R : ℕ) (flushing : Bool) :
    (s.onBench R fun x => { x with flushing }).Shows
      (t.onTray R fun x => { x with flushing }) own := by
  have hspot : own s.next = none := (h.made _).2 le_rfl
  have hhas : (s.onBench R fun x => { x with flushing }).has = s.has := by
    funext k
    cases k with
    | draft R' =>
      show (update s.rooms R _ R').drafts = (s.rooms R').drafts
      by_cases hR : R' = R
      · rw [hR, update_self]
      · rw [update_of_ne hR]
    | staged R' =>
      show (update s.rooms R _ R').outFrames = (s.rooms R').outFrames
      by_cases hR : R' = R
      · rw [hR, update_self]
      · rw [update_of_ne hR]
    | _ => rfl
  refine h.of_room (hhas ▸ h.custody) h.made (fun c _ => rfl) (.inl hspot) ?_
    (fun R' hR => update_of_ne hR _ _) (fun R' hR => update_of_ne hR _ _) ⟨rfl, rfl, rfl⟩
      ⟨rfl, rfl, rfl⟩
  show (update s.rooms R _ R).Shows s.mem (update t.rooms R _ R)
  rw [update_self, update_self]
  exact ⟨rfl, (h.rooms R).draft, (h.rooms R).undrafted, (h.rooms R).staged⟩

theorem Shows.abort (h : s.Shows t own) (hb : b ∈ (s.rooms R).drafts ∨ (s.mem b).closed = true) :
    ∃ own', (s.abort R b).Shows (t.abort R b) own' := by
  unfold SendPool.abort Mail.abort
  by_cases hdraft : b ∈ (s.rooms R).drafts
  · obtain ⟨l, -, hl, -⟩ := (h.rooms R).draft b hdraft
    rw [if_neg (by rw [h.open_draft hdraft]; decide), hl]
    exact ⟨_, h.discard hdraft _⟩
  · rw [if_pos (hb.resolve_left hdraft), (h.rooms R).undrafted b hdraft]
    exact ⟨own, h⟩

/-- Both outboxes have room, or neither. -/
theorem Shows.length_outbox (h : s.Shows t own) : s.outbox.length = t.outbox.length := by
  have hlen := congrArg List.length h.outbox
  rwa [List.length_map, List.length_map] at hlen

/-- The first frame of a room leaves the list. -/
theorem Shows.unstage (h : s.Shows t own) {rest : List BufId}
    (hb : (s.rooms R).outFrames = b :: rest) :
    ∃ f fs, (t.rooms R).outFrames = f :: fs ∧ (s.mem b).sent = f.bytes ∧
      ∀ R', ((s.onBench R fun x => { x with outFrames := rest }).rooms R').Shows s.mem
        ((t.onTray R fun x => { x with outFrames := fs }).rooms R') := by
  have hstaged := (h.rooms R).staged
  rw [hb, List.map_cons] at hstaged
  cases hf : (t.rooms R).outFrames with
  | nil =>
    rw [hf] at hstaged
    cases hstaged
  | cons f fs =>
    rw [hf, List.map_cons] at hstaged
    obtain ⟨hfirst, hrest⟩ := List.cons.inj hstaged
    refine ⟨f, fs, rfl, hfirst, fun R' => ?_⟩
    show (update s.rooms R _ R').Shows s.mem (update t.rooms R _ R')
    by_cases hR : R' = R
    · rw [hR, update_self, update_self]
      exact ⟨(h.rooms R).flushing, (h.rooms R).draft, (h.rooms R).undrafted, hrest⟩
    · rw [update_of_ne hR, update_of_ne hR]
      exact h.rooms R'

/-- A buffer that has been made is still made where it goes. -/
theorem Shows.made_move (h : s.Shows t own) (hb : own b ≠ none) (k : Spot) (c : BufId) :
    update own b (some k) c = none ↔ s.next ≤ c := by
  by_cases hc : c = b
  · rw [hc, update_self, ← h.made b]
    exact iff_of_false (fun heq => by cases heq) hb
  · rw [update_of_ne hc]
    exact h.made c

theorem Shows.push (h : s.Shows t own) (cap R : ℕ) :
    ∃ own', (s.push cap R).Shows (t.push cap R) own' := by
  unfold SendPool.push Mail.push
  cases hb : (s.rooms R).outFrames with
  | nil =>
    have hstaged := (h.rooms R).staged
    rw [hb] at hstaged
    rw [List.map_eq_nil_iff.1 hstaged.symm]
    exact ⟨own, h.mark R false⟩
  | cons b rest =>
    obtain ⟨f, fs, hf, hbytes, hrooms⟩ := h.unstage hb
    rw [hf]
    dsimp only
    have hown : own b = some (.staged R) := by
      refine (h.custody.mem_iff (.staged R) b).1 ?_
      show b ∈ (s.rooms R).outFrames
      rw [hb]
      exact List.mem_cons_self
    have hmade := h.made_move (b := b) (by rw [hown]; exact fun heq => by cases heq)
    have hleft (R' : ℕ) : (update s.rooms R { s.rooms R with outFrames := rest } R').drafts =
        (s.rooms R').drafts ∧
        (R' ≠ R → (update s.rooms R { s.rooms R with outFrames := rest } R').outFrames =
          (s.rooms R').outFrames) := by
      by_cases hR : R' = R
      · rw [hR, update_self]
        exact ⟨rfl, fun hne => absurd rfl hne⟩
      · rw [update_of_ne hR]
        exact ⟨rfl, fun _ => rfl⟩
    have hgone : (update s.rooms R { s.rooms R with outFrames := rest } R).outFrames =
        (s.rooms R).outFrames.erase b := by
      rw [update_self, hb, List.erase_cons_head]
    rw [h.length_outbox]
    by_cases hcap : t.outbox.length < cap
    · rw [if_pos hcap, if_pos hcap]
      refine ⟨update own b (some .outbox), ?_, hmade _, hrooms, ?_, h.writing, h.written⟩
      · refine h.custody.move (by rw [hown]; exact fun heq => by cases heq) ?_
          (fun k hk => ?_) fun k hk hother => ?_
        · show ((s.outbox ++ [_]).filterMap OutFrame.buf).Perm
            (b :: s.outbox.filterMap OutFrame.buf)
          rw [List.filterMap_append]
          exact List.perm_append_singleton b _
        · rw [hown] at hk
          rw [← Option.some.inj hk]
          exact hgone
        · cases k with
          | pool => rfl
          | draft R' => exact (hleft R').1
          | staged R' => exact (hleft R').2 fun heq => hother (by rw [hown, heq])
          | outbox => exact absurd rfl hk
          | writer => rfl
      · show (s.outbox ++ [_]).map (OutFrame.read s.mem) = (t.outbox ++ [f]).map Frame.bytes
        rw [List.map_append, List.map_append, h.outbox]
        refine congrArg _ ?_
        show [(s.mem b).sent] = [f.bytes]
        rw [hbytes]
    · rw [if_neg hcap, if_neg hcap]
      refine ⟨update own b (some .pool), ?_, hmade _, hrooms, h.outbox, h.writing, h.written⟩
      refine h.custody.move (by rw [hown]; exact fun heq => by cases heq) (.refl _) (fun k hk => ?_)
        fun k hk hother => ?_
      · rw [hown] at hk
        rw [← Option.some.inj hk]
        exact hgone
      · cases k with
        | pool => exact absurd rfl hk
        | draft R' => exact (hleft R').1
        | staged R' => exact (hleft R').2 fun heq => hother (by rw [hown, heq])
        | outbox => rfl
        | writer => rfl

theorem Shows.trySend (h : s.Shows t own) (f : Frame) :
    ({ s with outbox := s.outbox ++ [.plain f.bytes] } : SendPool).Shows
      { t with outbox := t.outbox ++ [f] } own := by
  have hhas : ({ s with outbox := s.outbox ++ [.plain f.bytes] } : SendPool).has = s.has := by
    funext k
    cases k with
    | outbox =>
      show (s.outbox ++ [_]).filterMap OutFrame.buf = s.outbox.filterMap OutFrame.buf
      rw [List.filterMap_append]
      exact List.append_nil _
    | _ => rfl
  refine ⟨hhas ▸ h.custody, h.made, h.rooms, ?_, h.writing, h.written⟩
  show (s.outbox ++ [_]).map (OutFrame.read s.mem) = (t.outbox ++ [f]).map Frame.bytes
  rw [List.map_append, List.map_append, h.outbox]
  rfl

/-- `writeLoop` receives the first frame. -/
theorem Shows.take (h : s.Shows t own) {f : OutFrame} {rest : List OutFrame}
    (hs : s.outbox = f :: rest) (hw : s.writing = none) : ∃ g fs own', t.outbox = g :: fs ∧
      ({ s with outbox := rest, writing := some f } : SendPool).Shows
        { t with outbox := fs, writing := some g } own' := by
  have hout := h.outbox
  rw [hs, List.map_cons] at hout
  cases ht : t.outbox with
  | nil =>
    rw [ht] at hout
    cases hout
  | cons g fs =>
    rw [ht, List.map_cons] at hout
    obtain ⟨hfirst, hrest⟩ := List.cons.inj hout
    cases f with
    | plain data =>
      have hhas : ({ s with outbox := rest, writing := some (.plain data) } : SendPool).has =
          s.has := by
        funext k
        cases k with
        | outbox =>
          show rest.filterMap OutFrame.buf = s.outbox.filterMap OutFrame.buf
          rw [hs]
          rfl
        | writer =>
          show [] = (s.writing.bind OutFrame.buf).toList
          rw [hw]
          rfl
        | _ => rfl
      exact ⟨g, fs, own, rfl, hhas ▸ h.custody, h.made, h.rooms, hrest, congrArg some hfirst,
        h.written⟩
    | pooled b n =>
      have hown : own b = some .outbox := by
        refine (h.custody.mem_iff .outbox b).1 ?_
        show b ∈ s.outbox.filterMap OutFrame.buf
        rw [hs]
        exact List.mem_cons_self
      refine ⟨g, fs, update own b (some .writer), rfl, ?_,
        h.made_move (by rw [hown]; exact fun heq => by cases heq) _,
        h.rooms, hrest, congrArg some hfirst, h.written⟩
      refine h.custody.move (by rw [hown]; exact fun heq => by cases heq) ?_
        (fun k hk => ?_) fun k hk hother => ?_
      · show [b].Perm (b :: (s.writing.bind OutFrame.buf).toList)
        rw [hw]
        exact .refl _
      · rw [hown] at hk
        rw [← Option.some.inj hk]
        show rest.filterMap OutFrame.buf = (s.outbox.filterMap OutFrame.buf).erase b
        rw [hs]
        exact (List.erase_cons_head ..).symm
      · cases k with
        | outbox => exact absurd hown hother
        | writer => exact absurd rfl hk
        | _ => rfl

/-- `writeLoop` has written a frame, and puts its buffer back. -/
theorem Shows.wrote (h : s.Shows t own) (cap : ℕ) (ok : Bool) :
    ∃ own', (s.step cap (.write ok)).Shows (t.step cap (.write ok)) own' := by
  have hwriting := h.writing
  unfold SendPool.step Mail.step
  dsimp only
  cases hw : s.writing with
  | none =>
    rw [hw] at hwriting
    rw [Option.map_eq_none_iff.1 hwriting.symm]
    exact ⟨own, h⟩
  | some f =>
    rw [hw] at hwriting
    obtain ⟨g, hg, hbytes⟩ := Option.map_eq_some_iff.1 hwriting.symm
    rw [hg]
    have hwritten : s.written ++ [(f.read s.mem, ok)] =
        (t.written ++ [(g, ok)]).map fun x => (x.1.bytes, x.2) := by
      rw [List.map_append, h.written]
      refine congrArg _ ?_
      show [(f.read s.mem, ok)] = [(g.bytes, ok)]
      rw [hbytes]
    cases f with
    | plain data =>
      have hhas : ({ s with
          writing := none, written := s.written ++ [(data, ok)] } : SendPool).has = s.has := by
        funext k
        cases k with
        | writer =>
          show [] = (s.writing.bind OutFrame.buf).toList
          rw [hw]
          rfl
        | _ => rfl
      exact ⟨own, hhas ▸ h.custody, h.made, h.rooms, h.outbox, rfl, hwritten⟩
    | pooled b n =>
      have hown : own b = some .writer := by
        refine (h.custody.mem_iff .writer b).1 ?_
        show b ∈ (s.writing.bind OutFrame.buf).toList
        rw [hw]
        exact List.mem_singleton_self b
      refine ⟨update own b (some .pool), ?_,
        h.made_move (by rw [hown]; exact fun heq => by cases heq) _, h.rooms, h.outbox, rfl,
        hwritten⟩
      refine h.custody.move (by rw [hown]; exact fun heq => by cases heq) (.refl _) (fun k hk => ?_)
        fun k hk hother => ?_
      · rw [hown] at hk
        rw [← Option.some.inj hk]
        show [] = (s.writing.bind OutFrame.buf).toList.erase b
        rw [hw]
        exact (List.erase_cons_head ..).symm
      · cases k with
        | pool => exact absurd rfl hk
        | writer => exact absurd hown hother
        | _ => rfl

/-- **One step.** -/
theorem Shows.step (h : s.Shows t own) (cap : ℕ) {a : SendAction} (ha : s.Careful a) :
    ∃ own', (s.step cap a).Shows (t.step cap a) own' := by
  cases a with
  | start R b r tgt ch msg =>
    unfold SendPool.step Mail.step
    dsimp only
    rw [(h.rooms R).flushing]
    split_ifs
    · exact ⟨own, h⟩
    · exact ⟨_, h.start ha R tgt ch msg⟩
  | put R b p =>
    unfold SendPool.step Mail.step
    dsimp only
    rw [(h.rooms R).flushing]
    split_ifs
    · exact ⟨own, h⟩
    · exact ⟨own, h.put ha p⟩
  | commit R b =>
    unfold SendPool.step Mail.step
    dsimp only
    rw [(h.rooms R).flushing]
    split_ifs
    · exact ⟨own, h⟩
    · exact h.commit ha
  | abort R b =>
    unfold SendPool.step Mail.step
    dsimp only
    rw [(h.rooms R).flushing]
    split_ifs
    · exact ⟨own, h⟩
    · exact h.abort ha
  | flush R => exact ⟨own, h.mark R true⟩
  | push R =>
    unfold SendPool.step Mail.step
    dsimp only
    rw [(h.rooms R).flushing]
    split_ifs
    · exact h.push cap R
    · exact ⟨own, h⟩
  | trySend typ body =>
    unfold SendPool.step Mail.step
    dsimp only
    rw [h.length_outbox]
    split_ifs
    · exact ⟨own, h.trySend ⟨typ, body⟩⟩
    · exact ⟨own, h⟩
  | take =>
    have hwriting := h.writing
    unfold SendPool.step Mail.step
    dsimp only
    cases hw : s.writing with
    | some f =>
      rw [hw] at hwriting
      obtain ⟨g, hg, -⟩ := Option.map_eq_some_iff.1 hwriting.symm
      rw [hg]
      exact ⟨own, h⟩
    | none =>
      rw [hw] at hwriting
      rw [Option.map_eq_none_iff.1 hwriting.symm]
      cases hs : s.outbox with
      | nil =>
        have hout := h.outbox
        rw [hs] at hout
        rw [List.map_eq_nil_iff.1 hout.symm]
        exact ⟨own, h⟩
      | cons f rest =>
        obtain ⟨g, fs, own', ht, hshows⟩ := h.take hs hw
        rw [ht]
        exact ⟨own', hshows⟩
  | write ok => exact h.wrote cap ok

/-- At the start there are no buffers. -/
theorem shows_new : new.Shows .new fun _ => none := by
  refine ⟨⟨fun k => ?_, fun k b => ?_⟩, fun b => iff_of_true rfl b.zero_le, fun R => ?_, rfl,
    rfl, rfl⟩
  · cases k <;> exact List.nodup_nil
  · refine iff_of_false ?_ fun heq => by cases heq
    cases k <;> exact List.not_mem_nil
  · exact ⟨rfl, fun b hb => absurd hb List.not_mem_nil, fun _ _ => rfl, rfl⟩

/-- A run. -/
theorem Shows.run (h : s.Shows t own) (cap : ℕ) {as : List SendAction}
    (has : Allowed (SendPool.step cap) Careful s as) :
    ∃ own', (as.foldl (SendPool.step cap) s).Shows (as.foldl (Mail.step cap) t) own' := by
  induction as generalizing s t own with
  | nil => exact ⟨own, h⟩
  | cons a as ih =>
    obtain ⟨own', hnext⟩ := h.step cap has.1
    exact ih hnext has.2

end SendPool

/-- **Buffers show messages.** In every run in which the rooms write only in drafts of their own,
what has been passed to `conn.Write`, and what is in the outbox, are the frames of the same run with
messages in the place of buffers; and every buffer that has been made is at exactly one place, and
there once. -/
theorem send_pool_refines (cap : ℕ) (as : List SendAction)
    (h : Allowed (SendPool.step cap) SendPool.Careful .new as) :
    let s := as.foldl (SendPool.step cap) .new
    let t := as.foldl (Mail.step cap) .new
    s.written = t.written.map (fun x => (x.1.bytes, x.2)) ∧
      s.outbox.map (OutFrame.read s.mem) = t.outbox.map Frame.bytes ∧
      ∃ own : BufId → Option Spot, Custody own s.has ∧ ∀ b, own b = none ↔ s.next ≤ b := by
  obtain ⟨own, hshows⟩ := SendPool.shows_new.run cap h
  exact ⟨hshows.written, hshows.outbox, own, hshows.custody, hshows.made⟩

/-- A room with one player. -/
def oneRoom : Room := ((Room.new 2 32).handleEvent (.inOpen 7 1)).1

/-- One buffer goes through the hands of two rooms and of the writer. -/
def sharedRun : List SendAction :=
  [.start 0 0 oneRoom (.send 1) 2 5, .put 0 0 (.U8 1), .commit 0 0, .commit 0 0, .flush 0, .push 0,
    .push 0, .take,
    .write true, .start 1 0 oneRoom (.multicast [1]) 2 6, .put 1 0 (.U16 3), .commit 1 0]

theorem send_pool_refines_shared :
    let s := sharedRun.foldl (SendPool.step 4096) .new
    let t := sharedRun.foldl (Mail.step 4096) .new
    s.written = t.written.map (fun x => (x.1.bytes, x.2)) ∧
      s.outbox.map (OutFrame.read s.mem) = t.outbox.map Frame.bytes ∧
      ∃ own : BufId → Option Spot, Custody own s.has ∧ ∀ b, own b = none ↔ s.next ≤ b :=
  send_pool_refines 4096 sharedRun (by decide +kernel)

end SoupEngine.Sdk
