import SoupEngine.Basic

/-!
# The buffer pool

Buffers are pooled in three levels by their capacity. `acquire` takes the last buffer of the level
of the size asked for, whatever its capacity is, and reserves the difference. `reserve` counts from
the length of the buffer, which is 0, not from its capacity; so a buffer that is too small stays so
as long as the difference is no more than what it holds, and beyond that if `reserve` gives no more
than it has to (`acquire_iff`).
-/

namespace SoupEngine

/-- What the pool uses of `BytesMut`. `reserve` makes room for so many bytes behind those in the
buffer, and does nothing where there is room. -/
structure BytesMut (β : Type*) where
  bytes : β → Bytes
  capacity : β → ℕ
  withCapacity : ℕ → β
  clear : β → β
  reserve : β → ℕ → β
  bytes_withCapacity : ∀ n, bytes (withCapacity n) = []
  le_withCapacity : ∀ n, n ≤ capacity (withCapacity n)
  bytes_clear : ∀ b, bytes (clear b) = []
  capacity_clear : ∀ b, capacity (clear b) = capacity b
  bytes_reserve : ∀ b n, bytes (reserve b n) = bytes b
  le_reserve : ∀ b n, bytes b = [] → n ≤ capacity (reserve b n)
  reserve_of_le : ∀ b n, bytes b = [] → n ≤ capacity b → reserve b n = b

def SMALL_CAP : ℕ := 256
def MEDIUM_CAP : ℕ := 1500
def LARGE_CAP : ℕ := 16 * 1024

/-- How many buffers a level keeps. -/
def FREE_PER_LEVEL : ℕ := 1024

def levelFor (min : ℕ) : Fin 3 :=
  if min ≤ SMALL_CAP then 0 else if min ≤ MEDIUM_CAP then 1 else 2

/-- The capacity of the buffers of a level. -/
def levelCap : Fin 3 → ℕ
  | 0 => SMALL_CAP
  | 1 => MEDIUM_CAP
  | 2 => LARGE_CAP

variable {β : Type*} {B : BytesMut β}

/-- The free list of a level. -/
structure Level (B : BytesMut β) (level : Fin 3) where
  free : List β
  length_free : free.length ≤ FREE_PER_LEVEL
  empty : ∀ b ∈ free, B.bytes b = []
  level_eq : ∀ b ∈ free, levelFor (B.capacity b) = level
  le_cap : ∀ b ∈ free, B.capacity b ≤ levelCap level

namespace Level

variable {level : Fin 3}

/-- The list without its last buffer. -/
def pop (l : Level B level) : Level B level where
  free := l.free.dropLast
  length_free := by
    rw [List.length_dropLast]
    exact (Nat.sub_le _ _).trans l.length_free
  empty b hb := l.empty b (List.mem_of_mem_dropLast hb)
  level_eq b hb := l.level_eq b (List.mem_of_mem_dropLast hb)
  le_cap b hb := l.le_cap b (List.mem_of_mem_dropLast hb)

def push (l : Level B level) (buf : β) (hroom : l.free.length < FREE_PER_LEVEL)
    (hlevel : levelFor (B.capacity buf) = level) (hcap : B.capacity buf ≤ levelCap level) :
    Level B level where
  free := l.free ++ [B.clear buf]
  length_free := by
    rw [List.length_append, List.length_singleton]
    exact hroom
  empty b hb := by
    rcases List.mem_append.1 hb with h | h
    · exact l.empty b h
    · rw [List.mem_singleton.1 h]
      exact B.bytes_clear buf
  level_eq b hb := by
    rcases List.mem_append.1 hb with h | h
    · exact l.level_eq b h
    · rw [List.mem_singleton.1 h, B.capacity_clear]
      exact hlevel
  le_cap b hb := by
    rcases List.mem_append.1 hb with h | h
    · exact l.le_cap b h
    · rw [List.mem_singleton.1 h, B.capacity_clear]
      exact hcap

end Level

structure BufferPool (B : BytesMut β) where
  levels : ∀ level, Level B level

namespace BufferPool

def new : BufferPool B where
  levels _ :=
    ⟨[], Nat.zero_le _, fun _ h => absurd h List.not_mem_nil, fun _ h => absurd h List.not_mem_nil,
      fun _ h => absurd h List.not_mem_nil⟩

def acquire (p : BufferPool B) (min : ℕ) : BufferPool B × β :=
  let level := levelFor min
  let guard := p.levels level
  match guard.free.getLast? with
  | some b =>
    let b := B.clear b
    (⟨Function.update p.levels level guard.pop⟩, B.reserve b (min - B.capacity b))
  | none => (p, B.withCapacity (max (levelCap level) min))

def release (p : BufferPool B) (buf : β) : BufferPool B :=
  let level := levelFor (B.capacity buf)
  let guard := p.levels level
  if hcap : levelCap level < B.capacity buf then p
  else if hroom : FREE_PER_LEVEL ≤ guard.free.length then p
  else ⟨Function.update p.levels level (guard.push buf (not_le.1 hroom) rfl (not_lt.1 hcap))⟩

/-! ## Histories -/

inductive Op (β : Type*)
  | acquire (min : ℕ)
  | release (buf : β)

def step (p : BufferPool B) : Op β → BufferPool B
  | .acquire min => (p.acquire min).1
  | .release buf => p.release buf

def run (B : BytesMut β) (ops : List (Op β)) : BufferPool B := ops.foldl step new

/-- The buffer that `acquire` would take is large enough, or has no capacity at all, so that the
difference is all that is asked for. -/
def Enough (p : BufferPool B) (min : ℕ) : Prop :=
  ∀ b ∈ (p.levels (levelFor min)).free.getLast?, min ≤ B.capacity b ∨ B.capacity b = 0

/-- That buffer holds less than half of what is asked for. -/
def Half (p : BufferPool B) (min : ℕ) : Prop :=
  ∃ b ∈ (p.levels (levelFor min)).free.getLast?, 2 * B.capacity b < min

/-- The buffer returned is empty and large enough. -/
def Acquires (p : BufferPool B) (min : ℕ) : Prop :=
  B.bytes (p.acquire min).2 = [] ∧ min ≤ B.capacity (p.acquire min).2

variable {p : BufferPool B} {min : ℕ}

/-- A pooled buffer. -/
theorem acquire_some {b : β} (hb : (p.levels (levelFor min)).free.getLast? = some b) :
    (p.acquire min).2 = B.reserve (B.clear b) (min - B.capacity b) := by
  unfold acquire
  dsimp only
  rw [hb]
  dsimp only
  rw [B.capacity_clear]

/-- A new buffer. -/
theorem acquire_none (h : (p.levels (levelFor min)).free.getLast? = none) :
    (p.acquire min).2 = B.withCapacity (max (levelCap (levelFor min)) min) := by
  unfold acquire
  dsimp only
  rw [h]

theorem bytes_acquire (p : BufferPool B) (min : ℕ) : B.bytes (p.acquire min).2 = [] := by
  cases hlast : (p.levels (levelFor min)).free.getLast? with
  | none =>
    rw [acquire_none hlast]
    exact B.bytes_withCapacity _
  | some b =>
    rw [acquire_some hlast, B.bytes_reserve]
    exact B.bytes_clear b

/-- As long as the difference fits into the pooled buffer, nothing is reserved. -/
theorem capacity_acquire_some {b : β} (hb : (p.levels (levelFor min)).free.getLast? = some b)
    (hfits : min ≤ 2 * B.capacity b) : B.capacity (p.acquire min).2 = B.capacity b := by
  have hcap := B.capacity_clear b
  rw [acquire_some hb, B.reserve_of_le _ _ (B.bytes_clear b) (by omega), hcap]

/-- **One call**, on a buffer that is large enough. -/
theorem Enough.acquires (h : p.Enough min) : p.Acquires min := by
  refine ⟨bytes_acquire p min, ?_⟩
  cases hlast : (p.levels (levelFor min)).free.getLast? with
  | none =>
    rw [acquire_none hlast]
    exact (le_max_right _ _).trans (B.le_withCapacity _)
  | some b =>
    rcases h b hlast with hle | hzero
    · rw [capacity_acquire_some hlast (by omega)]
      exact hle
    · rw [acquire_some hlast, hzero, Nat.sub_zero]
      exact B.le_reserve _ _ (B.bytes_clear b)

/-- A buffer that is too small, and not by more than it holds, stays so. -/
theorem Acquires.enough_or (h : p.Acquires min) : p.Enough min ∨ p.Half min := by
  by_cases hhalf : p.Half min
  · exact Or.inr hhalf
  · refine Or.inl fun b hb => Or.inl ?_
    have hfits : min ≤ 2 * B.capacity b := not_lt.1 fun hlt => hhalf ⟨b, hb, hlt⟩
    rw [← capacity_acquire_some hb hfits]
    exact h.2

/-! ## What is pooled -/

theorem free_acquire (p : BufferPool B) (min : ℕ) (level : Fin 3) :
    ((p.step (.acquire min)).levels level).free =
      if level = levelFor min then (p.levels level).free.dropLast else (p.levels level).free := by
  show ((p.acquire min).1.levels level).free = _
  unfold acquire
  dsimp only
  cases hlast : (p.levels (levelFor min)).free.getLast? with
  | none =>
    dsimp only
    split_ifs with hlevel
    · rw [hlevel, List.getLast?_eq_none_iff.1 hlast]
      rfl
    · rfl
  | some b =>
    dsimp only
    by_cases hlevel : level = levelFor min
    · subst hlevel
      rw [Function.update_self, if_pos rfl]
      rfl
    · rw [Function.update_of_ne hlevel, if_neg hlevel]

theorem step_release_of_large (p : BufferPool B) {buf : β}
    (hcap : levelCap (levelFor (B.capacity buf)) < B.capacity buf) : p.step (.release buf) = p := by
  show p.release buf = p
  unfold release
  exact dif_pos hcap

theorem step_release_of_full (p : BufferPool B) {buf : β}
    (hfull : FREE_PER_LEVEL ≤ (p.levels (levelFor (B.capacity buf))).free.length) :
    p.step (.release buf) = p := by
  show p.release buf = p
  unfold release
  dsimp only
  split_ifs
  · rfl
  · rfl

theorem free_release (p : BufferPool B) {buf : β}
    (hcap : ¬ levelCap (levelFor (B.capacity buf)) < B.capacity buf)
    (hroom : ¬ FREE_PER_LEVEL ≤ (p.levels (levelFor (B.capacity buf))).free.length)
    (level : Fin 3) :
    ((p.step (.release buf)).levels level).free =
      (p.levels level).free ++ if level = levelFor (B.capacity buf) then [B.clear buf] else [] := by
  show ((p.release buf).levels level).free = _
  unfold release
  rw [dif_neg hcap, dif_neg hroom]
  dsimp only
  by_cases hlevel : level = levelFor (B.capacity buf)
  · subst hlevel
    rw [Function.update_self, if_pos rfl]
    rfl
  · rw [Function.update_of_ne hlevel, if_neg hlevel, List.append_nil]

/-! ## Full buffers -/

theorem le_levelCap (h : min ≤ LARGE_CAP) : min ≤ levelCap (levelFor min) := by
  unfold levelFor
  split_ifs with h1 h2
  · exact h1
  · exact h2
  · exact h

/-- Every pooled buffer has the capacity of its level. -/
def Full (p : BufferPool B) : Prop :=
  ∀ level, ∀ b ∈ (p.levels level).free, B.capacity b = levelCap level

theorem full_step (h : p.Full) {op : Op β}
    (hop : ∀ buf, op = .release buf → levelCap (levelFor (B.capacity buf)) ≤ B.capacity buf) :
    (p.step op).Full := by
  intro level b hb
  cases op with
  | acquire min =>
    rw [free_acquire] at hb
    split_ifs at hb
    · exact h level b (List.mem_of_mem_dropLast hb)
    · exact h level b hb
  | release buf =>
    by_cases hcap : levelCap (levelFor (B.capacity buf)) < B.capacity buf
    · rw [step_release_of_large p hcap] at hb
      exact h level b hb
    by_cases hroom : FREE_PER_LEVEL ≤ (p.levels (levelFor (B.capacity buf))).free.length
    · rw [step_release_of_full p hroom] at hb
      exact h level b hb
    rw [free_release p hcap hroom] at hb
    rcases List.mem_append.1 hb with hold | hnew
    · exact h level b hold
    split_ifs at hnew with hlevel
    · rw [List.mem_singleton.1 hnew, B.capacity_clear, hlevel]
      exact le_antisymm (not_lt.1 hcap) (hop buf rfl)
    · cases hnew

/-- When only buffers of the capacity of their level are released, the pooled ones are large enough
for all sizes of the levels. -/
theorem enough_of_full {ops : List (Op β)}
    (hops : ∀ buf, Op.release buf ∈ ops → levelCap (levelFor (B.capacity buf)) ≤ B.capacity buf)
    (hmin : min ≤ LARGE_CAP) : (run B ops).Enough min := by
  have hfull : (run B ops).Full := by
    induction ops using List.reverseRecOn with
    | nil => exact fun level b hb => absurd hb List.not_mem_nil
    | append_singleton ops op ih =>
      unfold run
      rw [List.foldl_append]
      refine full_step (ih fun buf hbuf => hops buf (List.mem_append_left _ hbuf)) ?_
      rintro buf rfl
      exact hops buf (List.mem_append_right _ (List.mem_singleton_self _))
  intro b hb
  left
  rw [hfull _ b (List.mem_of_getLast? hb)]
  exact le_levelCap hmin

/-- Above the levels a pooled buffer is never large enough. -/
theorem not_enough_of_huge {b : β} (hb : (p.levels 2).free.getLast? = some b)
    (hmin : LARGE_CAP < min) :
    ¬ p.Enough min := by
  have hs : SMALL_CAP = 256 := rfl
  have hm : MEDIUM_CAP = 1500 := rfl
  have hl : LARGE_CAP = 16384 := rfl
  have hlevel : levelFor min = 2 := by
    unfold levelFor
    rw [if_neg (by omega), if_neg (by omega)]
  have hmem := List.mem_of_getLast? hb
  have hcap : B.capacity b ≤ LARGE_CAP := (p.levels 2).le_cap b hmem
  have hpos : B.capacity b ≠ 0 := by
    intro hzero
    have hempty : levelFor (B.capacity b) = 0 := by
      rw [hzero]
      rfl
    exact absurd (hempty.symm.trans ((p.levels 2).level_eq b hmem)) (by decide)
  intro h
  unfold Enough at h
  rw [hlevel] at h
  rcases h b hb with h | h
  · omega
  · exact hpos h

/-! ## A buffer that is too small -/

/-- A vector of bytes. -/
structure Buf where
  bytes : Bytes
  capacity : ℕ
  length_le : bytes.length ≤ capacity

/-- How a vector grows. -/
structure Growth where
  reserve : Buf → ℕ → Buf
  bytes_reserve : ∀ b n, (reserve b n).bytes = b.bytes
  le_reserve : ∀ b n, b.bytes = [] → n ≤ (reserve b n).capacity
  reserve_of_le : ∀ b n, b.bytes = [] → n ≤ b.capacity → reserve b n = b

/-- A buffer over a vector that is not shared. -/
def vecBytes (g : Growth) : BytesMut Buf where
  bytes := Buf.bytes
  capacity := Buf.capacity
  withCapacity n := ⟨[], n, Nat.zero_le n⟩
  clear b := ⟨[], b.capacity, Nat.zero_le _⟩
  reserve := g.reserve
  bytes_withCapacity _ := rfl
  le_withCapacity _ := le_rfl
  bytes_clear _ := rfl
  capacity_clear _ := rfl
  bytes_reserve := g.bytes_reserve
  le_reserve := g.le_reserve
  reserve_of_le := g.reserve_of_le

/-- A vector that grows to `cap b n`, and by what is asked for at least. -/
def growTo (cap : Buf → ℕ → ℕ) : Growth where
  reserve b n :=
    if b.bytes.length + n ≤ b.capacity then b
    else ⟨b.bytes, max (cap b n) (b.bytes.length + n),
      (Nat.le_add_right _ n).trans (le_max_right _ _)⟩
  bytes_reserve b n := by split_ifs <;> rfl
  le_reserve b n h := by
    split_ifs with hfits
    · rw [h] at hfits
      exact (Nat.le_add_left n _).trans hfits
    · exact (Nat.le_add_left n _).trans (le_max_right _ _)
  reserve_of_le b n h hle := by
    rw [if_pos]
    rw [h]
    exact (Nat.zero_add n).trans_le hle

/-- To twice its capacity. -/
def doubling : Growth := growTo fun b _ => 2 * b.capacity

/-- By no more than is asked for. -/
def sparing : Growth := growTo fun _ _ => 0

/-- What is pooled does not depend on how vectors grow. -/
theorem free_run (g g' : Growth) (ops : List (Op Buf)) (level : Fin 3) :
    ((run (vecBytes g) ops).levels level).free = ((run (vecBytes g') ops).levels level).free := by
  induction ops using List.reverseRecOn generalizing level with
  | nil => rfl
  | append_singleton ops op ih =>
    unfold run at ih ⊢
    rw [List.foldl_append, List.foldl_append]
    generalize ops.foldl step (new : BufferPool (vecBytes g)) = p at ih ⊢
    generalize ops.foldl step (new : BufferPool (vecBytes g')) = p' at ih ⊢
    show ((p.step op).levels level).free = ((p'.step op).levels level).free
    cases op with
    | acquire min => rw [free_acquire, free_acquire, ih level]
    | release buf =>
      have hlength := congrArg List.length (ih (levelFor buf.capacity))
      by_cases hcap : levelCap (levelFor buf.capacity) < buf.capacity
      · rw [step_release_of_large p hcap, step_release_of_large p' hcap]
        exact ih level
      by_cases hroom : FREE_PER_LEVEL ≤ (p'.levels (levelFor buf.capacity)).free.length
      · rw [step_release_of_full p (hlength ▸ hroom), step_release_of_full p' hroom]
        exact ih level
      · rw [free_release p hcap (hlength ▸ hroom), free_release p' hcap hroom, ih level]
        rfl

theorem capacity_sparing {b : Buf} {n : ℕ} (hb : b.bytes = []) :
    (sparing.reserve b n).capacity = max b.capacity n := by
  have hlength : b.bytes.length + n = n := by rw [hb, List.length_nil, Nat.zero_add]
  show (if b.bytes.length + n ≤ b.capacity then b else _).capacity = _
  split_ifs with hfits
  · exact (max_eq_left (hlength ▸ hfits)).symm
  · show max 0 (b.bytes.length + n) = _
    rw [hlength] at hfits ⊢
    rw [Nat.zero_max, max_eq_right (not_le.1 hfits).le]

/-- A vector that grows by no more than is asked for is too small whenever it was. -/
theorem enough_of_sparing {p : BufferPool (vecBytes sparing)} (h : p.Acquires min) :
    p.Enough min := by
  intro b hb
  by_contra hsmall
  obtain ⟨hlt, hpos⟩ := not_or.1 hsmall
  have hlt : b.capacity < min := not_le.1 hlt
  have hpos : b.capacity ≠ 0 := hpos
  have hle : min ≤
      (sparing.reserve ⟨[], b.capacity, Nat.zero_le _⟩ (min - b.capacity)).capacity := by
    have hcap := h.2
    rw [acquire_some hb] at hcap
    exact hcap
  rw [capacity_sparing rfl] at hle
  rcases le_max_iff.1 hle with hle | hle
  · exact absurd hle (not_le.2 hlt)
  · omega

/-- **What `acquire` returns.** After every history, of buffers of any kind, a pooled buffer that is
large enough gives an empty one of the capacity asked for, and one that is too small does not,
unless it holds less than half. What then comes of it is left to `reserve`: only where the pooled
buffer is large enough does every way to grow give the capacity asked for. -/
theorem acquire_iff (B : BytesMut β) (ops : List (Op β)) (vecs : List (Op Buf)) (min : ℕ) :
    ((run B ops).Enough min → (run B ops).Acquires min) ∧
      ((run B ops).Acquires min → (run B ops).Enough min ∨ (run B ops).Half min) ∧
      ((∀ g, (run (vecBytes g) vecs).Acquires min) ↔ ∀ g, (run (vecBytes g) vecs).Enough min) := by
  refine ⟨Enough.acquires, Acquires.enough_or, ?_, fun h g => (h g).acquires⟩
  intro h g b hb
  exact enough_of_sparing (h sparing) b (free_run g sparing vecs _ ▸ hb)

/-- A buffer of 200 bytes is released. `acquire` returns it for 256 bytes as it is. -/
theorem acquire_short : ¬ ∀ (β : Type) (B : BytesMut β) (ops : List (Op β)) (min : ℕ),
    B.bytes ((run B ops).acquire min).2 = [] ∧ min ≤ B.capacity ((run B ops).acquire min).2 := by
  intro h
  have hle : 256 ≤ 200 := (h Buf (vecBytes doubling) [.release ⟨[], 200, Nat.zero_le _⟩] 256).2
  exact absurd hle (by decide)

end BufferPool

end SoupEngine
