import Mathlib.Tactic

/-!
# Streams that arrive in chunks

A decoder looks at the symbols received so far: it takes an item off the front, waits for more, or
gives up what it has. A reader appends each chunk to what is left over and takes off what it can.

`Framing` says how a decoder treats the encodings of items, some of which it takes (`Good`) and some
of which it does not. Then a reader gets exactly the items of a stream of good ones, however the
stream is cut, and gives up at least once when one of the items is not good (`run_good`, `run_bad`).
-/

namespace StreamDecoder

variable {α ι : Type*}

inductive Outcome (α ι : Type*)
  | item (x : ι) (rest : List α)
  | more
  | bad

/-- The symbols that are left over, the items so far, and how often the reader has given up. -/
structure Reader (α ι : Type*) where
  acc : List α
  items : List ι
  resets : ℕ

def Reader.start : Reader α ι := ⟨[], [], 0⟩

section Run

variable (dec : List α → Outcome α ι)

/-- Take items off the front while there are whole ones, in at most so many rounds. -/
def drain : ℕ → Reader α ι → Reader α ι
  | 0, r => r
  | rounds + 1, r =>
    match dec r.acc with
    | .item x rest => drain rounds { r with acc := rest, items := r.items ++ [x] }
    | .more => r
    | .bad => { r with acc := [], resets := r.resets + 1 }

/-- A chunk arrives. -/
def feed (r : Reader α ι) (chunk : List α) : Reader α ι :=
  drain dec (r.acc ++ chunk).length { r with acc := r.acc ++ chunk }

def run (chunks : List (List α)) : Reader α ι := chunks.foldl (feed dec) .start

theorem resets_le_drain (rounds : ℕ) (r : Reader α ι) :
    r.resets ≤ (drain dec rounds r).resets := by
  induction rounds generalizing r with
  | zero => exact le_rfl
  | succ n ih =>
    unfold drain
    cases dec r.acc with
    | item x rest => exact ih { r with acc := rest, items := r.items ++ [x] }
    | more => exact le_rfl
    | bad => exact Nat.le_succ _

theorem resets_le_foldl (chunks : List (List α)) (r : Reader α ι) :
    r.resets ≤ (chunks.foldl (feed dec) r).resets := by
  induction chunks generalizing r with
  | nil => exact le_rfl
  | cons c cs ih => exact (resets_le_drain dec _ { r with acc := r.acc ++ c }).trans (ih _)

end Run

/-- How a decoder treats whole and cut encodings of valid items. -/
structure Framing (dec : List α → Outcome α ι) (enc : ι → List α) (Valid Good : ι → Prop) :
    Prop where
  nil : dec [] = .more
  ne_nil : ∀ x, Valid x → enc x ≠ []
  item : ∀ x, Valid x → Good x → ∀ rest, dec (enc x ++ rest) = .item x rest
  short : ∀ x, Valid x → Good x → ∀ p q, q ≠ [] → enc x = p ++ q → dec p = .more
  bad : ∀ x, Valid x → ¬ Good x → ∀ rest, dec (enc x ++ rest) = .bad
  bad_short : ∀ x, Valid x → ¬ Good x → ∀ p q, q ≠ [] → enc x = p ++ q →
    dec p = .more ∨ dec p = .bad

section Spec

variable {dec : List α → Outcome α ι} {enc : ι → List α} {Valid Good : ι → Prop}

/-- What a reader has done with a stream of which `rest` is still to come: it has given up at an
item that is not good, or it has taken the items `ys` and waits in what `zs` is encoded to. -/
def Progress (enc : ι → List α) (Good : ι → Prop) (xs : List ι) (rest : List α)
    (r r' : Reader α ι) : Prop :=
  (r.resets < r'.resets ∧ ∃ x ∈ xs, ¬ Good x) ∨
    (r'.resets = r.resets ∧ ∃ ys zs, xs = ys ++ zs ∧ (∀ y ∈ ys, Good y) ∧ r'.items = r.items ++ ys ∧
      r'.acc ++ rest = zs.flatMap enc ∧ (rest = [] → zs = []))

theorem Framing.drain_progress (hF : Framing dec enc Valid Good) {rest : List α} {rounds : ℕ} :
    ∀ {xs : List ι} {r : Reader α ι}, (∀ x ∈ xs, Valid x) → r.acc ++ rest = xs.flatMap enc →
      r.acc.length ≤ rounds → Progress enc Good xs rest r (drain dec rounds r) := by
  induction rounds with
  | zero =>
    intro xs r hv h hlen
    refine Or.inr ⟨rfl, [], xs, rfl, by simp, (List.append_nil _).symm, h, fun hrest => ?_⟩
    have hacc : r.acc = [] := List.length_eq_zero_iff.1 (by omega)
    rw [hacc, hrest] at h
    cases xs with
    | nil => rfl
    | cons x xs =>
      have hnil := List.append_eq_nil_iff.1 (h.symm : enc x ++ xs.flatMap enc = [])
      exact absurd hnil.1 (hF.ne_nil x (hv x List.mem_cons_self))
  | succ n ih =>
    intro xs r hv h hlen
    cases xs with
    | nil =>
      have hacc : r.acc = [] := (List.append_eq_nil_iff.1 h).1
      unfold drain
      rw [hacc, hF.nil]
      exact Or.inr ⟨rfl, [], [], rfl, by simp, (List.append_nil _).symm, h, fun _ => rfl⟩
    | cons x xs =>
      rw [List.forall_mem_cons] at hv
      have hne : 0 < (enc x).length := List.length_pos_iff.2 (hF.ne_nil x hv.1)
      rw [List.flatMap_cons] at h
      have hx : enc x <+: r.acc ++ rest := ⟨xs.flatMap enc, h.symm⟩
      have hacc : r.acc <+: r.acc ++ rest := List.prefix_append _ _
      unfold drain
      by_cases hle : (enc x).length ≤ r.acc.length
      · -- the first item has arrived whole
        obtain ⟨acc, he⟩ := List.prefix_of_prefix_length_le hx hacc hle
        rw [← he, List.append_assoc, List.append_cancel_left_eq] at h
        rw [← he]
        by_cases hg : Good x
        · rw [hF.item x hv.1 hg]
          have hlen' : acc.length ≤ n := by
            have := congrArg List.length he
            rw [List.length_append] at this
            omega
          have hnext := ih (r := { r with acc := acc, items := r.items ++ [x] }) hv.2 h hlen'
          rcases hnext with ⟨hlt, y, hy, hbad⟩ | ⟨hsame, ys, zs, hxs, hys, hit, hrest, hend⟩
          · exact Or.inl ⟨hlt, y, List.mem_cons_of_mem _ hy, hbad⟩
          · refine Or.inr ⟨hsame, x :: ys, zs, by rw [hxs]; rfl, ?_, ?_, hrest, hend⟩
            · rw [List.forall_mem_cons]
              exact ⟨hg, hys⟩
            · rw [hit, List.append_assoc]
              rfl
        · rw [hF.bad x hv.1 hg]
          exact Or.inl ⟨Nat.lt_succ_self _, x, List.mem_cons_self, hg⟩
      · -- it has not
        obtain ⟨q, he⟩ := List.prefix_of_prefix_length_le hacc hx (by omega)
        have hq : q ≠ [] := by
          rintro rfl
          rw [List.append_nil] at he
          rw [he] at hle
          exact hle le_rfl
        have hwait : Progress enc Good (x :: xs) rest r r := by
          refine Or.inr ⟨rfl, [], x :: xs, rfl, by simp, (List.append_nil _).symm, h, fun hr => ?_⟩
          rw [hr, List.append_nil] at h
          have := congrArg List.length h
          rw [List.length_append] at this
          omega
        by_cases hg : Good x
        · rw [hF.short x hv.1 hg r.acc q hq he.symm]
          exact hwait
        · rcases hF.bad_short x hv.1 hg r.acc q hq he.symm with hm | hb
          · rw [hm]
            exact hwait
          · rw [hb]
            exact Or.inl ⟨Nat.lt_succ_self _, x, List.mem_cons_self, hg⟩

/-- The chunks so far: either the reader has given up, or it has taken items and waits for the
rest. -/
theorem Framing.foldl_progress (hF : Framing dec enc Valid Good) {chunks : List (List α)}
    {rest : List α} :
    ∀ {xs : List ι} {r : Reader α ι}, (∀ x ∈ xs, Valid x) →
      r.acc ++ (chunks.flatten ++ rest) = xs.flatMap enc → (chunks.flatten ++ rest = [] → xs = []) →
      Progress enc Good xs rest r (chunks.foldl (feed dec) r) := by
  induction chunks with
  | nil =>
    intro xs r _ h hend
    exact Or.inr ⟨rfl, [], xs, rfl, by simp, (List.append_nil _).symm, h, hend⟩
  | cons c cs ih =>
    intro xs r hv h _
    rw [List.flatten_cons, List.append_assoc, ← List.append_assoc] at h
    have hfirst := hF.drain_progress (r := { r with acc := r.acc ++ c }) hv h le_rfl
    rw [List.foldl_cons]
    rcases hfirst with ⟨hlt, hbad⟩ | ⟨hsame, ys, zs, rfl, hys, hit, hrest, hend⟩
    · exact Or.inl ⟨hlt.trans_le (resets_le_foldl dec cs _), hbad⟩
    · have hvz : ∀ z ∈ zs, Valid z := fun z hz => hv z (List.mem_append_right _ hz)
      have hres : (feed dec r c).resets = r.resets := hsame
      have hits : (feed dec r c).items = r.items ++ ys := hit
      rcases ih (r := feed dec r c) hvz hrest hend with
        ⟨hlt, x, hx, hbad⟩ | ⟨hsame', ys', zs', rfl, hys', hit', hrest', hend'⟩
      · exact Or.inl ⟨hres ▸ hlt, x, List.mem_append_right _ hx, hbad⟩
      · refine Or.inr ⟨hsame'.trans hres, ys ++ ys', zs', by rw [List.append_assoc], ?_, ?_,
          hrest', hend'⟩
        · intro y hy
          exact (List.mem_append.1 hy).elim (hys y) (hys' y)
        · rw [hit', hits, List.append_assoc]

variable {xs : List ι} {chunks : List (List α)}

theorem Framing.run_progress (hF : Framing dec enc Valid Good) {rest : List α}
    (hv : ∀ x ∈ xs, Valid x) (h : chunks.flatten ++ rest = xs.flatMap enc) :
    Progress enc Good xs rest .start (run dec chunks) := by
  refine hF.foldl_progress hv h fun hnil => ?_
  rw [hnil] at h
  cases xs with
  | nil => rfl
  | cons x xs =>
    exact absurd (List.append_eq_nil_iff.1 h.symm).1 (hF.ne_nil x (hv x List.mem_cons_self))

/-- A stream of good items is read back, however it is cut. -/
theorem Framing.run_good (hF : Framing dec enc Valid Good) (hv : ∀ x ∈ xs, Valid x)
    (h : chunks.flatten = xs.flatMap enc) (hg : ∀ x ∈ xs, Good x) :
    (run dec chunks).items = xs ∧ (run dec chunks).resets = 0 ∧ (run dec chunks).acc = [] := by
  have hend : chunks.flatten ++ [] = xs.flatMap enc := by rw [List.append_nil, h]
  rcases hF.run_progress hv hend with ⟨-, x, hx, hbad⟩ | ⟨hres, ys, zs, rfl, -, hit, hrest, hlast⟩
  · exact absurd (hg x hx) hbad
  · obtain rfl := hlast rfl
    rw [List.append_nil] at hrest ⊢
    exact ⟨hit, hres, hrest⟩

/-- A stream with an item that is not good makes the reader give up. -/
theorem Framing.run_bad (hF : Framing dec enc Valid Good) (hv : ∀ x ∈ xs, Valid x)
    (h : chunks.flatten = xs.flatMap enc) (hb : ¬ ∀ x ∈ xs, Good x) :
    0 < (run dec chunks).resets := by
  have hend : chunks.flatten ++ [] = xs.flatMap enc := by rw [List.append_nil, h]
  rcases hF.run_progress hv hend with ⟨hlt, -⟩ | ⟨-, ys, zs, rfl, hys, -, -, hlast⟩
  · exact hlt
  · obtain rfl := hlast rfl
    rw [List.append_nil] at hb
    exact absurd hys hb

/-- While the chunks so far give no reason to give up, the items taken are the first ones, and what
is left over goes on with the rest of the stream. -/
theorem Framing.run_prefix (hF : Framing dec enc Valid Good) (hv : ∀ x ∈ xs, Valid x)
    (hg : ∀ x ∈ xs, Good x) {rest : List α} (h : chunks.flatten ++ rest = xs.flatMap enc) :
    (run dec chunks).resets = 0 ∧ ∃ zs, xs = (run dec chunks).items ++ zs ∧
      (run dec chunks).acc ++ rest = zs.flatMap enc := by
  rcases hF.run_progress hv h with ⟨-, x, hx, hbad⟩ | ⟨hres, ys, zs, hxs, -, hit, hrest, -⟩
  · exact absurd (hg x hx) hbad
  · have hitems : (run dec chunks).items = ys := hit
    rw [hitems]
    exact ⟨hres, zs, hxs, hrest⟩

/-- A first part of an item, and not the whole. -/
def Cut (enc : ι → List α) (Valid : ι → Prop) (tail : List α) : Prop :=
  ∃ x, Valid x ∧ ∃ q, q ≠ [] ∧ enc x = tail ++ q

/-- The item that is taken off the front of a stream, which may break off, is the first one. -/
theorem Framing.next (hF : Framing dec enc Valid Good) (hv : ∀ x ∈ xs, Valid x)
    {acc acc' rest tail : List α} {y : ι} (htail : Cut enc Valid tail)
    (h : acc ++ rest = xs.flatMap enc ++ tail) (hdec : dec acc = .item y acc') :
    ∃ ys, xs = y :: ys ∧ acc' ++ rest = ys.flatMap enc ++ tail := by
  -- nothing is taken off a first part of an item
  have hcut {x : ι} {q : List α} (hx : Valid x) (hq : q ≠ []) (he : enc x = acc ++ q) : False := by
    by_cases hg : Good x
    · rw [hF.short x hx hg acc q hq he] at hdec
      cases hdec
    · rcases hF.bad_short x hx hg acc q hq he with hm | hb
      · rw [hm] at hdec
        cases hdec
      · rw [hb] at hdec
        cases hdec
  cases xs with
  | nil =>
    obtain ⟨x, hx, q, hq, he⟩ := htail
    have htail : tail = acc ++ rest := h.symm
    rw [htail, List.append_assoc] at he
    exact (hcut hx (List.append_ne_nil_of_right_ne_nil _ hq) he).elim
  | cons x xs =>
    rw [List.forall_mem_cons] at hv
    rw [List.flatMap_cons, List.append_assoc] at h
    have hx : enc x <+: acc ++ rest := ⟨xs.flatMap enc ++ tail, h.symm⟩
    have hacc : acc <+: acc ++ rest := List.prefix_append _ _
    by_cases hle : (enc x).length ≤ acc.length
    · obtain ⟨a, rfl⟩ := List.prefix_of_prefix_length_le hx hacc hle
      rw [List.append_assoc, List.append_cancel_left_eq] at h
      by_cases hg : Good x
      · rw [hF.item x hv.1 hg] at hdec
        cases hdec
        exact ⟨xs, rfl, h⟩
      · rw [hF.bad x hv.1 hg] at hdec
        cases hdec
    · obtain ⟨q, he⟩ := List.prefix_of_prefix_length_le hacc hx (by omega)
      refine (hcut hv.1 ?_ he.symm).elim
      rintro rfl
      rw [List.append_nil] at he
      rw [he] at hle
      exact hle le_rfl

end Spec

/-! ## Two decoders -/

section Simulation

variable {κ : Type*} {dec : List α → Outcome α ι} {dec' : List α → Outcome α κ} {g : ι → κ}

/-- What the first decoder takes or waits for, so does the second. -/
structure Simulates (dec : List α → Outcome α ι) (dec' : List α → Outcome α κ) (g : ι → κ) :
    Prop where
  item : ∀ acc x rest, dec acc = .item x rest → dec' acc = .item (g x) rest
  more : ∀ acc, dec acc = .more → dec' acc = .more

def Reader.map (g : ι → κ) (r : Reader α ι) : Reader α κ := ⟨r.acc, r.items.map g, r.resets⟩

theorem Simulates.drain (hS : Simulates dec dec' g) (rounds : ℕ) (r : Reader α ι)
    (h : (drain dec rounds r).resets = r.resets) :
    StreamDecoder.drain dec' rounds (r.map g) = (StreamDecoder.drain dec rounds r).map g := by
  induction rounds generalizing r with
  | zero => rfl
  | succ n ih =>
    have hacc : (r.map g).acc = r.acc := rfl
    unfold StreamDecoder.drain at h ⊢
    rw [hacc]
    cases hd : dec r.acc with
    | item x rest =>
      rw [hd] at h
      rw [hS.item r.acc x rest hd]
      dsimp only at h ⊢
      rw [← ih _ h]
      unfold Reader.map
      rw [List.map_append]
      rfl
    | more =>
      rw [hS.more r.acc hd]
    | bad =>
      rw [hd] at h
      exact absurd h (Nat.succ_ne_self _)

theorem Simulates.foldl (hS : Simulates dec dec' g) (chunks : List (List α)) (r : Reader α ι)
    (h : (chunks.foldl (feed dec) r).resets = r.resets) :
    chunks.foldl (feed dec') (r.map g) = (chunks.foldl (feed dec) r).map g := by
  induction chunks generalizing r with
  | nil => rfl
  | cons c cs ih =>
    rw [List.foldl_cons] at h ⊢
    have hle := resets_le_foldl dec cs (feed dec r c)
    have hge := resets_le_drain dec (r.acc ++ c).length { r with acc := r.acc ++ c }
    have hfeed : (feed dec r c).resets = r.resets := le_antisymm (hle.trans h.le) hge
    have hfirst : feed dec' (r.map g) c = (feed dec r c).map g :=
      hS.drain _ { r with acc := r.acc ++ c } hfeed
    rw [List.foldl_cons, hfirst]
    exact ih _ (h.trans hfeed.symm)

/-- As long as the first reader does not give up, the second reads the same. -/
theorem Simulates.run (hS : Simulates dec dec' g) {chunks : List (List α)}
    (h : (StreamDecoder.run dec chunks).resets = 0) :
    StreamDecoder.run dec' chunks = (StreamDecoder.run dec chunks).map g :=
  hS.foldl chunks .start h

end Simulation

/-! ## A reader that stops to wait -/

section Waiting

variable {dec : List α → Outcome α ι}

/-- A reader that has taken what it can and has not given up waits for more. -/
theorem drain_more (hnil : dec [] = .more)
    (hshort : ∀ acc x rest, dec acc = .item x rest → rest.length < acc.length) {rounds : ℕ}
    {r : Reader α ι} (hlen : r.acc.length ≤ rounds) (h : (drain dec rounds r).resets = r.resets) :
    dec (drain dec rounds r).acc = .more := by
  induction rounds generalizing r with
  | zero =>
    have hacc : r.acc = [] := List.length_eq_zero_iff.1 (Nat.le_zero.1 hlen)
    show dec r.acc = .more
    rw [hacc]
    exact hnil
  | succ n ih =>
    unfold drain at h ⊢
    cases hd : dec r.acc with
    | item x rest =>
      rw [hd] at h
      have hlt := hshort _ _ _ hd
      exact ih (r := { r with acc := rest, items := r.items ++ [x] }) (by dsimp only; omega) h
    | more => exact hd
    | bad =>
      rw [hd] at h
      exact absurd h (Nat.succ_ne_self _)

end Waiting

end StreamDecoder
