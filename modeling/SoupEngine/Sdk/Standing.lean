import SoupEngine.Sdk.Stays

/-!
# Where a stay is

A stay waits for its `SessionOpen` to be handled, sits in the room as a player, or is gone. What a
room does to its players and its inbox keeps to that, and a stay that has been asked to leave leaves
once.
-/

namespace SoupEngine.Sdk

/-! ## Where a stay is -/

/-- A player leaves with one of these events. -/
def Leaves (p : PlayerID) (ls : List Life) : Prop := ∃ sess i, .went sess i p ∈ ls

theorem Leaves.mono {p : PlayerID} {ls ls' : List Life} (h : Leaves p ls) (hsub : ls ⊆ ls') :
    Leaves p ls' := by
  obtain ⟨sess, i, h⟩ := h
  exact ⟨sess, i, hsub h⟩

namespace Stay

/-- How often `OnLeave` has been called. -/
def left (x : Stay) : ℕ := x.notices.count .OnLeave

/-- The same is known of how the stay goes. -/
structure Same (x x' : Stay) : Prop where
  closing : x'.closing = x.closing
  left : x'.left = x.left

theorem Same.refl (x : Stay) : x.Same x := ⟨rfl, rfl⟩

end Stay

namespace View

/-- The stay waits, sits or is gone; in front of it are the events `lives`, and after those the ones
of `rt`. -/
inductive Standing (v : View) (rt : List Life) (i : ℕ) (x : Stay) : Prop
  | waits {sess : U64} {p : PlayerID} {xs ys : List Life}
      (hlives : v.lives = xs ++ .came sess i p :: ys) (honce : ∀ σ q, .came σ i q ∉ xs ++ ys)
      (hfree : ∀ q σ, v.bound q ≠ some (σ, i)) (hleft : x.left = 0)
      (hclose : x.closing = true → Leaves p (ys ++ rt))
  | sits {sess : U64} {p : PlayerID} (hbound : v.bound p = some (sess, i))
      (honce : ∀ q σ, v.bound q = some (σ, i) → q = p) (hlives : ∀ σ q, .came σ i q ∉ v.lives)
      (hleft : v.passed = none → x.left = 0) (hclose : x.closing = true → Leaves p (v.lives ++ rt))
  | gone (hlives : ∀ σ q, .came σ i q ∉ v.lives) (hfree : ∀ q σ, v.bound q ≠ some (σ, i))
      (hleft : x.closing = true → x.left = 1 ∨ v.passed ≠ none ∧ ∃ p, Leaves p (v.lives ++ rt))

namespace Standing

variable {v w : View} {rt rt' : List Life} {i j : ℕ} {x x' : Stay} {l : Life} {p : PlayerID}
  {sess : U64}

theorem congr (h : v.Standing rt i x) (hx : x.Same x') : v.Standing rt i x' := by
  cases h with
  | waits hlives honce hfree hleft hclose =>
    exact .waits hlives honce hfree (hx.left.trans hleft) fun hc => hclose (hx.closing ▸ hc)
  | sits hbound honce hlives hleft hclose =>
    exact .sits hbound honce hlives (fun hp => hx.left.trans (hleft hp)) fun hc =>
      hclose (hx.closing ▸ hc)
  | gone hlives hfree hleft =>
    exact .gone hlives hfree fun hc => hx.left ▸ hleft (hx.closing ▸ hc)

/-- More may be under way. -/
theorem weaken (h : v.Standing rt i x) (hsub : rt ⊆ rt') : v.Standing rt' i x := by
  have happ : ∀ ls : List Life, ls ++ rt ⊆ ls ++ rt' := fun ls =>
    List.append_subset.2 ⟨List.subset_append_left _ _,
      List.Subset.trans hsub (List.subset_append_right _ _)⟩
  cases h with
  | waits hlives honce hfree hleft hclose =>
    exact .waits hlives honce hfree hleft fun hc => (hclose hc).mono (happ _)
  | sits hbound honce hlives hleft hclose =>
    exact .sits hbound honce hlives hleft fun hc => (hclose hc).mono (happ _)
  | gone hlives hfree hleft =>
    refine .gone hlives hfree fun hc => ?_
    rcases hleft hc with h | ⟨hp, q, hq⟩
    · exact .inl h
    · exact .inr ⟨hp, q, hq.mono (happ _)⟩

/-- What was under way arrives. -/
theorem push (h : v.Standing (l :: rt) i x) (hl : ∀ σ q, l ≠ .came σ i q) :
    (v.append (some l)).Standing rt i x := by
  have hnot : ∀ {ls : List Life} {σ q}, Life.came σ i q ∉ ls → .came σ i q ∉ ls ++ [l] := by
    intro ls σ q h hmem
    rcases List.mem_append.1 hmem with hmem | hmem
    · exact h hmem
    · exact hl σ q (List.mem_singleton.1 hmem).symm
  have hassoc : ∀ ls : List Life, ls ++ [l] ++ rt = ls ++ l :: rt := fun ls => by
    rw [List.append_assoc, List.singleton_append]
  cases h with
  | @waits sess p xs ys hlives honce hfree hleft hclose =>
    have hsplit : (v.append (some l)).lives = xs ++ .came sess i p :: (ys ++ [l]) := by
      show v.lives ++ [l] = _
      rw [hlives, List.append_assoc, List.cons_append]
    refine .waits hsplit (fun σ q => ?_) hfree hleft fun hc => ?_
    · rw [← List.append_assoc]
      exact hnot (honce σ q)
    · rw [hassoc]
      exact hclose hc
  | sits hbound honce hlives hleft hclose =>
    refine .sits hbound honce (fun σ q => hnot (hlives σ q)) hleft fun hc => ?_
    show Leaves _ (v.lives ++ [l] ++ rt)
    rw [hassoc]
    exact hclose hc
  | gone hlives hfree hleft =>
    refine .gone (fun σ q => hnot (hlives σ q)) hfree fun hc => ?_
    show _ ∨ _ ∧ ∃ p, Leaves p (v.lives ++ [l] ++ rt)
    rw [hassoc]
    exact hleft hc

/-- The stay of a mapped session is asked to leave. -/
theorem closed (h : v.Standing rt i x)
    (hat : .came sess i p ∈ v.lives ∨ v.bound p = some (sess, i)) (hrt : Leaves p rt)
    (hx : x'.left = x.left) : v.Standing rt i x' := by
  have happ : ∀ ls : List Life, Leaves p (ls ++ rt) :=
    fun ls => hrt.mono (List.subset_append_right _ _)
  cases h with
  | @waits sess' p' xs ys hlives honce hfree hleft hclose =>
    rcases hat with hcame | hbound
    · have hp : p = p' := by
        rw [hlives] at hcame
        rcases List.mem_append.1 hcame with h | h
        · exact absurd (List.mem_append_left _ h) (honce sess p)
        · rcases List.mem_cons.1 h with h | h
          · cases h
            rfl
          · exact absurd (List.mem_append_right _ h) (honce sess p)
      exact .waits hlives honce hfree (hx.trans hleft) fun _ => hp ▸ happ ys
    · exact absurd hbound (hfree p sess)
  | @sits sess' p' hbound honce hlives hleft hclose =>
    rcases hat with hcame | hbound'
    · exact absurd hcame (hlives sess p)
    · exact .sits hbound honce hlives (fun hp => hx.trans (hleft hp)) fun _ =>
        honce p sess hbound' ▸ happ v.lives
  | gone hlives hfree hleft =>
    rcases hat with hcame | hbound
    · exact absurd hcame (hlives sess p)
    · exact absurd hbound (hfree p sess)

/-! ### What the room does -/

/-- The first event is another one. -/
theorem pop {ls : List Life} (h : v.Standing rt i x) (hv : v.lives = l :: ls)
    (hl : ∀ σ q, l ≠ .came σ i q) (hstay : ∀ q σ k, l = .went σ k q → v.bound q = none)
    (hpassed : v.passed = none) :
    { v with lives := ls }.Standing rt i x := by
  have hnot : ∀ {σ q}, Life.came σ i q ∉ v.lives → .came σ i q ∉ ls := by
    intro σ q h hmem
    rw [hv] at h
    exact h (List.mem_cons_of_mem _ hmem)
  cases h with
  | @waits sess p xs ys hlives honce hfree hleft hclose =>
    cases xs with
    | nil =>
      rw [hv] at hlives
      exact absurd (List.cons.inj hlives).1 (hl sess p)
    | cons y xs =>
      rw [hv] at hlives
      exact .waits (List.cons.inj hlives).2
        (fun σ q hmem => honce σ q (List.mem_cons_of_mem _ hmem)) hfree
        hleft hclose
  | @sits sess p hbound honce hlives hleft hclose =>
    refine .sits hbound honce (fun σ q => hnot (hlives σ q)) hleft fun hc => ?_
    obtain ⟨σ, k, hmem⟩ := hclose hc
    rw [hv] at hmem
    rcases List.mem_cons.1 hmem with heq | hmem
    · rw [hstay p σ k heq.symm] at hbound
      cases hbound
    · exact ⟨σ, k, hmem⟩
  | gone hlives hfree hleft =>
    refine .gone (fun σ q => hnot (hlives σ q)) hfree fun hc => ?_
    rcases hleft hc with h | ⟨hp, -⟩
    · exact .inl h
    · exact absurd hpassed hp

/-- A player is gone. -/
theorem unbind (h : v.Standing rt i x) (hp : v.bound p = some (sess, j))
    (hx : x'.closing = x.closing) (hself : i = j → x'.left = x.left + 1)
    (hother : i ≠ j → x'.left = x.left) (σ : U64) :
    (v.unbind p σ).Standing rt i x' := by
  have hnone : ∀ q, q = p → (v.unbind p σ).bound q = none := fun q hq => by
    rw [hq]
    exact Function.update_self _ _ _
  have hsame : ∀ q, q ≠ p → (v.unbind p σ).bound q = v.bound q :=
    fun q hq => Function.update_of_ne hq _ _
  have hfree' (hfree : ∀ q τ, v.bound q ≠ some (τ, i)) :
      ∀ q τ, (v.unbind p σ).bound q ≠ some (τ, i) := by
    intro q τ hq
    by_cases hqp : q = p
    · rw [hnone q hqp] at hq
      cases hq
    · rw [hsame q hqp] at hq
      exact hfree q τ hq
  cases h with
  | waits hlives honce hfree hleft hclose =>
    have hij : i ≠ j := by
      rintro rfl
      exact hfree p sess hp
    exact .waits hlives honce (hfree' hfree) ((hother hij).trans hleft) fun hc => hclose (hx ▸ hc)
  | @sits sess' p' hbound honce hlives hleft hclose =>
    by_cases hpp : p' = p
    · have hij : i = j := by
        rw [hpp, hp] at hbound
        exact (Prod.mk.inj (Option.some.inj hbound)).2.symm
      refine .gone hlives (fun q τ hq => ?_) fun hc => ?_
      · by_cases hqp : q = p
        · rw [hnone q hqp] at hq
          cases hq
        · rw [hsame q hqp] at hq
          exact hqp ((honce q τ hq).trans hpp)
      · by_cases hpassed : v.passed = none
        · left
          rw [hself hij, hleft hpassed]
        · exact .inr ⟨hpassed, p', hclose (hx ▸ hc)⟩
    · have hij : i ≠ j := by
        rintro rfl
        exact hpp (honce p sess hp).symm
      refine .sits ((hsame p' hpp).trans hbound) (fun q τ hq => ?_) hlives
        (fun hn => (hother hij).trans (hleft hn)) fun hc => hclose (hx ▸ hc)
      by_cases hqp : q = p
      · rw [hnone q hqp] at hq
        cases hq
      · rw [hsame q hqp] at hq
        exact honce q τ hq
  | gone hlives hfree hleft =>
    have hij : i ≠ j := by
      rintro rfl
      exact hfree p sess hp
    refine .gone hlives (hfree' hfree) fun hc => ?_
    rw [hother hij]
    exact hleft (hx ▸ hc)

/-- A player comes. -/
theorem bind {ls : List Life} (h : v.Standing rt i x) (hv : v.lives = .came sess j p :: ls)
    (hp : v.bound p = none) (hpassed : v.passed = none) (hx : x.Same x') :
    ({ v with lives := ls }.bind p sess j).Standing rt i x' := by
  refine Standing.congr ?_ hx
  set w := ({ v with lives := ls } : View).bind p sess j with hw
  have hself : w.bound p = some (sess, j) := Function.update_self _ _ _
  have hsame : ∀ q, q ≠ p → w.bound q = v.bound q := fun q hq => Function.update_of_ne hq _ _
  have hcame : .came sess j p ∈ v.lives := hv ▸ List.mem_cons_self
  have hnot : ∀ {σ q}, Life.came σ i q ∉ v.lives → .came σ i q ∉ w.lives := by
    intro σ q h hmem
    rw [hv] at h
    exact h (List.mem_cons_of_mem _ hmem)
  by_cases hij : i = j
  · cases h with
    | @waits sess' p' xs ys hlives honce hfree hleft hclose =>
      cases xs with
      | nil =>
        -- this is the stay that waited
        rw [hv] at hlives
        obtain ⟨heq, rfl⟩ := List.cons.inj hlives
        obtain ⟨rfl, -, rfl⟩ := Life.came.inj heq
        refine .sits (hij ▸ hself) (fun q σ hq => ?_) (fun σ q => honce σ q) (fun _ => hleft) hclose
        by_contra hqp
        rw [hsame q hqp] at hq
        exact hfree q σ hq
      | cons y xs =>
        rw [hv] at hlives
        have hy : y = .came sess i p := by rw [hij]; exact (List.cons.inj hlives).1.symm
        exact absurd (hy ▸ List.mem_cons_self) (honce sess p)
    | sits hbound honce hlives hleft hclose => exact absurd (hij ▸ hcame) (hlives sess p)
    | gone hlives hfree hleft => exact absurd (hij ▸ hcame) (hlives sess p)
  · have hfree' (hfree : ∀ q τ, v.bound q ≠ some (τ, i)) : ∀ q τ, w.bound q ≠ some (τ, i) := by
      intro q τ hq
      by_cases hqp : q = p
      · rw [hqp, hself] at hq
        exact hij (Prod.mk.inj (Option.some.inj hq)).2.symm
      · rw [hsame q hqp] at hq
        exact hfree q τ hq
    cases h with
    | @waits sess' p' xs ys hlives honce hfree hleft hclose =>
      cases xs with
      | nil =>
        rw [hv] at hlives
        have heq := (List.cons.inj hlives).1
        exact absurd (Life.came.inj heq).2.1.symm hij
      | cons y xs =>
        rw [hv] at hlives
        exact .waits (List.cons.inj hlives).2
          (fun σ q hmem => honce σ q (List.mem_cons_of_mem _ hmem)) (hfree' hfree) hleft hclose
    | @sits sess' p' hbound honce hlives hleft hclose =>
      have hpp : p' ≠ p := by
        rintro rfl
        rw [hp] at hbound
        cases hbound
      refine .sits ((hsame p' hpp).trans hbound) (fun q σ hq => ?_)
        (fun σ q => hnot (hlives σ q)) hleft fun hc => ?_
      · by_cases hqp : q = p
        · rw [hqp, hself] at hq
          exact absurd (Prod.mk.inj (Option.some.inj hq)).2.symm hij
        · rw [hsame q hqp] at hq
          exact honce q σ hq
      · obtain ⟨σ, k, hmem⟩ := hclose hc
        rw [hv] at hmem
        rcases List.mem_cons.1 hmem with heq | hmem
        · cases heq
        · exact ⟨σ, k, hmem⟩
    | gone hlives hfree hleft =>
      refine .gone (fun σ q => hnot (hlives σ q)) (hfree' hfree) fun hc => ?_
      rcases hleft hc with h | ⟨hne, -⟩
      · exact .inl h
      · exact absurd hpassed hne

/-- The room stops. -/
theorem stop (h : v.Standing rt i x) : { v with passed := some [] }.Standing rt i x := by
  cases h with
  | waits hlives honce hfree hleft hclose => exact .waits hlives honce hfree hleft hclose
  | sits hbound honce hlives hleft hclose =>
    exact .sits hbound honce hlives (fun hn => by cases hn) hclose
  | gone hlives hfree hleft =>
    refine .gone hlives hfree fun hc => ?_
    rcases hleft hc with h | ⟨-, h⟩
    · exact .inl h
    · exact .inr ⟨Option.some_ne_none _, h⟩

/-- `stop` comes to a player. -/
theorem pass (h : v.Standing rt i x) (hp : v.bound p = some (sess, j)) (hx : x'.closing = x.closing)
    (hother : i ≠ j → x'.left = x.left) (done : List PlayerID) :
    { v with passed := some done }.Standing rt i x' := by
  cases h with
  | waits hlives honce hfree hleft hclose =>
    have hij : i ≠ j := by
      rintro rfl
      exact hfree p sess hp
    exact .waits hlives honce hfree ((hother hij).trans hleft) fun hc => hclose (hx ▸ hc)
  | sits hbound honce hlives hleft hclose =>
    exact .sits hbound honce hlives (fun hn => by cases hn) fun hc => hclose (hx ▸ hc)
  | gone hlives hfree hleft =>
    have hij : i ≠ j := by
      rintro rfl
      exact hfree p sess hp
    refine .gone hlives hfree fun hc => ?_
    rw [hother hij]
    rcases hleft (hx ▸ hc) with h | ⟨-, h⟩
    · exact .inl h
    · exact .inr ⟨Option.some_ne_none _, h⟩

end Standing

end View

end SoupEngine.Sdk
