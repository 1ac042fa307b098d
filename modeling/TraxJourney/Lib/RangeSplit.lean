/-
  File:      Lib/RangeSplit.lean
  Subject:   Divide and conquer over index ranges with an explicit stack.

  A `Splitter` looks at a range `(i, j)` in a context and either leaves it or picks a vertex
  strictly inside, with a context for the two halves. The loop keeps the ranges to do on a stack
  and writes the context at each vertex it picks:

  * **`Splitter.marked_prune`** -- where contexts only fall, stopping as soon as one is not above
    `e` marks exactly the vertices whose context is above `e`.
-/
import Mathlib.Order.Lattice
import Mathlib.Data.Option.Basic

namespace TraxJourney.Lib

/-- How a range is split: a vertex strictly inside it, and the context of the two halves. -/
structure Splitter (γ : Type*) where
  split : ℕ → ℕ → γ → Option (ℕ × γ)
  inside : ∀ {i j : ℕ} {c : γ} {k : ℕ} {c' : γ}, split i j c = some (k, c') → i < k ∧ k < j

namespace Splitter

variable {γ β : Type*}

/-! ## 1. The loop and the recursion -/

/-- The work left in a stack: a range is worth more than its two halves together. -/
def work : List (ℕ × ℕ × γ) → ℕ
  | [] => 0
  | (i, j, _) :: rest => max 1 (2 * (j - i) - 1) + work rest

/-- The loop: pop a range, split it, write at the vertex and push the two halves. -/
def loop (S : Splitter γ) (w : γ → β) (stack : List (ℕ × ℕ × γ)) (a : ℕ → β) : ℕ → β :=
  match stack with
  | [] => a
  | (i, j, c) :: rest =>
    if j - i < 2 then S.loop w rest a
    else match _h : S.split i j c with
      | none => S.loop w rest a
      | some (k, c') => S.loop w ((k, j, c') :: (i, k, c') :: rest) (Function.update a k (w c'))
termination_by work stack
decreasing_by
  · simp only [work]; omega
  · simp only [work]; omega
  · have hk := S.inside _h
    simp only [work]; omega

/-- The context the recursion into `(i, j)` writes at vertex `x`. -/
def marked (S : Splitter γ) (i j : ℕ) (c : γ) (x : ℕ) : Option γ :=
  if j - i < 2 then none
  else match _h : S.split i j c with
    | none => none
    | some (k, c') => if x = k then some c' else if x < k then S.marked i k c' x else S.marked k j c' x
termination_by j - i
decreasing_by
  · have hk := S.inside _h
    omega
  · have hk := S.inside _h
    omega

variable {S : Splitter γ} {w : γ → β} {i j k x : ℕ} {c c' v : γ} {a : ℕ → β}

theorem marked_short (h : j - i < 2) : S.marked i j c x = none := by
  rw [marked, if_pos h]

theorem marked_none (hs : S.split i j c = none) : S.marked i j c x = none := by
  rw [marked]
  by_cases h : j - i < 2
  · rw [if_pos h]
  · rw [if_neg h]
    split
    · rfl
    · rename_i hs'
      rw [hs] at hs'
      cases hs'

theorem marked_some (hs : S.split i j c = some (k, c')) (h : ¬ j - i < 2) : S.marked i j c x =
      if x = k then some c' else if x < k then S.marked i k c' x else S.marked k j c' x := by
  rw [marked, if_neg h]
  split
  · rename_i hs'
    rw [hs] at hs'
    cases hs'
  · rename_i hs'
    rw [hs] at hs'
    cases hs'
    rfl

theorem marked_inside (h : S.marked i j c x = some v) : i < x ∧ x < j := by
  induction i, j, c using marked.induct (S := S) (x := x) with
  | case1 i j c hlt => rw [marked_short hlt] at h; cases h
  | case2 i j c hlt hs => rw [marked_none hs] at h; cases h
  | case3 i j c hlt c' hs => exact S.inside hs
  | case4 i j c hlt k c' hs hx hxk ih =>
    rw [marked_some hs hlt, if_neg hx, if_pos hxk] at h
    have hk := S.inside hs
    have := ih h
    omega
  | case5 i j c hlt k c' hs hx hxk ih =>
    rw [marked_some hs hlt, if_neg hx, if_neg hxk] at h
    have hk := S.inside hs
    have := ih h
    omega

theorem marked_outside (h : x ≤ i ∨ j ≤ x) : S.marked i j c x = none := by
  cases hm : S.marked i j c x with
  | none => rfl
  | some v =>
    have := marked_inside hm
    omega

/-- Two ends around vertices that are not marked: the range between them was left whole. -/
structure Gap (S : Splitter γ) (i j : ℕ) (c : γ) (left right : ℕ) : Prop where
  left_eq : left = i ∨ S.marked i j c left ≠ none
  right_eq : right = j ∨ S.marked i j c right ≠ none
  between : ∀ y, left < y → y < right → S.marked i j c y = none
  whole : ∃ c', S.split left right c' = none

theorem Gap.of_left {left right : ℕ} (hs : S.split i j c = some (k, c')) (h : ¬ j - i < 2)
    (hright : right ≤ k) (hlt : left < right) (hgap : S.Gap i k c' left right) :
    S.Gap i j c left right := by
  have hmarked : ∀ y, y < k → S.marked i j c y = S.marked i k c' y := by
    intro y hy
    rw [marked_some hs h, if_neg (Nat.ne_of_lt hy), if_pos hy]
  refine ⟨?_, ?_, fun y hl hr => (hmarked y (Nat.lt_of_lt_of_le hr hright)).trans
    (hgap.between y hl hr), hgap.whole⟩
  · rw [hmarked left (Nat.lt_of_lt_of_le hlt hright)]
    exact hgap.left_eq
  · rcases Nat.eq_or_lt_of_le hright with rfl | hbefore
    · right
      rw [marked_some hs h, if_pos rfl]
      exact Option.some_ne_none c'
    · rw [hmarked right hbefore]
      rcases hgap.right_eq with heq | hmark
      · omega
      · exact .inr hmark

theorem Gap.of_right {left right : ℕ} (hs : S.split i j c = some (k, c')) (h : ¬ j - i < 2)
    (hleft : k ≤ left) (hlt : left < right) (hgap : S.Gap k j c' left right) :
    S.Gap i j c left right := by
  have hmarked : ∀ y, k < y → S.marked i j c y = S.marked k j c' y := by
    intro y hy
    rw [marked_some hs h, if_neg (Nat.ne_of_gt hy), if_neg (Nat.not_lt.mpr (Nat.le_of_lt hy))]
  refine ⟨?_, ?_, fun y hl hr => (hmarked y (Nat.lt_of_le_of_lt hleft hl)).trans
    (hgap.between y hl hr), hgap.whole⟩
  · rcases Nat.eq_or_lt_of_le hleft with rfl | hafter
    · right
      rw [marked_some hs h, if_pos rfl]
      exact Option.some_ne_none c'
    · rw [hmarked left hafter]
      rcases hgap.left_eq with heq | hmark
      · omega
      · exact .inr hmark
  · rw [hmarked right (Nat.lt_of_le_of_lt hleft hlt)]
    exact hgap.right_eq

theorem exists_gap (hx : i < x ∧ x < j) (h : S.marked i j c x = none) :
    ∃ left right, i ≤ left ∧ left < x ∧ x < right ∧ right ≤ j ∧ S.Gap i j c left right := by
  induction i, j, c using marked.induct (S := S) (x := x) with
  | case1 i j c hlt => omega
  | case2 i j c hlt hs =>
    exact ⟨i, j, Nat.le_refl i, hx.1, hx.2, Nat.le_refl j, .inl rfl, .inl rfl,
      fun y _ _ => marked_none hs, c, hs⟩
  | case3 i j c hlt c' hs =>
    rw [marked_some hs hlt, if_pos rfl] at h
    cases h
  | case4 i j c hlt k c' hs hne hxk ih =>
    rw [marked_some hs hlt, if_neg hne, if_pos hxk] at h
    have hk := S.inside hs
    obtain ⟨left, right, hi, hl, hr, hright, hgap⟩ := ih ⟨hx.1, hxk⟩ h
    exact ⟨left, right, hi, hl, hr, by omega, .of_left hs hlt hright (Nat.lt_trans hl hr) hgap⟩
  | case5 i j c hlt k c' hs hne hxk ih =>
    rw [marked_some hs hlt, if_neg hne, if_neg hxk] at h
    have hk := S.inside hs
    obtain ⟨left, right, hleft, hl, hr, hj, hgap⟩ := ih ⟨by omega, hx.2⟩ h
    exact ⟨left, right, by omega, hl, hr, hj, .of_right hs hlt hleft (Nat.lt_trans hl hr) hgap⟩

/-! ## 2. The loop is the recursion -/

/-- `a` with the marks of one range written over it. -/
def overlay (S : Splitter γ) (w : γ → β) (a : ℕ → β) (r : ℕ × ℕ × γ) : ℕ → β :=
  fun x => (S.marked r.1 r.2.1 r.2.2 x).elim (a x) w

theorem overlay_none (h : ∀ x, S.marked i j c x = none) : S.overlay w a (i, j, c) = a := by
  funext x
  simp only [overlay, h x, Option.elim_none]

theorem overlay_split (hs : S.split i j c = some (k, c')) (h : ¬ j - i < 2) :
    S.overlay w (S.overlay w (Function.update a k (w c')) (k, j, c')) (i, k, c') =
      S.overlay w a (i, j, c) := by
  funext x
  simp only [overlay, marked_some hs h]
  rcases Nat.lt_trichotomy x k with hx | rfl | hx
  · rw [if_neg (Nat.ne_of_lt hx), if_pos hx, marked_outside (i := k) (.inl (Nat.le_of_lt hx)),
      Option.elim_none, Function.update_of_ne (Nat.ne_of_lt hx)]
  · rw [if_pos rfl, marked_outside (j := x) (.inr (Nat.le_refl x)),
      marked_outside (i := x) (.inl (Nat.le_refl x))]
    simp
  · rw [if_neg (Nat.ne_of_gt hx), if_neg (Nat.not_lt.mpr (Nat.le_of_lt hx)),
      marked_outside (j := k) (.inr (Nat.le_of_lt hx)), Option.elim_none,
      Function.update_of_ne (Nat.ne_of_gt hx)]

theorem loop_eq (stack : List (ℕ × ℕ × γ)) (a : ℕ → β) : S.loop w stack a = stack.foldl (S.overlay w) a := by
  induction stack, a using loop.induct (S := S) (w := w) with
  | case1 a => rw [loop]; rfl
  | case2 a i j c rest hlt ih =>
    rw [loop, if_pos hlt, ih, List.foldl_cons, overlay_none fun x => marked_short hlt]
  | case3 a i j c rest hlt hs ih =>
    rw [loop, if_neg hlt]
    split
    · rw [ih, List.foldl_cons, overlay_none fun x => marked_none hs]
    · rename_i hs'
      rw [hs] at hs'
      cases hs'
  | case4 a i j c rest hlt k c' hs ih =>
    rw [loop, if_neg hlt]
    split
    · rename_i hs'
      rw [hs] at hs'
      cases hs'
    · rename_i hs'
      rw [hs] at hs'
      cases hs'
      rw [ih, List.foldl_cons, List.foldl_cons, overlay_split hs hlt, List.foldl_cons]

theorem loop_single (i j : ℕ) (c : γ) (a : ℕ → β) (x : ℕ) :
    S.loop w [(i, j, c)] a x = (S.marked i j c x).elim (a x) w := by
  rw [loop_eq]
  rfl

/-! ## 3. Pruning -/

section Prune

variable [LinearOrder γ] {P : Splitter Unit} {e : γ}

theorem marked_le (hS : ∀ {i j c k c'}, S.split i j c = some (k, c') → c' ≤ c)
    (h : S.marked i j c x = some v) : v ≤ c := by
  induction i, j, c using marked.induct (S := S) (x := x) with
  | case1 i j c hlt => rw [marked_short hlt] at h; cases h
  | case2 i j c hlt hs => rw [marked_none hs] at h; cases h
  | case3 i j c hlt c' hs =>
    rw [marked_some hs hlt, if_pos rfl] at h
    cases h
    exact hS hs
  | case4 i j c hlt k c' hs hx hxk ih =>
    rw [marked_some hs hlt, if_neg hx, if_pos hxk] at h
    exact le_trans (ih h) (hS hs)
  | case5 i j c hlt k c' hs hx hxk ih =>
    rw [marked_some hs hlt, if_neg hx, if_neg hxk] at h
    exact le_trans (ih h) (hS hs)

/-- `P` follows `S` as long as the context stays above `e`. -/
def Follows (P : Splitter Unit) (S : Splitter γ) (e : γ) : Prop :=
  ∀ i j c, e < c → P.split i j () = ((S.split i j c).filter fun r => decide (e < r.2)).map fun r => (r.1, ())

theorem Follows.above (hP : P.Follows S e) (hc : e < c) (hs : S.split i j c = some (k, c'))
    (he : e < c') : P.split i j () = some (k, ()) := by
  rw [hP i j c hc, hs]
  simp [he]

theorem Follows.below (hP : P.Follows S e) (hc : e < c) (hs : S.split i j c = some (k, c'))
    (he : ¬ e < c') : P.split i j () = none := by
  rw [hP i j c hc, hs]
  simp [not_lt.mp he]

/-- **Pruning is filtering**: a splitter that follows `S` while the context stays above `e`, and
    stops where it does not, marks the vertices `S` marks with a context above `e`. -/
theorem marked_prune (hS : ∀ {i j c k c'}, S.split i j c = some (k, c') → c' ≤ c)
    (hP : P.Follows S e) (hc : e < c) :
    P.marked i j () x ≠ none ↔ ∃ v, S.marked i j c x = some v ∧ e < v := by
  induction i, j, c using marked.induct (S := S) (x := x) with
  | case1 i j c hlt => simp [marked_short hlt]
  | case2 i j c hlt hs =>
    have hp : P.split i j () = none := by rw [hP i j c hc, hs]; rfl
    simp [marked_none hs, marked_none hp]
  | case3 i j c hlt c' hs =>
    rw [marked_some hs hlt, if_pos rfl]
    by_cases he : e < c'
    · rw [marked_some (hP.above hc hs he) hlt, if_pos rfl]
      exact ⟨fun _ => ⟨c', rfl, he⟩, fun _ h => by cases h⟩
    · simp [marked_none (hP.below hc hs he), not_lt.mp he]
  | case4 i j c hlt k c' hs hx hxk ih =>
    rw [marked_some hs hlt, if_neg hx, if_pos hxk]
    by_cases he : e < c'
    · rw [marked_some (hP.above hc hs he) hlt, if_neg hx, if_pos hxk]
      exact ih he
    · -- pruned here: below, every context is at most `c'`
      rw [marked_none (hP.below hc hs he)]
      refine ⟨fun h => absurd rfl h, fun ⟨v, hv, hev⟩ => ?_⟩
      exact absurd (lt_of_lt_of_le hev (marked_le hS hv)) he
  | case5 i j c hlt k c' hs hx hxk ih =>
    rw [marked_some hs hlt, if_neg hx, if_neg hxk]
    by_cases he : e < c'
    · rw [marked_some (hP.above hc hs he) hlt, if_neg hx, if_neg hxk]
      exact ih he
    · rw [marked_none (hP.below hc hs he)]
      refine ⟨fun h => absurd rfl h, fun ⟨v, hv, hev⟩ => ?_⟩
      exact absurd (lt_of_lt_of_le hev (marked_le hS hv)) he

end Prune

end Splitter

end TraxJourney.Lib
