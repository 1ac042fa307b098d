/-
  File:      Lib/ListSlices.lean
  Subject:   Stretches of a list, from one index up to another, their sums and their means, and the first
             and the last element with a property.

  * **`findIdx_spec`**, **`lastIdx_spec`** -- the element there has the property, and none before it or
    behind it has.
  * **`mean_between`** -- a mean lies between the bounds of what it is taken of.
-/
import Mathlib.Algebra.Order.BigOperators.Group.List
import Mathlib.Algebra.Order.Field.Basic

namespace TraxJourney.Lib

variable {α : Type*}

/-! ## 1. Stretches -/

/-- `xs[lo:hi]`. -/
def slice (xs : List α) (lo hi : ℕ) : List α := (xs.take hi).drop lo

variable {xs : List α} {lo hi : ℕ}

theorem length_slice (h : hi ≤ xs.length) : (slice xs lo hi).length = hi - lo := by
  rw [slice, List.length_drop, List.length_take, Nat.min_eq_left h]

theorem take_append_slice (xs : List α) (h : lo ≤ hi) :
    xs.take lo ++ slice xs lo hi = xs.take hi := by
  have htake : xs.take lo = (xs.take hi).take lo := by rw [List.take_take, Nat.min_eq_left h]
  rw [slice, htake, List.take_append_drop]

theorem getElem?_slice {k : ℕ} (h : lo + k < hi) :
    (slice xs lo hi)[k]? = xs[lo + k]? := by
  rw [slice, List.getElem?_drop, List.getElem?_take_of_lt h]

theorem map_slice {β : Type*} (f : α → β) (xs : List α) (lo hi : ℕ) :
    (slice xs lo hi).map f = slice (xs.map f) lo hi := by
  rw [slice, slice, List.map_drop, List.map_take]

theorem mem_of_mem_slice {x : α} (h : x ∈ slice xs lo hi) : x ∈ xs :=
  List.mem_of_mem_take (List.mem_of_mem_drop h)

theorem filter_eq_slice {p : α → Bool} (hle : lo ≤ hi)
    (h : ∀ k x, xs[k]? = some x → (p x = true ↔ lo ≤ k ∧ k < hi)) : xs.filter p = slice xs lo hi := by
  have hsplit : xs = xs.take lo ++ slice xs lo hi ++ xs.drop hi := by
    rw [take_append_slice xs hle, List.take_append_drop]
  have hbefore : (xs.take lo).filter p = [] := by
    refine List.filter_eq_nil_iff.mpr fun x hx hp => ?_
    obtain ⟨k, hk⟩ := List.mem_iff_getElem?.mp hx
    have hlt : k < lo := (List.length_take_le lo xs).trans_lt' (List.getElem?_eq_some_iff.mp hk).1
    rw [List.getElem?_take_of_lt hlt] at hk
    have hin := (h k x hk).mp hp
    omega
  have hinside : (slice xs lo hi).filter p = slice xs lo hi := by
    refine List.filter_eq_self.mpr fun x hx => ?_
    obtain ⟨k, hk⟩ := List.mem_iff_getElem?.mp hx
    have hlt : lo + k < hi := by
      have hlen := (List.getElem?_eq_some_iff.mp hk).1
      rw [slice, List.length_drop, List.length_take] at hlen
      omega
    rw [getElem?_slice hlt] at hk
    exact (h _ x hk).mpr ⟨Nat.le_add_right lo k, hlt⟩
  have hafter : (xs.drop hi).filter p = [] := by
    refine List.filter_eq_nil_iff.mpr fun x hx hp => ?_
    obtain ⟨k, hk⟩ := List.mem_iff_getElem?.mp hx
    rw [List.getElem?_drop] at hk
    have hin := (h _ x hk).mp hp
    omega
  calc xs.filter p = (xs.take lo ++ slice xs lo hi ++ xs.drop hi).filter p := by rw [← hsplit]
    _ = slice xs lo hi := by
        rw [List.filter_append, List.filter_append, hbefore, hinside, hafter, List.nil_append,
          List.append_nil]

theorem rel_of_getElem? {r : α → α → Prop} (h : xs.Pairwise r) {j k : ℕ} {x y : α} (hjk : j < k)
    (hx : xs[j]? = some x) (hy : xs[k]? = some y) : r x y := by
  obtain ⟨hj, rfl⟩ := List.getElem?_eq_some_iff.mp hx
  obtain ⟨hk, rfl⟩ := List.getElem?_eq_some_iff.mp hy
  exact List.pairwise_iff_getElem.mp h j k hj hk hjk

theorem le_of_sorted [Preorder α] (h : xs.Pairwise (· ≤ ·)) {j k : ℕ} {x y : α} (hjk : j ≤ k)
    (hx : xs[j]? = some x) (hy : xs[k]? = some y) : x ≤ y := by
  rcases Nat.eq_or_lt_of_le hjk with rfl | hlt
  · exact (Option.some.inj (hx.symm.trans hy)).le
  · exact rel_of_getElem? h hlt hx hy

/-! ## 2. The first and the last match -/

variable {p : α → Bool} {x : α} {i k : ℕ}

/-- The index of the last element with the property. -/
def lastIdx (p : α → Bool) (xs : List α) : ℕ := xs.length - 1 - xs.reverse.findIdx p

theorem findIdx_spec (hi : xs[i]? = some x) (hx : p x = true) :
    (∃ y, xs[xs.findIdx p]? = some y ∧ p y = true) ∧ xs.findIdx p ≤ i ∧
      ∀ k y, k < xs.findIdx p → xs[k]? = some y → p y = false := by
  have hlt : xs.findIdx p < xs.length := List.findIdx_lt_length_of_exists ⟨x, List.mem_of_getElem? hi, hx⟩
  have hbefore : ∀ k y, k < xs.findIdx p → xs[k]? = some y → p y = false := by
    intro k y hk hy
    obtain ⟨hk', rfl⟩ := List.getElem?_eq_some_iff.mp hy
    exact List.not_of_lt_findIdx hk
  refine ⟨⟨_, List.getElem?_eq_getElem hlt, List.findIdx_getElem⟩, ?_, hbefore⟩
  by_contra hnot
  have hnone := hbefore i x (Nat.lt_of_not_le hnot) hi
  exact Bool.false_ne_true (hnone.symm.trans hx)

theorem lastIdx_spec (hi : xs[i]? = some x) (hx : p x = true) :
    (∃ y, xs[lastIdx p xs]? = some y ∧ p y = true) ∧ i ≤ lastIdx p xs ∧ lastIdx p xs < xs.length ∧
      ∀ k y, lastIdx p xs < k → xs[k]? = some y → p y = false := by
  have hlt : i < xs.length := (List.getElem?_eq_some_iff.mp hi).1
  have hback : xs.reverse[xs.length - 1 - i]? = some x := by
    rw [List.getElem?_reverse (by omega), ← hi]
    congr 1
    omega
  obtain ⟨⟨y, hy, hpy⟩, hle, hbefore⟩ := findIdx_spec hback hx
  have hin : xs.reverse.findIdx p < xs.length := by omega
  refine ⟨⟨y, ?_, hpy⟩, ?_, ?_, fun k z hk hz => ?_⟩
  · rw [List.getElem?_reverse hin] at hy
    exact hy
  · unfold lastIdx
    omega
  · unfold lastIdx
    omega
  · have hklt : k < xs.length := (List.getElem?_eq_some_iff.mp hz).1
    unfold lastIdx at hk
    refine hbefore (xs.length - 1 - k) z (by omega) ?_
    rw [List.getElem?_reverse (by omega), ← hz]
    congr 1
    omega

theorem head?_filter_eq : (xs.filter p).head? = xs[xs.findIdx p]? := by
  rw [List.head?_filter, List.find?_eq_getElem?_findIdx]

theorem getLast?_filter_eq (hi : xs[i]? = some x) (hx : p x = true) :
    (xs.filter p).getLast? = xs[lastIdx p xs]? := by
  have hlt : xs.reverse.findIdx p < xs.reverse.length := List.findIdx_lt_length_of_exists
    ⟨x, List.mem_reverse.mpr (List.mem_of_getElem? hi), hx⟩
  rw [List.length_reverse] at hlt
  rw [List.getLast?_filter, List.find?_eq_getElem?_findIdx, List.getElem?_reverse hlt]
  rfl

/-! ## 3. Sums and means -/

theorem sum_take_sub [AddCommGroup α] (xs : List α) (h : lo ≤ hi) :
    (xs.take hi).sum - (xs.take lo).sum = (slice xs lo hi).sum := by
  rw [← take_append_slice xs h, List.sum_append, add_sub_cancel_left]

theorem getElem?_scanl_add [AddMonoid α] (a : α) {k : ℕ} (hk : k ≤ xs.length) :
    (xs.scanl (· + ·) a)[k]? = some (a + (xs.take k).sum) := by
  induction xs generalizing a k with
  | nil =>
    obtain rfl : k = 0 := Nat.le_zero.mp hk
    rw [List.take_zero, List.sum_nil, add_zero]
    rfl
  | cons x xs ih =>
    cases k with
    | zero =>
      rw [List.scanl_cons, List.take_zero, List.sum_nil, add_zero]
      rfl
    | succ k =>
      rw [List.scanl_cons, List.getElem?_cons_succ, ih _ (Nat.le_of_succ_le_succ hk),
        List.take_succ_cons, List.sum_cons, add_assoc]

variable {K : Type*} [Field K] [LinearOrder K] [IsStrictOrderedRing K]

def mean (xs : List K) : K := xs.sum / xs.length

theorem mean_between {xs : List K} {least most : K} (hne : xs ≠ [])
    (h : ∀ x ∈ xs, least ≤ x ∧ x ≤ most) : least ≤ mean xs ∧ mean xs ≤ most := by
  have hpos : (0 : K) < (xs.length : K) := Nat.cast_pos.mpr (List.length_pos_iff.mpr hne)
  have hlow : xs.length • least ≤ xs.sum := List.card_nsmul_le_sum xs least fun x hx => (h x hx).1
  have hhigh : xs.sum ≤ xs.length • most := List.sum_le_card_nsmul xs most fun x hx => (h x hx).2
  rw [nsmul_eq_mul, mul_comm] at hlow hhigh
  exact ⟨(le_div_iff₀ hpos).mpr hlow, (div_le_iff₀ hpos).mpr hhigh⟩

theorem mean_map_add {xs : List K} (hne : xs ≠ []) (c : K) : mean (xs.map (· + c)) = mean xs + c := by
  have hpos : (xs.length : K) ≠ 0 := Nat.cast_ne_zero.mpr fun h => hne (List.length_eq_zero_iff.mp h)
  have hsum : (xs.map (· + c)).sum = xs.sum + xs.length * c := by
    rw [List.sum_map_add, List.map_id', List.map_const', List.sum_replicate, nsmul_eq_mul]
  rw [mean, mean, hsum, List.length_map, add_div, mul_div_cancel_left₀ c hpos]

end TraxJourney.Lib
