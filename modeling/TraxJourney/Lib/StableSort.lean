/-
  File:      Lib/StableSort.lean
  Subject:   Sorting by a key, equal keys in the order in which they stood.

  * `SamePlace` -- a place before and after sorting: the same of the same key stand before it;
    **`sortBy_places`**, **`places_sortBy`** -- each place has its own on the other side.
-/
import Mathlib.Data.List.Sort
import Mathlib.Order.Bounds.Basic

namespace TraxJourney.Lib

variable {α τ : Type*} [LinearOrder τ] {key : α → τ} {xs ys before after before' after' : List α} {x y : α}

/-! ## 1. The sorted list -/

/-- `sorted(xs, key=key)`. -/
def sortBy (key : α → τ) (xs : List α) : List α := xs.insertionSort fun x y => key x ≤ key y

theorem perm_sortBy (key : α → τ) (xs : List α) : (sortBy key xs).Perm xs := List.perm_insertionSort _ xs

theorem pairwise_sortBy (key : α → τ) (xs : List α) : (sortBy key xs).Pairwise fun x y => key x ≤ key y :=
  haveI : Std.Total fun x y => key x ≤ key y := ⟨fun x y => le_total (key x) (key y)⟩
  haveI : IsTrans α fun x y => key x ≤ key y := ⟨fun _ _ _ => le_trans⟩
  List.pairwise_insertionSort _ xs

theorem sortBy_eq_self (h : xs.Pairwise fun x y => key x ≤ key y) : sortBy key xs = xs := h.insertionSort_eq

theorem filter_orderedInsert (t : τ) (x : α) (xs : List α) :
    (xs.orderedInsert (fun x y => key x ≤ key y) x).filter (fun y => decide (key y = t)) =
      (x :: xs).filter fun y => decide (key y = t) := by
  induction xs with
  | nil => rfl
  | cons y ys ih =>
    rw [List.orderedInsert_cons]
    split
    · rfl
    · rename_i hless
      -- what is passed over has a lesser key, so not both keys are `t`
      rw [List.filter_cons, ih, List.filter_cons, List.filter_cons, List.filter_cons]
      by_cases hx : key x = t
      · have hy : key y ≠ t := fun hy => hless (le_of_eq (hx.trans hy.symm))
        simp [hx, hy]
      · simp [hx]

theorem filter_sortBy (key : α → τ) (xs : List α) (t : τ) :
    (sortBy key xs).filter (fun y => decide (key y = t)) =
      xs.filter fun y => decide (key y = t) := by
  induction xs with
  | nil => rfl
  | cons x xs ih =>
    have hstep : sortBy key (x :: xs) = (sortBy key xs).orderedInsert (fun x y => key x ≤ key y) x := rfl
    rw [hstep, filter_orderedInsert, List.filter_cons, List.filter_cons, ih]

theorem head?_sortBy {xs : List τ} {x : τ} : (sortBy id xs).head? = some x ↔ IsLeast {y | y ∈ xs} x := by
  have hleast : ∀ y, (sortBy id xs).head? = some y → IsLeast {y | y ∈ xs} y := by
    intro y h
    obtain ⟨rest, hrest⟩ := List.head?_eq_some_iff.mp h
    have hmem : ∀ z, z ∈ y :: rest ↔ z ∈ xs := fun z => hrest ▸ (perm_sortBy id xs).mem_iff
    have hpairs := pairwise_sortBy id xs
    rw [hrest] at hpairs
    refine ⟨(hmem y).mp List.mem_cons_self, fun z hz => ?_⟩
    rcases List.mem_cons.mp ((hmem z).mpr hz) with rfl | hz
    · exact le_rfl
    · exact List.rel_of_pairwise_cons hpairs hz
  refine ⟨hleast x, fun h => ?_⟩
  have hne : sortBy id xs ≠ [] := List.ne_nil_of_mem ((perm_sortBy id xs).mem_iff.mpr h.1)
  have hhead := List.head?_eq_some_head hne
  rw [hhead, (hleast _ hhead).unique h]

theorem getLast?_sortBy {xs : List τ} {x : τ} :
    (sortBy id xs).getLast? = some x ↔ IsGreatest {y | y ∈ xs} x := by
  have hgreatest : ∀ y, (sortBy id xs).getLast? = some y → IsGreatest {y | y ∈ xs} y := by
    intro y h
    obtain ⟨front, hfront⟩ := List.getLast?_eq_some_iff.mp h
    have hmem : ∀ z, z ∈ front ++ [y] ↔ z ∈ xs := fun z => hfront ▸ (perm_sortBy id xs).mem_iff
    have hpairs := pairwise_sortBy id xs
    rw [hfront] at hpairs
    refine ⟨(hmem y).mp (List.mem_append_right _ List.mem_cons_self), fun z hz => ?_⟩
    rcases List.mem_append.mp ((hmem z).mpr hz) with hz | hz
    · exact (List.pairwise_append.mp hpairs).2.2 z hz y List.mem_cons_self
    · exact (List.mem_singleton.mp hz).le
  refine ⟨hgreatest x, fun h => ?_⟩
  have hne : sortBy id xs ≠ [] := List.ne_nil_of_mem ((perm_sortBy id xs).mem_iff.mpr h.1)
  have hlast := List.getLast?_eq_some_getLast hne
  rw [hlast, (hgreatest _ hlast).unique h]

theorem exists_ends {xs : List τ} {x : τ} (h : x ∈ xs) :
    (∃ y, IsLeast {z | z ∈ xs} y) ∧ ∃ y, IsGreatest {z | z ∈ xs} y := by
  have hne : sortBy id xs ≠ [] := List.ne_nil_of_mem ((perm_sortBy id xs).mem_iff.mpr h)
  exact ⟨⟨_, head?_sortBy.mp (List.head?_eq_some_head hne)⟩,
    _, getLast?_sortBy.mp (List.getLast?_eq_some_getLast hne)⟩

/-! ## 2. Places -/

/-- `x` in a list after `before`, and in the sorted one after `before'`. -/
structure SamePlace (key : α → τ) (xs : List α) (before : List α) (x : α) (before' : List α) :
    Prop where
  alike : before.filter (fun y => decide (key y = key x)) =
    before'.filter fun y => decide (key y = key x)
  split : ∃ after, xs = before ++ x :: after
  sorted : ∃ after, sortBy key xs = before' ++ x :: after

theorem exists_place {p : α → Bool} (hfilter : xs.filter p = ys.filter p)
    (hsplit : xs = before ++ x :: after) (hx : p x = true) :
    ∃ before' after', ys = before' ++ x :: after' ∧ before.filter p = before'.filter p := by
  rw [hsplit, List.filter_append, List.filter_cons_of_pos hx] at hfilter
  obtain ⟨front, back, rfl, hfront, hback⟩ := List.filter_eq_append_iff.mp hfilter.symm
  obtain ⟨skipped, rest, rfl, hskipped, -, -⟩ := List.filter_eq_cons_iff.mp hback
  refine ⟨front ++ skipped, rest, by rw [List.append_assoc], ?_⟩
  rw [List.filter_append, hfront, List.filter_eq_nil_iff.mpr hskipped, List.append_nil]

theorem places_sortBy (key : α → τ) (hsplit : xs = before ++ x :: after) :
    ∃ before', SamePlace key xs before x before' := by
  obtain ⟨before', after', hsorted, halike⟩ :=
    exists_place (filter_sortBy key xs (key x)).symm hsplit (decide_eq_true rfl)
  exact ⟨before', halike, ⟨after, hsplit⟩, after', hsorted⟩

theorem sortBy_places (hsorted : sortBy key xs = before' ++ x :: after') :
    ∃ before, SamePlace key xs before x before' := by
  obtain ⟨before, after, hsplit, halike⟩ :=
    exists_place (filter_sortBy key xs (key x)) hsorted (decide_eq_true rfl)
  exact ⟨before, halike.symm, ⟨after, hsplit⟩, after', hsorted⟩

namespace SamePlace

theorem le_of_mem (h : SamePlace key xs before x before') (hy : y ∈ before') : key y ≤ key x := by
  obtain ⟨after', hsorted⟩ := h.sorted
  have hpairs := pairwise_sortBy key xs
  rw [hsorted] at hpairs
  exact (List.pairwise_append.mp hpairs).2.2 y hy x List.mem_cons_self

theorem mem_of_key (h : SamePlace key xs before x before') (hkey : key y = key x) :
    y ∈ before' ↔ y ∈ before := by
  have hmem : ∀ zs : List α, y ∈ zs ↔ y ∈ zs.filter fun z => decide (key z = key x) :=
    fun zs => by rw [List.mem_filter, decide_eq_true_iff, and_iff_left hkey]
  rw [hmem before', hmem before, h.alike]

/-- **What stands before a place of the sorted list.** -/
theorem mem_iff (h : SamePlace key xs before x before') :
    y ∈ before' ↔ (y ∈ xs ∧ key y < key x) ∨ (key y = key x ∧ y ∈ before) := by
  constructor
  · intro hy
    rcases (h.le_of_mem hy).lt_or_eq with hlt | heq
    · obtain ⟨after', hsorted⟩ := h.sorted
      have hall : y ∈ sortBy key xs := hsorted ▸ List.mem_append_left _ hy
      exact .inl ⟨(perm_sortBy key xs).mem_iff.mp hall, hlt⟩
    · exact .inr ⟨heq, (h.mem_of_key heq).mp hy⟩
  · rintro (⟨hy, hlt⟩ | ⟨heq, hy⟩)
    · obtain ⟨after', hsorted⟩ := h.sorted
      have hall := (perm_sortBy key xs).mem_iff.mpr hy
      have hpairs := pairwise_sortBy key xs
      rw [hsorted] at hall hpairs
      rcases List.mem_append.mp hall with hbefore | hbehind
      · exact hbefore
      · have hle : key x ≤ key y := by
          rcases List.mem_cons.mp hbehind with rfl | hafter
          · exact le_rfl
          · exact List.rel_of_pairwise_cons (List.pairwise_append.mp hpairs).2.1 hafter
        exact absurd hlt (not_lt.mpr hle)
    · exact (h.mem_of_key heq).mpr hy

end SamePlace

/-! ## 3. Above a bound -/

section Bound

variable {l : List τ} {a t : τ} {k : ℕ}

theorem countP_above_le (h : l.Pairwise (· ≤ ·)) (hk : l[k]? = some a) (hat : a ≤ t) :
    l.countP (fun x => decide (t < x)) + (k + 1) ≤ l.length := by
  obtain ⟨hlt, hget⟩ := List.getElem?_eq_some_iff.mp hk
  have hbelow : (l.take (k + 1)).countP (fun x => decide (t < x)) = 0 := by
    refine List.countP_eq_zero.mpr fun x hx => ?_
    obtain ⟨i, hi, rfl⟩ := List.mem_iff_getElem.mp hx
    rw [List.getElem_take, decide_eq_true_eq, not_lt]
    rw [List.length_take] at hi
    rcases Nat.lt_or_ge i k with hless | hge
    · exact (List.pairwise_iff_getElem.mp h i k (by omega) hlt hless).trans (hget ▸ hat)
    · obtain rfl : i = k := by omega
      exact hget ▸ hat
  have hsplit : l.countP (fun x => decide (t < x)) = (l.drop (k + 1)).countP fun x => decide (t < x) := by
    conv_lhs => rw [← List.take_append_drop (k + 1) l, List.countP_append, hbelow, Nat.zero_add]
  have hrest := List.countP_le_length (p := fun x => decide (t < x)) (l := l.drop (k + 1))
  rw [List.length_drop] at hrest
  omega

theorem le_countP_above (h : l.Pairwise (· ≤ ·)) (hk : l[k]? = some a) (hat : t < a) :
    l.length ≤ l.countP (fun x => decide (t < x)) + k := by
  obtain ⟨hlt, hget⟩ := List.getElem?_eq_some_iff.mp hk
  have habove : (l.drop k).countP (fun x => decide (t < x)) = (l.drop k).length := by
    refine List.countP_eq_length.mpr fun x hx => ?_
    obtain ⟨i, hi, rfl⟩ := List.mem_iff_getElem.mp hx
    rw [List.getElem_drop, decide_eq_true_eq]
    rw [List.length_drop] at hi
    rcases Nat.eq_zero_or_pos i with rfl | hpos
    · exact hget ▸ hat
    · exact (hget ▸ hat).trans_le (List.pairwise_iff_getElem.mp h k (k + i) hlt (by omega) (by omega))
  have hsplit : (l.drop k).countP (fun x => decide (t < x)) ≤ l.countP fun x => decide (t < x) :=
    (List.drop_sublist k l).countP_le
  rw [List.length_drop] at habove
  omega

end Bound

end TraxJourney.Lib
