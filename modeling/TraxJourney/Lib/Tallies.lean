/-
  File:      Lib/Tallies.lean
  Subject:   Sums by key: a dictionary to which amounts are added.

  * **`sum_map_eq_iff`** -- of two sums, term by term one no more than the other, the terms of equal ones are
    equal.
-/
import Mathlib.Algebra.Order.BigOperators.Group.List
import TraxJourney.Lib.Dict

namespace TraxJourney.Lib

namespace Table

variable {κ ν : Type*} [DecidableEq κ] {d : Dict κ ν} {j k : κ} {v : ν}

/-! ## 1. Amounts -/

section Amounts

variable [AddCommMonoid ν]

/-- `d[k]` of a `defaultdict`. -/
def amount (d : Dict κ ν) (k : κ) : ν := (d.find k).getD 0

/-- `d[k] += v`. -/
def tally (d : Dict κ ν) (k : κ) (v : ν) : Dict κ ν := d.put (k, d.amount k + v)

/-- `sum(d.values())`. -/
def total (d : Dict κ ν) : ν := (d.rows.map Prod.snd).sum

theorem amount_tally : (d.tally k v).amount j = d.amount j + if j = k then v else 0 := by
  unfold tally amount
  rw [find_put]
  by_cases h : j = k
  case pos => rw [if_pos h, if_pos h, Option.getD_some, h]
  case neg => rw [if_neg h, if_neg h, add_zero]

omit [AddCommMonoid ν] in
theorem find_none (h : k ∉ d.rows.map Prod.fst) : d.find k = none := by
  refine Option.eq_none_iff_forall_ne_some.mpr fun v hv => h ?_
  exact List.mem_map_of_mem (f := Prod.fst) (find_eq_some.mp hv)

theorem sum_update {rows : List (κ × ν)} (hnodup : (rows.map Prod.fst).Nodup) {u : ν} (hmem : (k, u) ∈ rows) :
    ((rows.map fun e => if e.1 = k then (k, u + v) else e).map Prod.snd).sum =
      (rows.map Prod.snd).sum + v := by
  induction rows with
  | nil => cases hmem
  | cons e rows ih =>
    rw [List.map_cons, List.nodup_cons] at hnodup
    rw [List.map_cons, List.map_cons, List.sum_cons, List.map_cons, List.sum_cons]
    rcases List.mem_cons.mp hmem with rfl | hrest
    · -- no other pair has the key
      have hothers : (rows.map fun e => if e.1 = k then (k, u + v) else e) = rows := by
        refine (List.map_congr_left fun f hf => ?_).trans (List.map_id _)
        have hkey : f.1 ∈ rows.map Prod.fst := List.mem_map_of_mem hf
        have hne : f.1 ≠ k := fun heq => hnodup.1 (show k ∈ rows.map Prod.fst from heq ▸ hkey)
        exact if_neg hne
      rw [hothers, if_pos rfl, add_right_comm]
    · have hne : e.1 ≠ k := fun heq => hnodup.1 (heq ▸ List.mem_map_of_mem (f := Prod.fst) hrest)
      rw [if_neg hne, ih hnodup.2 hrest, add_assoc]

theorem total_tally : (d.tally k v).total = d.total + v := by
  unfold total tally
  by_cases hk : k ∈ d.rows.map Prod.fst
  case neg =>
    obtain ⟨d', hins, hrows⟩ := insert_some (t := d) (r := (k, d.amount k + v)) hk
    have hnone : d.amount k = 0 := by
      unfold amount
      rw [find_none hk, Option.getD_none]
    unfold put
    rw [hins]
    dsimp only
    rw [hrows, hnone, zero_add, List.map_append, List.sum_append, List.map_singleton, List.sum_singleton]
  case pos =>
    obtain ⟨⟨k', u⟩, hmem, rfl⟩ := List.mem_map.mp hk
    have hfind : d.amount k' = u := by
      unfold amount
      rw [find_eq_some.mpr hmem, Option.getD_some]
    have hrows : (d.put (k', u + v)).rows = d.rows.map fun e => if e.1 = k' then (k', u + v) else e := by
      unfold put
      rw [insert, dif_pos hk]
      refine List.map_congr_left fun e _ => ?_
      by_cases he : e.1 = k' <;> simp [he]
    dsimp only
    rw [hfind, hrows, sum_update d.unique hmem]

/-- The same amount for several keys. -/
def tallyAll (d : Dict κ ν) (ks : List κ) (v : ν) : Dict κ ν := ks.foldl (fun d k => d.tally k v) d

theorem amount_tallyAll (ks : List κ) : (d.tallyAll ks v).amount j = d.amount j + ks.count j • v := by
  induction ks generalizing d with
  | nil => rw [List.count_nil, zero_nsmul, add_zero]; rfl
  | cons k ks ih =>
    show ((d.tally k v).tallyAll ks v).amount j = _
    rw [ih, amount_tally, List.count_cons, add_nsmul, add_assoc, add_comm (ks.count j • v)]
    by_cases h : j = k
    case pos => rw [if_pos h, if_pos (beq_iff_eq.mpr h.symm), one_nsmul]
    case neg => rw [if_neg h, if_neg fun he => h (beq_iff_eq.mp he).symm, zero_nsmul]

end Amounts

end Table

/-! ## 2. Sums term by term -/

theorem foldl_sum {σ α ν : Type*} [AddMonoid ν] {step : σ → α → σ} {g : α → ν} (sum : σ → ν)
    (h : ∀ s a, sum (step s a) = sum s + g a) (s : σ) (xs : List α) :
    sum (xs.foldl step s) = sum s + (xs.map g).sum := by
  induction xs generalizing s with
  | nil => exact (add_zero _).symm
  | cons x xs ih => rw [List.foldl_cons, ih, h, List.map_cons, List.sum_cons, add_assoc]

theorem sum_map_eq_iff {α K : Type*} [AddCommGroup K] [LinearOrder K] [IsOrderedAddMonoid K] {f g : α → K}
    {xs : List α} (h : ∀ x ∈ xs, f x ≤ g x) :
    (xs.map f).sum = (xs.map g).sum ↔ ∀ x ∈ xs, f x = g x := by
  refine ⟨fun hsum => ?_, fun heq => congrArg List.sum (List.map_congr_left heq)⟩
  induction xs with
  | nil => exact fun x hx => absurd hx List.not_mem_nil
  | cons x xs ih =>
    have hrest : ∀ y ∈ xs, f y ≤ g y := fun y hy => h y (List.mem_cons_of_mem _ hy)
    have hsums : (xs.map f).sum ≤ (xs.map g).sum := List.sum_le_sum hrest
    rw [List.map_cons, List.map_cons, List.sum_cons, List.sum_cons] at hsum
    have hboth := (add_eq_add_iff_eq_and_eq (h x List.mem_cons_self) hsums).mp hsum
    intro y hy
    rcases List.mem_cons.mp hy with rfl | hy
    · exact hboth.1
    · exact ih hrest hboth.2 y hy

end TraxJourney.Lib
