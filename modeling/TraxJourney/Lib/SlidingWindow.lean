/-
  File:      Lib/SlidingWindow.lean
  Subject:   A deque of times, pruned from its left end, together with what was pruned.

  * **`TimeWindow.push_countP`** -- one time more, pushed where fewer than the limit are kept, leaves no more
    than the limit in an interval, as long as nothing pruned lies in one with it.
-/
import Mathlib.Data.List.TakeWhile
import Mathlib.Order.Lattice

namespace TraxJourney.Lib

structure TimeWindow (K : Type*) where
  pruned : List K
  kept : List K

namespace TimeWindow

variable {K : Type*}

def empty : TimeWindow K := ⟨[], []⟩

/-- Everything that was pushed. -/
def pushed (w : TimeWindow K) : List K := w.pruned ++ w.kept

def push (w : TimeWindow K) (t : K) : TimeWindow K := ⟨w.pruned, w.kept ++ [t]⟩

/-- `while kept and kept[0] < cutoff: kept.popleft()`. -/
def prune [LinearOrder K] (w : TimeWindow K) (cutoff : K) : TimeWindow K :=
  ⟨w.pruned ++ w.kept.takeWhile (· < cutoff), w.kept.dropWhile (· < cutoff)⟩

@[simp] theorem pushed_push (w : TimeWindow K) (t : K) : (w.push t).pushed = w.pushed ++ [t] :=
  (List.append_assoc _ _ _).symm

@[simp] theorem pushed_prune [LinearOrder K] (w : TimeWindow K) (cutoff : K) : (w.prune cutoff).pushed = w.pushed := by
  unfold pushed prune
  rw [List.append_assoc, List.takeWhile_append_dropWhile]

variable {w : TimeWindow K}

theorem of_mem_prune [LinearOrder K] {cutoff e : K} (h : e ∈ (w.prune cutoff).pruned) :
    e ∈ w.pruned ∨ e < cutoff := by
  rcases List.mem_append.mp h with h | h
  · exact .inl h
  · have hlt := List.mem_takeWhile_imp h
    exact .inr (of_decide_eq_true hlt)

theorem cutoff_le_of_head [LinearOrder K] {cutoff oldest : K}
    (h : (w.prune cutoff).kept.head? = some oldest) : cutoff ≤ oldest := by
  have hhead := List.head?_dropWhile_not (fun t => decide (t < cutoff)) w.kept
  rw [show w.kept.dropWhile (fun t => decide (t < cutoff)) = (w.prune cutoff).kept from rfl, h] at hhead
  exact not_lt.mp fun hlt => by simp [hlt] at hhead

/-- **The bound of an interval.** -/
theorem push_countP {t : K} {limit : ℕ} {p : K → Bool} (hroom : w.kept.length < limit)
    (hbefore : w.pushed.countP p ≤ limit) (hpruned : p t = true → ∀ e ∈ w.pruned, p e = false) :
    (w.push t).pushed.countP p ≤ limit := by
  rw [pushed_push, List.countP_append]
  by_cases ht : p t = true
  · have hnone : w.pruned.countP p = 0 :=
      List.countP_eq_zero.mpr fun e he => Bool.eq_false_iff.mp (hpruned ht e he)
    have hkept : w.kept.countP p ≤ w.kept.length := List.countP_le_length
    have hone : [t].countP p ≤ 1 := List.countP_le_length
    rw [pushed, List.countP_append]
    omega
  · have hzero : [t].countP p = 0 := List.countP_eq_zero.mpr fun e he => List.mem_singleton.mp he ▸ ht
    omega

end TimeWindow

end TraxJourney.Lib
