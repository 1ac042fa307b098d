/-
  File:      Lib/VisibleIndex.lean
  Subject:   Lists of which a reader sees a part, and operations at an index into what is seen.

  * **`filter_eraseIdx`, `filter_insertIdx`, `filter_moveIdx`** -- at the positions of visible
    elements, the three operations do to the visible part what they do to it alone, and nothing
    to the rest.
-/
import Mathlib.Data.Nat.Notation
import Mathlib.Logic.Basic

namespace TraxJourney.Lib

variable {α : Type*}

/-! ## 1. Positions -/

/-- The positions of what satisfies `p`, counted from `n`. -/
def positionsFrom (p : α → Bool) : ℕ → List α → List ℕ
  | _, [] => []
  | n, x :: l => if p x then n :: positionsFrom p (n + 1) l else positionsFrom p (n + 1) l

variable {p : α → Bool} {l a b c : List α} {x y new : α} {i j k m n : ℕ}

theorem length_positionsFrom : (positionsFrom p n l).length = (l.filter p).length := by
  induction l generalizing n with
  | nil => rfl
  | cons x l ih =>
    by_cases hx : p x = true
    · simp [positionsFrom, hx, ih]
    · simp [positionsFrom, hx, ih]

theorem positionsFrom_map {β : Type*} {q : β → Bool} {f : α → β} (hf : ∀ x, q (f x) = p x) :
    positionsFrom q n (l.map f) = positionsFrom p n l := by
  induction l generalizing n with
  | nil => rfl
  | cons x l ih => simp only [List.map_cons, positionsFrom, hf, ih]

theorem positionsFrom_append :
    positionsFrom p n (a ++ b) = positionsFrom p n a ++ positionsFrom p (n + a.length) b := by
  induction a generalizing n with
  | nil => rfl
  | cons x a ih =>
    have hadd : n + (x :: a).length = n + 1 + a.length := by
      rw [List.length_cons]
      omega
    rw [List.cons_append, positionsFrom, positionsFrom, ih, hadd]
    split
    · rfl
    · rfl

theorem split_at (h : (positionsFrom p n l)[i]? = some k) :
    ∃ a x b, l = a ++ x :: b ∧ p x = true ∧ k = n + a.length ∧ (a.filter p).length = i := by
  induction l generalizing n i with
  | nil => cases h
  | cons y l ih =>
    rw [positionsFrom] at h
    split at h
    · rename_i hy
      cases i with
      | zero =>
        cases h
        exact ⟨[], y, l, rfl, hy, rfl, rfl⟩
      | succ i =>
        obtain ⟨a, x, b, rfl, hx, hk, hi⟩ := ih h
        refine ⟨y :: a, x, b, rfl, hx, ?_, ?_⟩
        · rw [List.length_cons]
          omega
        · rw [List.filter_cons_of_pos hy, List.length_cons, hi]
    · rename_i hy
      obtain ⟨a, x, b, rfl, hx, hk, hi⟩ := ih h
      refine ⟨y :: a, x, b, rfl, hx, ?_, ?_⟩
      · rw [List.length_cons]
        omega
      · rw [List.filter_cons_of_neg hy, hi]

theorem split_at_two (hij : i < j) (hi : (positionsFrom p 0 l)[i]? = some k)
    (hj : (positionsFrom p 0 l)[j]? = some m) :
    ∃ a x b y c, l = a ++ x :: (b ++ y :: c) ∧ p x = true ∧ p y = true ∧ k = a.length ∧
      m = a.length + 1 + b.length ∧ (a.filter p).length = i ∧
      (a.filter p).length + 1 + (b.filter p).length = j := by
  obtain ⟨a, x, d, rfl, hx, hk, ha⟩ := split_at hi
  have hcut : positionsFrom p 0 (a ++ x :: d) =
      positionsFrom p 0 a ++ a.length :: positionsFrom p (a.length + 1) d := by
    rw [positionsFrom_append, Nat.zero_add, positionsFrom, if_pos hx]
  have hlen : (positionsFrom p 0 a).length = i := by rw [length_positionsFrom, ha]
  obtain ⟨j', rfl⟩ : ∃ j', j = i + 1 + j' := ⟨j - (i + 1), by omega⟩
  have hj' : (positionsFrom p (a.length + 1) d)[j']? = some m := by
    rw [hcut, List.getElem?_append_right (by omega), hlen] at hj
    have hsub : i + 1 + j' - i = j' + 1 := by omega
    rwa [hsub, List.getElem?_cons_succ] at hj
  obtain ⟨b, y, c, rfl, hy, hm, hb⟩ := split_at hj'
  exact ⟨a, x, b, y, c, rfl, hx, hy, by omega, hm, ha, by omega⟩

/-! ## 2. The three operations -/

theorem eraseIdx_middle : (a ++ x :: b).eraseIdx a.length = a ++ b := by
  induction a with
  | nil => rfl
  | cons y a ih => simp [ih]

theorem insertIdx_middle : (a ++ b).insertIdx a.length new = a ++ new :: b := by
  induction a with
  | nil => simp
  | cons y a ih => simp [ih]

/-- The element at `i`, taken out and put back in at `j`. -/
def moveIdx (l : List α) (i j : ℕ) : List α :=
  match l[i]? with
  | none => l
  | some x => (l.eraseIdx i).insertIdx j x

theorem moveIdx_self : moveIdx (a ++ x :: b) a.length a.length = a ++ x :: b := by
  have hget : (a ++ x :: b)[a.length]? = some x := by simp
  rw [moveIdx, hget]
  dsimp only
  rw [eraseIdx_middle, insertIdx_middle]

theorem moveIdx_forth : moveIdx (a ++ x :: (b ++ y :: c)) a.length (a.length + 1 + b.length) =
    a ++ b ++ y :: x :: c := by
  have hget : (a ++ x :: (b ++ y :: c))[a.length]? = some x := by simp
  have hlen : a.length + 1 + b.length = (a ++ b ++ [y]).length := by
    simp only [List.length_append, List.length_singleton]
    omega
  have hlist : a ++ (b ++ y :: c) = (a ++ b ++ [y]) ++ c := by simp
  rw [moveIdx, hget]
  dsimp only
  rw [eraseIdx_middle, hlen, hlist, insertIdx_middle]
  simp

theorem moveIdx_back : moveIdx (a ++ x :: (b ++ y :: c)) (a.length + 1 + b.length) a.length =
    a ++ y :: x :: (b ++ c) := by
  have hlen : a.length + 1 + b.length = (a ++ x :: b).length := by
    simp only [List.length_append, List.length_cons]
    omega
  have hlist : a ++ x :: (b ++ y :: c) = (a ++ x :: b) ++ y :: c := by simp
  have hget : ((a ++ x :: b) ++ y :: c)[(a ++ x :: b).length]? = some y := by simp
  rw [moveIdx, hlist, hlen, hget]
  dsimp only
  rw [eraseIdx_middle, List.append_assoc, insertIdx_middle]
  rfl

theorem filter_eraseIdx (h : (positionsFrom p 0 l)[i]? = some k) :
    (l.eraseIdx k).filter p = (l.filter p).eraseIdx i ∧
      (l.eraseIdx k).filter (fun x => !p x) = l.filter fun x => !p x := by
  obtain ⟨a, x, b, rfl, hx, hk, rfl⟩ := split_at h
  obtain rfl : k = a.length := by omega
  rw [eraseIdx_middle]
  constructor
  · rw [List.filter_append, List.filter_append, List.filter_cons_of_pos hx, eraseIdx_middle]
  · simp [hx]

theorem filter_insertIdx (h : (positionsFrom p 0 l)[i]? = some k) (hnew : p new = true) :
    (l.insertIdx (k + 1) new).filter p = (l.filter p).insertIdx (i + 1) new ∧
      (l.insertIdx (k + 1) new).filter (fun x => !p x) = l.filter fun x => !p x := by
  obtain ⟨a, x, b, rfl, hx, hk, rfl⟩ := split_at h
  have hins : ∀ {a b : List α}, (a ++ x :: b).insertIdx (a.length + 1) new = a ++ x :: new :: b := by
    intro a b
    have hlen : a.length + 1 = (a ++ [x]).length := by simp
    have hlist : a ++ x :: b = (a ++ [x]) ++ b := by simp
    rw [hlist, hlen, insertIdx_middle]
    simp
  obtain rfl : k = a.length := by omega
  rw [hins]
  constructor
  · rw [List.filter_append, List.filter_append, List.filter_cons_of_pos hx,
      List.filter_cons_of_pos hx, List.filter_cons_of_pos hnew, hins]
  · simp [hx, hnew]

/-- **Moving a visible element to the place of another.** -/
theorem filter_moveIdx (hi : (positionsFrom p 0 l)[i]? = some k)
    (hj : (positionsFrom p 0 l)[j]? = some m) (hne : i ≠ j) :
    (moveIdx l k m).filter p = moveIdx (l.filter p) i j ∧
      (moveIdx l k m).filter (fun x => !p x) = l.filter fun x => !p x := by
  have hfilter : ∀ {a b c : List α} {x y : α}, p x = true → p y = true → (a ++ x :: (b ++ y :: c)).filter p =
        a.filter p ++ x :: (b.filter p ++ y :: c.filter p) := by
    intro a b c x y hx hy
    simp [hx, hy]
  rcases Nat.lt_or_gt_of_ne hne with hlt | hgt
  · -- the element moves towards the end
    obtain ⟨a, x, b, y, c, rfl, hx, hy, rfl, rfl, rfl, rfl⟩ := split_at_two hlt hi hj
    rw [moveIdx_forth, hfilter hx hy, moveIdx_forth]
    simp [hx, hy]
  · obtain ⟨a, x, b, y, c, rfl, hx, hy, rfl, rfl, rfl, rfl⟩ := split_at_two hgt hj hi
    rw [moveIdx_back, hfilter hx hy, moveIdx_back]
    simp [hx, hy]

end TraxJourney.Lib
