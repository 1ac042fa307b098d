/-
  File:      Lib/Links.lean
  Subject:   A list kept as links between its places, and a queue that gives its least entry.

  * `popLeast`, **`popLeast_some`**, `popLeast_rest` -- the entry of the least key, and the others.
-/
import Mathlib.Data.List.Nodup
import Mathlib.Order.Lattice

namespace TraxJourney.Lib

/-! ## 1. Links -/

/-- The links run through the places `is`, one after the other, the first of them after `before`. -/
def Linked (prev next : ℕ → Option ℕ) : Option ℕ → List ℕ → Prop
  | _, [] => True
  | before, i :: is => prev i = before ∧ next i = is.head? ∧ Linked prev next (some i) is

variable {prev next prev' next' : ℕ → Option ℕ} {before : Option ℕ} {l r is : List ℕ} {a b i : ℕ}

theorem Linked.congr (h : Linked prev next before is) (hprev : ∀ i ∈ is, prev' i = prev i)
    (hnext : ∀ i ∈ is, next' i = next i) : Linked prev' next' before is := by
  induction is generalizing before with
  | nil => trivial
  | cons i is ih =>
    obtain ⟨hp, hn, hrest⟩ := h
    exact ⟨(hprev i List.mem_cons_self).trans hp, (hnext i List.mem_cons_self).trans hn,
      ih hrest (fun j hj => hprev j (List.mem_cons_of_mem _ hj))
        fun j hj => hnext j (List.mem_cons_of_mem _ hj)⟩

theorem Linked.at (h : Linked prev next before (l ++ i :: r)) :
    next i = r.head? ∧ prev i = (l.getLast?.or before) := by
  induction l generalizing before with
  | nil => exact ⟨h.2.1, h.1⟩
  | cons j l ih =>
    obtain ⟨hn, hp⟩ := ih h.2.2
    refine ⟨hn, hp.trans ?_⟩
    cases l with
    | nil => rfl
    | cons k l => simp [List.getLast?_eq_some_getLast]

/-- `next[a] = next[b]`. -/
def unlinkNext (next : ℕ → Option ℕ) (a b : ℕ) : ℕ → Option ℕ := Function.update next a (next b)

/-- `prev[next[b]] = a`, where there is one. -/
def unlinkPrev (prev next : ℕ → Option ℕ) (a b : ℕ) : ℕ → Option ℕ :=
  match next b with
  | some q => Function.update prev q (some a)
  | none => prev

theorem Linked.unlink (h : Linked prev next before (l ++ a :: b :: r)) (hnodup : (l ++ a :: b :: r).Nodup) :
    Linked (unlinkPrev prev next a b) (unlinkNext next a b) before (l ++ a :: r) := by
  induction l generalizing before with
  | nil =>
    obtain ⟨hpa, hna, hpb, hnb, hrest⟩ := h
    rw [List.nil_append, List.nodup_cons, List.nodup_cons] at hnodup
    obtain ⟨ha, -, hr⟩ := hnodup
    have hne : ∀ j ∈ r, j ≠ a := fun j hj he => ha (List.mem_cons_of_mem _ (he ▸ hj))
    have hnext : ∀ j ∈ r, unlinkNext next a b j = next j := fun j hj => Function.update_of_ne (hne j hj) _ _
    cases r with
    | nil => exact ⟨by simpa [unlinkPrev, hnb] using hpa, by simpa [unlinkNext] using hnb, trivial⟩
    | cons q r =>
      have hprev : unlinkPrev prev next a b = Function.update prev q (some a) := by
        unfold unlinkPrev
        rw [hnb]
        rfl
      obtain ⟨-, hnq, hrest⟩ := hrest
      rw [hprev]
      have haq : a ≠ q := (hne q List.mem_cons_self).symm
      refine ⟨(Function.update_of_ne haq _ _).trans hpa, by simpa [unlinkNext] using hnb,
        Function.update_self _ _ _, (hnext q List.mem_cons_self).trans hnq, ?_⟩
      refine hrest.congr (fun j hj => Function.update_of_ne (fun he => ?_) _ _)
        fun j hj => hnext j (List.mem_cons_of_mem _ hj)
      exact (List.nodup_cons.mp hr).1 (he ▸ hj)
  | cons j l ih =>
    obtain ⟨hp, hn, hrest⟩ := h
    rw [List.cons_append, List.nodup_cons] at hnodup
    have hja : j ≠ a := fun he => hnodup.1 (by rw [he]; simp)
    have hjq : ∀ q, next b = some q → j ≠ q := by
      intro q hq he
      have hb := (Linked.at (l := l ++ [a]) (i := b) (r := r) (by simpa using hrest)).1
      rw [hq] at hb
      have hmem : q ∈ r := List.mem_of_mem_head? hb.symm
      exact hnodup.1 (by rw [he]; simp [hmem])
    refine ⟨?_, ?_, ih hrest hnodup.2⟩
    · have hsame : unlinkPrev prev next a b j = prev j := by
        unfold unlinkPrev
        cases hq : next b with
        | none => rfl
        | some q => exact Function.update_of_ne (hjq q hq) _ _
      exact hsame.trans hp
    · refine (Function.update_of_ne hja _ _).trans (hn.trans ?_)
      cases l with
      | nil => rfl
      | cons k l => rfl

theorem linked_range {n m k : ℕ} (hm : k + m = n) (hprev : ∀ i, prev i = if i = 0 then none else some (i - 1))
    (hnext : ∀ i, next i = if i + 1 < n then some (i + 1) else none) :
    Linked prev next (if k = 0 then none else some (k - 1)) (List.range' k m) := by
  induction m generalizing k with
  | zero => trivial
  | succ m ih =>
    rw [List.range'_succ]
    refine ⟨hprev k, ?_, ?_⟩
    · rw [hnext]
      cases m with
      | zero => exact if_neg (by omega)
      | succ m => exact if_pos (by omega)
    · have hrest := ih (show k + 1 + m = n by omega)
      rwa [if_neg (Nat.succ_ne_zero k), Nat.add_sub_cancel] at hrest

/-- The places from `i` on, by the links. -/
def follow (next : ℕ → Option ℕ) : ℕ → ℕ → List ℕ
  | 0, _ => []
  | fuel + 1, i => i :: match next i with
      | some j => follow next fuel j
      | none => []

theorem follow_linked {fuel : ℕ} (h : Linked prev next before (i :: is))
    (hfuel : (i :: is).length ≤ fuel) : follow next fuel i = i :: is := by
  induction is generalizing before i fuel with
  | nil =>
    obtain ⟨-, hn, -⟩ := h
    cases fuel with
    | zero => cases hfuel
    | succ fuel => simp [follow, hn]
  | cons j is ih =>
    obtain ⟨-, hn, hrest⟩ := h
    cases fuel with
    | zero => cases hfuel
    | succ fuel =>
      rw [follow, hn, List.head?_cons]
      dsimp only
      rw [ih hrest (Nat.le_of_succ_le_succ hfuel)]

/-! ## 2. The least entry -/

section Least

variable {α κ : Type*} [LinearOrder κ] [DecidableEq α] {key : α → κ} {m : α} {xs rest : List α}

/-- The first entry of the least key, before `best` where it has a lesser one. -/
def leastOf (key : α → κ) (best : α) (xs : List α) : α :=
  xs.foldl (fun best x => if key x < key best then x else best) best

/-- The entry of the least key, and the others; none of an empty queue. -/
def popLeast (key : α → κ) : List α → Option (α × List α)
  | [] => none
  | x :: xs => some (leastOf key x xs, (x :: xs).erase (leastOf key x xs))

omit [DecidableEq α] in
theorem leastOf_spec (key : α → κ) (best : α) (xs : List α) :
    leastOf key best xs ∈ best :: xs ∧ ∀ x ∈ best :: xs, key (leastOf key best xs) ≤ key x := by
  unfold leastOf
  induction xs generalizing best with
  | nil => simp
  | cons y xs ih =>
    rw [List.foldl_cons]
    split
    case isTrue hlt =>
      obtain ⟨hmem, hle⟩ := ih y
      refine ⟨List.mem_cons_of_mem _ hmem, fun x hx => ?_⟩
      rcases List.mem_cons.mp hx with rfl | hx
      · exact (hle y List.mem_cons_self).trans hlt.le
      · exact hle x hx
    case isFalse hnot =>
      obtain ⟨hmem, hle⟩ := ih best
      refine ⟨?_, fun x hx => ?_⟩
      · rcases List.mem_cons.mp hmem with he | hmem
        · rw [he]
          exact List.mem_cons_self
        · exact List.mem_cons_of_mem _ (List.mem_cons_of_mem _ hmem)
      · rcases List.mem_cons.mp hx with rfl | hx
        · exact hle x List.mem_cons_self
        · rcases List.mem_cons.mp hx with rfl | hx
          · exact (hle best List.mem_cons_self).trans (not_lt.mp hnot)
          · exact hle x (List.mem_cons_of_mem _ hx)

theorem popLeast_some (h : popLeast key xs = some (m, rest)) :
    m ∈ xs ∧ (∀ x ∈ xs, key m ≤ key x) ∧ rest = xs.erase m := by
  cases xs with
  | nil => cases h
  | cons x xs =>
    cases h
    obtain ⟨hmem, hle⟩ := leastOf_spec key x xs
    exact ⟨hmem, hle, rfl⟩

theorem popLeast_rest (h : popLeast key xs = some (m, rest)) :
    (∀ x ∈ rest, x ∈ xs) ∧ (∀ x ∈ xs, x ≠ m → x ∈ rest) ∧ rest.length + 1 = xs.length := by
  obtain ⟨hmem, -, hrest⟩ := popLeast_some h
  rw [hrest]
  refine ⟨fun x hx => List.mem_of_mem_erase hx, fun x hx hne => (List.mem_erase_of_ne hne).mpr hx, ?_⟩
  rw [List.length_erase_of_mem hmem]
  exact Nat.sub_add_cancel (List.length_pos_of_mem hmem)

theorem popLeast_isSome (h : m ∈ xs) : ∃ p, popLeast key xs = some p := by
  cases xs with
  | nil => cases h
  | cons x xs => exact ⟨_, rfl⟩

end Least

end TraxJourney.Lib
