/-
  File:      Lib/IndexLoops.lean
  Subject:   Loops over the indices of a list, where an index past the end raises.

  * `searchLeft`, **`searchLeft_spec`** -- a binary search, on any list: where it ends, sorted or not.
-/
import Mathlib.Data.List.Basic
import Mathlib.Order.Lattice

namespace TraxJourney.Lib

variable {α β σ : Type}

/-! ## 1. One element a turn -/

variable {turn : σ → ℕ → Option σ} {xs : List α} {first : ℕ}

theorem foldlM_range' {step : σ → α → σ}
    (h : ∀ i (hi : i < xs.length) s, turn s (first + i) = some (step s xs[i])) (s : σ) :
    (List.range' first xs.length).foldlM turn s = some (xs.foldl step s) := by
  induction xs generalizing first s with
  | nil => rfl
  | cons x xs ih =>
    have hfirst : turn s first = some (step s x) := h 0 (Nat.succ_pos _) s
    have hrest : ∀ i (hi : i < xs.length) s, turn s (first + 1 + i) = some (step s xs[i]) := by
      intro i hi s
      rw [Nat.add_assoc, Nat.add_comm 1 i]
      exact h (i + 1) (Nat.succ_lt_succ hi) s
    rw [List.length_cons, List.range'_succ, List.foldlM_cons, hfirst]
    exact ih hrest _

theorem foldlM_range'_elements {step : σ → α → Option σ}
    (h : ∀ i (hi : i < xs.length) s, turn s (first + i) = step s xs[i]) (s : σ) :
    (List.range' first xs.length).foldlM turn s = xs.foldlM step s := by
  induction xs generalizing first s with
  | nil => rfl
  | cons x xs ih =>
    have hfirst : turn s first = step s x := h 0 (Nat.succ_pos _) s
    have hrest : ∀ i (hi : i < xs.length) s, turn s (first + 1 + i) = step s xs[i] := by
      intro i hi s
      rw [Nat.add_assoc, Nat.add_comm 1 i]
      exact h (i + 1) (Nat.succ_lt_succ hi) s
    rw [List.length_cons, List.range'_succ, List.foldlM_cons, List.foldlM_cons, hfirst]
    exact congrArg _ (funext fun s => ih hrest s)

theorem foldl_push (f : α → β) (xs : List α) (out : List β) :
    xs.foldl (fun out x => out ++ [f x]) out = out ++ xs.map f := by
  induction xs generalizing out with
  | nil => rw [List.foldl_nil, List.map_nil, List.append_nil]
  | cons x xs ih => rw [List.foldl_cons, ih, List.map_cons, List.append_assoc, List.singleton_append]

theorem foldlM_push {turn : List β → ℕ → Option (List β)} {f : α → β}
    (h : ∀ i (hi : i < xs.length) out, turn out (first + i) = some (out ++ [f xs[i]])) :
    (List.range' first xs.length).foldlM turn [] = some (xs.map f) := by
  have hloop : (List.range' first xs.length).foldlM turn [] =
      some (xs.foldl (fun out x => out ++ [f x]) []) := foldlM_range' h []
  rw [hloop, foldl_push, List.nil_append]

theorem foldlM_zip {γ : Type} (f : α → β → Option γ) :
    ∀ (xs : List α) (ys : List β) (first : ℕ) (turn : List γ → ℕ → Option (List γ)) (out : List γ),
      xs.length = ys.length →
      (∀ i (hi : i < xs.length) (hi' : i < ys.length) out,
        turn out (first + i) = (f xs[i] ys[i]).map fun z => out ++ [z]) →
      (List.range' first xs.length).foldlM turn out =
        ((xs.zip ys).mapM fun s => f s.1 s.2).map fun zs => out ++ zs
  | [], [], first, turn, out, _, _ => by simp
  | x :: xs, y :: ys, first, turn, out, hlen, h => by
      have hfirst : turn out first = (f x y).map fun z => out ++ [z] :=
        h 0 (Nat.succ_pos _) (Nat.succ_pos _) out
      have hrest : ∀ i (hi : i < xs.length) (hi' : i < ys.length) out,
          turn out (first + 1 + i) = (f xs[i] ys[i]).map fun z => out ++ [z] := by
        intro i hi hi' out
        rw [Nat.add_assoc, Nat.add_comm 1 i]
        exact h (i + 1) (Nat.succ_lt_succ hi) (Nat.succ_lt_succ hi') out
      have ih := fun out => foldlM_zip f xs ys (first + 1) turn out (Nat.succ.inj hlen) hrest
      rw [List.length_cons, List.range'_succ, List.foldlM_cons, hfirst, List.zip_cons_cons, List.mapM_cons]
      cases f x y with
      | none => rfl
      | some z =>
        simp only [Option.map_some, Option.bind_eq_bind, Option.bind_some, ih]
        cases (xs.zip ys).mapM fun s => f s.1 s.2 with
        | none => rfl
        | some zs => simp

theorem length_foldlM_push {turn : List α → ℕ → Option (List α)}
    (h : ∀ out i out', turn out i = some out' → out'.length = out.length + 1) {is : List ℕ}
    {out out' : List α} (hrun : is.foldlM turn out = some out') :
    out'.length = out.length + is.length := by
  induction is generalizing out with
  | nil =>
    obtain rfl := Option.some.inj hrun
    rfl
  | cons i is ih =>
    rw [List.foldlM_cons] at hrun
    obtain ⟨next, hnext, hrest⟩ := Option.bind_eq_some_iff.mp hrun
    rw [ih hrest, h _ _ _ hnext, List.length_cons]
    omega

variable {f : α → Option β}

theorem bind_some {x : Option α} (hx : ∃ a, x = some a) (hf : ∀ a, ∃ b, f a = some b) :
    ∃ b, x.bind f = some b := by
  obtain ⟨a, rfl⟩ := hx
  exact hf a

theorem foldlM_some {is : List ℕ} (h : ∀ i ∈ is, ∀ s, ∃ s', turn s i = some s') (s : σ) :
    ∃ s', is.foldlM turn s = some s' := by
  induction is generalizing s with
  | nil => exact ⟨s, rfl⟩
  | cons i is ih =>
    obtain ⟨s', hs'⟩ := h i List.mem_cons_self s
    rw [List.foldlM_cons, hs']
    exact ih (fun j hj => h j (List.mem_cons_of_mem _ hj)) s'

theorem foldlM_range'_spec {f : σ → ℕ → Option σ} {P : ℕ → σ → Prop} {a n : ℕ}
    (h : ∀ i s, a ≤ i → i < a + n → P i s → ∃ s', f s i = some s' ∧ P (i + 1) s') {s : σ}
    (hstart : P a s) : ∃ s', (List.range' a n).foldlM f s = some s' ∧ P (a + n) s' := by
  induction n generalizing a s with
  | zero => exact ⟨s, rfl, hstart⟩
  | succ n ih =>
    obtain ⟨next, hnext, hkeep⟩ := h a s le_rfl (by omega) hstart
    have hrest : ∀ i s, a + 1 ≤ i → i < a + 1 + n → P i s → ∃ s', f s i = some s' ∧ P (i + 1) s' :=
      fun i s hle hlt => h i s (by omega) (by omega)
    obtain ⟨s', hs', hend⟩ := ih hrest hkeep
    rw [List.range'_succ, List.foldlM_cons, hnext]
    exact ⟨s', hs', by rwa [Nat.add_assoc, Nat.add_comm 1 n] at hend⟩

theorem foldlM_congr {f g : σ → ℕ → Option σ} {is : List ℕ} (h : ∀ i ∈ is, ∀ s, f s i = g s i) (s : σ) :
    is.foldlM f s = is.foldlM g s := by
  induction is generalizing s with
  | nil => rfl
  | cons i is ih =>
    have hrest : ∀ s, is.foldlM f s = is.foldlM g s := ih fun j hj => h j (List.mem_cons_of_mem _ hj)
    rw [List.foldlM_cons, List.foldlM_cons, h i List.mem_cons_self, funext hrest]

theorem mapM_some (h : ∀ x ∈ xs, ∃ y, f x = some y) :
    ∃ ys, xs.mapM f = some ys := by
  induction xs with
  | nil => exact ⟨[], rfl⟩
  | cons x xs ih =>
    obtain ⟨y, hy⟩ := h x List.mem_cons_self
    obtain ⟨ys, hys⟩ := ih fun z hz => h z (List.mem_cons_of_mem _ hz)
    rw [List.mapM_cons, hy, hys]
    exact ⟨y :: ys, rfl⟩

theorem mapM_forall₂ {R : α → β → Prop} (h : ∀ x ∈ xs, ∃ y, f x = some y ∧ R x y) :
    ∃ ys, xs.mapM f = some ys ∧ List.Forall₂ R xs ys := by
  induction xs with
  | nil => exact ⟨[], rfl, .nil⟩
  | cons x xs ih =>
    obtain ⟨y, hy, hrel⟩ := h x List.mem_cons_self
    obtain ⟨ys, hys, hrest⟩ := ih fun z hz => h z (List.mem_cons_of_mem _ hz)
    rw [List.mapM_cons, hy, hys]
    exact ⟨y :: ys, rfl, .cons hrel hrest⟩

theorem mapM_eq_map {g : α → β} (h : ∀ x ∈ xs, f x = some (g x)) :
    xs.mapM f = some (xs.map g) := by
  induction xs with
  | nil => rfl
  | cons x xs ih =>
    rw [List.mapM_cons, h x List.mem_cons_self, ih fun y hy => h y (List.mem_cons_of_mem _ hy)]
    rfl

theorem map_of_mapM {ys : List β} (h : xs.mapM f = some ys) :
    ys.map some = xs.map f := by
  induction xs generalizing ys with
  | nil =>
    obtain rfl := Option.some.inj h
    rfl
  | cons x xs ih =>
    rw [List.mapM_cons] at h
    obtain ⟨y, hy, h⟩ := Option.bind_eq_some_iff.mp h
    obtain ⟨zs, hzs, h⟩ := Option.bind_eq_some_iff.mp h
    obtain rfl := Option.some.inj h
    rw [List.map_cons, List.map_cons, ih hzs, hy]

theorem length_zip_tail (xs : List α) : (xs.zip xs.tail).length = xs.length - 1 := by
  rw [List.length_zip, List.length_tail]
  omega

theorem zip_tail_get {i : ℕ} (hi : i < (xs.zip xs.tail).length) :
    xs[1 + i - 1]? = some (xs.zip xs.tail)[i].1 ∧ xs[1 + i]? = some (xs.zip xs.tail)[i].2 := by
  rw [length_zip_tail] at hi
  rw [List.getElem_zip, List.getElem_tail, Nat.add_sub_cancel_left, Nat.add_comm 1 i]
  exact ⟨List.getElem?_eq_getElem _, List.getElem?_eq_getElem _⟩

theorem zip_tail_ordered {xs : List ℕ} (h : xs.Pairwise (· < ·)) {ab : ℕ × ℕ} (hab : ab ∈ xs.zip xs.tail) :
    ab.1 ∈ xs ∧ ab.2 ∈ xs ∧ ab.1 < ab.2 ∧ ∀ x ∈ xs, x ≤ ab.1 ∨ ab.2 ≤ x := by
  induction xs with
  | nil => exact absurd hab List.not_mem_nil
  | cons a xs ih =>
    obtain ⟨hfirst, hrest⟩ := List.pairwise_cons.mp h
    cases xs with
    | nil => exact absurd hab List.not_mem_nil
    | cons b xs =>
      rcases List.mem_cons.mp hab with rfl | hab
      · refine ⟨List.mem_cons_self, List.mem_cons_of_mem _ List.mem_cons_self,
          hfirst b List.mem_cons_self, fun x hx => ?_⟩
        rcases List.mem_cons.mp hx with rfl | hx
        · exact .inl le_rfl
        · rcases List.mem_cons.mp hx with rfl | hx
          · exact .inr le_rfl
          · exact .inr ((List.pairwise_cons.mp hrest).1 x hx).le
      · obtain ⟨hone, htwo, hlt, hnone⟩ := ih hrest hab
        refine ⟨List.mem_cons_of_mem _ hone, List.mem_cons_of_mem _ htwo, hlt, fun x hx => ?_⟩
        rcases List.mem_cons.mp hx with rfl | hx
        · exact .inl (hfirst _ hone).le
        · exact hnone x hx

theorem exists_neighbours {xs : List ℕ} (h : xs.Pairwise (· < ·)) {last x : ℕ} (hhead : xs.head? = some first)
    (hlast : xs.getLast? = some last) (hlow : first ≤ x) (hhigh : x ≤ last) :
    x ∈ xs ∨ ∃ ab ∈ xs.zip xs.tail, ab.1 < x ∧ x < ab.2 := by
  induction xs generalizing first with
  | nil => exact absurd hhead nofun
  | cons a xs ih =>
    obtain ⟨hfirst, hrest⟩ := List.pairwise_cons.mp h
    obtain rfl := Option.some.inj hhead
    cases xs with
    | nil =>
      obtain rfl := Option.some.inj hlast
      exact .inl (List.mem_singleton.mpr (le_antisymm hhigh hlow))
    | cons b xs =>
      rw [List.getLast?_cons_cons] at hlast
      rcases Nat.lt_or_ge x b with hlt | hge
      · rcases hlow.eq_or_lt with rfl | hlow
        · exact .inl List.mem_cons_self
        · exact .inr ⟨(a, b), List.mem_cons_self, hlow, hlt⟩
      · rcases ih hrest rfl hlast hge with hmem | ⟨ab, hab, hbetween⟩
        · exact .inl (List.mem_cons_of_mem _ hmem)
        · exact .inr ⟨ab, List.mem_cons_of_mem _ hab, hbetween⟩

/-! ## 2. Longer steps -/

/-- `for (i = first; i < xs.length; i += step)`, in at most `fuel` turns. -/
def everyFrom (xs : List α) (step : ℕ) : ℕ → ℕ → List α
  | 0, _ => []
  | fuel + 1, i =>
    match xs[i]? with
    | some x => x :: everyFrom xs step fuel (i + step)
    | none => []

theorem everyFrom_eq {step fuel i : ℕ} (hstep : 0 < step) (hfuel : xs.length - i ≤ fuel) :
    everyFrom xs step fuel i =
      (List.range ((xs.length - i + step - 1) / step)).filterMap fun k => xs[i + k * step]? := by
  induction fuel generalizing i with
  | zero =>
    have hcount : (xs.length - i + step - 1) / step = 0 := Nat.div_eq_of_lt (by omega)
    rw [hcount]
    rfl
  | succ fuel ih =>
    rw [everyFrom]
    rcases Nat.lt_or_ge i xs.length with hlt | hge
    · have hcount : (xs.length - i + step - 1) / step = (xs.length - (i + step) + step - 1) / step + 1 := by
        rcases Nat.lt_or_ge (xs.length - i) step with hlast | hmore
        · have hrest : (xs.length - (i + step) + step - 1) / step = 0 := Nat.div_eq_of_lt (by omega)
          rw [hrest, Nat.div_eq_iff hstep]
          omega
        · rw [← Nat.add_div_right _ hstep]
          congr 1
          omega
      have hshift : ∀ k, xs[i + (k + 1) * step]? = xs[i + step + k * step]? := by
        intro k
        rw [Nat.succ_mul]
        congr 1
        omega
      rw [List.getElem?_eq_getElem hlt, hcount, List.range_succ_eq_map, List.filterMap_cons,
        Nat.zero_mul, Nat.add_zero, List.getElem?_eq_getElem hlt, ih (by omega), List.filterMap_map]
      exact congrArg _ (List.filterMap_congr fun k _ => (hshift k).symm)
    · have hcount : (xs.length - i + step - 1) / step = 0 := Nat.div_eq_of_lt (by omega)
      rw [List.getElem?_eq_none hge, hcount]
      rfl

/-! ## 3. Binary search -/

section

variable [LinearOrder α]

/-- `while (lo < hi)`: the half whose middle is below goes, or the other. -/
def searchLeft (xs : List α) (x : α) : ℕ → ℕ → ℕ → Option ℕ
  | 0, lo, hi => if lo < hi then none else some lo
  | fuel + 1, lo, hi =>
    if lo < hi then
      xs[(lo + hi) / 2]?.bind fun middle =>
        if middle < x then searchLeft xs x fuel ((lo + hi) / 2 + 1) hi
        else searchLeft xs x fuel lo ((lo + hi) / 2)
    else some lo

/-- What the search keeps of its two ends. -/
structure Around (xs : List α) (x : α) (lo hi : ℕ) : Prop where
  le : lo ≤ hi
  within : hi ≤ xs.length
  below : lo = 0 ∨ ∃ y, xs[lo - 1]? = some y ∧ y < x
  notBelow : hi = xs.length ∨ ∃ y, xs[hi]? = some y ∧ x ≤ y

theorem Around.done {x : α} {lo hi : ℕ} (h : Around xs x lo hi) (hnot : ¬ lo < hi) :
    Around xs x lo lo := by
  have heq : lo = hi := Nat.le_antisymm h.le (Nat.le_of_not_lt hnot)
  exact ⟨Nat.le_refl lo, heq ▸ h.within, h.below, heq ▸ h.notBelow⟩

theorem searchLeft_spec {x : α} {fuel lo hi : ℕ} (h : Around xs x lo hi) (hfuel : hi - lo ≤ fuel) :
    ∃ i, searchLeft xs x fuel lo hi = some i ∧ Around xs x i i := by
  induction fuel generalizing lo hi with
  | zero =>
    have hnot : ¬ lo < hi := by omega
    exact ⟨lo, if_neg hnot, h.done hnot⟩
  | succ fuel ih =>
    rw [searchLeft]
    split
    case isFalse hnot => exact ⟨lo, rfl, h.done hnot⟩
    case isTrue hlt =>
      have hwithin := h.within
      have hmiddle : (lo + hi) / 2 < xs.length := by omega
      have hget := List.getElem?_eq_getElem hmiddle
      rw [hget, Option.bind_some]
      split
      case isTrue hbelow =>
        have hat : Around xs x ((lo + hi) / 2 + 1) hi :=
          ⟨by omega, h.within, .inr ⟨_, hget, hbelow⟩, h.notBelow⟩
        exact ih hat (by omega)
      case isFalse hnot =>
        have hat : Around xs x lo ((lo + hi) / 2) :=
          ⟨by omega, by omega, h.below, .inr ⟨_, hget, not_lt.mp hnot⟩⟩
        exact ih hat (by omega)

end

end TraxJourney.Lib
