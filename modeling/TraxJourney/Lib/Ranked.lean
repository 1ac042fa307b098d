/-
  File:      Lib/Ranked.lean
  Subject:   Lists kept by rank, equal ranks in the order in which they came.

  * **`Ranked.eq_of_perm`** -- where no two have one rank, the ranks alone say the list.
-/
import Mathlib.Data.List.Perm.Basic
import Mathlib.Data.List.TakeWhile
import Mathlib.Order.Lattice

namespace TraxJourney.Lib

variable {α β τ : Type*} [LinearOrder τ] {rank : α → τ} {came xs ys : List α} {u : α}

def Ranked (rank : α → τ) (came xs : List α) : Prop :=
  xs.Pairwise fun x y => rank x < rank y ∨ rank x = rank y ∧ [x, y].Sublist came

/-- Before the first of a greater rank, or at the end. -/
def insertRanked (rank : α → τ) (r : τ) (u : α) (xs : List α) : List α :=
  xs.takeWhile (fun x => decide (rank x ≤ r)) ++ u :: xs.dropWhile fun x => decide (rank x ≤ r)

theorem perm_insertRanked (rank : α → τ) (r : τ) (u : α) (xs : List α) :
    (insertRanked rank r u xs).Perm (u :: xs) := by
  have hsplit := List.takeWhile_append_dropWhile (p := fun x => decide (rank x ≤ r)) (l := xs)
  unfold insertRanked
  refine List.perm_middle.trans (List.Perm.cons u ?_)
  rw [hsplit]

theorem span_congr {p q : α → Bool} (h : ∀ x ∈ xs, p x = q x) :
    xs.takeWhile p = xs.takeWhile q ∧ xs.dropWhile p = xs.dropWhile q := by
  induction xs with
  | nil => exact ⟨rfl, rfl⟩
  | cons x xs ih =>
    obtain ⟨htake, hdrop⟩ := ih fun y hy => h y (List.mem_cons_of_mem _ hy)
    rw [List.takeWhile_cons, List.takeWhile_cons, List.dropWhile_cons, List.dropWhile_cons,
      h x List.mem_cons_self, htake, hdrop]
    exact ⟨rfl, rfl⟩

theorem insertRanked_congr {rank' : α → τ} {r : τ} (h : ∀ x ∈ xs, rank' x = rank x) :
    insertRanked rank' r u xs = insertRanked rank r u xs := by
  have hkeep : ∀ x ∈ xs, decide (rank' x ≤ r) = decide (rank x ≤ r) := fun x hx => by rw [h x hx]
  obtain ⟨htake, hdrop⟩ := span_congr hkeep
  unfold insertRanked
  rw [htake, hdrop]

theorem Ranked.congr {rank' : α → τ} (h : Ranked rank came xs) (hsame : ∀ x ∈ xs, rank' x = rank x) :
    Ranked rank' came xs :=
  List.Pairwise.imp_of_mem (fun hx hy hxy => by rwa [hsame _ hx, hsame _ hy]) h

theorem Ranked.lt_of_dropWhile (h : Ranked rank came xs) {r : τ} :
    ∀ y ∈ xs.dropWhile (fun x => decide (rank x ≤ r)), r < rank y := by
  intro y hy
  cases hrest : xs.dropWhile fun x => decide (rank x ≤ r) with
  | nil => rw [hrest] at hy; cases hy
  | cons z zs =>
    have hz : r < rank z := by
      have hnot := List.head?_dropWhile_not (fun x => decide (rank x ≤ r)) xs
      rw [hrest] at hnot
      simpa using hnot
    have hsorted : Ranked rank came (z :: zs) := hrest ▸ List.Pairwise.sublist (List.dropWhile_sublist _) h
    rw [hrest] at hy
    rcases List.mem_cons.mp hy with rfl | hy
    · exact hz
    · rcases List.rel_of_pairwise_cons hsorted hy with hlt | ⟨heq, -⟩
      · exact hz.trans hlt
      · exact heq ▸ hz

theorem Ranked.insert (h : Ranked rank came xs) (hcame : ∀ x ∈ xs, x ∈ came) :
    Ranked rank (came ++ [u]) (insertRanked rank (rank u) u xs) := by
  have hmore : Ranked rank (came ++ [u]) xs := List.Pairwise.imp
    (fun hxy => hxy.imp_right fun hxy => ⟨hxy.1, hxy.2.trans (List.sublist_append_left _ _)⟩) h
  have hbefore : ∀ x ∈ xs.takeWhile (fun x => decide (rank x ≤ rank u)), rank x ≤ rank u := by
    intro x hx
    have htrue := List.mem_takeWhile_imp hx
    exact of_decide_eq_true htrue
  have hbehind := h.lt_of_dropWhile (r := rank u)
  have hlast : ∀ x ∈ xs, [x, u].Sublist (came ++ [u]) := fun x hx =>
    (List.singleton_sublist.mpr (hcame x hx)).append (List.Sublist.refl [u])
  unfold Ranked insertRanked
  rw [List.pairwise_append, List.pairwise_cons]
  refine ⟨List.Pairwise.sublist (List.takeWhile_sublist _) hmore, ⟨fun y hy => .inl (hbehind y hy),
    List.Pairwise.sublist (List.dropWhile_sublist _) hmore⟩, fun x hx y hy => ?_⟩
  have hle := hbefore x hx
  rcases List.mem_cons.mp hy with rfl | hy
  · rcases hle.lt_or_eq with hlt | heq
    · exact .inl hlt
    · exact .inr ⟨heq, hlast x (List.takeWhile_sublist _ |>.mem hx)⟩
  · exact .inl (hle.trans_lt (hbehind y hy))

theorem Ranked.filter (h : Ranked rank came xs) (p : α → Bool) :
    Ranked rank (came.filter p) (xs.filter p) := by
  unfold Ranked
  rw [List.pairwise_filter]
  refine List.Pairwise.imp (fun {x y} hxy hx hy => hxy.imp_right fun hxy => ⟨hxy.1, ?_⟩) h
  have hboth := hxy.2.filter p
  rwa [List.filter_cons_of_pos hx, List.filter_cons_of_pos hy, List.filter_nil] at hboth

theorem Ranked.map {rank' : β → τ} {f : α → β} (h : Ranked rank came xs)
    (hsame : ∀ x ∈ xs, rank' (f x) = rank x) : Ranked rank' (came.map f) (xs.map f) := by
  unfold Ranked
  rw [List.pairwise_map]
  refine List.Pairwise.imp_of_mem (fun hx hy hxy => ?_) h
  rw [hsame _ hx, hsame _ hy]
  exact hxy.imp_right fun hxy => ⟨hxy.1, hxy.2.map f⟩

theorem Ranked.eq_of_perm {came' : List α} (hx : Ranked rank came xs) (hy : Ranked rank came' ys)
    (hperm : xs.Perm ys) (hinj : ∀ x ∈ xs, ∀ y ∈ xs, rank x = rank y → x = y) : xs = ys := by
  have hle : ∀ {came zs : List α}, Ranked rank came zs → zs.Pairwise fun x y => rank x ≤ rank y :=
    fun h => List.Pairwise.imp (fun hxy => hxy.elim le_of_lt fun hxy => hxy.1.le) h
  refine List.Perm.eq_of_pairwise (fun x y hmem hmem' hxy hyx => ?_) (hle hx) (hle hy) hperm
  exact hinj x hmem y (hperm.mem_iff.mpr hmem') (le_antisymm hxy hyx)

end TraxJourney.Lib
