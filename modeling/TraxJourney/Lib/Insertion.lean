/-
  File:      Lib/Insertion.lean
  Subject:   Insertion behind the last element of a kind.

  * `BehindLast` -- an element stands directly behind the last of a kind, some behind it apart;
    **`behindLast_inserted`** -- so stands what was inserted;
    **`BehindLast.insert`** -- and it goes on standing so, when others are inserted behind it.
-/
import Mathlib.Data.List.Induction
import Mathlib.Data.List.Perm.Basic

namespace TraxJourney.Lib

variable {α : Type*}

/-- Behind the last element that fulfils `q`; the start where none does. -/
def afterLast (q : α → Bool) (xs : List α) : ℕ :=
  xs.zipIdx.foldl (fun pos s => if q s.1 then s.2 + 1 else pos) 0

/-- `xs.insert(i, x)` there. -/
def insertBehind (q : α → Bool) (xs : List α) (x : α) : List α :=
  xs.take (afterLast q xs) ++ x :: xs.drop (afterLast q xs)

theorem afterLast_concat (q : α → Bool) (xs : List α) (x : α) :
    afterLast q (xs ++ [x]) = if q x then xs.length + 1 else afterLast q xs := by
  unfold afterLast
  rw [List.zipIdx_append, List.foldl_append]
  simp

theorem afterLast_spec (q : α → Bool) (xs : List α) :
    afterLast q xs ≤ xs.length ∧ (∀ y ∈ (xs.take (afterLast q xs)).getLast?, q y) ∧
      ∀ y ∈ xs.drop (afterLast q xs), q y = false := by
  induction xs using List.reverseRecOn with
  | nil => exact ⟨Nat.le_refl _, by simp, by simp⟩
  | append_singleton xs x ih =>
    obtain ⟨hle, hlast, hbehind⟩ := ih
    rw [afterLast_concat]
    split
    case isTrue hx =>
      refine ⟨by simp, ?_, ?_⟩
      · intro y hy
        rw [List.take_of_length_le (by simp), List.getLast?_concat] at hy
        exact Option.mem_some.mp hy ▸ hx
      · rw [List.drop_of_length_le (by simp)]
        exact fun y hy => absurd hy List.not_mem_nil
    case isFalse hx =>
      refine ⟨Nat.le_trans hle (by simp), ?_, ?_⟩
      · rwa [List.take_append_of_le_length hle]
      · rw [List.drop_append_of_le_length hle]
        intro y hy
        rcases List.mem_append.mp hy with hy | hy
        · exact hbehind y hy
        · exact List.mem_singleton.mp hy ▸ Bool.not_eq_true _ ▸ hx

theorem perm_insertBehind (q : α → Bool) (xs : List α) (x : α) : (insertBehind q xs x).Perm (x :: xs) := by
  have hsplit : (insertBehind q xs x).Perm (x :: (xs.take (afterLast q xs) ++ xs.drop (afterLast q xs))) :=
    List.perm_middle
  rwa [List.take_append_drop] at hsplit

theorem sublist_insertBehind (q : α → Bool) (xs : List α) (x : α) : xs.Sublist (insertBehind q xs x) := by
  conv_lhs => rw [← List.take_append_drop (afterLast q xs) xs]
  exact List.Sublist.append_left (List.sublist_cons_self x _) _

/-- `x` stands directly behind the last element that fulfils `q`, those of `later` apart. -/
def BehindLast (q later : α → Prop) (xs : List α) (x : α) : Prop :=
  ∃ front back, xs = front ++ x :: back ∧ (∀ y ∈ front.getLast?, q y) ∧ ∀ y ∈ back, q y → later y

theorem behindLast_inserted (q : α → Bool) (later : α → Prop) (xs : List α) (x : α) :
    BehindLast (fun y => q y = true) later (insertBehind q xs x) x := by
  obtain ⟨-, hlast, hbehind⟩ := afterLast_spec q xs
  refine ⟨_, _, rfl, hlast, fun y hy hq => ?_⟩
  cases hq.symm.trans (hbehind y hy)

theorem BehindLast.imp {q q' later later' : α → Prop} {xs : List α} {x : α} (h : BehindLast q later xs x)
    (hq : ∀ y ∈ xs, q y → q' y) (hlater : ∀ y ∈ xs, q' y → later' y ∨ q y ∧ (later y → later' y)) :
    BehindLast q' later' xs x := by
  obtain ⟨front, back, rfl, hfront, hback⟩ := h
  refine ⟨front, back, rfl, fun y hy => hq y ?_ (hfront y hy), fun y hy hq' => ?_⟩
  · exact List.mem_append_left _ (List.mem_of_getLast? hy)
  · have hmem : y ∈ front ++ x :: back := List.mem_append_right _ (List.mem_cons_of_mem _ hy)
    rcases hlater y hmem hq' with hdone | ⟨hold, himp⟩
    · exact hdone
    · exact himp (hback y hy hold)

theorem BehindLast.insert {q later : α → Prop} {q' : α → Bool} {xs : List α} {x z : α}
    (h : BehindLast q later xs x) (hx : q' x = true) (hz : q z → later z) :
    BehindLast q later (insertBehind q' xs z) x := by
  obtain ⟨front, back, hxs, hfront, hback⟩ := h
  obtain ⟨-, -, hbehind⟩ := afterLast_spec q' xs
  -- `x` is on the near side of the place, and with it all before it
  have hsplit := List.take_append_drop (afterLast q' xs) xs
  obtain ⟨middle, hmiddle⟩ : ∃ middle, xs.take (afterLast q' xs) = front ++ x :: middle := by
    rcases List.append_eq_append_iff.mp (hsplit.trans hxs) with ⟨rest, hrest, hdrop⟩ | ⟨rest, htake, hcons⟩
    · have hmem : x ∈ xs.drop (afterLast q' xs) := hdrop ▸ List.mem_append_right _ List.mem_cons_self
      rw [hbehind x hmem] at hx
      cases hx
    · cases rest with
      | nil =>
        have hmem : x ∈ xs.drop (afterLast q' xs) := by
          rw [List.nil_append] at hcons
          exact hcons ▸ List.mem_cons_self
        rw [hbehind x hmem] at hx
        cases hx
      | cons y rest =>
        obtain ⟨rfl, -⟩ := List.cons_eq_cons.mp hcons
        exact ⟨rest, htake⟩
  have hrest : back = middle ++ xs.drop (afterLast q' xs) := by
    rw [hmiddle, List.append_assoc, List.cons_append] at hsplit
    exact (List.cons_eq_cons.mp (List.append_cancel_left (hsplit.trans hxs))).2.symm
  refine ⟨front, middle ++ z :: xs.drop (afterLast q' xs), ?_, hfront, fun y hy hq => ?_⟩
  · rw [insertBehind, hmiddle, List.append_assoc, List.cons_append]
  · rcases List.mem_append.mp hy with hy | hy
    · exact hback y (hrest ▸ List.mem_append_left _ hy) hq
    · rcases List.mem_cons.mp hy with rfl | hy
      · exact hz hq
      · exact hback y (hrest ▸ List.mem_append_right _ hy) hq

end TraxJourney.Lib
