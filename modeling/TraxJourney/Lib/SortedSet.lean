/-
  File:      Lib/SortedSet.lean
  Subject:   Sorted sets: members with a score each, ranked by score and, where two scores are
             equal, by member.

  * `SortedSet ι τ` -- a table of entries with the member as key, so that a member has one score;
    `add`, `remove`, `removeThrough`, `rank` are the four commands on it.
-/
import TraxJourney.Lib.Table
import Mathlib.Data.Finset.Max
import Mathlib.Data.Prod.Lex

namespace TraxJourney.Lib

/-- A member of a sorted set with its score. -/
@[ext] structure Entry (ι τ : Type*) where
  member : ι
  score : τ
deriving DecidableEq

abbrev SortedSet (ι τ : Type*) := Table (Entry ι τ) Entry.member

variable {ι τ : Type*} [LinearOrder ι] [LinearOrder τ]

def Entry.place (e : Entry ι τ) : τ ×ₗ ι := toLex (e.score, e.member)

omit [LinearOrder ι] [LinearOrder τ] in
theorem Entry.place_inj {e e' : Entry ι τ} (h : e.place = e'.place) : e = e' := by
  have hpair : (e.score, e.member) = (e'.score, e'.member) := toLex.injective h
  obtain ⟨hs, hm⟩ := Prod.mk.inj hpair
  exact Entry.ext hm hs

namespace SortedSet

/-! ## 1. The commands -/

/-- A member with its score; the score of a member already there is replaced. -/
def add (z : SortedSet ι τ) (m : ι) (s : τ) : SortedSet ι τ := z.put ⟨m, s⟩

def remove (z : SortedSet ι τ) (m : ι) : SortedSet ι τ := z.erase m

/-- Without the entries scored up to `c`. -/
def removeThrough (z : SortedSet ι τ) (c : τ) : SortedSet ι τ := z.delete fun e => e.score ≤ c

/-- The number of entries that rank before `e`. -/
def below (z : SortedSet ι τ) (e : Entry ι τ) : ℕ := (z.rows.filter fun a => a.place < e.place).length

/-- The rank of a member, from 0; `none` where it is not in the set. -/
def rank (z : SortedSet ι τ) (m : ι) : Option ℕ := (z.get m).map z.below

/-! ## 2. What they do to the entries -/

variable {z z' : SortedSet ι τ} {m : ι} {s c : τ} {e : Entry ι τ} {n : ℕ}

omit [LinearOrder τ] in
theorem mem_add : e ∈ z.add m s ↔ e = ⟨m, s⟩ ∨ e ∈ z ∧ e.member ≠ m := Table.mem_put

omit [LinearOrder τ] in
theorem mem_of_mem_remove (h : e ∈ z.remove m) : e ∈ z := (Table.mem_delete.mp h).1

omit [LinearOrder ι] in
theorem mem_of_mem_removeThrough (h : e ∈ z.removeThrough c) : e ∈ z := (Table.mem_delete.mp h).1

theorem rank_eq_some (he : e ∈ z) (h : z.rank e.member = some n) : z.below e = n := by
  have hget : z.get e.member = some e := Table.get_eq_some.mpr ⟨he, rfl⟩
  simpa [rank, hget] using h

/-! ## 3. Ranks -/

theorem below_le (h : ∀ a ∈ z', a.place < e.place → a ∈ z) : z'.below e ≤ z.below e := by
  have hnd : z'.rows.Nodup := z'.unique.of_map
  have hsub : (z'.rows.filter fun a => a.place < e.place) ⊆
      z.rows.filter fun a => a.place < e.place := by
    intro a ha
    obtain ⟨hmem, hlt⟩ := List.mem_filter.mp ha
    have hlt' : a.place < e.place := by simpa using hlt
    exact List.mem_filter.mpr ⟨h a hmem hlt', hlt⟩
  exact (List.subperm_of_subset (hnd.filter _) hsub).length_le

/-- **Few rank low**: of the members with fewer than `n` entries before their own, there are at
    most `n`. -/
theorem card_le_of_below {ms : Finset ι} (h : ∀ m ∈ ms, ∃ e ∈ z, e.member = m ∧ z.below e < n) :
    ms.card ≤ n := by
  classical
  let es := z.rows.toFinset.filter fun e => e.member ∈ ms
  have hcover : ms ⊆ es.image Entry.member := by
    intro m hm
    obtain ⟨e, he, rfl, -⟩ := h m hm
    have hes : e ∈ es := Finset.mem_filter.mpr ⟨List.mem_toFinset.mpr he, hm⟩
    exact Finset.mem_image_of_mem _ hes
  have hcard : ms.card ≤ es.card := Nat.le_trans (Finset.card_le_card hcover) Finset.card_image_le
  rcases es.eq_empty_or_nonempty with hempty | hne
  · have hzero : es.card = 0 := Finset.card_eq_zero.mpr hempty
    omega
  · -- the entry of `es` that ranks last has all the others before it
    obtain ⟨last, hlast, hmax⟩ := Finset.exists_max_image es Entry.place hne
    obtain ⟨hrow, hms⟩ := Finset.mem_filter.mp hlast
    have hlow : z.below last < n := by
      obtain ⟨e, he, hm, hlt⟩ := h last.member hms
      obtain rfl : e = last := Table.eq_of_key he (List.mem_toFinset.mp hrow) hm
      exact hlt
    have hbefore : es.erase last ⊆ (z.rows.filter fun a => a.place < last.place).toFinset := by
      intro a ha
      obtain ⟨hne', hes⟩ := Finset.mem_erase.mp ha
      have hle : a.place ≤ last.place := hmax a hes
      have hlt : a.place < last.place := lt_of_le_of_ne hle fun he => hne' (Entry.place_inj he)
      have hmem : a ∈ z.rows := List.mem_toFinset.mp (Finset.mem_filter.mp hes).1
      simpa using ⟨hmem, hlt⟩
    have hers : (es.erase last).card ≤ z.below last :=
      Nat.le_trans (Finset.card_le_card hbefore) (List.toFinset_card_le _)
    have hone : (es.erase last).card + 1 = es.card := Finset.card_erase_add_one hlast
    omega

end SortedSet

end TraxJourney.Lib
