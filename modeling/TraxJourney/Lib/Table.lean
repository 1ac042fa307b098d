/-
  File:      Lib/Table.lean
  Subject:   Tables with a unique key, as a relational store keeps them.

  * `Table ρ key` -- rows in insertion order, no two with the same key: the uniqueness is a field,
    so a table that breaks it cannot be built, and an insert of a taken key fails (`none`).
-/
import Mathlib.Data.List.Nodup

namespace TraxJourney.Lib

/-- Rows in insertion order, no two with the same key. -/
structure Table (ρ : Type*) {κ : Type*} (key : ρ → κ) where
  rows : List ρ
  unique : (rows.map key).Nodup

namespace Table

variable {ρ κ : Type*} {key : ρ → κ} {t t' : Table ρ key} {r s : ρ} {p : ρ → Bool}

/-- A row is in the table. -/
instance : Membership ρ (Table ρ key) := ⟨fun t r => r ∈ t.rows⟩

theorem mem_def : r ∈ t ↔ r ∈ t.rows := Iff.rfl

theorem eq_of_rows (h : t.rows = t'.rows) : t = t' := by
  cases t
  cases t'
  cases h
  rfl

/-- The table without rows. -/
def empty : Table ρ key := ⟨[], List.nodup_nil⟩

@[simp] theorem not_mem_empty : r ∉ (empty : Table ρ key) := List.not_mem_nil

/-! ## 1. Reading -/

/-- A query's `.first()`. -/
def first (t : Table ρ key) (p : ρ → Bool) : Option ρ := t.rows.find? p

theorem first_some (h : t.first p = some r) : r ∈ t ∧ p r = true :=
  ⟨List.mem_of_find?_eq_some h, List.find?_some h⟩

theorem first_none (h : t.first p = none) (hr : r ∈ t) : p r = false := by
  simpa using List.find?_eq_none.mp h r hr

theorem first_isSome (hr : r ∈ t) (hp : p r = true) : ∃ s, t.first p = some s := by
  cases h : t.first p with
  | none =>
    rw [first_none h hr] at hp
    cases hp
  | some s => exact ⟨s, rfl⟩

theorem eq_of_key (hr : r ∈ t) (hs : s ∈ t) (h : key r = key s) : r = s :=
  List.inj_on_of_nodup_map t.unique hr hs h

/-! ## 2. Writing -/

/-- A new row at the end, refused where its key is taken. -/
def insert [DecidableEq κ] (t : Table ρ key) (r : ρ) : Option (Table ρ key) :=
  if h : key r ∈ t.rows.map key then none
  else some ⟨t.rows ++ [r], by
    rw [List.map_append, List.nodup_append]
    refine ⟨t.unique, List.nodup_singleton _, fun a ha b hb => ?_⟩
    rw [List.map_singleton, List.mem_singleton] at hb
    rintro rfl
    exact h (hb ▸ ha)⟩

theorem mem_insert [DecidableEq κ] (h : t.insert r = some t') : s ∈ t' ↔ s ∈ t ∨ s = r := by
  unfold insert at h
  split at h
  · cases h
  · cases h
    simp [mem_def]

theorem insert_some [DecidableEq κ] (h : key r ∉ t.rows.map key) :
    ∃ t', t.insert r = some t' ∧ t'.rows = t.rows ++ [r] := ⟨_, dif_neg h, rfl⟩

theorem rows_insert [DecidableEq κ] (h : t.insert r = some t') : t'.rows = t.rows ++ [r] := by
  unfold insert at h
  split at h
  · cases h
  · cases h
    rfl

/-- Without the rows that satisfy `p`. -/
def delete (t : Table ρ key) (p : ρ → Bool) : Table ρ key where
  rows := t.rows.filter fun r => !p r
  unique := t.unique.sublist (List.filter_sublist.map key)

theorem mem_delete : s ∈ t.delete p ↔ s ∈ t ∧ p s = false := by
  simp [mem_def, delete]

/-- `f` applied to the rows that satisfy `p`; it keeps their keys. -/
def update (t : Table ρ key) (p : ρ → Bool) (f : ρ → ρ) (hf : ∀ r, key (f r) = key r) : Table ρ key where
  rows := t.rows.map fun r => if p r then f r else r
  unique := by
    have hk : (key ∘ fun r => if p r = true then f r else r) = key := by
      funext r
      simp only [Function.comp]
      split
      · exact hf r
      · rfl
    rw [List.map_map, hk]
    exact t.unique

theorem mem_update {f : ρ → ρ} (hf : ∀ r, key (f r) = key r) :
    s ∈ t.update p f hf ↔ ∃ r ∈ t, s = if p r then f r else r := by
  simp only [mem_def, update, List.mem_map]
  constructor
  · rintro ⟨r, hr, rfl⟩
    exact ⟨r, hr, rfl⟩
  · rintro ⟨r, hr, rfl⟩
    exact ⟨r, hr, rfl⟩

theorem mem_update_of_mem {f : ρ → ρ} (hf : ∀ r, key (f r) = key r) (hr : r ∈ t) :
    (if p r then f r else r) ∈ t.update p f hf :=
  (mem_update hf).mpr ⟨r, hr, rfl⟩

/-! ## 3. The row of a key -/

section Keyed

variable [DecidableEq κ] {k : κ}

def get (t : Table ρ key) (k : κ) : Option ρ := t.first fun r => key r = k

/-- A new row, or the row with its key rewritten. -/
def put (t : Table ρ key) (r : ρ) : Table ρ key :=
  match t.insert r with
  | some t' => t'
  | none => t.update (fun s => key s = key r) (fun s => if key s = key r then r else s) fun s => by
      split
      · rename_i h
        exact h.symm
      · rfl

/-- Without the row with the key. -/
def erase (t : Table ρ key) (k : κ) : Table ρ key := t.delete fun r => key r = k

theorem get_eq_some : t.get k = some r ↔ r ∈ t ∧ key r = k := by
  constructor
  · intro h
    obtain ⟨hmem, hk⟩ := first_some h
    exact ⟨hmem, by simpa using hk⟩
  · rintro ⟨hmem, hk⟩
    obtain ⟨s, hs⟩ := first_isSome (p := fun r => decide (key r = k)) hmem (by simpa using hk)
    obtain ⟨hmem', hk'⟩ := first_some hs
    have hk' : key s = k := by simpa using hk'
    obtain rfl : s = r := eq_of_key hmem' hmem (hk'.trans hk.symm)
    exact hs

theorem get_eq_none : t.get k = none ↔ ∀ r ∈ t, key r ≠ k := by
  constructor
  · intro h r hr
    simpa using first_none h hr
  · intro h
    cases hg : t.get k with
    | none => rfl
    | some r =>
      obtain ⟨hr, hk⟩ := get_eq_some.mp hg
      exact absurd hk (h r hr)

theorem key_of_get (h : t.get k = some r) : key r = k := (get_eq_some.mp h).2

theorem mem_put : s ∈ t.put r ↔ s = r ∨ s ∈ t ∧ key s ≠ key r := by
  unfold put
  cases hins : t.insert r with
  | some t' =>
    have hnew : ∀ s ∈ t, key s ≠ key r := by
      intro s hs he
      have hold : key r ∈ t.rows.map key := he ▸ List.mem_map_of_mem hs
      rw [insert, dif_pos hold] at hins
      cases hins
    dsimp only
    rw [mem_insert hins]
    constructor
    · rintro (hs | rfl)
      · exact .inr ⟨hs, hnew s hs⟩
      · exact .inl rfl
    · rintro (rfl | ⟨hs, -⟩)
      · exact .inr rfl
      · exact .inl hs
  | none =>
    have hold : key r ∈ t.rows.map key := by
      by_contra hnew
      rw [insert, dif_neg hnew] at hins
      cases hins
    obtain ⟨r', hr', he⟩ := List.mem_map.mp hold
    dsimp only
    rw [mem_update]
    constructor
    · rintro ⟨s', hs', rfl⟩
      by_cases hk : key s' = key r
      · simp [hk]
      · simp [hk, hs']
    · rintro (rfl | ⟨hs, hk⟩)
      · exact ⟨r', hr', by simp [he]⟩
      · exact ⟨s, hs, by simp [hk]⟩

theorem get_put : (t.put r).get k = if k = key r then some r else t.get k := by
  split
  · rename_i h
    exact get_eq_some.mpr ⟨mem_put.mpr (.inl rfl), h.symm⟩
  · rename_i h
    cases hg : t.get k with
    | some s =>
      obtain ⟨hs, hk⟩ := get_eq_some.mp hg
      refine get_eq_some.mpr ⟨mem_put.mpr (.inr ⟨hs, ?_⟩), hk⟩
      rwa [hk]
    | none =>
      refine get_eq_none.mpr fun s hs hk => ?_
      rcases mem_put.mp hs with rfl | ⟨hs, -⟩
      · exact h hk.symm
      · exact get_eq_none.mp hg s hs hk

theorem get_erase {j : κ} : (t.erase j).get k = if k = j then none else t.get k := by
  split
  · rename_i h
    refine get_eq_none.mpr fun s hs hk => ?_
    have hne := (mem_delete.mp hs).2
    simp [hk, h] at hne
  · rename_i h
    cases hg : t.get k with
    | some s =>
      obtain ⟨hs, hk⟩ := get_eq_some.mp hg
      exact get_eq_some.mpr ⟨mem_delete.mpr ⟨hs, by simpa [hk] using h⟩, hk⟩
    | none => exact get_eq_none.mpr fun s hs hk => get_eq_none.mp hg s (mem_delete.mp hs).1 hk

end Keyed

/-! ## 4. Ids handed out again -/

/-- One above the largest id now in the table. -/
def nextId {id : ρ → ℕ} (t : Table ρ id) : ℕ := (t.rows.map id).foldr max 0 + 1

theorem nextId_split {id : ρ → ℕ} (t : Table ρ id) (p : ρ → Bool) : t.nextId =
    max (((t.rows.filter p).map id).foldr max 0 + 1)
      (((t.rows.filter fun r => !p r).map id).foldr max 0 + 1) := by
  unfold nextId
  generalize t.rows = rows
  induction rows with
  | nil => rfl
  | cons r rows ih =>
    cases hp : p r with
    | true =>
      rw [List.filter_cons_of_pos hp, List.filter_cons_of_neg (by simp [hp])]
      simp only [List.map_cons, List.foldr_cons]
      omega
    | false =>
      rw [List.filter_cons_of_neg (by simp [hp]), List.filter_cons_of_pos (by simp [hp])]
      simp only [List.map_cons, List.foldr_cons]
      omega

theorem nextId_gt {id : ρ → ℕ} {t : Table ρ id} (h : r ∈ t) : id r < t.nextId := by
  have hle : ∀ (l : List ℕ) (n : ℕ), n ∈ l → n ≤ l.foldr max 0 := by
    intro l
    induction l with
    | nil => intro n hn; cases hn
    | cons a l ih =>
      intro n hn
      rcases List.mem_cons.mp hn with rfl | hn
      · exact Nat.le_max_left _ _
      · exact Nat.le_trans (ih n hn) (Nat.le_max_right _ _)
  exact Nat.lt_succ_of_le (hle _ _ (List.mem_map_of_mem h))

end Table

/-! ## 5. Writing back -/

/-- A value written back over `cur` by a writer that loaded `loaded` and made it `new`: it is
    written only where the writer changed it. -/
def pick {α : Type*} [DecidableEq α] (loaded new cur : α) : α := if new = loaded then cur else new

theorem pick_self {α : Type*} [DecidableEq α] (loaded cur : α) : pick loaded loaded cur = cur := if_pos rfl

theorem pick_cases {α : Type*} [DecidableEq α] (loaded new cur : α) :
    pick loaded new cur = cur ∧ new = loaded ∨ pick loaded new cur = new ∧ new ≠ loaded := by
  by_cases h : new = loaded
  · exact .inl ⟨if_pos h, h⟩
  · exact .inr ⟨if_neg h, h⟩

end TraxJourney.Lib
