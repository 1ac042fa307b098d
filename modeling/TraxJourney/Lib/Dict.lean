/-
  File:      Lib/Dict.lean
  Subject:   Dictionaries: a table of pairs, no two of one key.

  * `Same` -- the same value for every key, the equality of dictionaries;
    **`ofEntries_rows`** -- a dictionary's pairs, in any order, are the dictionary again.
-/
import Mathlib.Data.List.Perm.Basic
import TraxJourney.Lib.Table

namespace TraxJourney.Lib

/-- Keys with a value each. -/
abbrev Dict (κ ν : Type*) := Table (κ × ν) Prod.fst

namespace Table

variable {κ ν : Type*} [DecidableEq κ] {d e : Dict κ ν} {k j : κ} {v : ν}

/-- `d.get(k)`. -/
def find (d : Dict κ ν) (k : κ) : Option ν := (d.get k).map Prod.snd

/-- `d[k] = v`, or `d.pop(k, None)` where there is no value. -/
def store (d : Dict κ ν) (k : κ) : Option ν → Dict κ ν
  | some v => d.put (k, v)
  | none => d.erase k

theorem find_eq_some : d.find k = some v ↔ (k, v) ∈ d := by
  unfold find
  rw [Option.map_eq_some_iff]
  constructor
  · rintro ⟨⟨k', v'⟩, hget, rfl⟩
    obtain ⟨hmem, hk⟩ := Table.get_eq_some.mp hget
    exact hk ▸ hmem
  · exact fun hmem => ⟨(k, v), Table.get_eq_some.mpr ⟨hmem, rfl⟩, rfl⟩

@[simp] theorem find_empty : (Table.empty : Dict κ ν).find k = none := rfl

theorem find_erase : (d.erase j).find k = if k = j then none else d.find k := by
  unfold find
  rw [Table.get_erase]
  split <;> rfl

theorem find_put : (d.put (j, v)).find k = if k = j then some v else d.find k := by
  unfold find
  rw [Table.get_put]
  split <;> rfl

theorem find_store {v : Option ν} : (d.store j v).find k = if k = j then v else d.find k := by
  cases v with
  | none => exact find_erase
  | some v => exact find_put

/-- The same value for every key. -/
def Same (d e : Dict κ ν) : Prop := ∀ k, d.find k = e.find k

/-- The last value of each key. -/
def ofEntries (entries : List (κ × ν)) : Dict κ ν := entries.foldl (fun d e => d.put e) .empty

variable {entries : List (κ × ν)}

theorem mem_foldl_put (hnodup : (entries.map Prod.fst).Nodup) (hnew : ∀ e ∈ entries, ∀ p ∈ d, p.1 ≠ e.1)
    {p : κ × ν} :
    p ∈ entries.foldl (fun d e => d.put e) d ↔ p ∈ d ∨ p ∈ entries := by
  induction entries generalizing d with
  | nil => simp
  | cons e rest ih =>
    rw [List.map_cons, List.nodup_cons] at hnodup
    have hput : ∀ q, q ∈ d.put e ↔ q = e ∨ q ∈ d := by
      intro q
      rw [Table.mem_put]
      exact or_congr_right (and_iff_left_of_imp fun hq => hnew e List.mem_cons_self q hq)
    have hrest : ∀ f ∈ rest, ∀ q ∈ d.put e, q.1 ≠ f.1 := by
      intro f hf q hq
      rcases (hput q).mp hq with rfl | hd
      · exact fun heq => hnodup.1 (heq ▸ List.mem_map_of_mem hf)
      · exact hnew f (List.mem_cons_of_mem _ hf) q hd
    rw [List.foldl_cons, ih hnodup.2 hrest, hput, List.mem_cons]
    tauto

theorem mem_ofEntries (hnodup : (entries.map Prod.fst).Nodup) {p : κ × ν} :
    p ∈ ofEntries entries ↔ p ∈ entries := by
  have hnew : ∀ e ∈ entries, ∀ p ∈ (.empty : Dict κ ν), p.1 ≠ e.1 := fun e _ p hp =>
    absurd hp Table.not_mem_empty
  unfold ofEntries
  rw [mem_foldl_put hnodup hnew]
  exact or_iff_right Table.not_mem_empty

theorem ofEntries_rows (h : entries.Perm d.rows) : (ofEntries entries).Same d := by
  intro k
  have hnodup : (entries.map Prod.fst).Nodup := (h.map Prod.fst).nodup_iff.mpr d.unique
  refine Option.ext fun v => ?_
  rw [find_eq_some, find_eq_some, mem_ofEntries hnodup, h.mem_iff]
  rfl

/-! ## Each key by itself -/

variable {μ : Type*} {s : Dict κ μ} {g : κ → μ → Option ν → Option ν}

/-- The value of every key of `s`, in `d`, put through `g`. -/
def mergeWith (d : Dict κ ν) (s : Dict κ μ) (g : κ → μ → Option ν → Option ν) : Dict κ ν :=
  s.rows.foldl (fun d e => d.store e.1 (g e.1 e.2 (d.find e.1))) d

theorem find_foldl_store {rows : List (κ × μ)} (hnodup : (rows.map Prod.fst).Nodup) :
    (rows.foldl (fun d e => d.store e.1 (g e.1 e.2 (d.find e.1))) d).find k =
      match rows.find? fun e => decide (e.1 = k) with
      | some e => g k e.2 (d.find k)
      | none => d.find k := by
  induction rows generalizing d with
  | nil => rfl
  | cons e rows ih =>
    rw [List.map_cons, List.nodup_cons] at hnodup
    rw [List.foldl_cons, ih hnodup.2, find_store, List.find?_cons]
    by_cases hk : e.1 = k
    · -- no later pair has the key
      have hnone : (rows.find? fun e => decide (e.1 = k)) = none := by
        refine List.find?_eq_none.mpr fun f hf he => hnodup.1 ?_
        rw [hk, ← of_decide_eq_true he]
        exact List.mem_map_of_mem hf
      rw [hnone, decide_eq_true hk, if_pos hk.symm, hk]
    · rw [decide_eq_false hk, if_neg (Ne.symm hk)]

/-- **Each key is merged by itself.** -/
theorem find_mergeWith : (d.mergeWith s g).find k =
    match s.find k with
    | some m => g k m (d.find k)
    | none => d.find k := by
  have hs : s.find k = (s.rows.find? fun e => decide (e.1 = k)).map Prod.snd := rfl
  rw [mergeWith, find_foldl_store s.unique, hs]
  cases s.rows.find? fun e => decide (e.1 = k) with
  | none => rfl
  | some e => rfl

theorem find_delete {q : κ × ν → Bool} : (d.delete q).find k = (d.find k).filter fun v => !q (k, v) := by
  refine Option.ext fun v => ?_
  rw [find_eq_some, Table.mem_delete, ← find_eq_some, Option.filter_eq_some_iff, Bool.not_eq_true']

/-- Every value read by `f`; nothing where one cannot be. -/
def mapValues (d : Dict κ ν) (f : ν → Option μ) : Option (Dict κ μ) :=
  (d.rows.mapM fun e => (f e.2).map fun m => (e.1, m)).map ofEntries

omit [DecidableEq κ] in
theorem mapM_values {f : ν → Option μ} {rows : List (κ × ν)} {l : List (κ × μ)}
    (h : (rows.mapM fun e => (f e.2).map fun m => (e.1, m)) = some l) :
    l.map Prod.fst = rows.map Prod.fst ∧ (∀ e ∈ rows, (f e.2).isSome = true) ∧
      ∀ p, p ∈ l ↔ ∃ v, (p.1, v) ∈ rows ∧ f v = some p.2 := by
  induction rows generalizing l with
  | nil =>
    obtain rfl : [] = l := Option.some.inj h
    simp
  | cons e rows ih =>
    rw [List.mapM_cons] at h
    obtain ⟨p, hp, h⟩ := Option.bind_eq_some_iff.mp h
    obtain ⟨rest, hrest, h⟩ := Option.bind_eq_some_iff.mp h
    obtain rfl : p :: rest = l := Option.some.inj h
    obtain ⟨m, hm, rfl⟩ := Option.map_eq_some_iff.mp hp
    obtain ⟨hkeys, hsome, hmem⟩ := ih hrest
    refine ⟨?_, ?_, fun q => ?_⟩
    · rw [List.map_cons, List.map_cons, hkeys]
    · intro e' he'
      rcases List.mem_cons.mp he' with rfl | he'
      · rw [hm]
        rfl
      · exact hsome e' he'
    · rw [List.mem_cons, hmem]
      constructor
      · rintro (rfl | ⟨v, hv, hq⟩)
        · exact ⟨e.2, List.mem_cons_self, hm⟩
        · exact ⟨v, List.mem_cons_of_mem _ hv, hq⟩
      · rintro ⟨v, hv, hq⟩
        rcases List.mem_cons.mp hv with he | hv
        · have hfst : q.1 = e.1 := congrArg Prod.fst he
          have hsnd : v = e.2 := congrArg Prod.snd he
          rw [hsnd, hm] at hq
          exact .inl (Prod.ext hfst (Option.some.inj hq).symm)
        · exact .inr ⟨v, hv, hq⟩

theorem find_mapValues {f : ν → Option μ} {r : Dict κ μ} (h : d.mapValues f = some r) :
    r.find k = (d.find k).bind f ∧ ∀ v, d.find k = some v → (f v).isSome = true := by
  obtain ⟨l, hl, rfl⟩ := Option.map_eq_some_iff.mp h
  obtain ⟨hkeys, hsome, hmem⟩ := mapM_values hl
  have hnodup : (l.map Prod.fst).Nodup := hkeys ▸ d.unique
  refine ⟨Option.ext fun m => ?_, fun v hv => hsome (k, v) (find_eq_some.mp hv)⟩
  rw [find_eq_some, mem_ofEntries hnodup, hmem, Option.bind_eq_some_iff]
  exact exists_congr fun v => and_congr_left fun _ => find_eq_some.symm

end Table

end TraxJourney.Lib
