/-
  File:      Imports/Ownership.lean
  Subject:   Which rows a trip's items name after `_save_trip_activities`, for every project that is
             saved: any activities and items in any order, ids and Strava ids repeated.

  * **`ownership_iff`** -- a save leaves what it has to (`Ownership`) exactly when the rows it keeps had
    different Strava ids and, of the new activities with one, the first is named before the others are.

  Items that name nothing, and those that are no activities, are kept as they are and left out.
-/
import TraxJourney.Imports.Trip
import Mathlib.Data.List.Induction

namespace TraxJourney.Imports

open Lib

/-! ## 1. The stores -/

/-- The stored rows, the trip and what other trips' items name: an item's id is that of a row, and
    a row's id is within 64 bits. -/
structure Trips where
  db : Db
  others : List ℤ
  held_row : ∀ id ∈ db.items, ∃ r ∈ db.activities, r.id = id
  other_row : ∀ id ∈ others, ∃ r ∈ db.activities, r.id = id
  valid : ∀ r ∈ db.activities, isActivityId r.id = true

/-- The item loop of `_save_trip_activities`, each row with the id of the item that it came from. -/
def savedPairs (c : Saved) (st : Saving) : List ℤ → List ℤ → List (ℤ × ℤ)
  | _, [] => []
  | present, id :: items =>
    if isActivityId id ∧ id ∈ c.held then (id, id) :: savedPairs c st present items
    else
      match if isActivityId id then st.rowOf.lookup id else none with
      | none => savedPairs c st present items
      | some rowId =>
        if id ∈ st.readded ∧ rowId ∈ present then savedPairs c st present items
        else (id, rowId) :: savedPairs c st (rowId :: present) items

theorem map_savedPairs (c : Saved) (st : Saving) (present items : List ℤ) :
    (savedPairs c st present items).map Prod.snd = savedItems c st present items := by
  induction items generalizing present with
  | nil => rfl
  | cons id items ih =>
    unfold savedPairs savedItems
    by_cases hheld : isActivityId id = true ∧ id ∈ c.held
    · rw [if_pos hheld, if_pos hheld, List.map_cons, ih]
    · rw [if_neg hheld, if_neg hheld]
      cases hrow : (if isActivityId id = true then st.rowOf.lookup id else none) with
      | none => exact ih present
      | some rowId =>
        by_cases hagain : id ∈ st.readded ∧ rowId ∈ present
        · simp only [if_pos hagain, ih]
        · simp only [if_neg hagain, List.map_cons, ih]

/-- The activities and items that a save leaves, the items with what they came from. -/
def saveTripPairs (db : Db) (project : Project) (draws : ℤ → List ℕ) :
    Option (Table Row Row.id × List (ℤ × ℤ)) :=
  let c := db.saved project.items
  (project.activities.foldlM (Saving.next c draws) ⟨db.activities, [], [], db.byStravaId, []⟩).map
    fun st => (st.table, savedPairs c st (project.items.filter (· ∈ db.items)) project.items)

theorem saveTripActivities_eq (db : Db) (project : Project) (draws : ℤ → List ℕ) :
    saveTripActivities db project draws =
      (saveTripPairs db project draws).map fun (table, pairs) => (table, pairs.map Prod.snd) := by
  simp only [saveTripActivities, saveTripPairs, Option.map_map, Function.comp_def, map_savedPairs]

/-! ## 2. The activities that get a row -/

/-- One activity more: it counts when an item wants it, under the first activity with its id. -/
def addNew (c : Saved) (news : List Activity) (act : Activity) : List Activity :=
  if act.id ∈ c.wanted ∧ act.id ∉ news.map (·.id) then news ++ [act] else news

def newActivities (c : Saved) (acts : List Activity) : List Activity := acts.foldl (addNew c) []

def firstOf (acts : List Activity) (sid : ℤ) : Option Activity :=
  acts.find? fun act => stravaIdentity act == some sid

variable {acts : List Activity} {sid : ℤ}

theorem firstOf_some {act : Activity} (h : firstOf acts sid = some act) :
    act ∈ acts ∧ stravaIdentity act = some sid :=
  ⟨List.mem_of_find?_eq_some h, by simpa using List.find?_some h⟩

theorem firstOf_append {acts' : List Activity} :
    firstOf (acts ++ acts') sid = (firstOf acts sid).or (firstOf acts' sid) := List.find?_append

theorem firstOf_concat {act a : Activity} (h : firstOf acts sid = some a) :
    firstOf (acts ++ [act]) sid = some a := by
  rw [firstOf_append, h]
  rfl

/-- **What the loop has told the items.** Of the activities `news`, those of `made` have a new row of
    their own; each of the others stands for a row with its Strava id, one that the trip held or the
    row made for the first of them. -/
structure Saving.Told (byStrava : List (ℤ × ℤ)) (rows : List Row) (news : List Activity)
    (made : List (Activity × ℤ)) (st : Saving) : Prop where
  table : st.table.rows = rows ++ made.map fun m => newRow m.1 m.2
  nodup : (news.map (·.id)).Nodup
  known : ∀ i, (st.rowOf.lookup i).isSome ↔ i ∈ news.map (·.id)
  own : ∀ m ∈ made, m.1 ∈ news ∧ st.rowOf.lookup m.1.id = some m.2 ∧ m.1.id ∉ st.readded
  told : ∀ a ∈ news, (a.id ∉ st.readded ∧ ∃ x, (a, x) ∈ made) ∨
    (a.id ∈ st.readded ∧ ∃ sid x, stravaIdentity a = some sid ∧ st.rowOf.lookup a.id = some x ∧
      (byStrava.lookup sid = some x ∨
        byStrava.lookup sid = none ∧ ∃ b, (b, x) ∈ made ∧ firstOf news sid = some b ∧ b ≠ a))
  again : ∀ i ∈ st.readded, i ∈ news.map (·.id)
  strava : ∀ sid, st.byStrava.lookup sid = (byStrava.lookup sid).or
    ((made.find? fun m => stravaIdentity m.1 == some sid).map (·.2))
  first : ∀ m ∈ made, ∀ sid, stravaIdentity m.1 = some sid →
    byStrava.lookup sid = none ∧ firstOf news sid = some m.1

section Told

variable {byStrava : List (ℤ × ℤ)} {rows : List Row} {news : List Activity}
  {made : List (Activity × ℤ)} {st : Saving} {act : Activity} {rowId : ℤ}

theorem lookup_cons_ne {l : List (ℤ × ℤ)} {i j x : ℤ} (h : i ≠ j) : ((j, x) :: l).lookup i = l.lookup i := by
  rw [List.lookup_cons, beq_false_of_ne h]

theorem Saving.Told.activities (h : st.Told byStrava rows news made) (acts : List Activity) :
    Saving.Told byStrava rows news made { st with activities := acts } :=
  ⟨h.table, h.nodup, h.known, h.own, h.told, h.again, h.strava, h.first⟩

theorem Saving.Told.known_cons (h : st.Told byStrava rows news made) (i : ℤ) :
    (((act.id, rowId) :: st.rowOf).lookup i).isSome ↔ i ∈ (news ++ [act]).map (·.id) := by
  rw [List.map_append, List.mem_append, ← h.known i]
  by_cases hi : i = act.id
  · simp [hi]
  · rw [lookup_cons_ne hi]
    simp [hi]

theorem nodup_snoc (h : (acts.map (·.id)).Nodup) (hnew : act.id ∉ acts.map (·.id)) :
    ((acts ++ [act]).map (·.id)).Nodup := by
  rw [List.map_append]
  refine List.nodup_append.mpr ⟨h, by simp, fun x hx y hy heq => hnew ?_⟩
  have hy' : y = act.id := by simpa using hy
  rw [heq, hy'] at hx
  exact hx

theorem Saving.Told.readd (h : st.Told byStrava rows news made) (hsid : stravaIdentity act = some sid)
    (hnew : act.id ∉ news.map (·.id)) (hrow : st.byStrava.lookup sid = some rowId) :
    Saving.Told byStrava rows (news ++ [act]) made { st with
      rowOf := (act.id, rowId) :: st.rowOf
      readded := act.id :: st.readded } := by
  have hne : ∀ a ∈ news, a.id ≠ act.id := fun a ha heq => hnew (heq ▸ List.mem_map_of_mem ha)
  have hfirst : ∀ s b, firstOf news s = some b → firstOf (news ++ [act]) s = some b :=
    fun _ _ => firstOf_concat
  refine ⟨h.table, nodup_snoc h.nodup hnew, h.known_cons, fun m hm => ?_, fun a ha => ?_,
    fun i hi => ?_, h.strava, fun m hm s hs => ?_⟩
  · obtain ⟨hnews, hlook, hown⟩ := h.own m hm
    refine ⟨List.mem_append_left _ hnews, ?_, ?_⟩
    · rw [lookup_cons_ne (hne m.1 hnews)]
      exact hlook
    · simp [hne m.1 hnews, hown]
  · rcases List.mem_append.mp ha with ha | ha
    · rcases h.told a ha with ⟨hown, hmade⟩ | ⟨hagain, s, x, hs, hlook, hx⟩
      · exact .inl ⟨by simp [hne a ha, hown], hmade⟩
      · refine .inr ⟨List.mem_cons_of_mem _ hagain, s, x, hs, ?_, ?_⟩
        · rw [lookup_cons_ne (hne a ha)]
          exact hlook
        · rcases hx with hx | ⟨hnone, b, hb, hbfirst, hba⟩
          · exact .inl hx
          · exact .inr ⟨hnone, b, hb, hfirst s b hbfirst, hba⟩
    · -- the new one: its row is that of the trip, or of the first with its Strava id
      obtain rfl : a = act := List.mem_singleton.mp ha
      refine .inr ⟨List.mem_cons_self, sid, rowId, hsid, List.lookup_cons_self, ?_⟩
      rw [h.strava sid] at hrow
      cases hold : byStrava.lookup sid with
      | some x =>
        rw [hold] at hrow
        exact .inl hrow
      | none =>
        rw [hold, Option.none_or] at hrow
        obtain ⟨m, hm, rfl⟩ := Option.map_eq_some_iff.mp hrow
        have hmade := List.mem_of_find?_eq_some hm
        have hms : stravaIdentity m.1 = some sid := by simpa using List.find?_some hm
        refine .inr ⟨rfl, m.1, hmade, hfirst sid m.1 (h.first m hmade sid hms).2, ?_⟩
        rintro rfl
        exact hnew (List.mem_map_of_mem (h.own m hmade).1)
  · rw [List.map_append, List.mem_append]
    rcases List.mem_cons.mp hi with rfl | hi
    · exact .inr (by simp)
    · exact .inl (h.again i hi)
  · obtain ⟨hnone, hfound⟩ := h.first m hm s hs
    exact ⟨hnone, hfirst s m.1 hfound⟩

theorem Saving.Told.make (h : st.Told byStrava rows news made) (hnew : act.id ∉ news.map (·.id))
    (hrow : ((stravaIdentity act).bind fun sid => st.byStrava.lookup sid) = none)
    {table : Table Row Row.id} (htable : table.rows = st.table.rows ++ [newRow act rowId])
    (acts : List Activity) :
    Saving.Told byStrava rows (news ++ [act]) (made ++ [(act, rowId)]) { st with
      table := table
      rowOf := (act.id, rowId) :: st.rowOf
      byStrava := (stravaIdentity act).elim st.byStrava fun sid => (sid, rowId) :: st.byStrava
      activities := acts } := by
  have hne : ∀ a ∈ news, a.id ≠ act.id := fun a ha heq => hnew (heq ▸ List.mem_map_of_mem ha)
  have hfirst : ∀ s b, firstOf news s = some b → firstOf (news ++ [act]) s = some b :=
    fun _ _ => firstOf_concat
  have hread : act.id ∉ st.readded := fun hmem => hnew (h.again _ hmem)
  -- its Strava id is one that neither the trip nor an activity before it has
  have hstrava : ∀ s, stravaIdentity act = some s → byStrava.lookup s = none ∧
      (made.find? fun m => stravaIdentity m.1 == some s) = none := by
    intro s hs
    rw [hs, Option.bind_some, h.strava s, Option.or_eq_none_iff] at hrow
    exact ⟨hrow.1, by simpa using hrow.2⟩
  have hnone : ∀ s, stravaIdentity act = some s → firstOf news s = none := by
    intro s hs
    obtain ⟨hold, hmade⟩ := hstrava s hs
    refine List.find?_eq_none.mpr fun a ha hsame => ?_
    have has : stravaIdentity a = some s := by simpa using hsame
    rcases h.told a ha with ⟨-, x, hx⟩ | ⟨-, s', x, hs', -, hx⟩
    · have hno := List.find?_eq_none.mp hmade (a, x) hx
      simp [has] at hno
    · obtain rfl : s = s' := Option.some.inj (has.symm.trans hs')
      rcases hx with hx | ⟨-, b, hb, hbfirst, -⟩
      · rw [hold] at hx
        cases hx
      · have hno := List.find?_eq_none.mp hmade (b, x) hb
        simp [(firstOf_some hbfirst).2] at hno
  refine ⟨?_, nodup_snoc h.nodup hnew, h.known_cons, fun m hm => ?_, fun a ha => ?_,
    fun i hi => ?_, fun s => ?_, fun m hm s hs => ?_⟩
  · rw [htable, h.table, List.map_append, List.append_assoc]
    rfl
  · rcases List.mem_append.mp hm with hm | hm
    · obtain ⟨hnews, hlook, hown⟩ := h.own m hm
      refine ⟨List.mem_append_left _ hnews, ?_, hown⟩
      rw [lookup_cons_ne (hne m.1 hnews)]
      exact hlook
    · rw [List.mem_singleton.mp hm]
      exact ⟨by simp, List.lookup_cons_self, hread⟩
  · rcases List.mem_append.mp ha with ha | ha
    · rcases h.told a ha with ⟨hown, x, hx⟩ | ⟨hagain, s, x, hs, hlook, hx⟩
      · exact .inl ⟨hown, x, List.mem_append_left _ hx⟩
      · refine .inr ⟨hagain, s, x, hs, ?_, ?_⟩
        · rw [lookup_cons_ne (hne a ha)]
          exact hlook
        · rcases hx with hx | ⟨hold, b, hb, hbfirst, hba⟩
          · exact .inl hx
          · exact .inr ⟨hold, b, List.mem_append_left _ hb, hfirst s b hbfirst, hba⟩
    · rw [List.mem_singleton.mp ha]
      exact .inl ⟨hread, rowId, by simp⟩
  · rw [List.map_append]
    exact List.mem_append_left _ (h.again i hi)
  · rw [List.find?_append, Option.map_or, ← Option.or_assoc, ← h.strava s]
    cases hs : stravaIdentity act with
    | none => simp [hs]
    | some s' =>
      by_cases heq : s = s'
      · have hno : st.byStrava.lookup s = none := by
          rw [hs, Option.bind_some] at hrow
          rw [heq]
          exact hrow
        rw [hno]
        simp [hs, heq]
      · have heq' : s' ≠ s := fun e => heq e.symm
        simp [hs, lookup_cons_ne heq, heq']
  · rcases List.mem_append.mp hm with hm | hm
    · obtain ⟨hold, hfound⟩ := h.first m hm s hs
      exact ⟨hold, hfirst s m.1 hfound⟩
    · rw [List.mem_singleton.mp hm] at hs ⊢
      refine ⟨(hstrava s hs).1, ?_⟩
      rw [firstOf_append, hnone s hs, Option.none_or]
      simp [firstOf, hs]

theorem Saving.next_told {c : Saved} {draws : ℤ → List ℕ} {st' : Saving}
    (hwanted : ∀ i ∈ c.wanted, isActivityId i = true ∧ i ∉ c.held)
    (h : st.Told byStrava rows news made) (hnext : st.next c draws act = some st') :
    ∃ made', st'.Told byStrava rows (addNew c news act) made' := by
  by_cases hnew : act.id ∈ c.wanted ∧ act.id ∉ news.map (·.id)
  · obtain ⟨hmem, hfresh⟩ := hnew
    obtain ⟨hvalid, hheld⟩ := hwanted act.id hmem
    have hlook : (st.rowOf.lookup act.id).isSome = false := by
      rw [Bool.eq_false_iff]
      exact fun hsome => hfresh ((h.known _).mp hsome)
    rw [addNew, if_pos ⟨hmem, hfresh⟩]
    unfold Saving.next at hnext
    dsimp only at hnext
    rw [hvalid, if_neg (by simp), if_neg hheld, if_neg (by simp [hmem, hlook])] at hnext
    cases hrow : (stravaIdentity act).bind fun s => st.byStrava.lookup s with
    | some rowId =>
      rw [hrow] at hnext
      obtain rfl := Option.some.inj hnext
      obtain ⟨sid, hsid, hsrow⟩ := Option.bind_eq_some_iff.mp hrow
      exact ⟨made, h.readd hsid hfresh hsrow⟩
    | none =>
      rw [hrow] at hnext
      simp only [Option.bind_eq_bind, Option.bind_eq_some_iff] at hnext
      obtain ⟨rowId, -, table, htable, hst⟩ := hnext
      obtain rfl := Option.some.inj hst
      refine ⟨made ++ [(act, rowId)], h.make hfresh hrow ?_ _⟩
      unfold Table.insert at htable
      split at htable
      · cases htable
      · cases htable
        rfl
  · -- nothing but the activities that are carried back changes
    rw [addNew, if_neg hnew]
    have hsame : ∃ acts, st' = { st with activities := acts } := by
      unfold Saving.next at hnext
      dsimp only at hnext
      split at hnext
      · exact ⟨_, (Option.some.inj hnext).symm⟩
      · split at hnext
        · split at hnext
          · split at hnext
            · exact ⟨_, (Option.some.inj hnext).symm⟩
            · exact ⟨_, (Option.some.inj hnext).symm⟩
          · exact ⟨_, (Option.some.inj hnext).symm⟩
        · have hskip : act.id ∉ c.wanted ∨ (st.rowOf.lookup act.id).isSome := by
            rw [h.known]
            by_cases hmem : act.id ∈ c.wanted
            · exact .inr (Classical.not_not.mp fun hno => hnew ⟨hmem, hno⟩)
            · exact .inl hmem
          rw [if_pos hskip] at hnext
          exact ⟨_, (Option.some.inj hnext).symm⟩
    obtain ⟨acts, rfl⟩ := hsame
    exact ⟨made, h.activities acts⟩

theorem Saving.foldlM_told {c : Saved} {draws : ℤ → List ℕ} {st' : Saving}
    (hwanted : ∀ i ∈ c.wanted, isActivityId i = true ∧ i ∉ c.held) (h : st.Told byStrava rows news made)
    (hrun : acts.foldlM (Saving.next c draws) st = some st') :
    ∃ made', st'.Told byStrava rows (acts.foldl (addNew c) news) made' := by
  induction acts generalizing st news made with
  | nil =>
    obtain rfl := Option.some.inj hrun
    exact ⟨made, h⟩
  | cons act acts ih =>
    rw [List.foldlM_cons] at hrun
    obtain ⟨st₁, hnext, hrest⟩ := Option.bind_eq_some_iff.mp hrun
    obtain ⟨made₁, h₁⟩ := Saving.next_told hwanted h hnext
    exact ih h₁ hrest

end Told

/-! ## 3. The items -/

/-- The row that the loop has told an item that the trip did not hold. -/
def rowOfItem (c : Saved) (st : Saving) (id : ℤ) : Option ℤ :=
  if isActivityId id ∧ id ∉ c.held then st.rowOf.lookup id else none

/-- An item that the trip did not hold ends up naming `x`: it was told `x`, and if it was added again
    no item before it, or held one, has `x`. -/
def Shown (c : Saved) (st : Saving) (present items : List ℤ) (i x : ℤ) : Prop :=
  ∃ before after, items = before ++ i :: after ∧ rowOfItem c st i = some x ∧
    ¬ (i ∈ st.readded ∧ (x ∈ present ∨ ∃ j ∈ before, rowOfItem c st j = some x))

variable {c : Saved}

theorem shown_cons {st : Saving} {present present' items : List ℤ} {id i x : ℤ}
    (hpresent : ∀ y, y ∈ present' ↔ y ∈ present ∨ rowOfItem c st id = some y) :
    Shown c st present (id :: items) i x ↔
      (i = id ∧ rowOfItem c st i = some x ∧ ¬ (i ∈ st.readded ∧ x ∈ present)) ∨
      Shown c st present' items i x := by
  constructor
  · rintro ⟨before, after, heq, hrow, hno⟩
    cases before with
    | nil =>
      obtain ⟨rfl, -⟩ := List.cons.inj heq
      exact .inl ⟨rfl, hrow, by simpa using hno⟩
    | cons b before =>
      obtain ⟨rfl, hrest⟩ := List.cons.inj heq
      refine .inr ⟨before, after, hrest, hrow, ?_⟩
      simpa only [hpresent, List.mem_cons, exists_eq_or_imp, or_assoc] using hno
  · rintro (⟨rfl, hrow, hno⟩ | ⟨before, after, heq, hrow, hno⟩)
    · exact ⟨[], items, rfl, hrow, by simpa using hno⟩
    · refine ⟨id :: before, after, by rw [heq]; rfl, hrow, ?_⟩
      simpa only [hpresent, List.mem_cons, exists_eq_or_imp, or_assoc] using hno

theorem mem_savedPairs {st : Saving} {present items : List ℤ} {i x : ℤ} :
    (i, x) ∈ savedPairs c st present items ↔
      (i ∈ items ∧ isActivityId i = true ∧ i ∈ c.held ∧ x = i) ∨ Shown c st present items i x := by
  induction items generalizing present with
  | nil => simp [savedPairs, Shown]
  | cons id items ih =>
    unfold savedPairs
    by_cases hheld : isActivityId id = true ∧ id ∈ c.held
    · have hnone : rowOfItem c st id = none := by simp [rowOfItem, hheld.2]
      have hpresent : ∀ y, y ∈ present ↔ y ∈ present ∨ rowOfItem c st id = some y := by simp [hnone]
      rw [if_pos hheld, List.mem_cons, ih, shown_cons hpresent]
      by_cases hi : i = id
      · subst hi
        simp only [Prod.mk.injEq, true_and, hheld, hnone, List.mem_cons, true_or, reduceCtorEq,
          false_and, false_or]
        constructor
        · rintro (h | ⟨-, h⟩ | h)
          · exact .inl h
          · exact .inl h
          · exact .inr h
        · rintro (h | h)
          · exact .inl h
          · exact .inr (.inr h)
      · simp [hi]
    · have hrow : (if isActivityId id = true then st.rowOf.lookup id else none) =
          rowOfItem c st id := by
        by_cases hvalid : isActivityId id = true
        · have hout : id ∉ c.held := fun hin => hheld ⟨hvalid, hin⟩
          simp [rowOfItem, hvalid, hout]
        · simp [rowOfItem, hvalid]
      have hself : ¬ (i = id ∧ isActivityId i = true ∧ i ∈ c.held ∧ x = i) := by
        rintro ⟨rfl, hvalid, hin, -⟩
        exact hheld ⟨hvalid, hin⟩
      rw [if_neg hheld, hrow, List.mem_cons, or_and_right, or_iff_right hself]
      cases htold : rowOfItem c st id with
      | none =>
        have hno : ¬ (i = id ∧ rowOfItem c st i = some x ∧ ¬ (i ∈ st.readded ∧ x ∈ present)) := by
          rintro ⟨rfl, hsome, -⟩
          rw [htold] at hsome
          cases hsome
        have hpresent : ∀ y, y ∈ present ↔ y ∈ present ∨ rowOfItem c st id = some y := by simp [htold]
        rw [ih, shown_cons hpresent, or_iff_right hno]
      | some rowId =>
        by_cases hagain : id ∈ st.readded ∧ rowId ∈ present
        · have hpresent : ∀ y, y ∈ present ↔ y ∈ present ∨ rowOfItem c st id = some y := by
            intro y
            rw [htold]
            refine ⟨.inl, fun hy => hy.elim (fun h => h) fun h => ?_⟩
            exact Option.some.inj h ▸ hagain.2
          have hno : ¬ (i = id ∧ rowOfItem c st i = some x ∧ ¬ (i ∈ st.readded ∧ x ∈ present)) := by
            rintro ⟨rfl, hsome, hfree⟩
            rw [htold] at hsome
            exact hfree (Option.some.inj hsome ▸ hagain)
          simp only [if_pos hagain]
          rw [ih, shown_cons hpresent, or_iff_right hno]
        · have hpresent : ∀ y, y ∈ rowId :: present ↔ y ∈ present ∨ rowOfItem c st id = some y := by
            intro y
            rw [htold, List.mem_cons, Option.some.injEq, eq_comm, or_comm]
          have hpair : (i, x) = (id, rowId) ↔ i = id ∧ rowOfItem c st i = some x ∧
              ¬ (i ∈ st.readded ∧ x ∈ present) := by
            rw [Prod.mk.injEq]
            constructor
            · rintro ⟨rfl, rfl⟩
              exact ⟨rfl, htold, hagain⟩
            · rintro ⟨rfl, hsome, -⟩
              rw [htold] at hsome
              exact ⟨rfl, (Option.some.inj hsome).symm⟩
          simp only [if_neg hagain]
          rw [List.mem_cons, hpair, ih, shown_cons hpresent, or_left_comm]

/-! ## 4. Ownership -/

/-- **What a save has to leave**: the stored rows as they were and new ones made of the project's
    activities; items that name rows the trip held or new ones, and no row that another trip holds;
    one row for each Strava id; and different rows for different activities. -/
structure Ownership (t : Trips) (project : Project) (table : Table Row Row.id)
    (pairs : List (ℤ × ℤ)) : Prop where
  named : ∃ created, table.rows = t.db.activities.rows ++ created ∧
    (∀ r ∈ created, ∃ act ∈ project.activities, r = newRow act r.id) ∧
    ∀ p ∈ pairs, p.2 ∈ t.db.items ∨ p.2 ∈ created.map (·.id)
  others : ∀ p ∈ pairs, p.2 ∈ t.others → p.2 ∈ t.db.items
  strava : ∀ r ∈ table, ∀ r' ∈ table, r.id ∈ pairs.map Prod.snd → r'.id ∈ pairs.map Prod.snd →
    r.stravaId.isSome → r.stravaId = r'.stravaId → r = r'
  apart : ∀ i j x, (i, x) ∈ pairs → (j, x) ∈ pairs → i = j

/-- The activities of a project that its save gives a row or finds one for. -/
def Trips.news (t : Trips) (project : Project) : List Activity :=
  newActivities (t.db.saved project.items) project.activities

/-- A row of the trip that the save keeps: an item names it, or it stands for a new activity. -/
def Trips.Keeps (t : Trips) (project : Project) (r : Row) : Prop :=
  r ∈ t.db.tripRows ∧ (r.id ∈ project.items ∨ ∃ a ∈ t.news project, ∃ sid,
    stravaIdentity a = some sid ∧ t.db.byStravaId.lookup sid = some r.id)

/-- The rows that are kept had different Strava ids. -/
def Trips.KeptOnce (t : Trips) (project : Project) : Prop :=
  ∀ r r', t.Keeps project r → t.Keeps project r' → r.stravaId.isSome → r.stravaId = r'.stravaId → r = r'

/-- **Of the new activities with one Strava id that no row of the trip has, the first is named by an
    item before the others are.** -/
def Trips.InOrder (t : Trips) (project : Project) : Prop :=
  ∀ a ∈ t.news project, ∀ sid ∈ stravaIdentity a, t.db.byStravaId.lookup sid = none →
    ∀ b ∈ firstOf (t.news project) sid, project.items.idxOf b.id ≤ project.items.idxOf a.id

instance (t : Trips) (project : Project) : Decidable (t.InOrder project) :=
  inferInstanceAs (Decidable (∀ a ∈ t.news project, ∀ sid ∈ stravaIdentity a,
    t.db.byStravaId.lookup sid = none → ∀ b ∈ firstOf (t.news project) sid, _))

section Lists

theorem addNew_mem {news : List Activity} {act a : Activity} (h : a ∈ addNew c news act) :
    a ∈ news ∨ a = act ∧ a.id ∈ c.wanted := by
  unfold addNew at h
  split at h
  case isTrue hnew =>
    rcases List.mem_append.mp h with h | h
    · exact .inl h
    · obtain rfl : a = act := List.mem_singleton.mp h
      exact .inr ⟨rfl, hnew.1⟩
  case isFalse => exact .inl h

theorem newActivities_mem {news : List Activity} {a : Activity} (h : a ∈ acts.foldl (addNew c) news) :
    a ∈ news ∨ a ∈ acts ∧ a.id ∈ c.wanted := by
  induction acts generalizing news with
  | nil => exact .inl h
  | cons act acts ih =>
    rcases ih h with h | ⟨hmem, hwanted⟩
    · rcases addNew_mem h with h | ⟨rfl, hwanted⟩
      · exact .inl h
      · exact .inr ⟨List.mem_cons_self, hwanted⟩
    · exact .inr ⟨List.mem_cons_of_mem _ hmem, hwanted⟩

theorem lookup_filter_ne {l : List (ℤ × ℤ)} {k k' : ℤ} (h : k ≠ k') :
    (l.filter fun f => f.1 != k').lookup k = l.lookup k := by
  induction l with
  | nil => rfl
  | cons f l ih =>
    by_cases hf : f.1 = k'
    · have hkf : k ≠ f.1 := fun heq => h (heq.trans hf)
      rw [List.filter_cons_of_neg (by simp [hf]), ih]
      exact (lookup_cons_ne hkf).symm
    · rw [List.filter_cons_of_pos (by simp [hf]), List.lookup_cons, List.lookup_cons, ih]

theorem dict_snoc (pairs : List (ℤ × ℤ)) (k v : ℤ) :
    dict (pairs ++ [(k, v)]) = (k, v) :: (dict pairs).filter fun f => f.1 != k := by
  rw [dict, List.foldl_append]
  rfl

theorem dict_lookup (pairs : List (ℤ × ℤ)) (k : ℤ) : (∀ v, (dict pairs).lookup k = some v → (k, v) ∈ pairs) ∧
    (∀ v, (k, v) ∈ pairs → ((dict pairs).lookup k).isSome) := by
  induction pairs using List.reverseRecOn with
  | nil => exact ⟨fun v hv => by simp [dict] at hv, fun v hv => absurd hv List.not_mem_nil⟩
  | append_singleton pairs e ih =>
    obtain ⟨k', v'⟩ := e
    rw [dict_snoc]
    by_cases hk : k = k'
    · subst hk
      refine ⟨fun v hv => ?_, fun v _ => ?_⟩
      · rw [List.lookup_cons_self] at hv
        rw [← Option.some.inj hv]
        simp
      · rw [List.lookup_cons_self]
        rfl
    · rw [lookup_cons_ne hk, lookup_filter_ne hk]
      refine ⟨fun v hv => List.mem_append_left _ (ih.1 v hv), fun v hv => ?_⟩
      rcases List.mem_append.mp hv with hv | hv
      · exact ih.2 v hv
      · exact absurd (congrArg Prod.fst (List.mem_singleton.mp hv)) hk

variable {l before after : List ℤ}

theorem split_order {before' after' : List ℤ} {i j : ℤ} (h : l = before ++ i :: after)
    (h' : l = before' ++ j :: after') (hne : i ≠ j) :
    i ∈ before' ∨ j ∈ before := by
  rw [h] at h'
  rcases List.append_eq_append_iff.mp h' with ⟨mid, hmid, hrest⟩ | ⟨mid, hmid, hrest⟩
  · cases mid with
    | nil => exact absurd (List.cons.inj hrest).1 hne
    | cons m mid =>
      obtain ⟨rfl, -⟩ := List.cons.inj hrest
      exact .inl (by simp [hmid])
  · cases mid with
    | nil => exact absurd (List.cons.inj hrest).1.symm hne
    | cons m mid =>
      obtain ⟨rfl, -⟩ := List.cons.inj hrest
      exact .inr (by simp [hmid])

theorem idxOf_split_le {i : ℤ} (h : l = before ++ i :: after) :
    l.idxOf i ≤ before.length := by
  rw [h]
  by_cases hmem : i ∈ before
  · rw [List.idxOf_append_of_mem hmem]
    exact Nat.le_of_lt (List.idxOf_lt_length_iff.mpr hmem)
  · rw [List.idxOf_append_of_notMem hmem, List.idxOf_cons_self]
    exact Nat.le_refl _

theorem le_idxOf_split {i j : ℤ} (h : l = before ++ j :: after) (hmem : i ∉ before) :
    before.length ≤ l.idxOf i := by
  rw [h, List.idxOf_append_of_notMem hmem]
  exact Nat.le_add_right _ _

end Lists

/-- What the theorem below works with: a save that has run, and what it told. -/
structure SavedRun (t : Trips) (project : Project) (table : Table Row Row.id)
    (pairs : List (ℤ × ℤ)) (made : List (Activity × ℤ)) (st : Saving) : Prop where
  told : st.Told t.db.byStravaId t.db.activities.rows (t.news project) made
  table_eq : table = st.table
  pairs_eq : pairs = savedPairs (t.db.saved project.items) st
    (project.items.filter (· ∈ t.db.items)) project.items

section Run

variable {t : Trips} {project : Project} {table : Table Row Row.id} {pairs : List (ℤ × ℤ)}
  {made : List (Activity × ℤ)} {st : Saving} {a b : Activity} {i j x sid : ℤ}

theorem Trips.wanted (t : Trips) {items : List ℤ} (h : i ∈ (t.db.saved items).wanted) :
    i ∈ items ∧ isActivityId i = true ∧ i ∉ t.db.items := by
  obtain ⟨hmem, hcond⟩ := List.mem_filter.mp h
  rw [Bool.and_eq_true, decide_eq_true_eq] at hcond
  exact ⟨hmem, hcond.1, hcond.2⟩

theorem Trips.news_mem (h : a ∈ t.news project) : a ∈ project.activities ∧
    a.id ∈ project.items ∧ isActivityId a.id = true ∧ a.id ∉ t.db.items := by
  rcases newActivities_mem h with hnone | ⟨hmem, hwanted⟩
  · exact absurd hnone List.not_mem_nil
  · exact ⟨hmem, t.wanted hwanted⟩

theorem saveTripPairs_run {draws : ℤ → List ℕ} (h : saveTripPairs t.db project draws = some (table, pairs)) :
    ∃ made st, SavedRun t project table pairs made st := by
  obtain ⟨st, hst, heq⟩ := Option.map_eq_some_iff.mp h
  have hstart : Saving.Told t.db.byStravaId t.db.activities.rows [] []
      ⟨t.db.activities, [], [], t.db.byStravaId, []⟩ :=
    ⟨by simp, .nil, by simp, by simp, by simp, by simp, by simp, by simp⟩
  obtain ⟨made, htold⟩ :=
    Saving.foldlM_told (c := t.db.saved project.items) (fun i hi => (t.wanted hi).2) hstart hst
  obtain ⟨htable, hpairs⟩ := Prod.mk.inj heq
  exact ⟨made, st, htold, htable.symm, hpairs.symm⟩

theorem Trips.byStrava_some (h : t.db.byStravaId.lookup sid = some x) :
    ∃ r ∈ t.db.tripRows, r.id = x ∧ r.stravaId = some sid := by
  have hpair := (dict_lookup _ sid).1 x h
  obtain ⟨r, hr, heq⟩ := List.mem_filterMap.mp hpair
  obtain ⟨sid', hsid, heq⟩ := Option.map_eq_some_iff.mp heq
  obtain ⟨rfl, rfl⟩ := Prod.mk.inj heq
  exact ⟨r, hr, rfl, hsid⟩

theorem Trips.byStrava_none (h : t.db.byStravaId.lookup sid = none) {r : Row}
    (hr : r ∈ t.db.tripRows) : r.stravaId ≠ some sid := by
  intro hsid
  have hpair : (sid, r.id) ∈ t.db.tripRows.filterMap fun r => r.stravaId.map fun s => (s, r.id) :=
    List.mem_filterMap.mpr ⟨r, hr, by rw [hsid]; rfl⟩
  have hsome := (dict_lookup _ sid).2 r.id hpair
  rw [Db.byStravaId] at h
  rw [h] at hsome
  cases hsome

theorem SavedRun.rows (h : SavedRun t project table pairs made st) :
    table.rows = t.db.activities.rows ++ made.map fun m => newRow m.1 m.2 :=
  h.table_eq ▸ h.told.table

theorem SavedRun.fresh (h : SavedRun t project table pairs made st) :
    (∀ m ∈ made, ∀ r ∈ t.db.activities, r.id ≠ m.2) ∧
    ∀ m ∈ made, ∀ m' ∈ made, m.2 = m'.2 → m = m' := by
  have hnodup := table.unique
  rw [h.rows, List.map_append, List.nodup_append, List.map_map] at hnodup
  obtain ⟨-, hmade, hapart⟩ := hnodup
  refine ⟨fun m hm r hr heq => ?_, fun m hm m' hm' heq => ?_⟩
  · exact hapart r.id (List.mem_map_of_mem hr) m.2 (List.mem_map.mpr ⟨m, hm, rfl⟩) heq
  · exact List.inj_on_of_nodup_map hmade hm hm' heq

theorem SavedRun.not_held (h : SavedRun t project table pairs made st) (hm : (a, x) ∈ made) :
    x ∉ t.db.items := by
  intro hx
  obtain ⟨r, hr, hid⟩ := t.held_row x hx
  exact h.fresh.1 (a, x) hm r hr hid

theorem SavedRun.told_row (h : SavedRun t project table pairs made st)
    (hrow : rowOfItem (t.db.saved project.items) st i = some x) :
    ∃ a ∈ t.news project, a.id = i ∧ ((i ∉ st.readded ∧ (a, x) ∈ made) ∨
      (i ∈ st.readded ∧ ∃ sid, stravaIdentity a = some sid ∧
        (t.db.byStravaId.lookup sid = some x ∨ t.db.byStravaId.lookup sid = none ∧
          ∃ b, (b, x) ∈ made ∧ firstOf (t.news project) sid = some b ∧ b ≠ a))) := by
  unfold rowOfItem at hrow
  split at hrow
  case isFalse => cases hrow
  case isTrue =>
    have hmem := (h.told.known i).mp (Option.isSome_iff_exists.mpr ⟨x, hrow⟩)
    obtain ⟨a, ha, rfl⟩ := List.mem_map.mp hmem
    refine ⟨a, ha, rfl, ?_⟩
    rcases h.told.told a ha with ⟨hown, y, hy⟩ | ⟨hagain, sid, y, hsid, hlook, hy⟩
    · have heq : x = y := Option.some.inj (hrow.symm.trans (h.told.own (a, y) hy).2.1)
      exact .inl ⟨hown, heq ▸ hy⟩
    · obtain rfl : x = y := Option.some.inj (hrow.symm.trans hlook)
      exact .inr ⟨hagain, sid, hsid, hy⟩

theorem rowOfItem_new (st : Saving) (ha : a ∈ t.news project) :
    rowOfItem (t.db.saved project.items) st a.id = st.rowOf.lookup a.id := by
  obtain ⟨-, -, hvalid, hout⟩ := t.news_mem ha
  exact if_pos ⟨hvalid, hout⟩

theorem SavedRun.pair_cases (h : SavedRun t project table pairs made st) (hp : (i, x) ∈ pairs) :
    (x ∈ t.db.items ∧ (x ∈ project.items ∨ ∃ a ∈ t.news project, ∃ sid,
      stravaIdentity a = some sid ∧ t.db.byStravaId.lookup sid = some x)) ∨
    ∃ a, (a, x) ∈ made := by
  rw [h.pairs_eq, mem_savedPairs] at hp
  rcases hp with ⟨hmem, -, hheld, rfl⟩ | ⟨_, _, _, hrow, _⟩
  · exact .inl ⟨hheld, .inl hmem⟩
  · obtain ⟨a, ha, -, ⟨-, hm⟩ | ⟨-, sid, hsid, hx | ⟨-, b, hb, -⟩⟩⟩ := h.told_row hrow
    · exact .inr ⟨a, hm⟩
    · obtain ⟨r, hr, rfl, -⟩ := t.byStrava_some hx
      exact .inl ⟨(Db.mem_tripRows.mp hr).2, .inr ⟨a, ha, sid, hsid, hx⟩⟩
    · exact .inr ⟨b, hb⟩

theorem SavedRun.shown_first (h : SavedRun t project table pairs made st) (hi : i ∈ project.items)
    (hrow : rowOfItem (t.db.saved project.items) st i = some x)
    (hpresent : x ∉ project.items.filter (· ∈ t.db.items)) :
    ∃ j before after, project.items = before ++ j :: after ∧ i ∉ before ∧ (j, x) ∈ pairs := by
  have hsome : (project.items.find? fun k =>
      rowOfItem (t.db.saved project.items) st k == some x).isSome := by
    rw [List.find?_isSome]
    exact ⟨i, hi, by simp [hrow]⟩
  obtain ⟨j, hfind⟩ := Option.isSome_iff_exists.mp hsome
  obtain ⟨hj, before, after, hsplit, hbefore⟩ := List.find?_eq_some_iff_append.mp hfind
  have hno : ∀ k ∈ before, rowOfItem (t.db.saved project.items) st k ≠ some x := by
    intro k hk
    simpa using hbefore k hk
  refine ⟨j, before, after, hsplit, fun hmem => hno i hmem hrow, ?_⟩
  rw [h.pairs_eq, mem_savedPairs]
  refine .inr ⟨before, after, hsplit, by simpa using hj, ?_⟩
  rintro ⟨-, hx | ⟨k, hk, hkrow⟩⟩
  · exact hpresent hx
  · exact hno k hk hkrow

theorem SavedRun.keeps_named (h : SavedRun t project table pairs made st) {r : Row}
    (hr : t.Keeps project r) : r.id ∈ pairs.map Prod.snd := by
  obtain ⟨htrip, hkept⟩ := hr
  obtain ⟨hmem, hheld⟩ := Db.mem_tripRows.mp htrip
  -- an item that names it keeps doing so
  have hitem : r.id ∈ project.items → r.id ∈ pairs.map Prod.snd := by
    intro hin
    refine List.mem_map.mpr ⟨(r.id, r.id), ?_, rfl⟩
    rw [h.pairs_eq, mem_savedPairs]
    exact .inl ⟨hin, t.valid r hmem, hheld, rfl⟩
  rcases hkept with hin | ⟨a, ha, sid, hsid, hlook⟩
  · exact hitem hin
  · by_cases hin : r.id ∈ project.items
    · exact hitem hin
    · have hrow : st.rowOf.lookup a.id = some r.id := by
        rcases h.told.told a ha with ⟨-, x, hx⟩ | ⟨-, sid', x, hsid', hx, hcase⟩
        · -- the activity has no row of its own: its Strava id had one
          have hnone := (h.told.first (a, x) hx sid hsid).1
          rw [hlook] at hnone
          cases hnone
        · obtain rfl : sid = sid' := Option.some.inj (hsid.symm.trans hsid')
          rcases hcase with hold | ⟨hnone, -⟩
          · rw [hx, Option.some.inj (hold.symm.trans hlook)]
          · rw [hlook] at hnone
            cases hnone
      have hrow' := (rowOfItem_new st ha).trans hrow
      have hpresent : r.id ∉ project.items.filter (· ∈ t.db.items) :=
        fun hmem => hin (List.mem_of_mem_filter hmem)
      obtain ⟨j, -, -, -, -, hj⟩ := h.shown_first (t.news_mem ha).2.1 hrow' hpresent
      exact List.mem_map.mpr ⟨(j, r.id), hj, rfl⟩

theorem SavedRun.strava_iff (h : SavedRun t project table pairs made st) :
    (∀ r ∈ table, ∀ r' ∈ table, r.id ∈ pairs.map Prod.snd → r'.id ∈ pairs.map Prod.snd →
      r.stravaId.isSome → r.stravaId = r'.stravaId → r = r') ↔ t.KeptOnce project := by
  have hold : ∀ r ∈ t.db.activities, r ∈ table := by
    intro r hr
    rw [Table.mem_def, h.rows]
    exact List.mem_append_left _ hr
  constructor
  · intro hone r r' hr hr' hsome heq
    exact hone r (hold r (Db.mem_tripRows.mp hr.1).1) r' (hold r' (Db.mem_tripRows.mp hr'.1).1)
      (h.keeps_named hr) (h.keeps_named hr') hsome heq
  · -- a row that an item names is one that is kept, or one that was made
    have hcases : ∀ r ∈ table, r.id ∈ pairs.map Prod.snd →
        t.Keeps project r ∨ ∃ a, (a, r.id) ∈ made ∧ r = newRow a r.id := by
      intro r hr hnamed
      obtain ⟨⟨i, x⟩, hp, rfl⟩ := List.mem_map.mp hnamed
      rw [Table.mem_def, h.rows] at hr
      rcases List.mem_append.mp hr with hr | hr
      · rcases h.pair_cases hp with ⟨hheld, hkept⟩ | ⟨a, ha⟩
        · exact .inl ⟨Db.mem_tripRows.mpr ⟨hr, hheld⟩, hkept⟩
        · exact absurd rfl (h.fresh.1 (a, r.id) ha r hr)
      · obtain ⟨m, hm, rfl⟩ := List.mem_map.mp hr
        exact .inr ⟨m.1, hm, rfl⟩
    -- a row that was made has a Strava id that no row of the trip had
    have hmade : ∀ {r r' : Row} {a : Activity}, t.Keeps project r → (a, r'.id) ∈ made →
        r' = newRow a r'.id → r.stravaId.isSome → r.stravaId ≠ r'.stravaId := by
      intro r r' a hr ha hr' hsome heq
      obtain ⟨sid, hsid⟩ := Option.isSome_iff_exists.mp hsome
      have hasid : stravaIdentity a = some sid := by
        have hrow : r'.stravaId = stravaIdentity a := by rw [hr']; rfl
        rw [← hrow, ← heq, hsid]
      exact t.byStrava_none (h.told.first (a, r'.id) ha sid hasid).1 hr.1 hsid
    intro hone r hr r' hr' hnamed hnamed' hsome heq
    rcases hcases r hr hnamed with hkeep | ⟨a, ha, hra⟩
    · rcases hcases r' hr' hnamed' with hkeep' | ⟨b, hb, hrb⟩
      · exact hone r r' hkeep hkeep' hsome heq
      · exact absurd heq (hmade hkeep hb hrb hsome)
    · rcases hcases r' hr' hnamed' with hkeep' | ⟨b, hb, hrb⟩
      · exact absurd heq.symm (hmade hkeep' ha hra (heq ▸ hsome))
      · obtain ⟨sid, hsid⟩ := Option.isSome_iff_exists.mp hsome
        have hstrava : ∀ {r : Row} {a : Activity}, r = newRow a r.id → r.stravaId = stravaIdentity a := by
          intro r a hr
          rw [hr]
          rfl
        have hasid : stravaIdentity a = some sid := by rw [← hstrava hra, hsid]
        have hbsid : stravaIdentity b = some sid := by rw [← hstrava hrb, ← heq, hsid]
        have hfirst := (h.told.first (a, r.id) ha sid hasid).2
        have hfirst' := (h.told.first (b, r'.id) hb sid hbsid).2
        obtain rfl : a = b := Option.some.inj (hfirst.symm.trans hfirst')
        have hid : r.id = r'.id := Option.some.inj
          ((h.told.own (a, r.id) ha).2.1.symm.trans (h.told.own (a, r'.id) hb).2.1)
        rw [hra, hrb, hid]

theorem SavedRun.apart_iff (h : SavedRun t project table pairs made st) :
    (∀ i j x, (i, x) ∈ pairs → (j, x) ∈ pairs → i = j) ↔ t.InOrder project := by
  constructor
  · intro hapart a ha sid hsid hnone b hfirst
    refine Nat.le_of_not_lt fun hlt => ?_
    obtain ⟨hbmem, hbsid⟩ := firstOf_some hfirst
    have hne : a ≠ b := by
      rintro rfl
      exact Nat.lt_irrefl _ hlt
    -- the first has a row of its own, which the other stands for
    have hbown : b.id ∉ st.readded ∧ ∃ x, (b, x) ∈ made := by
      rcases h.told.told b hbmem with hown | ⟨-, sid', x, hsid', -, hcase⟩
      · exact hown
      · obtain rfl : sid = sid' := Option.some.inj (hbsid.symm.trans hsid')
        rcases hcase with hold | ⟨-, b', -, hfirst', hb'⟩
        · rw [hnone] at hold
          cases hold
        · exact absurd (Option.some.inj (hfirst'.symm.trans hfirst)) hb'
    obtain ⟨hbown, x, hbx⟩ := hbown
    have hbrow : rowOfItem (t.db.saved project.items) st b.id = some x :=
      (rowOfItem_new st hbmem).trans (h.told.own (b, x) hbx).2.1
    have harow : rowOfItem (t.db.saved project.items) st a.id = some x := by
      rw [rowOfItem_new st ha]
      rcases h.told.told a ha with ⟨-, y, hy⟩ | ⟨-, sid', y, hsid', hlook, hcase⟩
      · exact absurd (Option.some.inj ((h.told.first (a, y) hy sid hsid).2.symm.trans hfirst)) hne
      · obtain rfl : sid = sid' := Option.some.inj (hsid.symm.trans hsid')
        rcases hcase with hold | ⟨-, b', hb', hfirst', -⟩
        · rw [hnone] at hold
          cases hold
        · obtain rfl : b' = b := Option.some.inj (hfirst'.symm.trans hfirst)
          rw [hlook, ← (h.told.own (b', y) hb').2.1, (h.told.own (b', x) hbx).2.1]
    have hpresent : x ∉ project.items.filter (· ∈ t.db.items) := by
      intro hmem
      exact h.not_held hbx (by simpa using (List.mem_filter.mp hmem).2)
    -- so does an item before the first's
    obtain ⟨j, before, after, hsplit, hbefore, hj⟩ := h.shown_first (t.news_mem ha).2.1 harow hpresent
    have hjb : j = b.id := by
      refine hapart j b.id x hj ?_
      obtain ⟨before', after', hsplit'⟩ := List.append_of_mem (t.news_mem hbmem).2.1
      rw [h.pairs_eq, mem_savedPairs]
      exact .inr ⟨before', after', hsplit', hbrow, fun hagain => hbown hagain.1⟩
    have hle : before.length ≤ project.items.idxOf a.id := le_idxOf_split hsplit hbefore
    have hle' : project.items.idxOf b.id ≤ before.length := hjb ▸ idxOf_split_le hsplit
    omega
  · intro horder i j x hi hj
    refine Classical.byContradiction fun hne => ?_
    -- a held item and one that was told: the row is the trip's, and the other was left out
    have hheldTold : ∀ {i j : ℤ}, (i ∈ project.items ∧ isActivityId i = true ∧ i ∈ t.db.items ∧
        x = i) → ¬ Shown (t.db.saved project.items) st
          (project.items.filter (· ∈ t.db.items)) project.items j x := by
      rintro i j ⟨hmem, -, hheld, rfl⟩ ⟨before, after, -, hrow, hno⟩
      obtain ⟨a, -, -, ⟨-, hm⟩ | ⟨hagain, sid, -, hx | ⟨-, b, hb, -⟩⟩⟩ := h.told_row hrow
      · exact h.not_held hm hheld
      · exact hno ⟨hagain, .inl (List.mem_filter.mpr ⟨hmem, by simpa using hheld⟩)⟩
      · exact h.not_held hb hheld
    -- the row made for one activity, told to another
    have hownAgain : ∀ {i j : ℤ} {a : Activity}, i ≠ j → a ∈ t.news project → a.id = i →
        (a, x) ∈ made → ¬ (j ∈ st.readded ∧ Shown (t.db.saved project.items) st
          (project.items.filter (· ∈ t.db.items)) project.items j x) := by
      rintro i j a hij ha rfl ham ⟨hagain, before, after, hsplit, hrow, hno⟩
      obtain ⟨b, hb, rfl, ⟨hown, -⟩ | ⟨-, sid, hsid, hx | ⟨hnone, a', ha', hfirst, -⟩⟩⟩ := h.told_row hrow
      · exact hown hagain
      · obtain ⟨r, hr, rfl, -⟩ := t.byStrava_some hx
        exact h.not_held ham (Db.mem_tripRows.mp hr).2
      · obtain rfl : a' = a := congrArg Prod.fst (h.fresh.2 (a', x) ha' (a, x) ham rfl)
        have hle := horder b hb sid hsid hnone a' hfirst
        -- the first is named before this item
        have hbefore : a'.id ∈ before := by
          refine Classical.byContradiction fun hmem => ?_
          have hb' : project.items.idxOf b.id ≤ before.length := idxOf_split_le hsplit
          have ha'' : before.length < project.items.idxOf a'.id := by
            rw [hsplit, List.idxOf_append_of_notMem hmem, List.idxOf_cons_ne _ (Ne.symm hij)]
            omega
          omega
        refine hno ⟨hagain, .inr ⟨a'.id, hbefore, ?_⟩⟩
        rw [rowOfItem_new st ha]
        exact (h.told.own (a', x) ham).2.1
    rw [h.pairs_eq, mem_savedPairs] at hi hj
    rcases hi with hi | hi
    · rcases hj with hj | hj
      · exact hne (hi.2.2.2.symm.trans hj.2.2.2)
      · exact hheldTold hi hj
    · rcases hj with hj | hj
      · exact hheldTold hj hi
      · have hi' := hi
        have hj' := hj
        obtain ⟨before, after, hsplit, hrow, hno⟩ := hi
        obtain ⟨before', after', hsplit', hrow', hno'⟩ := hj
        obtain ⟨a, ha, hai, ⟨-, ham⟩ | ⟨hagain, -⟩⟩ := h.told_row hrow
        · obtain ⟨b, hb, hbj, ⟨-, hbm⟩ | ⟨hagain', -⟩⟩ := h.told_row hrow'
          · have hab : a = b := congrArg Prod.fst (h.fresh.2 (a, x) ham (b, x) hbm rfl)
            exact hne (hai.symm.trans (hab ▸ hbj))
          · exact hownAgain hne ha hai ham ⟨hagain', hj'⟩
        · obtain ⟨b, hb, hbj, ⟨-, hbm⟩ | ⟨hagain', -⟩⟩ := h.told_row hrow'
          · exact hownAgain (Ne.symm hne) hb hbj hbm ⟨hagain, hi'⟩
          · -- both were added again: the later one finds the row present
            rcases split_order hsplit hsplit' hne with hmem | hmem
            · exact hno' ⟨hagain', .inr ⟨i, hmem, hrow⟩⟩
            · exact hno ⟨hagain, .inr ⟨j, hmem, hrow'⟩⟩

end Run

/-! ## 5. The result -/

/-- **Ownership after a save**, for every store, every project and all draws: it is as it has to be
    exactly when the rows of the trip that are kept had different Strava ids and, of the new
    activities with one Strava id, the first is named by an item before the others are. -/
theorem ownership_iff {t : Trips} {project : Project} {draws : ℤ → List ℕ}
    {table : Table Row Row.id} {items : List ℤ}
    (h : saveTripActivities t.db project draws = some (table, items)) :
    ∃ pairs, saveTripPairs t.db project draws = some (table, pairs) ∧ items = pairs.map Prod.snd ∧
      (Ownership t project table pairs ↔ t.KeptOnce project ∧ t.InOrder project) := by
  rw [saveTripActivities_eq] at h
  obtain ⟨⟨table', pairs⟩, hpairs, heq⟩ := Option.map_eq_some_iff.mp h
  obtain ⟨rfl, rfl⟩ := Prod.mk.inj heq
  obtain ⟨made, st, hrun⟩ := saveTripPairs_run hpairs
  refine ⟨pairs, hpairs, rfl, fun hown => ⟨hrun.strava_iff.mp hown.strava,
    hrun.apart_iff.mp hown.apart⟩, fun ⟨hkept, horder⟩ => ⟨?_, ?_, hrun.strava_iff.mpr hkept,
    hrun.apart_iff.mpr horder⟩⟩
  · refine ⟨_, hrun.rows, fun r hr => ?_, fun p hp => ?_⟩
    · obtain ⟨m, hm, rfl⟩ := List.mem_map.mp hr
      exact ⟨m.1, (Trips.news_mem (hrun.told.own m hm).1).1, rfl⟩
    · rcases hrun.pair_cases hp with ⟨hheld, -⟩ | ⟨a, ha⟩
      · exact .inl hheld
      · exact .inr (List.mem_map.mpr ⟨newRow a p.2, List.mem_map.mpr ⟨(a, p.2), ha, rfl⟩, rfl⟩)
  · intro p hp hother
    rcases hrun.pair_cases hp with ⟨hheld, -⟩ | ⟨a, ha⟩
    · exact hheld
    · obtain ⟨r, hr, hid⟩ := t.other_row p.2 hother
      exact absurd hid (hrun.fresh.1 (a, p.2) ha r hr)

def copyOf (id sid : ℤ) : Activity := ⟨id, "", 0, some "strava", none, some sid⟩

/-- A trip that holds one Strava activity, and another trip that holds its copy of it. -/
def oneRide : Trips where
  db := ⟨0, [50], ⟨[newRow (copyOf 50 5) 50, newRow (copyOf 51 5) 51], by decide⟩⟩
  others := [51]
  held_row := by decide
  other_row := by decide
  valid := by decide

/-- The draws that give an activity's row the id a thousand above its own. -/
def drawnFor (id : ℤ) : List ℕ := [1000 + id.natAbs]

/-- The ride again, and another ride twice. -/
def threeCopies (items : List ℤ) : Project :=
  ⟨0, [copyOf 50 5, copyOf 101 7, copyOf 102 7, copyOf 103 5], items⟩

/-- With the items in the order of the activities one item is left for each ride. -/
theorem ownership_iff_inOrder : ∃ table, saveTripPairs oneRide.db
      (threeCopies [50, 101, 102, 103]) drawnFor = some (table, [(50, 50), (101, 1101)]) ∧
    Ownership oneRide (threeCopies [50, 101, 102, 103]) table [(50, 50), (101, 1101)] := by
  have hrun : (saveTripActivities oneRide.db (threeCopies [50, 101, 102, 103]) drawnFor).map
      Prod.snd = some [50, 1101] := by decide +kernel
  obtain ⟨⟨table, items⟩, hsave, -⟩ := Option.map_eq_some_iff.mp hrun
  obtain ⟨pairs, hpairs, -, hiff⟩ := ownership_iff hsave
  have hpairs' : (saveTripPairs oneRide.db (threeCopies [50, 101, 102, 103]) drawnFor).map
      Prod.snd = some [(50, 50), (101, 1101)] := by decide +kernel
  rw [hpairs] at hpairs'
  obtain rfl : pairs = [(50, 50), (101, 1101)] := Option.some.inj hpairs'
  refine ⟨table, hpairs, hiff.mpr ⟨fun r r' hr hr' _ _ => ?_, by decide +kernel⟩⟩
  -- the trip holds one row
  have htrip : oneRide.db.tripRows = [newRow (copyOf 50 5) 50] := by decide
  have hr₁ := hr.1
  have hr₂ := hr'.1
  rw [htrip, List.mem_singleton] at hr₁ hr₂
  rw [hr₁, hr₂]

/-- **Two copies of one ride, named in the other order, end up as two items on one row.** -/
theorem ownership_fails_reversed : ∃ table pairs,
    saveTripPairs oneRide.db (threeCopies [50, 102, 101, 103]) drawnFor = some (table, pairs) ∧
    saveTripActivities oneRide.db (threeCopies [50, 102, 101, 103]) drawnFor =
      some (table, [50, 1101, 1101]) ∧
    ¬ Ownership oneRide (threeCopies [50, 102, 101, 103]) table pairs := by
  have hrun : (saveTripPairs oneRide.db (threeCopies [50, 102, 101, 103]) drawnFor).map
      Prod.snd = some [(50, 50), (102, 1101), (101, 1101)] := by decide +kernel
  obtain ⟨⟨table, pairs⟩, hsave, hpairs⟩ := Option.map_eq_some_iff.mp hrun
  obtain rfl : pairs = [(50, 50), (102, 1101), (101, 1101)] := hpairs
  refine ⟨table, _, hsave, ?_, fun hown => ?_⟩
  · rw [saveTripActivities_eq, hsave]
    rfl
  · have hsame := hown.apart 102 101 1101 (by decide) (by decide)
    exact absurd hsame (by decide)

end TraxJourney.Imports
