/-
  File:      Timeline/Saved.lean
  Subject:   What a save of the item list leaves in the item rows: `_replace_items` from
             `src/project/repo_items.py`, in terms of the list that it stores.

  * **`replaceItems_planned`** -- after a save the rows are the planned ones, numbered densely,
    whatever the rows were before; a save fails on a segment item without its segment, and on
    nothing else.
-/
import TraxJourney.Timeline.Visible

namespace TraxJourney.Timeline

open Lib

/-! ## 1. Rows as a list of entries -/

/-- What a row says, wherever it stands. -/
structure Entry where
  uid : Option String
  itemType : ItemType
  activityId : Option ℕ
  segmentJson : Option SegmentText
  segmentId : Option Json
  memoryId : Option ℕ
  journalId : Option ℕ
  encounterId : Option ℕ
deriving DecidableEq

def RowValues.entry (v : RowValues) (uid : Option String) : Entry :=
  ⟨uid, v.itemType, v.activityId, v.segmentJson, v.segmentId, v.memoryId, v.journalId, v.encounterId⟩

def ItemRow.entry (r : ItemRow) : Entry := r.values.entry r.uid

/-- The rows as a reader gets them. -/
def ordered (rows : ItemTable) : List ItemRow := rows.rows.insertionSort ItemRow.Before

def entriesOf (rows : ItemTable) : List Entry := (ordered rows).map ItemRow.entry

/-- No two rows have one position, and no two the same uid; a row may be without one. -/
structure Sound (rows : ItemTable) : Prop where
  positions : (rows.rows.map fun r => r.values.position).Nodup
  uids : ∀ r ∈ rows, ∀ r' ∈ rows, r.uid = r'.uid → r.uid.isSome → r = r'

variable {rows rows' : ItemTable} {r r' : ItemRow} {items : List ProjectItem}

theorem Sound.increasing (h : (rows.rows.map fun r => r.values.position).Nodup) :
    (ordered rows).Pairwise fun r r' => r.values.position < r'.values.position := by
  have htotal : Std.Total ItemRow.Before := ⟨fun r r' => Int.le_total _ _⟩
  have htrans : IsTrans ItemRow ItemRow.Before := ⟨fun _ _ _ => Int.le_trans⟩
  have hsorted : (ordered rows).Pairwise ItemRow.Before := List.pairwise_insertionSort _ _
  have hperm : (ordered rows).Perm rows.rows := List.perm_insertionSort _ _
  have hnodup : ((ordered rows).map fun r => r.values.position).Nodup := (hperm.map _).nodup_iff.mpr h
  refine hsorted.imp₂ (fun r r' hle hne => ?_) (List.pairwise_map.mp hnodup)
  exact Int.lt_iff_le_and_ne.mpr ⟨hle, hne⟩

theorem mem_ordered : r ∈ ordered rows ↔ r ∈ rows := (List.perm_insertionSort _ _).mem_iff

/-! ## 2. What a save stores -/

/-- The uids that `uuid4` makes during one save: no two alike, and none that an item carries. -/
structure Uids (items : List ProjectItem) where
  mint : ℕ → String
  apart : ∀ p q, mint p = mint q → p = q
  new : ∀ item ∈ items, ∀ p, item.uid ≠ some (mint p)

/-- The uid under which an item is stored, after those in `seen`. -/
def uidOf (mint : ℕ → String) (position : ℕ) (seen : List String) (item : ProjectItem) : String :=
  match item.uid with
  | some u => if u = "" ∨ u ∈ seen then mint position else u
  | none => mint position

/-- Each item with the uid and the values of its row; `none` where an item cannot be stored. -/
def planned (mint : ℕ → String) : ℕ → List String → List ProjectItem → Option (List (String × RowValues))
  | _, _, [] => some []
  | position, seen, item :: items => do
      let uid := uidOf mint position seen item
      let values ← rowValues item position
      (planned mint (position + 1) (uid :: seen) items).map ((uid, values) :: ·)

/-! ## 3. The plan -/

variable {mint : ℕ → String} {position : ℕ} {seen : List String} {item : ProjectItem}
  {plan : List (String × RowValues)} {uid : String} {values : RowValues}

theorem rowValues_position {position : ℤ} (h : rowValues item position = some values) :
    values.position = position := by
  unfold rowValues at h
  split at h
  · cases h
    rfl
  · obtain ⟨seg, -, rfl⟩ := Option.map_eq_some_iff.mp h
    rfl
  · cases h
    rfl
  · cases h
    rfl
  · cases h
    rfl

theorem planned_cons (h : planned mint position seen (item :: items) = some plan) :
    ∃ values rest, rowValues item position = some values ∧
      planned mint (position + 1) (uidOf mint position seen item :: seen) items = some rest ∧
      plan = (uidOf mint position seen item, values) :: rest := by
  rw [planned] at h
  obtain ⟨values, hv, h⟩ := Option.bind_eq_some_iff.mp h
  obtain ⟨rest, hr, rfl⟩ := Option.map_eq_some_iff.mp h
  exact ⟨values, rest, hv, hr, rfl⟩

theorem planned_positions (h : planned mint position seen items = some plan) :
    plan.map (fun p => p.2.position) = (List.range' position items.length).map fun n : ℕ => (n : ℤ) := by
  induction items generalizing position seen plan with
  | nil =>
    cases h
    rfl
  | cons item items ih =>
    obtain ⟨values, rest, hv, hr, rfl⟩ := planned_cons h
    rw [List.map_cons, List.length_cons, List.range'_succ, List.map_cons, ih hr, rowValues_position hv]

theorem planned_increasing (h : planned mint position seen items = some plan) :
    plan.Pairwise fun p q => p.2.position < q.2.position := by
  have hrange : ((List.range' position items.length).map fun n : ℕ => (n : ℤ)).Pairwise (· < ·) :=
    List.pairwise_map.mpr ((List.pairwise_lt_range' (s := position)).imp fun hlt => Int.ofNat_lt.mpr hlt)
  rw [← planned_positions h] at hrange
  exact List.pairwise_map.mp hrange

theorem uidOf_new (hnow : mint position ∉ seen) : uidOf mint position seen item ∉ seen := by
  unfold uidOf
  split
  · split
    · exact hnow
    · rename_i hu
      exact fun hmem => hu (.inr hmem)
  · exact hnow

theorem uidOf_cases (mint : ℕ → String) (position : ℕ) (seen : List String) (item : ProjectItem) :
    uidOf mint position seen item = mint position ∨
    item.uid = some (uidOf mint position seen item) := by
  unfold uidOf
  split
  · rename_i u hu
    split
    · exact .inl rfl
    · exact .inr hu
  · exact .inl rfl

theorem planned_uids (hapart : ∀ p q, mint p = mint q → p = q)
    (hnew : ∀ item ∈ items, ∀ p, item.uid ≠ some (mint p))
    (hseen : ∀ p, position ≤ p → mint p ∉ seen)
    (h : planned mint position seen items = some plan) :
    (plan.map Prod.fst).Nodup ∧ ∀ u ∈ plan.map Prod.fst, u ∉ seen := by
  induction items generalizing position seen plan with
  | nil =>
    cases h
    exact ⟨List.nodup_nil, fun u hu => absurd hu List.not_mem_nil⟩
  | cons item items ih =>
    obtain ⟨values, rest, -, hr, rfl⟩ := planned_cons h
    have hfirst : uidOf mint position seen item ∉ seen := uidOf_new (hseen position (Nat.le_refl _))
    have hlater : ∀ p, position + 1 ≤ p → mint p ∉ uidOf mint position seen item :: seen := by
      intro p hp hmem
      rcases List.mem_cons.mp hmem with he | hmem
      · rcases uidOf_cases mint position seen item with hm | hown
        · have hsame : p = position := hapart _ _ (he.trans hm)
          omega
        · exact hnew item List.mem_cons_self p (he ▸ hown)
      · exact hseen p (by omega) hmem
    obtain ⟨hnodup, hout⟩ := ih (fun i hi => hnew i (List.mem_cons_of_mem _ hi)) hlater hr
    refine ⟨List.nodup_cons.mpr ⟨fun hmem => ?_, hnodup⟩, fun u hu => ?_⟩
    · exact hout _ hmem List.mem_cons_self
    · rcases List.mem_cons.mp hu with rfl | hu
      · exact hfirst
      · exact fun hmem => hout u hu (List.mem_cons_of_mem _ hmem)

/-! ## 4. The loop carries the plan out -/

theorem update_names (rows : ItemTable) (id : ℕ) (v : RowValues) :
    (rows.update (·.hasId id) (·.withValues v) fun _ => rfl).rows.map (fun r => (r.id, r.uid)) =
      rows.rows.map fun r => (r.id, r.uid) := by
  show (rows.rows.map _).map _ = _
  rw [List.map_map]
  refine List.map_congr_left fun r _ => ?_
  rw [Function.comp]
  split
  · rfl
  · rfl

/-- One turn of the loop of `_replace_items`. -/
def Replacing.place (existing : ItemTable) (st : Replacing) (p : String × RowValues) :
    Replacing :=
  match existing.first (fun r => r.uid == some p.1) with
  | none => ⟨st.rows, p.1 :: st.seen, st.inserts ++ [p]⟩
  | some row => ⟨st.rows.update (·.hasId row.id) (·.withValues p.2) fun _ => rfl,
      p.1 :: st.seen, st.inserts⟩

theorem replaceLoop_planned (existing : ItemTable) (st : Replacing) :
    replaceLoop existing mint position st items = (planned mint position st.seen items).map fun plan =>
        plan.foldl (Replacing.place existing) st := by
  induction items generalizing position st with
  | nil => rfl
  | cons item items ih =>
    rw [replaceLoop, planned]
    cases hv : rowValues item position with
    | none => rfl
    | some values =>
      show replaceLoop existing mint (position + 1)
          (st.place existing (uidOf mint position st.seen item, values)) items = _
      have hseen : (st.place existing (uidOf mint position st.seen item, values)).seen =
          uidOf mint position st.seen item :: st.seen := by
        unfold Replacing.place
        split
        · rfl
        · rfl
      rw [ih, hseen]
      show _ = ((planned mint (position + 1) (uidOf mint position st.seen item :: st.seen) items).map _).map _
      rw [Option.map_map]
      rfl

/-- What the loop has done with the planned rows so far. -/
structure Placed (existing : ItemTable) (st : Replacing) (plan : List (String × RowValues)) :
    Prop where
  seen : ∀ u, u ∈ st.seen ↔ u ∈ plan.map Prod.fst
  names : st.rows.rows.map (fun r => (r.id, r.uid)) = existing.rows.map fun r => (r.id, r.uid)
  inserts : ∀ p, p ∈ st.inserts ↔ p ∈ plan ∧ ∀ r ∈ existing, r.uid ≠ some p.1
  written : ∀ p ∈ plan, ∀ r ∈ st.rows, r.uid = some p.1 → r.values = p.2

theorem Placed.start (existing : ItemTable) : Placed existing ⟨existing, [], []⟩ [] where
  seen _ := ⟨fun h => absurd h List.not_mem_nil, fun h => absurd h List.not_mem_nil⟩
  names := rfl
  inserts _ := ⟨fun h => absurd h List.not_mem_nil, fun h => absurd h.1 List.not_mem_nil⟩
  written _ hp := absurd hp List.not_mem_nil

variable {existing : ItemTable} {st : Replacing}

theorem Placed.named (h : Placed existing st plan) (hr : r ∈ st.rows) :
    ∃ e ∈ existing, e.id = r.id ∧ e.uid = r.uid := by
  have hmem : (r.id, r.uid) ∈ st.rows.rows.map fun r => (r.id, r.uid) :=
    List.mem_map_of_mem (f := fun r : ItemRow => (r.id, r.uid)) hr
  rw [h.names] at hmem
  obtain ⟨e, he, hsame⟩ := List.mem_map.mp hmem
  exact ⟨e, he, congrArg Prod.fst hsame, congrArg Prod.snd hsame⟩

theorem Placed.has (h : Placed existing st plan) {e : ItemRow} (he : e ∈ existing) :
    ∃ r ∈ st.rows, r.id = e.id ∧ r.uid = e.uid := by
  have hmem : (e.id, e.uid) ∈ existing.rows.map fun r => (r.id, r.uid) :=
    List.mem_map_of_mem (f := fun r : ItemRow => (r.id, r.uid)) he
  rw [← h.names] at hmem
  obtain ⟨r, hr, hsame⟩ := List.mem_map.mp hmem
  exact ⟨r, hr, congrArg Prod.fst hsame, congrArg Prod.snd hsame⟩

theorem Placed.place {p : String × RowValues}
    (huids : ∀ r ∈ existing, ∀ r' ∈ existing, r.uid = r'.uid → r.uid.isSome → r = r')
    (h : Placed existing st plan) (hp : p.1 ∉ plan.map Prod.fst) :
    Placed existing (st.place existing p) (plan ++ [p]) := by
  have hseen : ∀ u, u ∈ p.1 :: st.seen ↔ u ∈ (plan ++ [p]).map Prod.fst := by
    intro u
    simp only [List.mem_cons, List.map_append, List.mem_append, h.seen, List.map_cons,
      List.map_nil, List.not_mem_nil, or_false]
    exact Or.comm
  unfold Replacing.place
  split
  · rename_i hfirst
    have hnone : ∀ e ∈ existing, e.uid ≠ some p.1 := by
      intro e he hu
      have hno := Table.first_none hfirst he
      rw [hu] at hno
      simp at hno
    refine ⟨hseen, h.names, fun q => ?_, fun q hq r hr hu => ?_⟩
    · rw [List.mem_append, List.mem_append, List.mem_singleton, h.inserts]
      constructor
      · rintro (⟨hq, hout⟩ | rfl)
        · exact ⟨.inl hq, hout⟩
        · exact ⟨.inr rfl, hnone⟩
      · rintro ⟨hq | rfl, hout⟩
        · exact .inl ⟨hq, hout⟩
        · exact .inr rfl
    · rcases List.mem_append.mp hq with hq | hq
      · exact h.written q hq r hr hu
      · obtain rfl := List.mem_singleton.mp hq
        obtain ⟨e, he, -, heu⟩ := h.named hr
        exact absurd (heu.trans hu) (hnone e he)
  · rename_i row hfirst
    obtain ⟨hrow, hu⟩ := Table.first_some hfirst
    have hrowuid : row.uid = some p.1 := by simpa using hu
    -- the row that is written is the one with the uid
    have hone : ∀ r ∈ st.rows, r.id = row.id ↔ r.uid = some p.1 := by
      intro r hr
      obtain ⟨e, he, hid, heu⟩ := h.named hr
      constructor
      · intro hrid
        have hsame : e = row := Table.eq_of_key he hrow (hid.trans hrid)
        rw [← heu, hsame, hrowuid]
      · intro hru
        have hsame : e = row := huids e he row hrow (heu.trans (hru.trans hrowuid.symm))
          (by rw [heu, hru]; rfl)
        rw [← hid, hsame]
    refine ⟨hseen, ?_, fun q => ?_, fun q hq r hr hu => ?_⟩
    · exact (update_names _ _ _).trans h.names
    · rw [List.mem_append, List.mem_singleton, h.inserts]
      constructor
      · rintro ⟨hq, hout⟩
        exact ⟨.inl hq, hout⟩
      · rintro ⟨hq | rfl, hout⟩
        · exact ⟨hq, hout⟩
        · exact absurd hrowuid (hout row hrow)
    · obtain ⟨r, hr₀, rfl⟩ : ∃ r₀ ∈ st.rows, r =
          if r₀.hasId row.id then r₀.withValues p.2 else r₀ :=
        (Table.mem_update fun r => (rfl : (r.withValues p.2).id = r.id)).mp hr
      by_cases hid : r.id = row.id
      · rw [ItemRow.hasId, beq_iff_eq.mpr hid, if_pos rfl] at hu ⊢
        have hsame : p.1 = q.1 := Option.some.inj (((hone r hr₀).mp hid).symm.trans hu)
        rcases List.mem_append.mp hq with hq | hq
        · exact absurd (hsame ▸ List.mem_map_of_mem hq) hp
        · rw [List.mem_singleton.mp hq]
          rfl
      · have hnot : ¬ (r.hasId row.id = true) := by simpa [ItemRow.hasId] using hid
        rw [if_neg hnot] at hu ⊢
        rcases List.mem_append.mp hq with hq | hq
        · exact h.written q hq r hr₀ hu
        · rw [List.mem_singleton.mp hq] at hu
          exact absurd ((hone r hr₀).mpr hu) hid

theorem Placed.run {done plan : List (String × RowValues)}
    (huids : ∀ r ∈ existing, ∀ r' ∈ existing, r.uid = r'.uid → r.uid.isSome → r = r')
    (h : Placed existing st done) (hnodup : ((done ++ plan).map Prod.fst).Nodup) :
    Placed existing (plan.foldl (Replacing.place existing) st) (done ++ plan) := by
  induction plan generalizing st done with
  | nil => rwa [List.append_nil]
  | cons p plan ih =>
    have hcut : done ++ p :: plan = (done ++ [p]) ++ plan := by simp
    have hp : p.1 ∉ done.map Prod.fst := by
      rw [List.map_append, List.nodup_append] at hnodup
      exact fun hmem => hnodup.2.2 _ hmem _ List.mem_cons_self rfl
    rw [hcut] at hnodup ⊢
    exact ih (h.place huids hp) hnodup

theorem foldl_inserts (existing : ItemTable) (plan : List (String × RowValues)) (st : Replacing) :
    (plan.foldl (Replacing.place existing) st).inserts.Sublist (st.inserts ++ plan) := by
  induction plan generalizing st with
  | nil => exact (List.append_nil st.inserts).symm ▸ List.Sublist.refl _
  | cons p plan ih =>
    have hstep : (st.place existing p).inserts.Sublist (st.inserts ++ [p]) := by
      unfold Replacing.place
      split
      · exact List.Sublist.refl _
      · exact List.sublist_append_left _ _
    have hrest := (ih (st.place existing p)).trans (hstep.append (List.Sublist.refl plan))
    rwa [List.append_assoc] at hrest

/-! ## 5. The bulk insert -/

theorem insertItems_some (elsewhere : ℕ) {inserts : List (String × RowValues)}
    (hnodup : (inserts.map Prod.fst).Nodup)
    (hnew : ∀ r ∈ rows, ∀ p ∈ inserts, r.uid ≠ some p.1) :
    ∃ rows', insertItems elsewhere rows inserts = some rows' ∧ (∀ r ∈ rows, r ∈ rows') ∧
      rows'.rows.map (fun r => (r.uid, r.values)) =
        rows.rows.map (fun r => (r.uid, r.values)) ++ inserts.map fun p => (some p.1, p.2) := by
  induction inserts generalizing rows with
  | nil => exact ⟨rows, rfl, fun _ h => h, (List.append_nil _).symm⟩
  | cons p inserts ih =>
    obtain ⟨uid, values⟩ := p
    rw [List.map_cons, List.nodup_cons] at hnodup
    have hfree : (rows.first fun r => r.uid == some uid) = none :=
      List.find?_eq_none.mpr fun r hr => by simpa using hnew r hr (uid, values) List.mem_cons_self
    have hid : max rows.nextId (elsewhere + 1) ∉ rows.rows.map ItemRow.id := by
      intro hmem
      obtain ⟨r, hr, he⟩ := List.mem_map.mp hmem
      have hlt := Table.nextId_gt (t := rows) hr
      omega
    obtain ⟨grown, hinsert, hgrown⟩ := Table.insert_some (t := rows)
      (r := ⟨max rows.nextId (elsewhere + 1), some uid, values⟩) hid
    have hnext : ∀ r ∈ grown, ∀ p ∈ inserts, r.uid ≠ some p.1 := by
      intro r hr p hp
      rcases (Table.mem_insert hinsert).mp hr with hr | rfl
      · exact hnew r hr p (List.mem_cons_of_mem _ hp)
      · intro he
        have hsame : uid = p.1 := Option.some.inj he
        refine hnodup.1 ?_
        show uid ∈ _
        rw [hsame]
        exact List.mem_map_of_mem hp
    obtain ⟨rows', hrows', hstay, hlist⟩ := ih hnodup.2 hnext
    refine ⟨rows', ?_, fun r hr => hstay r ((Table.mem_insert hinsert).mpr (.inl hr)), ?_⟩
    · rw [insertItems, hfree, hinsert]
      exact hrows'
    · rw [hlist, hgrown, List.map_append, List.append_assoc]
      rfl

/-! ## 6. A save, whole -/

theorem ordered_of_perm {plan : List (String × RowValues)}
    (hperm : (rows.rows.map fun r => (r.uid, r.values)).Perm
      (plan.map fun p => (some p.1, p.2)))
    (hplan : plan.Pairwise fun p q => p.2.position < q.2.position) :
    (ordered rows).map (fun r => (r.uid, r.values)) = plan.map fun p => (some p.1, p.2) := by
  have hpositions : (rows.rows.map fun r => r.values.position).Nodup := by
    have hp : (rows.rows.map fun r => r.values.position).Perm
        (plan.map fun p => p.2.position) := by
      have hp := hperm.map fun x : Option String × RowValues => x.2.position
      rwa [List.map_map, List.map_map] at hp
    refine hp.nodup_iff.mpr (List.pairwise_map.mpr (hplan.imp fun hlt => ?_))
    exact Int.ne_of_lt hlt
  have hsort : ((ordered rows).map fun r => (r.uid, r.values)).Pairwise
      fun x y => x.2.position < y.2.position :=
    List.pairwise_map.mpr (Sound.increasing hpositions)
  have hlist : (plan.map fun p => (some p.1, p.2)).Pairwise
      fun x y => x.2.position < y.2.position := List.pairwise_map.mpr hplan
  have hboth : ((ordered rows).map fun r => (r.uid, r.values)).Perm
      (plan.map fun p => (some p.1, p.2)) :=
    ((List.perm_insertionSort _ _).map _).trans hperm
  refine List.Perm.eq_of_pairwise (fun x y _ _ hxy hyx => ?_) hsort hlist hboth
  exact absurd hyx (Int.not_lt.mpr (Int.le_of_lt hxy))

theorem Placed.stored (elsewhere : ℕ) (h : Placed existing st plan)
    (huids : ∀ r ∈ existing, ∀ r' ∈ existing, r.uid = r'.uid → r.uid.isSome → r = r')
    (hinserts : (st.inserts.map Prod.fst).Nodup) (hplan : (plan.map Prod.fst).Nodup) :
    ∃ rows', insertItems elsewhere (st.rows.delete fun r => match r.uid with
        | some uid => uid ∉ st.seen
        | none => true) st.inserts = some rows' ∧
      (rows'.rows.map fun r => (r.uid, r.values)).Perm (plan.map fun p => (some p.1, p.2)) ∧
      ∀ e ∈ existing, ∀ p ∈ plan, e.uid = some p.1 → ∃ r ∈ rows', r.id = e.id ∧ r.uid = some p.1 := by
  generalize hkept : (st.rows.delete fun r => match r.uid with
    | some uid => uid ∉ st.seen
    | none => true) = kept
  have hmem : ∀ r, r ∈ kept ↔ r ∈ st.rows ∧ ∃ p ∈ plan, r.uid = some p.1 := by
    intro r
    rw [← hkept, Table.mem_delete]
    cases hu : r.uid with
    | none => simp
    | some u =>
      simp only [decide_eq_false_iff_not, not_not, h.seen, List.mem_map, Option.some.injEq]
      constructor
      · rintro ⟨hr, p, hp, rfl⟩
        exact ⟨hr, p, hp, rfl⟩
      · rintro ⟨hr, p, hp, he⟩
        exact ⟨hr, p, hp, he.symm⟩
  have hout : ∀ r ∈ kept, ∀ p ∈ st.inserts, r.uid ≠ some p.1 := by
    intro r hr p hp hu
    obtain ⟨e, he, -, heu⟩ := h.named ((hmem r).mp hr).1
    exact ((h.inserts p).mp hp).2 e he (heu.trans hu)
  obtain ⟨rows', hrows', hstay, hlist⟩ := insertItems_some elsewhere hinserts hout
  refine ⟨rows', hrows', ?_, fun e he p hp hu => ?_⟩
  case refine_2 =>
    obtain ⟨r, hr, hid, hru⟩ := h.has he
    exact ⟨r, hstay r ((hmem r).mpr ⟨hr, p, hp, hru.trans hu⟩), hid, hru.trans hu⟩
  have hone : ∀ r ∈ kept, ∀ r' ∈ kept, r.uid = r'.uid → r = r' := by
    intro r hr r' hr' hu
    obtain ⟨hrs, p, -, hru⟩ := (hmem r).mp hr
    obtain ⟨hrs', -⟩ := (hmem r').mp hr'
    obtain ⟨e, he, hid, heu⟩ := h.named hrs
    obtain ⟨e', he', hid', heu'⟩ := h.named hrs'
    have hsame : e = e' := huids e he e' he' (heu.trans (hu.trans heu'.symm)) (by
      rw [heu, hru]
      rfl)
    exact Table.eq_of_key hrs hrs' (hid.symm.trans (hsame ▸ hid'))
  have hnames : (rows'.rows.map fun r => r.uid).Nodup := by
    have hsplit : rows'.rows.map (fun r => r.uid) =
        kept.rows.map (fun r => r.uid) ++ st.inserts.map fun p => some p.1 := by
      have hl := congrArg (List.map Prod.fst) hlist
      simpa only [List.map_append, List.map_map, Function.comp_def] using hl
    rw [hsplit, List.nodup_append]
    refine ⟨?_, ?_, ?_⟩
    · exact (List.Nodup.of_map _ kept.unique).map_on fun r hr r' hr' hu => hone r hr r' hr' hu
    · have hcomp : st.inserts.map (fun p => some p.1) = (st.inserts.map Prod.fst).map some := by
        rw [List.map_map]
        rfl
      rw [hcomp]
      exact hinserts.map (Option.some_injective _)
    · rintro x hx y hy rfl
      obtain ⟨r, hr, rfl⟩ := List.mem_map.mp hx
      obtain ⟨p, hp, he⟩ := List.mem_map.mp hy
      exact hout r hr p hp he.symm
  have hplanned : (plan.map fun p => (some p.1, p.2)).Nodup := by
    refine List.Nodup.of_map Prod.fst ?_
    have hcomp : (plan.map fun p => (some p.1, p.2)).map Prod.fst =
        (plan.map Prod.fst).map some := by simp
    rw [hcomp]
    exact hplan.map (Option.some_injective _)
  refine (List.perm_ext_iff_of_nodup (List.Nodup.of_map Prod.fst ?_) hplanned).mpr fun x => ?_
  · rw [List.map_map]
    exact hnames
  rw [hlist, List.mem_append]
  constructor
  · rintro (hx | hx)
    · obtain ⟨r, hr, rfl⟩ := List.mem_map.mp hx
      obtain ⟨hrs, p, hp, hu⟩ := (hmem r).mp hr
      exact List.mem_map.mpr ⟨p, hp, by rw [hu, h.written p hp r hrs hu]⟩
    · obtain ⟨p, hp, rfl⟩ := List.mem_map.mp hx
      exact List.mem_map_of_mem ((h.inserts p).mp hp).1
  · intro hx
    obtain ⟨p, hp, rfl⟩ := List.mem_map.mp hx
    by_cases hold : ∃ e ∈ existing, e.uid = some p.1
    · obtain ⟨e, he, hu⟩ := hold
      obtain ⟨r, hr, -, hru⟩ := h.has he
      have huid : r.uid = some p.1 := hru.trans hu
      exact .inl (List.mem_map.mpr ⟨r, (hmem r).mpr ⟨hr, p, hp, huid⟩, by
        rw [huid, h.written p hp r hr huid]⟩)
    · exact .inr (List.mem_map_of_mem ((h.inserts p).mpr ⟨hp, fun e he hu => hold ⟨e, he, hu⟩⟩))

theorem replaceItems_stored
    (huids : ∀ r ∈ rows, ∀ r' ∈ rows, r.uid = r'.uid → r.uid.isSome → r = r') (uids : Uids items)
    (elsewhere : ℕ) :
    (planned uids.mint 0 [] items = none → replaceItems rows items uids.mint elsewhere = none) ∧
      ∀ plan, planned uids.mint 0 [] items = some plan →
        ∃ rows', replaceItems rows items uids.mint elsewhere = some rows' ∧
          (ordered rows').map (fun r => (r.uid, r.values)) = plan.map (fun p => (some p.1, p.2)) ∧
          ∀ e ∈ rows, ∀ p ∈ plan, e.uid = some p.1 → ∃ r ∈ rows', r.id = e.id ∧ r.uid = some p.1 := by
  unfold replaceItems
  rw [replaceLoop_planned]
  refine ⟨fun hplan => by rw [hplan]; rfl, fun plan hplan => ?_⟩
  obtain ⟨hnames, -⟩ := planned_uids uids.apart uids.new (fun _ _ => List.not_mem_nil) hplan
  have hplaced : Placed rows (plan.foldl (Replacing.place rows) ⟨rows, [], []⟩) ([] ++ plan) :=
    Placed.run huids (Placed.start rows) hnames
  have hinserts := foldl_inserts rows plan ⟨rows, [], []⟩
  have hnodup : ((plan.foldl (Replacing.place rows) ⟨rows, [], []⟩).inserts.map Prod.fst).Nodup :=
    hnames.sublist ((List.nil_append plan ▸ hinserts).map _)
  obtain ⟨rows', hrows', hperm, hkept⟩ := hplaced.stored elsewhere huids hnodup hnames
  refine ⟨rows', ?_, ordered_of_perm hperm (planned_increasing hplan), hkept⟩
  rw [hplan]
  exact hrows'

/-- **A save puts the list in place of the rows**: it fails on an item that cannot be stored, and
    else leaves exactly the planned rows, numbered from 0. -/
theorem replaceItems_planned (h : Sound rows) (uids : Uids items) (elsewhere : ℕ) :
    (planned uids.mint 0 [] items = none → replaceItems rows items uids.mint elsewhere = none) ∧
      ∀ plan, planned uids.mint 0 [] items = some plan →
        ∃ rows', replaceItems rows items uids.mint elsewhere = some rows' ∧ Sound rows' ∧
          entriesOf rows' = plan.map (fun p => p.2.entry (some p.1)) ∧
          (ordered rows').map (fun r => r.values.position) =
            (List.range items.length).map fun n : ℕ => (n : ℤ) := by
  obtain ⟨hfails, hstores⟩ := replaceItems_stored h.uids uids elsewhere
  refine ⟨hfails, fun plan hplan => ?_⟩
  obtain ⟨rows', hrows', hordered, -⟩ := hstores plan hplan
  obtain ⟨hnames, -⟩ := planned_uids uids.apart uids.new (fun _ _ => List.not_mem_nil) hplan
  have hperm : (ordered rows').Perm rows'.rows := List.perm_insertionSort _ _
  have hplaces : (ordered rows').map (fun r => r.values.position) =
      plan.map fun p => p.2.position := by
    have hplaces := congrArg (List.map fun x : Option String × RowValues => x.2.position) hordered
    rwa [List.map_map, List.map_map] at hplaces
  refine ⟨rows', hrows', ⟨?_, ?_⟩, ?_, ?_⟩
  · refine (hperm.map _).nodup_iff.mp ?_
    rw [hplaces]
    exact List.pairwise_map.mpr ((planned_increasing hplan).imp fun hlt => Int.ne_of_lt hlt)
  · intro r hr r' hr' hu _
    have hsome : ((ordered rows').map fun r => r.uid).Nodup := by
      have hcomp : (ordered rows').map (fun r => r.uid) = (plan.map Prod.fst).map some := by
        have hfst := congrArg (List.map Prod.fst) hordered
        rw [List.map_map, List.map_map] at hfst
        rw [List.map_map]
        exact hfst
      rw [hcomp]
      exact hnames.map (Option.some_injective _)
    exact List.inj_on_of_nodup_map ((hperm.map _).nodup_iff.mp hsome) hr hr' hu
  · have hentries := congrArg (List.map fun x : Option String × RowValues => x.2.entry x.1) hordered
    rwa [List.map_map, List.map_map] at hentries
  · exact hplaces.trans ((planned_positions hplan).trans (by rw [List.range_eq_range']))

end TraxJourney.Timeline
