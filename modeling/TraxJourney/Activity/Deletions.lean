/-
  File:      Activity/Deletions.lean
  Subject:   `delete_local_activity` and `delete_unreferenced_activities` of
             `src/project/repo_activities.py`, over the rows and items of all trips.

  * **`deletions_iff`** -- the second always keeps split families and every row that is still needed; the
    first does exactly where `LocalSafe` holds.

  Prepared geometry and positions of items are left out; items are listed in their order.
-/
import TraxJourney.Activity.Forest
import TraxJourney.Activity.Writers
import TraxJourney.Imports.Trip

namespace TraxJourney.Activity

open Lib

/-! ## 1. The store of all trips -/

/-- The activity items of all trips, each with its trip and in order of position; the lock versions;
    and the activity rows. -/
structure Db where
  items : List (ℕ × ℤ)
  lockVersion : ℕ → ℕ
  rows : ActivityTable

def ActivityRow.link (r : ActivityRow) : Link := ⟨r.id, r.splitRootId, r.splitParentId⟩

def Db.links (db : Db) : List Link := db.rows.rows.map ActivityRow.link

def Db.row (db : Db) (id : ℤ) : Option ActivityRow := db.rows.first (·.hasId id)

def Db.tripRows (db : Db) (projectId : ℕ) : List ℤ := (db.items.filter fun it => it.1 == projectId).map (·.2)

/-- A row of `other_trips_rows`. -/
def Db.heldElsewhere (db : Db) (projectId : ℕ) (id : ℤ) : Bool :=
  db.items.any fun it => it.1 != projectId && it.2 == id

/-- `bump_lock_version`. -/
def Db.bump (db : Db) (projectId : ℕ) : Db :=
  let lockVersion := fun p => if p = projectId then db.lockVersion p + 1 else db.lockVersion p
  { db with lockVersion := lockVersion }

/-- `_renumber_split_family`. -/
def Db.renumber (db : Db) (projectId : ℕ) (rootId : ℤ) : Db :=
  if db.heldElsewhere projectId rootId then db
  else
    let rows := db.rows.update (fun _ => true)
      (fun r => r.renamed (renumberSplitFamily db.rows.rows (db.tripRows projectId) rootId r.id))
      fun _ => rfl
    { db with rows := rows }

/-! ## 2. `delete_local_activity` -/

/-- A row's children get its parent, but for those that another trip holds. -/
def Db.adoptChildren (db : Db) (projectId : ℕ) (row : ActivityRow) : ActivityTable :=
  db.rows.update (fun c => c.splitParentId == some row.id && !db.heldElsewhere projectId c.id)
    (fun c => { c with splitParentId := row.splitParentId }) fun _ => rfl

/-- `delete_local_activity`; `none` is its refusal. -/
def deleteLocalActivity (db : Db) (projectId : ℕ) (activityId : ℤ) : Option Db :=
  match db.row activityId with
  | none => none
  | some row =>
    if row.stravaId.isSome then none
    else if db.heldElsewhere projectId activityId then none
    else
      let db := db.bump projectId
      let db : Db :=
        { db with
          items := db.items.filter fun it => it != (projectId, activityId)
          rows := (db.adoptChildren projectId row).delete (·.hasId activityId) }
      some (match row.splitRootId with
        | some rootId => db.renumber projectId rootId
        | none => db)

/-! ## 3. `delete_unreferenced_activities` -/

/-- The links of some rows. -/
def linksOf (links : List Link) (ids : List ℤ) : List ℤ :=
  (links.filter fun l => ids.contains l.id).flatMap fun l => l.root.toList ++ l.parent.toList

/-- The first loop: the given ids with the ancestors of their rows. -/
def gather (links : List Link) : ℕ → List ℤ → List ℤ → Option (List ℤ)
  | 0, _, _ => none
  | rounds + 1, frontier, given =>
    if frontier = [] then some given
    else
      let frontier := (linksOf links frontier).dedup.filter fun id => !given.contains id
      gather links rounds frontier (given ++ frontier)

/-- The rows that a row which stays names as its root. -/
def namers (links : List Link) (doomed : List ℤ) : List ℤ :=
  doomed.filter fun root => links.any fun l => l.root == some root && !doomed.contains l.id

/-- The second loop: a root that a row which stays names is kept. -/
def spare (links : List Link) : ℕ → List ℤ → Option (List ℤ)
  | 0, _ => none
  | rounds + 1, doomed =>
    if doomed = [] then some []
    else if namers links doomed = [] then some doomed
    else spare links rounds (doomed.filter fun id => !(namers links doomed).contains id)

/-- The keys of `parent_of`: the doomed ids that have a row. -/
def parentOf (links : List Link) (doomed : List ℤ) : List ℤ :=
  doomed.filter fun id => links.any fun l => l.id == id

/-- A row that stays and names a deleted one as its parent. -/
def Link.orphaned (gone : List ℤ) (l : Link) : Bool := l.parent.any gone.contains && !gone.contains l.id

/-- The third loop: the orphaned rows, each with the parent it gets. -/
def adopted (links : List Link) (gone : List ℤ) : Option (List (ℤ × Option ℤ)) :=
  (links.filter (Link.orphaned gone)).mapM fun l =>
    (climb gone.contains (parentIn links) (gone.length + 2) l.parent).map fun z => (l.id, z)

/-- The trips that a family which lost pieces is renumbered in. -/
def familyTrips (db : Db) (rootId : ℤ) : List ℕ :=
  let family := (db.links.filter fun l => l.id == rootId || l.root == some rootId).map Link.id
  (((db.items.filter fun it => family.contains it.2).map (·.1)).dedup).insertionSort (· ≤ ·)

/-- The last loop: the trips are renumbered, the lock of each advanced once. -/
def renumberTrips (db : Db) (renamed : List ℕ) (rootId : ℤ) : Db × List ℕ :=
  (familyTrips db rootId).foldl (fun (db, renamed) p =>
    if p ∈ renamed then (db.renumber p rootId, renamed)
    else ((db.bump p).renumber p rootId, p :: renamed)) (db, renamed)

def Db.withoutRows (db : Db) (gone : List ℤ) (parents : List (ℤ × Option ℤ)) : Db :=
  let rows := db.rows.update (fun r => (parents.lookup r.id).isSome)
    (fun r => { r with splitParentId := (parents.lookup r.id).getD r.splitParentId }) fun _ => rfl
  { db with rows := rows.delete fun r => gone.contains r.id }

/-- The families that lost pieces and have their root still. -/
def lostPieces (links : List Link) (doomed : List ℤ) : List ℤ :=
  (((links.filter fun l => doomed.contains l.id).filterMap Link.root).dedup.filter fun root =>
    !doomed.contains root).insertionSort (· ≤ ·)

/-- `delete_unreferenced_activities`: the store and the trips renumbered; `none` where a loop has
    not ended. -/
def deleteUnreferencedActivities (db : Db) (ids : List ℤ) : Option (Db × List ℕ) := do
  let start := (ids.filter Imports.isActivityId).dedup
  let given ← gather db.links (2 * db.links.length + 2) start start
  let unnamed := given.filter fun id => !db.items.any fun it => it.2 == id
  let doomed ← spare db.links (unnamed.length + 1) unnamed
  if doomed = [] then some (db, [])
  else do
    let gone := parentOf db.links doomed
    let parents ← adopted db.links gone
    return (lostPieces db.links doomed).foldl
      (fun (db, renamed) root => renumberTrips db renamed root) (db.withoutRows gone parents, [])

/-! ## 4. What each part does to the links -/

section Links

variable {db : Db} {links : List Link} {p : ℕ} {id r : ℤ} {l : Link}

@[simp] theorem Db.bump_links : (db.bump p).links = db.links := rfl

@[simp] theorem Db.bump_items : (db.bump p).items = db.items := rfl

theorem renumber_table_links (t : ActivityTable) (n : ActivityRow → Renaming) :
    (t.update (fun _ => true) (fun r => r.renamed (n r)) fun _ => rfl).rows.map ActivityRow.link =
      t.rows.map ActivityRow.link := by
  simp only [Table.update, if_true, List.map_map]
  rfl

@[simp] theorem Db.renumber_links : (db.renumber p r).links = db.links := by
  unfold Db.renumber
  split
  · rfl
  · exact renumber_table_links db.rows _

@[simp] theorem Db.renumber_items : (db.renumber p r).items = db.items := by
  unfold Db.renumber
  split <;> rfl

theorem renumberTrips_same (db : Db) (renamed : List ℕ) (root : ℤ) :
    (renumberTrips db renamed root).1.links = db.links ∧
      (renumberTrips db renamed root).1.items = db.items := by
  unfold renumberTrips
  generalize familyTrips db root = trips
  induction trips generalizing db renamed with
  | nil => exact ⟨rfl, rfl⟩
  | cons p trips ih =>
    rw [List.foldl_cons]
    dsimp only
    split
    case isTrue =>
      have h := ih (db.renumber p root) renamed
      simpa using h
    case isFalse =>
      have h := ih ((db.bump p).renumber p root) (p :: renamed)
      simpa using h

theorem renumberFamilies_same (db : Db) (renamed : List ℕ) (roots : List ℤ) :
    ((roots.foldl (fun (db, renamed) root => renumberTrips db renamed root) (db, renamed)).1.links =
      db.links) ∧
    (roots.foldl (fun (db, renamed) root => renumberTrips db renamed root) (db, renamed)).1.items =
      db.items := by
  induction roots generalizing db renamed with
  | nil => exact ⟨rfl, rfl⟩
  | cons root roots ih =>
    rw [List.foldl_cons]
    obtain ⟨hlinks, hitems⟩ := renumberTrips_same db renamed root
    have h := ih (renumberTrips db renamed root).1 (renumberTrips db renamed root).2
    exact ⟨h.1.trans hlinks, h.2.trans hitems⟩

theorem links_update_delete (t : ActivityTable) (gone : ℤ → Bool) {q : ActivityRow → Bool}
    {f : ActivityRow → ActivityRow} (hf : ∀ r, (f r).id = r.id) {newParent : Link → Option ℤ}
    (hlink : ∀ r, (if q r then f r else r).link = { r.link with parent := newParent r.link }) :
    ((t.update q f hf).delete fun r => gone r.id).rows.map ActivityRow.link =
      removeLinks gone newParent (t.rows.map ActivityRow.link) := by
  simp only [Table.delete, Table.update, removeLinks]
  induction t.rows with
  | nil => rfl
  | cons r rows ih =>
    have hid : (if q r then f r else r).id = r.id := by
      split
      · exact hf r
      · rfl
    simp only [List.map_cons, List.filter_cons]
    by_cases hgone : gone r.id = true
    · have hgone' : gone r.link.id = true := hgone
      simpa [hid, hgone, hgone'] using ih
    · have hgone : gone r.id = false := by simpa using hgone
      have hgone' : gone r.link.id = false := hgone
      simpa [hid, hgone, hgone', hlink r] using ih

theorem Db.links_unique (db : Db) : (db.links.map Link.id).Nodup := by
  rw [Db.links, List.map_map]
  exact db.rows.unique

theorem Db.mem_links {db : Db} : l ∈ db.links ↔ ∃ r ∈ db.rows, r.link = l := List.mem_map

end Links

/-! ## 5. The loops of `delete_unreferenced_activities` -/

section Loops

variable {links : List Link} {ids given frontier doomed : List ℤ} {x : ℤ} {l : Link}

theorem mem_linksOf : x ∈ linksOf links ids ↔
    ∃ l ∈ links, l.id ∈ ids ∧ (l.root = some x ∨ l.parent = some x) := by
  simp [linksOf, and_assoc]

/-- What the first loop may still add. -/
def gatherLeft (links : List Link) (given : List ℤ) : List ℤ :=
  (linksOf links (links.map Link.id)).filter fun id => !given.contains id

theorem gatherLeft_length : (gatherLeft links given).length ≤ 2 * links.length := by
  have hall : (linksOf links (links.map Link.id)).length ≤ 2 * links.length := by
    have hsum : ∀ ls : List Link,
        (ls.flatMap fun l => l.root.toList ++ l.parent.toList).length ≤ 2 * ls.length := by
      intro ls
      induction ls with
      | nil => simp
      | cons l ls ih =>
        have hroot : l.root.toList.length ≤ 1 := by cases l.root <;> simp
        have hparent : l.parent.toList.length ≤ 1 := by cases l.parent <;> simp
        simp only [List.flatMap_cons, List.length_append, List.length_cons]
        omega
    have hfilter : (links.filter fun l => (links.map Link.id).contains l.id).length ≤ links.length :=
      List.length_filter_le _ _
    have hle := hsum (links.filter fun l => (links.map Link.id).contains l.id)
    unfold linksOf
    omega
  exact Nat.le_trans (List.length_filter_le _ _) hall

theorem gather_spec {rounds : ℕ} (hrounds : (gatherLeft links given).length + 2 ≤ rounds)
    (hclosed : ∀ y ∈ given, y ∉ frontier → ∀ z ∈ linksOf links [y], z ∈ given)
    (hfrontier : frontier ⊆ given) :
    ∃ all, gather links rounds frontier given = some all ∧ given ⊆ all ∧
      ∀ y ∈ all, ∀ z ∈ linksOf links [y], z ∈ all := by
  induction rounds generalizing frontier given with
  | zero => omega
  | succ rounds ih =>
    rw [gather]
    by_cases hempty : frontier = []
    · rw [if_pos hempty]
      exact ⟨given, rfl, List.Subset.refl _, fun y hy => hclosed y hy (by simp [hempty])⟩
    · rw [if_neg hempty]
      have hnew : ∀ z, z ∈ (linksOf links frontier).dedup.filter (fun id => !given.contains id) ↔
          z ∈ linksOf links frontier ∧ z ∉ given := by simp
      generalize (linksOf links frontier).dedup.filter (fun id => !given.contains id) = next at hnew
      -- what is linked from a row of the old frontier is given or next
      have hclosed' : ∀ y ∈ given ++ next, y ∉ next → ∀ z ∈ linksOf links [y], z ∈ given ++ next := by
        intro y hy hynext z hz
        rcases List.mem_append.mp hy with hy | hy
        · by_cases hyf : y ∈ frontier
          · by_cases hzg : z ∈ given
            · exact List.mem_append_left _ hzg
            · refine List.mem_append_right _ ((hnew z).mpr ⟨?_, hzg⟩)
              obtain ⟨l, hl, hid, hlink⟩ := mem_linksOf.mp hz
              exact mem_linksOf.mpr ⟨l, hl, List.mem_singleton.mp hid ▸ hyf, hlink⟩
          · exact List.mem_append_left _ (hclosed y hy hyf z hz)
        · exact absurd hy hynext
      have hleft : (gatherLeft links (given ++ next)).length + 2 ≤ rounds ∨ next = [] := by
        cases hn : next with
        | nil => exact .inr rfl
        | cons z rest =>
          left
          obtain ⟨hzlink, hzgiven⟩ := (hnew z).mp (by simp [hn])
          have hzall : z ∈ linksOf links (links.map Link.id) := by
            obtain ⟨l, hl, -, hlink⟩ := mem_linksOf.mp hzlink
            exact mem_linksOf.mpr ⟨l, hl, List.mem_map_of_mem hl, hlink⟩
          have hsub : gatherLeft links (given ++ z :: rest) =
              (gatherLeft links given).filter fun id => !(given ++ z :: rest).contains id := by
            rw [gatherLeft, gatherLeft, List.filter_filter]
            refine List.filter_congr fun id _ => ?_
            by_cases hid : id ∈ given
            · simp [hid]
            · simp [hid]
          have hlt : (gatherLeft links (given ++ z :: rest)).length < (gatherLeft links given).length := by
            rw [hsub, List.length_filter_lt_length_iff_exists]
            exact ⟨z, List.mem_filter.mpr ⟨hzall, by simpa using hzgiven⟩, by simp⟩
          omega
      rcases hleft with hleft | rfl
      · obtain ⟨all, hall, hsub, hdone⟩ := ih hleft hclosed' (List.subset_append_right _ _)
        exact ⟨all, hall, fun y hy => hsub (List.mem_append_left _ hy), hdone⟩
      · cases rounds with
        | zero => omega
        | succ rounds =>
          refine ⟨given ++ [], by rw [gather, if_pos rfl], by simp, fun y hy => ?_⟩
          exact hclosed' y hy List.not_mem_nil

theorem mem_namers : x ∈ namers links doomed ↔ x ∈ doomed ∧ ∃ l ∈ links, l.root = some x ∧ l.id ∉ doomed := by
  simp [namers]

theorem spare_spec (links : List Link) {rounds : ℕ} (hrounds : doomed.length + 1 ≤ rounds) :
    ∃ rest, spare links rounds doomed = some rest ∧ rest ⊆ doomed ∧
      (∀ l ∈ links, ∀ r ∈ rest, l.root = some r → l.id ∈ rest) ∧
      ∀ set : List ℤ, set ⊆ doomed → (∀ l ∈ links, ∀ r ∈ set, l.root = some r → l.id ∈ set) → set ⊆ rest := by
  induction rounds generalizing doomed with
  | zero => omega
  | succ rounds ih =>
    rw [spare]
    by_cases hempty : doomed = []
    · rw [if_pos hempty, hempty]
      exact ⟨[], rfl, by simp, by simp, fun set hset _ => hset⟩
    · rw [if_neg hempty]
      by_cases hnone : namers links doomed = []
      · rw [if_pos hnone]
        refine ⟨doomed, rfl, List.Subset.refl _, fun l hl r hr hroot => ?_, fun set hset _ => hset⟩
        refine Classical.byContradiction fun hmem => ?_
        have hnamed := mem_namers.mpr ⟨hr, l, hl, hroot, hmem⟩
        rw [hnone] at hnamed
        exact List.not_mem_nil hnamed
      · rw [if_neg hnone]
        have hlt : (doomed.filter fun id => !(namers links doomed).contains id).length <
            doomed.length := by
          rw [List.length_filter_lt_length_iff_exists]
          obtain ⟨z, hz⟩ := List.exists_mem_of_ne_nil _ hnone
          exact ⟨z, (mem_namers.mp hz).1, by simpa using hz⟩
        obtain ⟨rest, hrest, hsub, hkept, hlargest⟩ :=
          @ih (doomed.filter fun id => !(namers links doomed).contains id) (by omega)
        refine ⟨rest, hrest, fun y hy => List.mem_of_mem_filter (hsub hy), hkept,
          fun set hset hclosed => hlargest set (fun y hy => ?_) hclosed⟩
        refine List.mem_filter.mpr ⟨hset hy, ?_⟩
        have hno : y ∉ namers links doomed := by
          intro hmem
          obtain ⟨-, l, hl, hroot, hout⟩ := mem_namers.mp hmem
          exact hout (hset (hclosed l hl y hy hroot))
        simpa using hno

end Loops

/-! ## 6. The parents that rows get -/

section Adopted

variable {links : List Link} {gone : List ℤ} {parents : List (ℤ × Option ℤ)} {items : List (ℕ × ℤ)} {l : Link}

theorem lookup_of_mapM {g : Link → Option (Option ℤ)} {ls : List Link} {id : ℤ}
    (h : (ls.mapM fun l => (g l).map fun z => (l.id, z)) = some parents) :
    parents.lookup id = (ls.find? fun l => l.id == id).bind g := by
  induction ls generalizing parents with
  | nil =>
    obtain rfl := Option.some.inj h
    rfl
  | cons l ls ih =>
    rw [List.mapM_cons] at h
    obtain ⟨e, he, h⟩ := Option.bind_eq_some_iff.mp h
    obtain ⟨rest, hrest, h⟩ := Option.bind_eq_some_iff.mp h
    obtain rfl := Option.some.inj h
    obtain ⟨z, hz, rfl⟩ := Option.map_eq_some_iff.mp he
    by_cases hid : l.id = id
    · simp [hid, hz]
    · have hid' : id ≠ l.id := fun heq => hid heq.symm
      rw [List.lookup_cons, beq_false_of_ne hid', List.find?_cons_of_neg (by simp [hid])]
      exact ih hrest

theorem adopted_lookup (hunique : (links.map Link.id).Nodup) (h : adopted links gone = some parents)
    (hl : l ∈ links) :
    parents.lookup l.id = if l.orphaned gone then
      climb gone.contains (parentIn links) (gone.length + 2) l.parent else none := by
  unfold adopted at h
  rw [lookup_of_mapM h]
  have hsame : ∀ l' ∈ links, l'.id = l.id → l' = l := fun l' hl' hid =>
    List.inj_on_of_nodup_map hunique hl' hl hid
  cases hfind : (links.filter (Link.orphaned gone)).find? fun l' => l'.id == l.id with
  | none =>
    have hno : l.orphaned gone = false := by
      refine Bool.eq_false_iff.mpr fun horphaned => ?_
      have hnone := List.find?_eq_none.mp hfind l (List.mem_filter.mpr ⟨hl, horphaned⟩)
      simp at hnone
    rw [if_neg (by simp [hno])]
    rfl
  | some l' =>
    obtain ⟨hl', horphaned⟩ := List.mem_filter.mp (List.mem_of_find?_eq_some hfind)
    have hid : l'.id = l.id := by simpa using List.find?_some hfind
    obtain rfl := hsame l' hl' hid
    rw [if_pos horphaned]
    rfl

theorem climb_gone {p : ℤ} (gone : List ℤ) (h : Ends (parentIn links) p) :
    ∃ z, climb gone.contains (parentIn links) (gone.length + 2) (some p) = some z := by
  have hdom : ∀ y, Leads (parentIn links) p y → gone.contains y = true → y ∈ gone :=
    fun y _ hy => by simpa using hy
  exact Option.isSome_iff_exists.mp (climb_isSome (Nat.le_refl gone.length) hdom h)

theorem Families.parent_ends (h : Families links items) (hl : l ∈ links) {p : ℤ}
    (hp : l.parent = some p) : Ends (parentIn links) p := by
  obtain ⟨r, hr, -⟩ := h.parent_mem hl hp
  obtain ⟨y, hy, hreaches⟩ := h.parent_reaches hl hr
  obtain rfl : p = y := Option.some.inj (hp.symm.trans hy)
  exact hreaches.ends (h.parentIn_root hl hr)

theorem adopted_isSome {gone : List ℤ} (h : ∀ l ∈ links, l.orphaned gone = true → ∀ p,
    l.parent = some p → Ends (parentIn links) p) : ∃ parents, adopted links gone = some parents := by
  have hclimb : ∀ l ∈ links.filter (Link.orphaned gone),
      ∃ z, climb gone.contains (parentIn links) (gone.length + 2) l.parent = some z := by
    intro l hl
    obtain ⟨hl, horphaned⟩ := List.mem_filter.mp hl
    cases hparent : l.parent with
    | none => simp [Link.orphaned, hparent] at horphaned
    | some p => exact climb_gone gone (h l hl horphaned p hparent)
  have hmapM : ∀ ls : List Link, ls ⊆ links.filter (Link.orphaned gone) →
      ∃ parents, (ls.mapM fun l => (climb gone.contains (parentIn links) (gone.length + 2)
        l.parent).map fun z => (l.id, z)) = some parents := by
    intro ls hls
    induction ls with
    | nil => exact ⟨[], rfl⟩
    | cons l ls ih =>
      obtain ⟨z, hz⟩ := hclimb l (hls List.mem_cons_self)
      obtain ⟨parents, hparents⟩ := ih fun l' hl' => hls (List.mem_cons_of_mem _ hl')
      exact ⟨(l.id, z) :: parents, by rw [List.mapM_cons, hz, hparents]; rfl⟩
  exact hmapM _ (List.Subset.refl _)

end Adopted

/-- The parents after a deletion of `gone`. -/
def adoptedParent (parents : List (ℤ × Option ℤ)) (l : Link) : Option ℤ := (parents.lookup l.id).getD l.parent

theorem Db.withoutRows_links (db : Db) (gone : List ℤ) (parents : List (ℤ × Option ℤ)) :
    (db.withoutRows gone parents).links = removeLinks gone.contains (adoptedParent parents) db.links := by
  refine links_update_delete db.rows gone.contains _ fun r => ?_
  cases hlook : parents.lookup r.id with
  | none => simp [ActivityRow.link, adoptedParent, hlook]
  | some z => simp [ActivityRow.link, adoptedParent, hlook]

variable {links : List Link} {l : Link}

variable {parents : List (ℤ × Option ℤ)}

theorem adoptedParent_climb {gone : List ℤ} {p : ℤ} (hunique : (links.map Link.id).Nodup)
    (hadopted : adopted links gone = some parents) (hl : l ∈ links) (hstay : gone.contains l.id = false)
    (hp : l.parent = some p) (hends : Ends (parentIn links) p) :
    ∃ steps z, climb gone.contains (parentIn links) steps (some p) = some z ∧
      adoptedParent parents l = z := by
  by_cases hgone : p ∈ gone
  · have horphaned : l.orphaned gone = true := by
      simp only [Link.orphaned, hp, Option.any_some, hstay]
      simpa using hgone
    have hlookup := adopted_lookup hunique hadopted hl
    rw [if_pos horphaned] at hlookup
    obtain ⟨z, hz⟩ := climb_gone gone hends
    refine ⟨gone.length + 2, z, hz, ?_⟩
    rw [adoptedParent, hlookup, hp, hz]
    rfl
  · have horphaned : l.orphaned gone = false := by simp [Link.orphaned, hp, hgone]
    refine ⟨1, some p, by simp [climb, hgone], ?_⟩
    rw [adoptedParent, adopted_lookup hunique hadopted hl, horphaned]
    exact hp

theorem Families.adopt {items : List (ℕ × ℤ)} {gone : List ℤ} (h : Families links items)
    (hadopted : adopted links gone = some parents)
    (hroots : ∀ l ∈ links, l.id ∉ gone → ∀ r ∈ gone, l.root ≠ some r) :
    Families (removeLinks gone.contains (adoptedParent parents) links) items := by
  refine h.remove (List.Subset.refl _) (fun l hl hstay r hr => ?_) (fun l hl hnone => ?_)
    fun l hl hstay p hp => ?_
  · refine Bool.eq_false_iff.mpr fun hgone => ?_
    exact hroots l hl (by simpa using hstay) r (by simpa using hgone) hr
  · rw [adoptedParent, adopted_lookup h.unique hadopted hl]
    simp [Link.orphaned, hnone]
  · exact adoptedParent_climb h.unique hadopted hl hstay hp (h.parent_ends hl hp)

/-! ## 7. `delete_unreferenced_activities` keeps split families -/

/-- **What a deletion of unreferenced rows has to leave**: the items; every row that an item names
    or that is the root of a row that stays; links that name rows; and split families. -/
structure Db.Spared (db db' : Db) : Prop where
  items : db'.items = db.items
  named : ∀ l ∈ db.links, l.id ∉ db'.links.map Link.id → ∀ it ∈ db.items, it.2 ≠ l.id
  roots : ∀ l ∈ db.links, l.id ∉ db'.links.map Link.id → ∀ l' ∈ db'.links, l'.root ≠ some l.id
  linked : ∀ l ∈ db'.links, ∀ x, l.root = some x ∨ l.parent = some x → x ∈ db'.links.map Link.id
  families : Families db'.links db'.items

theorem Families.linked {items : List (ℕ × ℤ)} (h : Families links items) (hl : l ∈ links) {x : ℤ}
    (hx : l.root = some x ∨ l.parent = some x) :
    x ∈ links.map Link.id := by
  rcases hx with hx | hx
  · obtain ⟨h', hmem, hid, -⟩ := h.head l hl x hx
    exact hid ▸ List.mem_map_of_mem hmem
  · obtain ⟨-, -, l', hl', hid, -⟩ := h.parent_mem hl hx
    exact hid ▸ List.mem_map_of_mem hl'

theorem mem_parentOf {doomed : List ℤ} {x : ℤ} :
    x ∈ parentOf links doomed ↔ x ∈ doomed ∧ x ∈ links.map Link.id := by
  simp [parentOf]

theorem deleteUnreferenced_spec {db : Db} (h : Families db.links db.items) (ids : List ℤ) :
    ∃ db' renamed, deleteUnreferencedActivities db ids = some (db', renamed) ∧ db.Spared db' := by
  have hstart : ∀ y ∈ (ids.filter Imports.isActivityId).dedup,
      y ∉ (ids.filter Imports.isActivityId).dedup → ∀ z ∈ linksOf db.links [y],
        z ∈ (ids.filter Imports.isActivityId).dedup := fun y hy hout => absurd hy hout
  obtain ⟨given, hgiven, -, -⟩ := gather_spec (Nat.add_le_add_right gatherLeft_length 2) hstart
    (List.Subset.refl _)
  obtain ⟨doomed, hdoomed, hsub, hclosed, -⟩ := spare_spec db.links
    (Nat.le_refl ((given.filter fun id => !db.items.any fun it => it.2 == id).length + 1))
  have hunnamed : ∀ x ∈ doomed, ∀ it ∈ db.items, it.2 ≠ x := by
    intro x hx it hit heq
    have hno := (List.mem_filter.mp (hsub hx)).2
    rw [Bool.not_eq_true', List.any_eq_false] at hno
    exact hno it hit (by simp [heq])
  unfold deleteUnreferencedActivities
  simp only [hgiven, hdoomed, Option.bind_eq_bind, Option.bind_some]
  by_cases hempty : doomed = []
  · rw [if_pos hempty]
    refine ⟨db, [], rfl, rfl, fun l hl hgone => ?_, fun l hl hgone => ?_,
      fun l hl x hx => h.linked hl hx, h⟩
    · exact absurd (List.mem_map_of_mem hl) hgone
    · exact absurd (List.mem_map_of_mem hl) hgone
  · obtain ⟨parents, hparents⟩ : ∃ parents, adopted db.links (parentOf db.links doomed) =
        some parents := adopted_isSome fun l hl _ p hp => h.parent_ends hl hp
    rw [if_neg hempty, hparents]
    simp only [Option.bind_some]
    refine ⟨_, _, rfl, ?_⟩
    obtain ⟨hlinks, hitems⟩ := renumberFamilies_same
      (db.withoutRows (parentOf db.links doomed) parents) [] (lostPieces db.links doomed)
    rw [Db.withoutRows_links] at hlinks
    -- what is gone was doomed
    have hgone : ∀ l ∈ db.links,
        l.id ∉ (removeLinks (parentOf db.links doomed).contains (adoptedParent parents)
          db.links).map Link.id → l.id ∈ doomed := by
      intro l hl hout
      refine Classical.byContradiction fun hkept => hout ?_
      have hstay : (parentOf db.links doomed).contains l.id = false := by
        rw [Bool.eq_false_iff]
        intro hmem
        exact hkept (mem_parentOf.mp (by simpa using hmem)).1
      exact List.mem_map.mpr ⟨_, mem_removeLinks.mpr ⟨l, hl, hstay, rfl⟩, rfl⟩
    have hroots : ∀ l ∈ db.links, l.id ∉ parentOf db.links doomed → ∀ r ∈ doomed, l.root ≠ some r := by
      intro l hl hstay r hr hroot
      exact hstay (mem_parentOf.mpr ⟨hclosed l hl r hr hroot, List.mem_map_of_mem hl⟩)
    have hfamilies := h.adopt hparents fun l hl hstay r hr => hroots l hl hstay r (mem_parentOf.mp hr).1
    refine ⟨hitems, fun l hl hout => ?_, fun l hl hout l' hl' hroot => ?_, fun l hl x hx => ?_, ?_⟩
    · rw [hlinks] at hout
      exact hunnamed l.id (hgone l hl hout)
    · rw [hlinks] at hout hl'
      obtain ⟨m, hm, hstay, rfl⟩ := mem_removeLinks.mp hl'
      exact hroots m hm (by simpa using hstay) l.id (hgone l hl hout) hroot
    · rw [hlinks] at hl ⊢
      exact hfamilies.linked hl hx
    · rw [hlinks, hitems]
      exact hfamilies

/-! ## 8. `delete_local_activity` -/

/-- **Where deleting a row leaves split families**: no other row names it as its root, and no other
    trip holds a piece cut out of it. -/
def Db.LocalSafe (db : Db) (projectId : ℕ) (activityId : ℤ) : Prop :=
  ∀ row, db.row activityId = some row → row.stravaId = none → db.heldElsewhere projectId activityId = false →
    (∀ l ∈ db.links, l.id ≠ activityId → l.root ≠ some activityId) ∧
    ∀ l ∈ db.links, l.parent = some activityId → db.heldElsewhere projectId l.id = false

/-- The parents that the children of the deleted row get. -/
def localParent (db : Db) (projectId : ℕ) (row : ActivityRow) (l : Link) : Option ℤ :=
  if l.parent == some row.id && !db.heldElsewhere projectId l.id then row.splitParentId
  else l.parent

theorem localParent_climb {db : Db} {p : ℕ} {row : ActivityRow} {q : ℤ} (hrow : row ∈ db.rows)
    (hheld : l.parent = some row.id → db.heldElsewhere p l.id = false) (hq : l.parent = some q)
    (hends : Ends (parentIn db.links) q) :
    ∃ steps z, climb (fun id => id == row.id) (parentIn db.links) steps (some q) = some z ∧
      localParent db p row l = z := by
  by_cases hself : q = row.id
  · -- a child of the deleted row: it gets the row's parent, which is another row
    subst hself
    have hnew : localParent db p row l = row.splitParentId := by
      rw [localParent, hq, hheld hq]
      simp
    have hparent : parentIn db.links row.id = row.splitParentId :=
      parentIn_of_mem db.links_unique (Db.mem_links.mpr ⟨row, hrow, rfl⟩)
    refine ⟨3, row.splitParentId, ?_, hnew⟩
    cases hup : row.splitParentId with
    | none => simp [climb, hparent, hup]
    | some up =>
      have hne : up ≠ row.id := by
        rintro rfl
        exact hends.not_onLoop (.single (hparent.trans hup))
      simp [climb, hparent, hup, hne]
  · refine ⟨1, some q, by simp [climb, hself], ?_⟩
    rw [localParent, hq]
    simp [hself]

theorem deleteLocal_links {db db' : Db} {p : ℕ} {a : ℤ} (h : deleteLocalActivity db p a = some db') :
    ∃ row, db.row a = some row ∧ row.stravaId = none ∧ db.heldElsewhere p a = false ∧
      db'.links = removeLinks (fun id => id == a) (localParent db p row) db.links ∧
      db'.items = db.items.filter fun it => it != (p, a) := by
  unfold deleteLocalActivity at h
  cases hrow : db.row a with
  | none =>
    rw [hrow] at h
    cases h
  | some row =>
    rw [hrow] at h
    dsimp only at h
    split at h
    case isTrue => cases h
    case isFalse hstrava =>
      split at h
      case isTrue => cases h
      case isFalse hheld =>
        obtain rfl := Option.some.inj h
        have hremoved : (((db.bump p).adoptChildren p row).delete (·.hasId a)).rows.map
            ActivityRow.link = removeLinks (fun id => id == a) (localParent db p row) db.links := by
          refine links_update_delete db.rows (fun id => id == a) _ fun r => ?_
          have hheldSame : (db.bump p).heldElsewhere p r.id = db.heldElsewhere p r.id := rfl
          by_cases hc : r.splitParentId == some row.id && !db.heldElsewhere p r.id
          · simp only [hheldSame, hc, if_true]
            simp only [ActivityRow.link, localParent, hc, if_true]
          · simp only [hheldSame, hc]
            simp [ActivityRow.link, localParent, hc]
        refine ⟨row, rfl, by simpa using hstrava, by simpa using hheld, ?_, ?_⟩
        · cases hroot : row.splitRootId with
          | none => exact hremoved
          | some root => exact (Db.renumber_links).trans hremoved
        · cases hroot : row.splitRootId with
          | none => rfl
          | some root => simp

theorem deleteLocal_families {db db' : Db} {p : ℕ} {a : ℤ} (h : Families db.links db.items)
    (hdel : deleteLocalActivity db p a = some db') :
    Families db'.links db'.items ↔ db.LocalSafe p a := by
  obtain ⟨row, hrow, hstrava, hheld, hlinks, hitems⟩ := deleteLocal_links hdel
  obtain ⟨hmem, hhas⟩ := Table.first_some hrow
  have hid : row.id = a := ActivityRow.hasId_iff.mp hhas
  have hgone : a ∉ (removeLinks (fun id => id == a) (localParent db p row) db.links).map Link.id := by
    intro hin
    obtain ⟨l', hl', heq⟩ := List.mem_map.mp hin
    obtain ⟨l, -, hstay, rfl⟩ := mem_removeLinks.mp hl'
    have heq' : l.id = a := heq
    simp [heq'] at hstay
  rw [hlinks, hitems]
  constructor
  · -- a row that still names the deleted one would name none
    intro hfam row' hrow' _ _
    refine ⟨fun l hl hne hroot => ?_, fun l hl hparent => ?_⟩
    · have hstay : (l.id == a) = false := by simpa using hne
      exact hgone (hfam.linked (mem_removeLinks.mpr ⟨l, hl, hstay, rfl⟩) (.inl hroot))
    · refine Bool.eq_false_iff.mpr fun helse => ?_
      by_cases hself : l.id = a
      · rw [hself, hheld] at helse
        cases helse
      · have hstay : (l.id == a) = false := by simpa using hself
        have hsame : localParent db p row l = some a := by
          rw [localParent, helse, hparent]
          simp
        exact hgone (hfam.linked (mem_removeLinks.mpr ⟨l, hl, hstay, rfl⟩) (.inr hsame))
  · intro hsafe
    obtain ⟨hroots, hchildren⟩ := hsafe row hrow hstrava hheld
    refine h.remove (List.filter_subset_self _) (fun l hl hstay r hr => ?_) (fun l hl hnone => ?_)
      fun l hl hstay q hq => ?_
    · refine Bool.eq_false_iff.mpr fun hra => ?_
      have hra' : r = a := by simpa using hra
      exact hroots l hl (by simpa using hstay) (hra' ▸ hr)
    · rw [localParent, hnone]
      simp
    · subst hid
      exact localParent_climb hmem (hchildren l hl) hq (h.parent_ends hl hq)

/-! ## 9. The result -/

/-- **Deletions keep split families**: of every store of split families, deleting unreferenced rows
    always does, whatever ids are given; deleting a local row does exactly where no other row names
    it as its root and no other trip holds a piece cut out of it. -/
theorem deletions_iff {db : Db} (h : Families db.links db.items) (ids : List ℤ) (p : ℕ) (a : ℤ) :
    ((∃ db' renamed, deleteUnreferencedActivities db ids = some (db', renamed) ∧ db.Spared db') ∧
      ∀ db', deleteLocalActivity db p a = some db' → Families db'.links db'.items) ↔
    db.LocalSafe p a := by
  constructor
  · intro ⟨_, hlocal⟩
    cases hdel : deleteLocalActivity db p a with
    | some db' => exact (deleteLocal_families h hdel).mp (hlocal db' hdel)
    | none =>
      -- a refusal: one of the conditions fails
      intro row hrow hstrava hheld
      simp [deleteLocalActivity, hrow, hstrava, hheld] at hdel
  · intro hsafe
    exact ⟨deleteUnreferenced_spec h ids, fun db' hdel => (deleteLocal_families h hdel).mpr hsafe⟩

/-- A row that the app made, with its links. -/
def localRow (id : ℤ) (root parent : Option ℤ) : ActivityRow where
  id := id
  userInfoId := 1
  stravaId := none
  stravaUserId := none
  text := fun c => if c = .name then some "Ride" else none
  figure := fun _ => some 0
  originalFigure := fun _ => none
  isEdited := false
  startDate := ""
  startDateLocal := ""
  splitRootId := root
  splitParentId := parent
  splitBaseName := none

/-- An uploaded track that was split, and its tail again. -/
def splitTwice : Db where
  items := [(7, -1), (7, -2), (7, -3)]
  lockVersion := fun _ => 0
  rows := ⟨[localRow (-1) none none, localRow (-2) (some (-1)) (some (-1)),
    localRow (-3) (some (-1)) (some (-2))], by decide⟩

theorem splitTwice_families : Families splitTwice.links splitTwice.items := by
  have hlinks : splitTwice.links =
      [⟨-1, none, none⟩, ⟨-2, some (-1), some (-1)⟩, ⟨-3, some (-1), some (-2)⟩] := by decide
  have htwo : Reaches (isPiece splitTwice.links (-1)) (parentIn splitTwice.links) (-1) (-2) := by
    rw [hlinks]
    exact .step ⟨⟨-2, some (-1), some (-1)⟩, by decide, rfl, rfl⟩ (by decide) .root
  have hthree : Reaches (isPiece splitTwice.links (-1)) (parentIn splitTwice.links) (-1) (-3) := by
    refine .step ?_ ?_ htwo
    · rw [hlinks]
      exact ⟨⟨-3, some (-1), some (-2)⟩, by decide, rfl, rfl⟩
    · rw [hlinks]
      decide
  refine ⟨splitTwice.links_unique, fun l hl r hr => ?_, ?_, by decide, ?_⟩
  · rw [hlinks] at hl
    rcases List.mem_cons.mp hl with rfl | hl
    · cases hr
    · rcases List.mem_cons.mp hl with rfl | hl
      · obtain rfl := Option.some.inj hr
        exact htwo
      · rw [List.mem_singleton] at hl
        subst hl
        obtain rfl := Option.some.inj hr
        exact hthree
  · intro l hl r hr
    have hroot : ∀ l ∈ splitTwice.links, ∀ r ∈ l.root, r = -1 := by decide
    obtain rfl := hroot l hl r hr
    exact ⟨⟨-1, none, none⟩, by decide, rfl, rfl⟩
  · intro _ _ _ _ _ p q hp hq
    have htrip : ∀ it ∈ splitTwice.items, it.1 = 7 := by decide
    exact (htrip _ hp).trans (htrip _ hq).symm

/-- The piece in the middle may be deleted either way. -/
theorem deletions_iff_middle :
    (∃ db' renamed, deleteUnreferencedActivities splitTwice [-2] = some (db', renamed) ∧
      splitTwice.Spared db') ∧
    ∀ db', deleteLocalActivity splitTwice 7 (-2) = some db' → Families db'.links db'.items := by
  refine (deletions_iff splitTwice_families [-2] 7 (-2)).mpr fun _ _ _ _ => ⟨?_, ?_⟩
  · decide
  · decide

/-- **Deleting the first piece of an uploaded track leaves its tails naming a row that is gone.** -/
theorem deletions_fail_root : Families splitTwice.links splitTwice.items ∧
    ∃ db', deleteLocalActivity splitTwice 7 (-1) = some db' ∧ ¬ Families db'.links db'.items ∧
      db'.links = [⟨-2, some (-1), none⟩, ⟨-3, some (-1), some (-2)⟩] := by
  have hdel : (deleteLocalActivity splitTwice 7 (-1)).map Db.links =
      some [⟨-2, some (-1), none⟩, ⟨-3, some (-1), some (-2)⟩] := by decide +kernel
  obtain ⟨db', hdb', hlinks⟩ := Option.map_eq_some_iff.mp hdel
  refine ⟨splitTwice_families, db', hdb', fun hfam => ?_, hlinks⟩
  have hmem : (⟨-2, some (-1), none⟩ : Link) ∈ db'.links := by
    rw [hlinks]
    decide
  have hnamed := hfam.linked hmem (.inl rfl)
  rw [hlinks] at hnamed
  exact absurd hnamed (by decide)

end TraxJourney.Activity
