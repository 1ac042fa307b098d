/-
  File:      Activity/FamilyRuns.lean
  Subject:   The names of split families over every run of splits, deletions, resets and refreshes of
             one trip's activities.

  * **`family_named`** -- families are named by the name that the root showed when it was first split;
  * **`family_named_fails`** -- not by the one shown when the root was last the only piece.
-/
import TraxJourney.Activity.FamilyNames

namespace TraxJourney.Activity

open Lib

variable {Point : Type}

/-! ## 1. Deletions -/

section Deletions

variable {db db' : Db} {s : NamedDb} {p q : ℕ} {root x : ℤ} {base : String} {r : ActivityRow}
  {ids : List ℤ} {renamed : List ℕ}

theorem Db.mem_ids : x ∈ db.links.map Link.id ↔ ∃ r ∈ db.rows, r.id = x := by
  simp [Db.links, ActivityRow.link, Table.mem_def]

theorem NamesHold.bump (h : NamesHold p s) (q : ℕ) : NamesHold p ⟨s.db.bump q, s.first⟩ :=
  h.shrink h.families h.itemised (fun r hr => ⟨r, hr, SameName.refl r⟩) (List.Subset.refl _)

theorem NamesHold.renumberTrips (h : NamesHold p s) (renamed : List ℕ) (root : ℤ) :
    NamesHold p ⟨(renumberTrips s.db renamed root).1, s.first⟩ := by
  unfold Activity.renumberTrips
  generalize familyTrips s.db root = trips
  obtain ⟨db, first⟩ := s
  dsimp only at h ⊢
  induction trips generalizing db renamed with
  | nil => exact h
  | cons q trips ih =>
    rw [List.foldl_cons]
    dsimp only
    split
    case isTrue => exact ih _ _ (h.renumber q root)
    case isFalse => exact ih _ _ ((h.bump q).renumber q root)

theorem NamesHold.renumberFamilies (h : NamesHold p s) (renamed : List ℕ) (roots : List ℤ) :
    NamesHold p ⟨(roots.foldl (fun (db, renamed) root => Activity.renumberTrips db renamed root)
      (s.db, renamed)).1, s.first⟩ := by
  obtain ⟨db, first⟩ := s
  dsimp only at h ⊢
  induction roots generalizing db renamed with
  | nil => exact h
  | cons root roots ih =>
    rw [List.foldl_cons]
    exact ih _ _ (h.renumberTrips renamed root)

variable {parents : List (ℤ × Option ℤ)}

theorem Db.mem_withoutRows {gone : List ℤ} {r' : ActivityRow}
    (hr' : r' ∈ (db.withoutRows gone parents).rows) :
    r'.id ∉ gone ∧ ∃ r ∈ db.rows, SameName r r' := by
  obtain ⟨hmem, hstay⟩ := Table.mem_delete.mp hr'
  obtain ⟨r, hr, rfl⟩ := (Table.mem_update _).mp hmem
  refine ⟨by simpa using hstay, r, hr, ?_⟩
  split
  · exact ⟨⟨rfl, rfl, rfl⟩, rfl, rfl⟩
  · exact SameName.refl r

theorem deleteUnreferenced_some (hdel : deleteUnreferencedActivities db ids = some (db', renamed)) :
    ∃ given doomed, gather db.links (2 * db.links.length + 2) (ids.filter Imports.isActivityId).dedup
        (ids.filter Imports.isActivityId).dedup = some given ∧
      spare db.links ((given.filter fun id => !db.items.any fun it => it.2 == id).length + 1)
        (given.filter fun id => !db.items.any fun it => it.2 == id) = some doomed ∧
      (doomed = [] ∧ db' = db ∨ doomed ≠ [] ∧ ∃ parents, db' = ((lostPieces db.links doomed).foldl
          (fun (db, renamed) root => Activity.renumberTrips db renamed root)
          (db.withoutRows (parentOf db.links doomed) parents, [])).1) := by
  unfold deleteUnreferencedActivities at hdel
  obtain ⟨given, hgiven, hdel⟩ := Option.bind_eq_some_iff.mp hdel
  obtain ⟨doomed, hdoomed, hdel⟩ := Option.bind_eq_some_iff.mp hdel
  refine ⟨given, doomed, hgiven, hdoomed, ?_⟩
  split at hdel
  case isTrue hempty =>
    obtain rfl := congrArg Prod.fst (Option.some.inj hdel)
    exact .inl ⟨hempty, rfl⟩
  case isFalse hsome =>
    obtain ⟨parents, -, hdel⟩ := Option.bind_eq_some_iff.mp hdel
    exact .inr ⟨hsome, parents, (congrArg Prod.fst (Option.some.inj hdel)).symm⟩

variable {doomed : List ℤ}

theorem NamesHold.withoutRows (h : NamesHold p s)
    (hdel : deleteUnreferencedActivities s.db ids = some (db', renamed))
    (heq : db' = ((lostPieces s.db.links doomed).foldl
      (fun (db, renamed) root => Activity.renumberTrips db renamed root)
      (s.db.withoutRows (parentOf s.db.links doomed) parents, [])).1) :
    NamesHold p ⟨s.db.withoutRows (parentOf s.db.links doomed) parents, s.first⟩ := by
  obtain ⟨db'', renamed', hdel', hspared⟩ := deleteUnreferenced_spec h.families ids
  obtain rfl : db' = db'' := congrArg Prod.fst (Option.some.inj (hdel.symm.trans hdel'))
  obtain ⟨hlinks, hitems⟩ := renumberFamilies_same
    (s.db.withoutRows (parentOf s.db.links doomed) parents) [] (lostPieces s.db.links doomed)
  rw [← heq] at hlinks hitems
  have hfamilies := hspared.families
  rw [hlinks, hitems] at hfamilies
  refine h.shrink hfamilies (fun it hit => ?_) (fun r' hr' => (Db.mem_withoutRows hr').2)
    (List.Subset.refl _)
  -- a row that an item names stays
  refine Db.mem_ids.mp (hlinks ▸ Classical.byContradiction fun hgone => ?_)
  obtain ⟨r, hr, hid⟩ := h.itemised it hit
  refine hspared.named r.link (Db.mem_links.mpr ⟨r, hr, rfl⟩) ?_ it hit hid.symm
  show r.id ∉ _
  rw [hid]
  exact hgone

theorem NamesHold.deleteUnreferenced (h : NamesHold p s)
    (hdel : deleteUnreferencedActivities s.db ids = some (db', renamed)) :
    NamesHold p ⟨db', s.first⟩ := by
  obtain ⟨given, doomed, -, -, ⟨-, rfl⟩ | ⟨-, parents, heq⟩⟩ := deleteUnreferenced_some hdel
  · exact h
  · have hkept := (h.withoutRows hdel heq).renumberFamilies [] (lostPieces s.db.links doomed)
    rw [heq]
    exact hkept

theorem Families.familyTrips_eq (h : Families db.links db.items) (hholds : db.Holds p root) :
    familyTrips db root = [p] := by
  have hmem : ∀ q, q ∈ familyTrips db root ↔ q = p := by
    intro q
    unfold familyTrips
    rw [(List.perm_insertionSort _ _).mem_iff, List.mem_dedup]
    simp only [List.mem_map, List.mem_filter, Prod.exists, List.contains_eq_mem, decide_eq_true_eq,
      Bool.or_eq_true, beq_iff_eq, exists_and_right, exists_eq_right]
    constructor
    · rintro ⟨y, hit, l, ⟨hl, hfam⟩, rfl⟩
      obtain ⟨r, hr, rfl⟩ := Db.mem_links.mp hl
      obtain ⟨h', hh', hid, hnone⟩ := h.held_root hholds
      refine h.holder hholds hr ?_ hit
      rcases hfam with hself | hname
      · obtain rfl : r = h' := Table.eq_of_key hr hh' (hself.trans hid.symm)
        rw [ActivityRow.rootId, hnone]
        exact hid
      · have hname' : r.splitRootId = some root := hname
        rw [ActivityRow.rootId, hname']
        rfl
    · rintro rfl
      obtain ⟨r, hr, hroot, hit⟩ := hholds
      refine ⟨r.id, hit, r.link, ⟨Db.mem_links.mpr ⟨r, hr, rfl⟩, ?_⟩, rfl⟩
      show r.id = root ∨ r.splitRootId = some root
      cases hname : r.splitRootId with
      | none =>
        rw [ActivityRow.rootId, hname] at hroot
        exact .inl hroot
      | some y =>
        rw [ActivityRow.rootId, hname] at hroot
        exact .inr (congrArg some hroot)
  have hnodup : (familyTrips db root).Nodup :=
    (List.perm_insertionSort _ _).nodup_iff.mpr (List.nodup_dedup _)
  have hperm : (familyTrips db root).Perm [p] := by
    rw [List.perm_ext_iff_of_nodup hnodup (List.nodup_singleton p)]
    intro q
    rw [hmem, List.mem_singleton]
  exact List.perm_singleton.mp hperm

theorem renumberTrips_place {r' : ActivityRow} (hr' : r' ∈ (Activity.renumberTrips db renamed root).1.rows) :
    ∃ r ∈ db.rows, SamePlace r r' := by
  unfold Activity.renumberTrips at hr'
  generalize familyTrips db root = trips at hr'
  induction trips generalizing db renamed with
  | nil => exact ⟨r', hr', rfl, rfl, rfl⟩
  | cons q trips ih =>
    rw [List.foldl_cons] at hr'
    dsimp only at hr'
    have hthrough : ∀ {db₁ : Db}, db₁.rows = db.rows → (∃ r ∈ (db₁.renumber q root).rows, SamePlace r r') →
        ∃ r ∈ db.rows, SamePlace r r' := by
      rintro db₁ hrows ⟨r₁, hr₁, hsame⟩
      obtain ⟨r, hr, hsame'⟩ := Db.mem_renumber_place hr₁
      exact ⟨r, hrows ▸ hr, hsame'.trans hsame⟩
    split at hr'
    case isTrue => exact hthrough rfl (ih hr')
    case isFalse => exact @hthrough (db.bump q) rfl (ih hr')

theorem NamesHold.renumberTrips_named (h : NamesHold p s) (hfirst : s.first root = some base)
    (hpiece : ∀ r ∈ s.db.rows, r.id = root → r.splitRootId = none) :
    (Activity.renumberTrips s.db [] root).1.FamilyNamed p root base := by
  by_cases hholds : s.db.Holds p root
  · have heq : (Activity.renumberTrips s.db [] root).1 = (s.db.bump p).renumber p root := by
      unfold Activity.renumberTrips
      rw [h.families.familyTrips_eq hholds]
      rfl
    rw [heq]
    exact (h.bump p).named hfirst hpiece
  · refine familyNamed_of_not_holds hholds hpiece (fun r' hr' => ?_) ?_
    · obtain ⟨r, hr, hplace⟩ := renumberTrips_place hr'
      exact ⟨r, hr, hplace⟩
    · rw [(renumberTrips_same s.db [] root).2]
      exact List.Subset.refl _

variable {links : List Link}

theorem mem_lostPieces {y : ℤ} : y ∈ lostPieces links doomed ↔
    y ∉ doomed ∧ ∃ l ∈ links, l.id ∈ doomed ∧ l.root = some y := by
  unfold lostPieces
  rw [(List.perm_insertionSort _ _).mem_iff, List.mem_filter, List.mem_dedup, List.mem_filterMap]
  simp only [List.mem_filter, List.contains_eq_mem, decide_eq_true_eq, Bool.not_eq_true',
    decide_eq_false_iff_not]
  constructor
  · rintro ⟨⟨l, ⟨hl, hmem⟩, hroot⟩, hout⟩
    exact ⟨hout, l, hl, hmem, hroot⟩
  · rintro ⟨hout, l, hl, hmem, hroot⟩
    exact ⟨⟨l, ⟨hl, hmem⟩, hroot⟩, hout⟩

theorem lostPieces_nodup : (lostPieces links doomed).Nodup :=
  (List.perm_insertionSort _ _).nodup_iff.mpr ((List.nodup_dedup _).filter _)

theorem Families.gathered {items : List (ℕ × ℤ)} {given start : List ℤ} {rounds : ℕ}
    (h : Families links items) (hstart : ∀ y ∈ start, ∀ l ∈ links, l.id = y → l.family = root)
    (hgather : gather links rounds start start = some given) :
    ∀ y ∈ given, ∀ l ∈ links, l.id = y → l.family = root := by
  refine gather_within (s := fun y => ∀ l ∈ links, l.id = y → l.family = root)
    (fun y hy z hz l hl hid => ?_) hstart hstart hgather
  obtain ⟨m, hm, hmid, hlink⟩ := mem_linksOf.mp hz
  have hfam := hy m hm (List.mem_singleton.mp hmid)
  rcases hlink with hroot | hparent
  · obtain ⟨h', hh', hid', hnone⟩ := h.head m hm z hroot
    obtain rfl : h' = l := List.inj_on_of_nodup_map h.unique hh' hl (hid'.trans hid.symm)
    rw [← hfam, Link.family, Link.family, hnone, hroot]
    exact hid'
  · obtain ⟨r, hr, l', hl', hid', hfam'⟩ := h.parent_mem hm hparent
    obtain rfl : l' = l := List.inj_on_of_nodup_map h.unique hl' hl (hid'.trans hid.symm)
    rw [hfam', ← hfam, Link.family, hr]
    rfl

theorem familyGone_named (hpiece : ∀ r ∈ db.rows, r.id = root → r.splitRootId = none) (hgone : root ∈ doomed)
    (hclosed : ∀ l ∈ db.links, ∀ y ∈ doomed, l.root = some y → l.id ∈ doomed) :
    (db.withoutRows (parentOf db.links doomed) parents).FamilyNamed p root base := by
  have hnot : ¬ (db.withoutRows (parentOf db.links doomed) parents).Holds p root := by
    rintro ⟨r', hr', hroot', -⟩
    obtain ⟨hstay, r₀, hr₀, hsame⟩ := Db.mem_withoutRows hr'
    refine hstay (mem_parentOf.mpr ⟨?_, Db.mem_ids.mpr ⟨r₀, hr₀, hsame.id.symm⟩⟩)
    rw [hsame.id]
    rw [hsame.rootId, ActivityRow.rootId] at hroot'
    cases hname : r₀.splitRootId with
    | none =>
      rw [hname, Option.getD_none] at hroot'
      exact hroot'.symm ▸ hgone
    | some y =>
      rw [hname, Option.getD_some] at hroot'
      exact hclosed r₀.link (Db.mem_links.mpr ⟨r₀, hr₀, rfl⟩) root hgone (hroot' ▸ hname)
  refine familyNamed_of_not_holds hnot (fun r' hr' hid => ?_) (fun r' hr' => ⟨r', hr', rfl, rfl, rfl⟩)
    (List.Subset.refl _)
  obtain ⟨-, r₀, hr₀, hsame⟩ := Db.mem_withoutRows hr'
  rw [hsame.splitRootId]
  exact hpiece r₀ hr₀ (hsame.id.symm.trans hid)

theorem NamesHold.dropPiece_named (h : NamesHold p s) (hr : r ∈ s.db.rows) (hroot : r.splitRootId = some root)
    (hvalid : Imports.isActivityId r.id = true) (hunheld : ∀ it ∈ s.db.items, it.2 ≠ r.id)
    (hfirst : s.first root = some base)
    (hdel : deleteUnreferencedActivities s.db [r.id] = some (db', renamed)) :
    db'.FamilyNamed p root base := by
  obtain ⟨h', hh', hid', hnone'⟩ := h.families.root_row hr
  have hid : h'.id = root := by rw [hid', ActivityRow.rootId, hroot]; rfl
  have hpiece : ∀ r' ∈ s.db.rows, r'.id = root → r'.splitRootId = none := by
    intro r' hr' heq
    rw [Table.eq_of_key (t := s.db.rows) hr' hh' (heq.trans hid.symm)]
    exact hnone'
  obtain ⟨given, doomed, hgather, hspare, hcourse⟩ := deleteUnreferenced_some hdel
  have hstart : ([r.id].filter Imports.isActivityId).dedup = [r.id] := by simp [hvalid]
  rw [hstart] at hgather
  obtain ⟨rest, hrest, hsub, hclosed, hlargest⟩ := spare_spec s.db.links
    (Nat.le_refl ((given.filter fun id => !s.db.items.any fun it => it.2 == id).length + 1))
  obtain rfl : doomed = rest := Option.some.inj (hspare.symm.trans hrest)
  -- the row itself is doomed
  have hmine : r.id ∈ doomed := by
    have hgiven : r.id ∈ given := by
      obtain ⟨all, hall, hsubset, -⟩ : ∃ all,
          gather s.db.links (2 * s.db.links.length + 2) [r.id] [r.id] = some all ∧ [r.id] ⊆ all ∧
            ∀ y ∈ all, ∀ z ∈ linksOf s.db.links [y], z ∈ all :=
        gather_spec (Nat.add_le_add_right gatherLeft_length 2) (fun y hy hout => absurd hy hout)
          (List.Subset.refl _)
      obtain rfl : given = all := Option.some.inj (hgather.symm.trans hall)
      exact hsubset (List.mem_singleton_self _)
    refine hlargest [r.id] (fun y hy => ?_) (fun l hl y hy hname => ?_) (List.mem_singleton_self _)
    · rw [List.mem_singleton.mp hy]
      refine List.mem_filter.mpr ⟨hgiven, ?_⟩
      rw [Bool.not_eq_true', List.any_eq_false]
      exact fun it hit => by simpa using hunheld it hit
    · rw [List.mem_singleton.mp hy] at hname
      obtain ⟨m, hm, hmid, hmnone⟩ := h.families.head l hl r.id hname
      obtain rfl : m = r.link := List.inj_on_of_nodup_map h.families.unique hm
        (Db.mem_links.mpr ⟨r, hr, rfl⟩) hmid
      have hsome : r.splitRootId = none := hmnone
      rw [hroot] at hsome
      cases hsome
  have hfam : ∀ y ∈ doomed, ∀ l ∈ s.db.links, l.id = y → l.family = root := by
    intro y hy
    refine h.families.gathered (fun z hz l hl hlid => ?_) hgather y (List.mem_of_mem_filter (hsub hy))
    rw [List.mem_singleton.mp hz] at hlid
    obtain rfl : l = r.link := List.inj_on_of_nodup_map h.families.unique hl
      (Db.mem_links.mpr ⟨r, hr, rfl⟩) hlid
    show r.splitRootId.getD r.id = root
    rw [hroot]
    rfl
  rcases hcourse with ⟨hempty, -⟩ | ⟨-, parents, heq⟩
  · rw [hempty] at hmine
    exact absurd hmine List.not_mem_nil
  · have hkept := h.withoutRows hdel heq
    have hpiece' : ∀ r' ∈ (s.db.withoutRows (parentOf s.db.links doomed) parents).rows,
        r'.id = root → r'.splitRootId = none := by
      intro r' hr' heq'
      obtain ⟨-, r₀, hr₀, hsame⟩ := Db.mem_withoutRows hr'
      rw [hsame.splitRootId]
      exact hpiece r₀ hr₀ (hsame.id.symm.trans heq')
    by_cases hgone : root ∈ doomed
    · -- the whole family went
      have hnone : lostPieces s.db.links doomed = [] := by
        refine List.eq_nil_iff_forall_not_mem.mpr fun y hy => ?_
        obtain ⟨hout, l, hl, hmem, hname⟩ := mem_lostPieces.mp hy
        have hyroot : y = root := by
          rw [← hfam l.id hmem l hl rfl, Link.family, hname]
          rfl
        exact hout (hyroot ▸ hgone)
      rw [hnone] at heq
      rw [heq]
      exact familyGone_named hpiece hgone hclosed
    · have hone : lostPieces s.db.links doomed = [root] := by
        have hperm : (lostPieces s.db.links doomed).Perm [root] := by
          rw [List.perm_ext_iff_of_nodup lostPieces_nodup (List.nodup_singleton _)]
          intro y
          rw [mem_lostPieces, List.mem_singleton]
          constructor
          · rintro ⟨-, l, hl, hmem, hname⟩
            rw [← hfam l.id hmem l hl rfl, Link.family, hname]
            rfl
          · rintro rfl
            exact ⟨hgone, r.link, Db.mem_links.mpr ⟨r, hr, rfl⟩, hmine, hroot⟩
        exact List.perm_singleton.mp hperm
      rw [hone] at heq
      rw [heq]
      exact hkept.renumberTrips_named hfirst hpiece'

theorem NamesHold.dropRoot_named (h : NamesHold p s) (hnamed : s.db.FamilyNamed p root base)
    (hpiece : ∀ r ∈ s.db.rows, r.id = root → r.splitRootId = none)
    (hdel : deleteUnreferencedActivities s.db [root] = some (db', renamed)) :
    db'.FamilyNamed p root base := by
  obtain ⟨given, doomed, hgather, hspare, hcourse⟩ := deleteUnreferenced_some hdel
  obtain ⟨rest, hrest, hsub, hclosed, -⟩ := spare_spec s.db.links
    (Nat.le_refl ((given.filter fun id => !s.db.items.any fun it => it.2 == id).length + 1))
  obtain rfl : doomed = rest := Option.some.inj (hspare.symm.trans hrest)
  -- the root's row has no links: nothing else is gathered
  have hstart : ∀ y ∈ ([root].filter Imports.isActivityId).dedup, y = root := fun y hy =>
    List.mem_singleton.mp (List.mem_of_mem_filter (List.mem_dedup.mp hy))
  have halone : ∀ y ∈ given, y = root := by
    refine gather_within (s := fun y => y = root) (fun y hy z hz => ?_) hstart hstart hgather
    obtain ⟨l, hl, hid, hlink⟩ := mem_linksOf.mp hz
    obtain ⟨r, hr, rfl⟩ := Db.mem_links.mp hl
    have hnone := hpiece r hr ((List.mem_singleton.mp hid).trans hy)
    have hplain : r.link.parent = none := h.families.plain r.link hl hnone
    rcases hlink with hroot | hparent
    · rw [show r.link.root = none from hnone] at hroot
      cases hroot
    · rw [hplain] at hparent
      cases hparent
  have hdoomed : ∀ y ∈ doomed, y = root := fun y hy => halone y (List.mem_of_mem_filter (hsub hy))
  rcases hcourse with ⟨-, rfl⟩ | ⟨hsome, parents, heq⟩
  · exact hnamed
  · have hgone : root ∈ doomed := by
      obtain ⟨y, hy⟩ := List.exists_mem_of_ne_nil _ hsome
      exact hdoomed y hy ▸ hy
    have hnone : lostPieces s.db.links doomed = [] := by
      refine List.eq_nil_iff_forall_not_mem.mpr fun y hy => ?_
      obtain ⟨-, l, hl, hmem, hname⟩ := mem_lostPieces.mp hy
      obtain ⟨r, hr, rfl⟩ := Db.mem_links.mp hl
      have hroot : r.splitRootId = none := hpiece r hr (hdoomed r.id hmem)
      have hname' : r.splitRootId = some y := hname
      rw [hroot] at hname'
      cases hname'
    rw [hnone] at heq
    rw [heq]
    exact familyGone_named hpiece hgone hclosed

theorem deleteLocal_some (hdel : deleteLocalActivity db p x = some db') :
    ∃ row db₂, db.row x = some row ∧ db₂.items = db.items.filter (fun it => it != (p, x)) ∧
      db.heldElsewhere p x = false ∧
      (∀ r' ∈ db₂.rows, ∃ r ∈ db.rows, SameName r r') ∧
      (∀ r ∈ db.rows, r.id ≠ x → ∃ r' ∈ db₂.rows, r'.id = r.id) ∧
      db' = match row.splitRootId with
        | some root => db₂.renumber p root
        | none => db₂ := by
  unfold deleteLocalActivity at hdel
  cases hrow : db.row x with
  | none =>
    rw [hrow] at hdel
    cases hdel
  | some row =>
    rw [hrow] at hdel
    dsimp only at hdel
    obtain ⟨-, hdel⟩ := Option.ite_none_left_eq_some.mp hdel
    obtain ⟨hheld, hdel⟩ := Option.ite_none_left_eq_some.mp hdel
    refine ⟨row, _, rfl, rfl, by simpa using hheld, fun r' hr' => ?_, fun r hr hne => ?_,
      (Option.some.inj hdel).symm⟩
    · obtain ⟨hmem, -⟩ := Table.mem_delete.mp hr'
      obtain ⟨r, hr, rfl⟩ := (Table.mem_update _).mp hmem
      refine ⟨r, hr, ?_⟩
      split
      · exact ⟨⟨rfl, rfl, rfl⟩, rfl, rfl⟩
      · exact SameName.refl r
    · have hmem := Table.mem_update_of_mem
        (p := fun c => c.splitParentId == some row.id && !(db.bump p).heldElsewhere p c.id)
        (f := fun c => { c with splitParentId := row.splitParentId }) (fun _ => rfl) hr
      refine ⟨_, Table.mem_delete.mpr ⟨hmem, ?_⟩, ?_⟩
      · split
        · exact Bool.eq_false_iff.mpr fun heq => hne (ActivityRow.hasId_iff.mp heq)
        · exact Bool.eq_false_iff.mpr fun heq => hne (ActivityRow.hasId_iff.mp heq)
      · split <;> rfl

theorem NamesHold.localSafe (h : NamesHold p s) (hheld : (p, x) ∈ s.db.items)
    (hunnamed : ∀ r ∈ s.db.rows, r.splitRootId ≠ some x) : s.db.LocalSafe p x := by
  intro row hrow _ _
  obtain ⟨hmem, rfl⟩ := Db.row_some hrow
  refine ⟨fun l hl _ hroot => ?_, fun l hl hparent => ?_⟩
  · obtain ⟨r, hr, rfl⟩ := Db.mem_links.mp hl
    exact hunnamed r hr hroot
  · obtain ⟨r, hr, rfl⟩ := Db.mem_links.mp hl
    obtain ⟨root, hroot, l', hl', hid, hfam⟩ := h.families.parent_mem hl hparent
    obtain rfl : l' = row.link := List.inj_on_of_nodup_map h.families.unique hl'
      (Db.mem_links.mpr ⟨row, hmem, rfl⟩) hid
    have hrootId : r.rootId = row.rootId := by
      have hname : r.splitRootId = some root := hroot
      rw [ActivityRow.rootId, hname]
      exact hfam.symm
    exact h.families.free ⟨row, hmem, rfl, hheld⟩ hr hrootId

theorem NamesHold.deleteLocal (h : NamesHold p s) (hheld : (p, x) ∈ s.db.items)
    (hunnamed : ∀ r ∈ s.db.rows, r.splitRootId ≠ some x)
    (hdel : deleteLocalActivity s.db p x = some db') :
    NamesHold p ⟨db', s.first⟩ ∧ ∀ row, s.db.row x = some row → ∀ root,
      row.splitRootId = some root → ∃ base, s.first root = some base ∧ db'.FamilyNamed p root base ∧
        ∀ r ∈ db'.rows, r.id = root → r.splitRootId = none := by
  have hfamilies := (deleteLocal_families h.families hdel).mpr (h.localSafe hheld hunnamed)
  obtain ⟨row, db₂, hrow, hitems, helse, hrows, hstay, heq⟩ := deleteLocal_some hdel
  obtain ⟨hmem, rfl⟩ := Db.row_some hrow
  have hkept : NamesHold p ⟨db₂, s.first⟩ := by
    refine h.shrink ?_ (fun it hit => ?_) hrows ?_
    · cases hroot : row.splitRootId with
      | none =>
        rw [hroot] at heq
        obtain rfl : db' = db₂ := heq
        exact hfamilies
      | some root =>
        rw [hroot] at heq
        rw [heq, Db.renumber_links, Db.renumber_items] at hfamilies
        exact hfamilies
    · rw [hitems] at hit
      obtain ⟨hit, hother⟩ := List.mem_filter.mp hit
      obtain ⟨r, hr, hid⟩ := h.itemised it hit
      have hne : r.id ≠ row.id := by
        intro hsame
        have hfar : it.1 ≠ p := fun htrip =>
          absurd (Prod.ext htrip (hid.symm.trans hsame) : it = (p, row.id)) (by simpa using hother)
        rw [Db.heldElsewhere, List.any_eq_false] at helse
        exact helse it hit (by simp [hfar, ← hid, hsame])
      obtain ⟨r', hr', hid'⟩ := hstay r hr hne
      exact ⟨r', hr', hid'.trans hid⟩
    · rw [hitems]
      exact List.filter_subset_self _
  refine ⟨?_, fun row' hrow' root hroot => ?_⟩
  · cases hroot : row.splitRootId with
    | none =>
      rw [hroot] at heq
      exact heq ▸ hkept
    | some root =>
      rw [hroot] at heq
      exact heq ▸ hkept.renumber p root
  · obtain rfl : row = row' := Option.some.inj (hrow.symm.trans hrow')
    rw [hroot] at heq
    have hrootId : row.rootId = root := by rw [ActivityRow.rootId, hroot]; rfl
    obtain ⟨h', hh', hid', hnone⟩ := h.families.root_row hmem
    have hpiece : ∀ r' ∈ db₂.rows, r'.id = root → r'.splitRootId = none := by
      intro r' hr' hid
      obtain ⟨r, hr, hsame⟩ := hrows r' hr'
      rw [hsame.splitRootId, Table.eq_of_key (t := s.db.rows) hr hh' ?_]
      · exact hnone
      · rw [hid', hrootId, ← hsame.id]
        exact hid
    cases hfirst : s.first root with
    | none =>
      have hnames := h.roots root ⟨row, hmem, hrootId, hheld⟩
      exact absurd hroot ((hnames.unsplit hfirst).2 row hmem)
    | some base =>
      refine ⟨base, rfl, heq ▸ hkept.named hfirst hpiece, fun r' hr' hid => ?_⟩
      rw [heq] at hr'
      obtain ⟨r, hr, hsame⟩ := Db.mem_renumber_place hr'
      rw [hsame.splitRootId]
      exact hpiece r hr (hsame.id.symm.trans hid)

theorem NamesHold.deleteLocalPiece (h : NamesHold p s) (hheld : (p, x) ∈ s.db.items)
    (hunnamed : ∀ r ∈ s.db.rows, r.splitRootId ≠ some x)
    (hdel : deleteLocalPiece s.db p x = some db') :
    NamesHold p ⟨db', s.first⟩ ∧ ∀ row, s.db.row x = some row → ∀ root,
      row.splitRootId = some root → ∃ base, s.first root = some base ∧ db'.FamilyNamed p root base := by
  obtain ⟨row, hrow, hdel⟩ := Option.bind_eq_some_iff.mp hdel
  obtain ⟨db₁, hlocal, hdel⟩ := Option.bind_eq_some_iff.mp hdel
  obtain ⟨hkept, hnamed⟩ := h.deleteLocal hheld hunnamed hlocal
  cases hroot : row.splitRootId with
  | none =>
    rw [hroot] at hdel
    obtain rfl := Option.some.inj hdel
    refine ⟨hkept, fun row' hrow' root hroot' => ?_⟩
    obtain rfl : row = row' := Option.some.inj (hrow.symm.trans hrow')
    rw [hroot] at hroot'
    cases hroot'
  | some root =>
    rw [hroot] at hdel
    obtain ⟨⟨db₂, renamed⟩, hdrop, heq⟩ := Option.map_eq_some_iff.mp hdel
    obtain rfl : db₂ = db' := heq
    refine ⟨hkept.deleteUnreferenced hdrop, fun row' hrow' root' hroot' => ?_⟩
    obtain rfl : row = row' := Option.some.inj (hrow.symm.trans hrow')
    obtain rfl : root = root' := Option.some.inj (hroot.symm.trans hroot')
    obtain ⟨base, hfirst, hnames, hpiece⟩ := hnamed row hrow root hroot
    exact ⟨base, hfirst, hkept.dropRoot_named hnames hpiece hdrop⟩

theorem NamesHold.removeItem (Point : Type) {index : ℕ} (h : NamesHold p s)
    (hdel : removeItem s.db p index = some db') :
    NamesHold p ⟨db', s.first⟩ ∧ ∀ root, (FamilyOp.deleteItem index : FamilyOp Point).renames p s.db =
      some root → ∃ base, s.first root = some base ∧ db'.FamilyNamed p root base := by
  unfold Activity.removeItem at hdel
  obtain ⟨⟨holder, x⟩, hitem, hdel⟩ := Option.bind_eq_some_iff.mp hdel
  obtain ⟨rfl, hdel⟩ := Option.ite_none_right_eq_some.mp hdel
  obtain ⟨⟨db₂, renamed⟩, hdrop, heq⟩ := Option.map_eq_some_iff.mp hdel
  obtain rfl : db₂ = db' := heq
  have hheld : (holder, x) ∈ s.db.items := List.mem_of_getElem? hitem
  let db₁ : Db := { s.db with items := s.db.items.eraseIdx index }
  have hsub : db₁.items ⊆ s.db.items := List.eraseIdx_subset
  have hkept : NamesHold holder ⟨db₁.bump holder, s.first⟩ := by
    refine h.shrink ?_ (fun it hit => h.itemised it (hsub hit)) (fun r hr => ⟨r, hr, SameName.refl r⟩) hsub
    exact ⟨h.families.unique, h.families.chain, h.families.head, h.families.plain,
      fun a ha b hb hfam q q' hq hq' => h.families.oneTrip a ha b hb hfam q q' (hsub hq) (hsub hq')⟩
  refine ⟨hkept.deleteUnreferenced hdrop, fun root hrenames => ?_⟩
  obtain ⟨it, hit, hrenames⟩ := Option.bind_eq_some_iff.mp hrenames
  obtain rfl : (holder, x) = it := Option.some.inj (hitem.symm.trans hit)
  obtain ⟨hlast, hrenames⟩ := Option.ite_none_left_eq_some.mp hrenames
  obtain ⟨r, hrow, hroot⟩ := Option.bind_eq_some_iff.mp hrenames
  obtain ⟨hmem, hid⟩ := Db.row_some hrow
  obtain rfl : r.id = x := hid
  have hunheld : ∀ it ∈ (db₁.bump holder).items, it.2 ≠ r.id := by
    intro it hit heq
    exact hlast (List.any_eq_true.mpr ⟨it, hit, by simpa using heq⟩)
  have hrootId : r.rootId = root := by rw [ActivityRow.rootId, hroot]; rfl
  cases hfirst : s.first root with
  | none =>
    have hnames := h.roots root ⟨r, hmem, hrootId, hheld⟩
    exact absurd hroot ((hnames.unsplit hfirst).2 r hmem)
  | some base =>
    have hvalid := h.valid r hmem (by simp [hroot]) hheld
    exact ⟨base, rfl, hkept.dropPiece_named hmem hroot hvalid hunheld hfirst hdrop⟩

end Deletions

/-! ## 2. Resets and refreshes -/

section Resets

variable {db db' : Db} {s : NamedDb} {p : ℕ} {root x : ℤ} {base : String} {row : ActivityRow}
  {m : TrackMath Point}

theorem Db.FamilyNamed.write {f : ActivityRow → ActivityRow} (h : db.FamilyNamed p root base)
    (hrows : db'.rows.rows = db.rows.rows.map f) (hf : ∀ r ∈ db.rows, SameName r (f r))
    (hitems : db'.items = db.items) : db'.FamilyNamed p root base := by
  have hfamily := Db.familyIn_map p root hrows (fun r hr => (hf r hr).toSamePlace) hitems
  have hmem : ∀ r ∈ db.familyIn p root, SameName r (f r) := fun r hr => hf r (mem_familyIn.mp hr).1
  obtain ⟨hone, hmany⟩ := h
  constructor
  · intro r' hr'
    rw [hfamily] at hr'
    obtain ⟨r, hr, rfl⟩ := List.map_eq_singleton_iff.mp hr'
    rw [(hmem r (by simp [hr])).name]
    exact hone r hr
  · intro hlength
    rw [hfamily, List.length_map] at hlength
    obtain ⟨ranked, hperm, hsorted, hnames⟩ := hmany hlength
    have hsame : ∀ r ∈ ranked, SameName r (f r) := fun r hr => hmem r (hperm.mem_iff.mp hr)
    refine ⟨ranked.map f, ?_, List.pairwise_map.mpr ?_, fun i hi => ?_⟩
    · rw [hfamily]
      exact hperm.map f
    · refine hsorted.imp_of_mem fun hr hr' hbefore => ?_
      unfold ActivityRow.StartsBefore
      rw [(hsame _ hr).startDate, (hsame _ hr').startDate]
      exact hbefore
    · rw [List.length_map] at hi
      have hname := (hsame _ (List.getElem_mem hi)).name
      rw [List.getElem_map, hname, hnames i hi]
      simp

theorem Db.splitDescendants_congr (hrows : db'.rows = db.rows) (hitems : db'.items = db.items) :
    db'.splitDescendants p x = db.splitDescendants p x := by
  unfold Db.splitDescendants Db.walked Db.heldElsewhere
  rw [hrows, hitems]

theorem links_delete (t : ActivityTable) (gone : ℤ → Bool) :
    (t.delete fun r => gone r.id).rows.map ActivityRow.link =
      removeLinks gone Link.parent (t.rows.map ActivityRow.link) := by
  show (t.rows.filter fun r => !gone r.id).map ActivityRow.link = _
  unfold removeLinks
  rw [List.filter_map, List.map_map]
  rfl

theorem NamesHold.removeSplitDescendants (h : NamesHold p s) (hrow : row ∈ s.db.rows)
    (hheld : (p, row.id) ∈ s.db.items) :
    NamesHold p ⟨s.db.removeSplitDescendants p row, s.first⟩ ∧
      (s.db.splitDescendants p row.id ≠ [] → ∃ base, s.first row.rootId = some base ∧
        (s.db.removeSplitDescendants p row).FamilyNamed p row.rootId base) := by
  unfold Db.removeSplitDescendants
  dsimp only
  by_cases hempty : s.db.splitDescendants p row.id = []
  · rw [if_pos hempty]
    exact ⟨h, fun hsome => absurd hempty hsome⟩
  · rw [if_neg hempty]
    generalize hpieces : s.db.splitDescendants p row.id = pieces at hempty
    let db₂ : Db :=
      { s.db with
        items := s.db.items.filter fun it => !(it.1 == p && pieces.contains it.2)
        rows := s.db.rows.delete fun r => pieces.contains r.id }
    have hsub : db₂.items ⊆ s.db.items := List.filter_subset_self _
    have hrows : ∀ r' ∈ db₂.rows, ∃ r ∈ s.db.rows, SameName r r' := fun r' hr' =>
      ⟨r', (Table.mem_delete.mp hr').1, SameName.refl r'⟩
    have hfamilies : Families db₂.links db₂.items := by
      have hcut := h.families.withoutDescendants hrow hheld hsub
      rw [hpieces] at hcut
      rw [show db₂.links = removeLinks pieces.contains Link.parent s.db.links from
        links_delete s.db.rows pieces.contains]
      exact hcut
    have hkept : NamesHold p ⟨db₂, s.first⟩ := by
      refine h.shrink hfamilies (fun it hit => ?_) hrows hsub
      obtain ⟨hmem, hstays⟩ := List.mem_filter.mp hit
      obtain ⟨r, hr, hid⟩ := h.itemised it hmem
      refine ⟨r, Table.mem_delete.mpr ⟨hr, Bool.eq_false_iff.mpr fun hgone => ?_⟩, hid⟩
      -- the trip alone holds what is found
      have hfound : r.id ∈ s.db.splitDescendants p row.id := hpieces ▸ (by simpa using hgone)
      obtain ⟨⟨l, hl, hlid, hroot⟩, -⟩ := h.families.descendant hrow hfound
      obtain ⟨r₁, hr₁, rfl⟩ := Db.mem_links.mp hl
      obtain rfl : r₁ = r := Table.eq_of_key hr₁ hr hlid
      have hrootId : r₁.rootId = row.rootId := by
        have hname : r₁.splitRootId = some row.rootId := hroot
        rw [ActivityRow.rootId, hname]
        rfl
      have htrip : it.1 = p := h.families.holder ⟨row, hrow, rfl, hheld⟩ hr₁ hrootId (by
        rw [hid]
        exact hmem)
      rw [htrip, ← hid, hgone] at hstays
      simp at hstays
    refine ⟨hkept.renumber p row.rootId, fun _ => ?_⟩
    obtain ⟨h', hh', hid', hnone⟩ := h.families.root_row hrow
    have hpiece : ∀ r' ∈ db₂.rows, r'.id = row.rootId → r'.splitRootId = none := by
      intro r' hr' hid
      rw [Table.eq_of_key (t := s.db.rows) (Table.mem_delete.mp hr').1 hh' (hid.trans hid'.symm)]
      exact hnone
    cases hfirst : s.first row.rootId with
    | none =>
      -- what is found names the root
      obtain ⟨y, hy⟩ := List.exists_mem_of_ne_nil _ hempty
      obtain ⟨⟨l, hl, -, hroot⟩, -⟩ := h.families.descendant hrow (hpieces.symm ▸ hy)
      obtain ⟨r, hr, rfl⟩ := Db.mem_links.mp hl
      have hnames := h.roots row.rootId ⟨row, hrow, rfl, hheld⟩
      exact absurd hroot ((hnames.unsplit hfirst).2 r hr)
    | some base => exact ⟨base, rfl, hkept.named hfirst hpiece⟩

def Db.shownNames (db : Db) : List (ℤ × Option String) := db.rows.rows.map fun r => (r.id, r.text .name)

theorem restored_sameName (m : TrackMath Point) (row : ActivityRow) : SameName row (restored m row) :=
  ⟨⟨rfl, rfl, rfl⟩, rfl, rfl⟩

theorem resetActivityTrack_some {expected : Option ℕ}
    (hreset : resetActivityTrack m db p x expected = .ok db') :
    ∃ (row : ActivityRow) (db₁ : Db), db.row x = some row ∧ db₁.rows = db.rows ∧
      db₁.items = db.items ∧ db'.items = (db₁.removeSplitDescendants p row).items ∧
      db'.rows.rows = (db₁.removeSplitDescendants p row).rows.rows.map fun r =>
        if r.hasId x then restored m r else r := by
  unfold resetActivityTrack at hreset
  cases hrow : db.row x with
  | none =>
    rw [hrow] at hreset
    cases hreset
  | some row =>
    rw [hrow] at hreset
    dsimp only at hreset
    split at hreset
    · cases hreset
    · split at hreset
      · cases hreset
      · cases hlock : db.lock p expected with
        | none =>
          rw [hlock] at hreset
          cases hreset
        | some db₁ =>
          rw [hlock] at hreset
          obtain ⟨hrows, hitems⟩ := Db.lock_some hlock
          cases hreset
          exact ⟨row, db₁, rfl, hrows, hitems, rfl, rfl⟩

theorem NamesHold.reset {expected : Option ℕ} (h : NamesHold p s) (hheld : (p, x) ∈ s.db.items)
    (hreset : resetActivityTrack m s.db p x expected = .ok db') :
    NamesHold p ⟨db', s.first⟩ ∧ (s.db.splitDescendants p x ≠ [] → ∀ row, s.db.row x = some row →
        ∃ base, s.first row.rootId = some base ∧ db'.FamilyNamed p row.rootId base) ∧
      (s.db.splitDescendants p x = [] → db'.shownNames = s.db.shownNames) := by
  obtain ⟨row, db₁, hrow, hsame, hitemsSame, hitems, hrows⟩ := resetActivityTrack_some hreset
  obtain ⟨hmem, rfl⟩ := Db.row_some hrow
  have hdesc := Db.splitDescendants_congr (p := p) (x := row.id) hsame hitemsSame
  have hlinks : db₁.links = s.db.links := by rw [Db.links, hsame, Db.links]
  have hlocked : NamesHold p ⟨db₁, s.first⟩ := by
    refine h.shrink ?_ (fun it hit => ?_) (fun r hr => ⟨r, hsame ▸ hr, SameName.refl r⟩) ?_
    · rw [hlinks, hitemsSame]
      exact h.families
    · rw [hsame]
      exact h.itemised it (hitemsSame ▸ hit)
    · rw [hitemsSame]
      exact List.Subset.refl _
  have hrow₁ : row ∈ db₁.rows := hsame ▸ hmem
  obtain ⟨hkept, hnamed⟩ := hlocked.removeSplitDescendants hrow₁ (hitemsSame ▸ hheld)
  have hnothing : db₁.splitDescendants p row.id = [] → db₁.removeSplitDescendants p row = db₁ := by
    intro hnone
    unfold Db.removeSplitDescendants
    exact if_pos hnone
  dsimp only at hkept hnamed
  generalize db₁.removeSplitDescendants p row = db₂ at hitems hrows hkept hnamed hnothing
  have hf : ∀ r : ActivityRow, SameName r (if r.hasId row.id then restored m r else r) := by
    intro r
    split
    · exact restored_sameName m r
    · exact SameName.refl r
  have hmem' : ∀ r' ∈ db'.rows, ∃ r ∈ db₂.rows, SameName r r' := by
    intro r' hr'
    have hin : r' ∈ db'.rows.rows := hr'
    rw [hrows] at hin
    obtain ⟨r, hr, rfl⟩ := List.mem_map.mp hin
    exact ⟨r, hr, hf r⟩
  have hlinks' : db'.links = db₂.links := by
    rw [Db.links, hrows, List.map_map, Db.links]
    refine List.map_congr_left fun r _ => ?_
    dsimp only [Function.comp]
    split <;> rfl
  refine ⟨hkept.shrink ?_ (fun it hit => ?_) hmem' ?_, fun hsome row' hrow' => ?_, fun hnone => ?_⟩
  · rw [hlinks', hitems]
    exact hkept.families
  · rw [hitems] at hit
    have hid := Db.mem_ids.mpr (hkept.itemised it hit)
    rw [← hlinks'] at hid
    exact Db.mem_ids.mp hid
  · rw [hitems]
    exact List.Subset.refl _
  · obtain rfl : row = row' := Option.some.inj (hrow.symm.trans hrow')
    obtain ⟨base, hfirst, hnames⟩ := hnamed (hdesc ▸ hsome)
    exact ⟨base, hfirst, hnames.write hrows (fun r _ => hf r) hitems⟩
  · rw [hnothing (hdesc.trans hnone), hsame] at hrows
    rw [Db.shownNames, hrows, List.map_map, Db.shownNames]
    refine List.map_congr_left fun r _ => ?_
    exact Prod.ext (hf r).id (hf r).name

/-- A row that a refresh may have written. -/
structure Refreshed (act : FetchedActivity) (r r' : ActivityRow) : Prop where
  link : r'.link = r.link
  splitBaseName : r'.splitBaseName = r.splitBaseName
  name : r'.text .name = r.text .name ∨ r'.text .name = some act.name

theorem forced_refreshed (m : TrackMath Point) (r : ActivityRow) (act : FetchedActivity) :
    Refreshed act r (forced m r act) := by
  refine ⟨rfl, rfl, ?_⟩
  show (if isEncryptedEnvelope (r.text .name) then _ else _) = _ ∨
    (if isEncryptedEnvelope (r.text .name) then _ else _) = _
  split
  · exact .inl rfl
  · exact .inr rfl

theorem forceUpdateActivity_spec (m : TrackMath Point) (db : Db) (userInfoId : ℕ) (act : FetchedActivity)
    (projectId : Option ℕ) (x : ℤ) :
    (forceUpdateActivity m db userInfoId act projectId x).items = db.items ∧
      ∃ f, (∀ r, Refreshed act r (f r)) ∧
        (forceUpdateActivity m db userInfoId act projectId x).rows.rows = db.rows.rows.map f := by
  have hnone : ∃ f, (∀ r, Refreshed act r (f r)) ∧ db.rows.rows = db.rows.rows.map f :=
    ⟨id, fun r => ⟨rfl, rfl, .inl rfl⟩, (List.map_id _).symm⟩
  have hwritten : ∃ f, (∀ r, Refreshed act r (f r)) ∧
      (db.rows.rows.map fun r => if r.hasId x then forced m r act else r) = db.rows.rows.map f := by
    refine ⟨_, fun r => ?_, rfl⟩
    split
    · exact forced_refreshed m r act
    · exact ⟨rfl, rfl, .inl rfl⟩
  unfold forceUpdateActivity
  split
  · exact ⟨rfl, hnone⟩
  · split
    · exact ⟨rfl, hnone⟩
    · split
      · exact ⟨rfl, hnone⟩
      · cases projectId with
        | none => exact ⟨rfl, hwritten⟩
        | some q => exact ⟨rfl, hwritten⟩

theorem NamesHold.refresh {userInfoId : ℕ} {act : FetchedActivity} {projectId : Option ℕ}
    (h : NamesHold p s) (hplain : isPlain (some act.name) = true) :
    NamesHold p ⟨forceUpdateActivity m s.db userInfoId act projectId x, s.first⟩ := by
  obtain ⟨hitems, f, hf, hrows⟩ := forceUpdateActivity_spec m s.db userInfoId act projectId x
  generalize forceUpdateActivity m s.db userInfoId act projectId x = db' at hitems hrows
  have hlinks : db'.links = s.db.links := by
    rw [Db.links, hrows, List.map_map, Db.links]
    exact List.map_congr_left fun r _ => (hf r).link
  have hmem : ∀ r' ∈ db'.rows, ∃ r ∈ s.db.rows, Refreshed act r r' := by
    intro r' hr'
    have hin : r' ∈ db'.rows.rows := hr'
    rw [hrows] at hin
    obtain ⟨r, hr, rfl⟩ := List.mem_map.mp hin
    exact ⟨r, hr, hf r⟩
  refine ⟨?_, fun it hit => ?_, fun r' hr' hpiece hheld => ?_, fun root hholds' => ?_⟩
  · rw [hlinks, hitems]
    exact h.families
  · rw [hitems] at hit
    have hid := Db.mem_ids.mpr (h.itemised it hit)
    rw [← hlinks] at hid
    exact Db.mem_ids.mp hid
  · obtain ⟨r, hr, hsame⟩ := hmem r' hr'
    have hid : r'.id = r.id := congrArg Link.id hsame.link
    have hsplit : r'.splitRootId = r.splitRootId := congrArg Link.root hsame.link
    rw [hsplit] at hpiece
    rw [hid, hitems] at hheld
    rw [hid]
    exact h.valid r hr hpiece hheld
  · obtain ⟨r', hr', hroot, hheld⟩ := hholds'
    have hholds : s.db.Holds p root := by
      obtain ⟨r, hr, hsame⟩ := hmem r' hr'
      have hid : r'.id = r.id := congrArg Link.id hsame.link
      have hfam : r'.rootId = r.rootId := congrArg Link.family hsame.link
      refine ⟨r, hr, hfam.symm.trans hroot, ?_⟩
      rw [← hid]
      exact hitems ▸ hheld
    obtain ⟨hname, hrecorded, hbase, hunsplit⟩ := h.roots root hholds
    refine ⟨fun r' hr' hid => ?_, fun r' hr' hid => ?_, hbase, fun hfirst => ⟨fun r' hr' hid => ?_,
      fun r' hr' => ?_⟩⟩
    · obtain ⟨r, hr, hsame⟩ := hmem r' hr'
      rcases hsame.name with heq | heq
      · rw [heq]
        exact hname r hr ((congrArg Link.id hsame.link).symm.trans hid)
      · rw [heq]
        exact isPlain_not_envelope hplain
    · obtain ⟨r, hr, hsame⟩ := hmem r' hr'
      rw [hsame.splitBaseName]
      exact hrecorded r hr ((congrArg Link.id hsame.link).symm.trans hid)
    · obtain ⟨r, hr, hsame⟩ := hmem r' hr'
      rcases hsame.name with heq | heq
      · rw [heq]
        exact (hunsplit hfirst).1 r hr ((congrArg Link.id hsame.link).symm.trans hid)
      · rw [heq]
        exact hplain
    · obtain ⟨r, hr, hsame⟩ := hmem r' hr'
      have hsplit : r'.splitRootId = r.splitRootId := congrArg Link.root hsame.link
      rw [hsplit]
      exact (hunsplit hfirst).2 r hr

end Resets

/-! ## 3. Splits -/

section Splits

variable {db db' : Db} {s : NamedDb} {p : ℕ} {root x splitIndex tailId : ℤ} {base : String}
  {m : TrackMath Point} {dropBoundary : Bool} {points : Option (List Point)} {expected : Option ℕ}

theorem writeTrackGeometry_sameName (m : TrackMath Point) (row : ActivityRow) (points : List Point) :
    SameName row (writeTrackGeometry m row points) := by
  have hkeeps : SameName row (snapshotFirstEdit row) := by
    unfold snapshotFirstEdit
    split
    · exact SameName.refl row
    · exact ⟨⟨rfl, rfl, rfl⟩, rfl, rfl⟩
  exact ⟨⟨hkeeps.id, hkeeps.splitRootId, hkeeps.startDate⟩, hkeeps.name, hkeeps.splitBaseName⟩

theorem splitActivity_course
    (hsplit : splitActivity m db p x splitIndex dropBoundary points expected tailId = some db') :
    ∃ (row : ActivityRow) (db₂ : Db) (tail : ActivityRow), db.row x = some row ∧
      db' = db₂.renumber p row.rootId ∧ db.isFree tailId = true ∧
      tail.link = ⟨tailId, some row.rootId, some x⟩ ∧ tail ∈ db₂.rows ∧
      db₂.items = splitItems db.items p x tailId ∧ db₂.links = db.links ++ [tail.link] ∧
      (∀ r₂ ∈ db₂.rows, r₂ = tail ∨ ∃ r ∈ db.rows, SameName r r₂) ∧
      ∀ r ∈ db.rows, ∃ r₂ ∈ db₂.rows, SameName r r₂ := by
  obtain ⟨row, hrow, hsplit⟩ := Option.bind_eq_some_iff.mp hsplit
  obtain ⟨-, hsplit⟩ := Option.ite_none_left_eq_some.mp hsplit
  obtain ⟨-, hsplit⟩ := Option.ite_none_left_eq_some.mp hsplit
  obtain ⟨db₁, hlock, hsplit⟩ := Option.bind_eq_some_iff.mp hsplit
  obtain ⟨hfree, hstore⟩ := Option.ite_none_right_eq_some.mp hsplit
  obtain ⟨hmem, rfl⟩ := Db.row_some hrow
  obtain ⟨hrowsSame, hitemsSame⟩ := Db.lock_some hlock
  obtain ⟨headPoints, tailPoints, hstore⟩ : ∃ headPoints tailPoints,
      db₁.storeSplit p (writeTrackGeometry m row headPoints)
        (splitTail m row (writeTrackGeometry m row headPoints) tailPoints tailId) = some db' :=
    ⟨_, _, hstore⟩
  generalize hheadRow : writeTrackGeometry m row headPoints = head at hstore
  have hhead : SameName row head := hheadRow ▸ writeTrackGeometry_sameName m row headPoints
  have hwritten : Written row head := hheadRow ▸ writeTrackGeometry_written m row headPoints
  generalize htailRow : splitTail m row head tailPoints tailId = tail at hstore
  have htail : tail.link = ⟨tailId, some row.rootId, some row.id⟩ := by
    rw [← htailRow]
    exact splitTail_link m row head tailPoints tailId
  have htailId : tail.id = tailId := congrArg Link.id htail
  obtain ⟨db₂, hitems, hrows, hlinks, heq⟩ := Db.storeSplit_some hstore
  have hfree' : db.isFree tailId = true := by
    unfold Db.isFree Db.row at hfree ⊢
    rwa [hrowsSame] at hfree
  refine ⟨row, db₂, tail, hrow, heq.trans (by rw [hhead.rootId]), hfree', htail, (hrows tail).mpr (.inr rfl),
    ?_, ?_, fun r₂ hr₂ => ?_, fun r hr => ?_⟩
  · rw [hitems, hitemsSame, hhead.id, htailId]
  · rw [hlinks, Db.write_links (hrowsSame ▸ hmem) hwritten.link, Db.links, hrowsSame, Db.links]
  · rcases (hrows r₂).mp hr₂ with hr₂ | rfl
    · right
      rcases Db.mem_write.mp hr₂ with ⟨hr, -⟩ | ⟨rfl, -⟩
      · exact ⟨r₂, hrowsSame ▸ hr, SameName.refl r₂⟩
      · exact ⟨row, hmem, hhead⟩
    · exact .inl rfl
  · by_cases hid : r.id = row.id
    · obtain rfl : r = row := Table.eq_of_key hr hmem hid
      refine ⟨head, (hrows head).mpr (.inl (Db.mem_write.mpr (.inr ⟨rfl, r, ?_, hhead.id.symm⟩))), hhead⟩
      exact hrowsSame ▸ hmem
    · refine ⟨r, (hrows r).mpr (.inl (Db.mem_write.mpr (.inl ⟨hrowsSame ▸ hr, ?_⟩))), SameName.refl r⟩
      rw [hhead.id]
      exact hid

variable (splitIndex tailId dropBoundary points expected) in
theorem NamesHold.noted {row : ActivityRow} (h : NamesHold p s) (hrow : s.db.row x = some row)
    (hheld : (p, x) ∈ s.db.items) :
    (∀ ρ, ρ ≠ row.rootId → (FamilyOp.split x splitIndex dropBoundary points expected tailId).note s ρ =
      s.first ρ) ∧
    ∃ base, (FamilyOp.split x splitIndex dropBoundary points expected tailId).note s row.rootId =
        some base ∧ base ≠ "" ∧ isEncryptedEnvelope (some base) = false ∧
      ∀ h' ∈ s.db.rows, h'.id = row.rootId →
        h'.splitBaseName = some base ∨ h'.splitBaseName = none ∧ h'.name = base := by
  obtain ⟨hmem, rfl⟩ := Db.row_some hrow
  have hnames := h.roots row.rootId ⟨row, hmem, rfl, hheld⟩
  have hnote : (FamilyOp.split row.id splitIndex dropBoundary points expected tailId).note s =
      if row.splitRootId = none ∧ s.first row.id = none
        then Function.update s.first row.id (some row.name) else s.first := by
    simp only [FamilyOp.note, hrow]
  rw [hnote]
  by_cases hfresh : row.splitRootId = none ∧ s.first row.id = none
  · have hroot : row.rootId = row.id := by rw [ActivityRow.rootId, hfresh.1, Option.getD_none]
    rw [if_pos hfresh, hroot]
    refine ⟨fun ρ hne => Function.update_of_ne hne _ _, row.name, Function.update_self _ _ _, ?_⟩
    rw [hroot] at hnames
    obtain ⟨hplain, -⟩ := hnames.unsplit hfresh.2
    have hshown := hplain row hmem rfl
    simp only [isPlain, Bool.and_eq_true, bne_iff_ne, ne_eq, Bool.not_eq_true'] at hshown
    obtain ⟨⟨hsome, hnonempty⟩, henv⟩ := hshown
    obtain ⟨n, hn⟩ := Option.isSome_iff_exists.mp hsome
    have hname : row.name = n := by rw [ActivityRow.name, hn, Option.getD_some]
    rw [hn] at hnonempty henv
    rw [hname]
    refine ⟨fun heq => hnonempty (congrArg some heq), henv, fun h' hh' hid => .inr ?_⟩
    rw [hnames.recorded h' hh' hid, Table.eq_of_key (t := s.db.rows) hh' hmem hid]
    exact ⟨hfresh.2, hname⟩
  · rw [if_neg hfresh]
    refine ⟨fun _ _ => rfl, ?_⟩
    cases hfirst : s.first row.rootId with
    | none =>
      -- a piece has its root noted
      cases hsplit : row.splitRootId with
      | none =>
        rw [ActivityRow.rootId, hsplit, Option.getD_none] at hfirst
        exact absurd ⟨hsplit, hfirst⟩ hfresh
      | some y =>
        have hy : row.rootId = y := by rw [ActivityRow.rootId, hsplit, Option.getD_some]
        exact absurd (hy.symm ▸ hsplit) ((hnames.unsplit hfirst).2 row hmem)
    | some base =>
      obtain ⟨hne, hplain⟩ := hnames.base base hfirst
      exact ⟨base, rfl, hne, hplain, fun h' hh' hid => .inl ((hnames.recorded h' hh' hid).trans hfirst)⟩

theorem two_le_familyIn {r r' : ActivityRow} (hr : r ∈ db.familyIn p root) (hr' : r' ∈ db.familyIn p root)
    (hne : r.id ≠ r'.id) : 2 ≤ (db.familyIn p root).length := by
  match hfamily : db.familyIn p root with
  | [] =>
    rw [hfamily] at hr
    cases hr
  | [a] =>
    rw [hfamily, List.mem_singleton] at hr hr'
    rw [hr, hr'] at hne
    exact absurd rfl hne
  | a :: b :: rest => simp

theorem rootNames_of_many {first : ℤ → Option String} {head : ActivityRow}
    (hrow : db.row root = some head) (hplain : isEncryptedEnvelope (head.text .name) = false)
    (hfree : db.heldElsewhere p root = false) (hmany : 2 ≤ (db.familyIn p root).length)
    (hfirst : first root = some base) (hne : base ≠ "")
    (hbasePlain : isEncryptedEnvelope (some base) = false)
    (hbase : head.splitBaseName = some base ∨ head.splitBaseName = none ∧ head.name = base) :
    RootNames ⟨db.renumber p root, first⟩ root := by
  obtain ⟨hhead, hheadId⟩ := Db.row_some hrow
  have hbaseName : head.baseName = base := by
    unfold ActivityRow.baseName
    rcases hbase with hbase | ⟨hbase, hname⟩
    · rw [hbase]
      exact if_neg hne
    · rw [hbase]
      exact hname
  have hrenaming := renumberSplitFamily_many hrow hplain hmany root
  rw [hbaseName] at hrenaming
  have hrow' : ∀ r' ∈ (db.renumber p root).rows, r'.id = root →
      r' = head.renamed (renumberSplitFamily db.rows.rows (db.tripRows p) root root) := by
    intro r' hr' hid
    have hmem : r' ∈ (db.renumber p root).rows.rows := hr'
    rw [Db.renumber_rows hfree] at hmem
    obtain ⟨r, hr, rfl⟩ := List.mem_map.mp hmem
    obtain rfl : r = head := Table.eq_of_key (t := db.rows) hr hhead (Eq.trans hid hheadId.symm)
    rw [hheadId]
  refine ⟨fun r' hr' hid => ?_, fun r' hr' hid => ?_, fun b hb => ?_, fun hnone => ?_⟩
  · rw [hrow' r' hr' hid, hrenaming]
    cases hplace : ((db.familyIn p root).insertionSort ActivityRow.StartsBefore).findIdx? (·.hasId root) with
    | none => simpa [ActivityRow.renamed] using hplain
    | some i => simpa [ActivityRow.renamed] using pieceName_plain hbasePlain i _
  · rw [hrow' r' hr' hid, hrenaming]
    show (if root = root ∧ head.splitBaseName = none then some base else none).or head.splitBaseName =
      first root
    rw [hfirst]
    rcases hbase with hbase | ⟨hbase, -⟩
    · simp [hbase]
    · simp [hbase]
  · obtain rfl : base = b := Option.some.inj (hfirst.symm.trans hb)
    exact ⟨hne, hbasePlain⟩
  · have hnone' : first root = none := hnone
    rw [hfirst] at hnone'
    cases hnone'

theorem NamesHold.split (h : NamesHold p s) (hheld : (p, x) ∈ s.db.items)
    (hsplit : splitActivity m s.db p x splitIndex dropBoundary points expected tailId = some db') :
    NamesHold p ⟨db', (FamilyOp.split x splitIndex dropBoundary points expected tailId).note s⟩ ∧
      ∀ row, s.db.row x = some row → ∃ base,
        (FamilyOp.split x splitIndex dropBoundary points expected tailId).note s row.rootId = some base ∧
        db'.FamilyNamed p row.rootId base := by
  obtain ⟨row, db₂, tail, hrow, rfl, hfree, htail, htailMem, hitems, hlinks, hrows, hstay⟩ :=
    splitActivity_course hsplit
  obtain ⟨hother, base, hbase, hne, hplain, hrecorded⟩ :=
    h.noted splitIndex tailId dropBoundary points expected hrow hheld
  generalize (FamilyOp.split x splitIndex dropBoundary points expected tailId).note s = first at *
  obtain ⟨hmem, rfl⟩ := Db.row_some hrow
  simp only [Db.isFree, Bool.and_eq_true, decide_eq_true_eq, Option.isNone_iff_eq_none] at hfree
  obtain ⟨⟨hlow, hneg⟩, hunused⟩ := hfree
  have htailId : tail.id = tailId := congrArg Link.id htail
  have htailRoot : tail.splitRootId = some row.rootId := congrArg Link.root htail
  have hfresh : ∀ r ∈ s.db.rows, r.id ≠ tailId := by
    intro r hr heq
    have hfound := Db.row_of_mem hr
    rw [heq, hunused] at hfound
    cases hfound
  -- the families before the renumbering
  have hfamilies : Families db₂.links db₂.items := by
    rw [hlinks, hitems, htail]
    refine h.families.leaf (Db.mem_links.mpr ⟨row, hmem, rfl⟩) hheld (fun hid => ?_) fun it hit hid => ?_
    · obtain ⟨r, hr, heq⟩ := Db.mem_ids.mp hid
      exact hfresh r hr heq
    · obtain ⟨r, hr, heq⟩ := h.itemised it hit
      exact hfresh r hr (heq.trans hid)
  have hholdsOld : s.db.Holds p row.rootId := ⟨row, hmem, rfl, hheld⟩
  obtain ⟨row₂, hrow₂, hsame₂⟩ := hstay row hmem
  have hheld₂ : (p, row₂.id) ∈ db₂.items := by
    rw [hitems, hsame₂.id]
    exact mem_splitItems.mpr (.inl hheld)
  have hheldTail : (p, tail.id) ∈ db₂.items := by
    rw [hitems, htailId]
    exact mem_splitItems.mpr (.inr ⟨rfl, hheld⟩)
  have hholds : db₂.Holds p row.rootId := ⟨row₂, hrow₂, hsame₂.rootId, hheld₂⟩
  -- the root's row before the renumbering
  have hnames := h.roots row.rootId hholdsOld
  obtain ⟨head, hhead, hheadId, hheadNone⟩ := h.families.root_row hmem
  obtain ⟨head₂, hhead₂, hsameHead⟩ := hstay head hhead
  have hheadId₂ : head₂.id = row.rootId := hsameHead.id.trans hheadId
  have hrowHead : db₂.row row.rootId = some head₂ := hheadId₂ ▸ Db.row_of_mem hhead₂
  have hplain₂ : isEncryptedEnvelope (head₂.text .name) = false := by
    rw [hsameHead.name]
    exact hnames.plain head hhead hheadId
  have hmany : 2 ≤ (db₂.familyIn p row.rootId).length := by
    have hmine : row₂ ∈ db₂.familyIn p row.rootId := by
      refine mem_familyIn.mpr ⟨hrow₂, ?_, hheld₂⟩
      rw [hsame₂.id, hsame₂.splitRootId, ActivityRow.rootId]
      cases row.splitRootId with
      | none => exact .inl rfl
      | some y => exact .inr rfl
    have htails : tail ∈ db₂.familyIn p row.rootId := mem_familyIn.mpr ⟨htailMem, .inr htailRoot, hheldTail⟩
    refine two_le_familyIn hmine htails ?_
    rw [hsame₂.id, htailId]
    exact hfresh row hmem
  have hbase₂ : head₂.splitBaseName = some base ∨
      head₂.splitBaseName = none ∧ head₂.name = base ∧ 2 ≤ (db₂.familyIn p row.rootId).length := by
    have hshown : head₂.name = head.name := by rw [ActivityRow.name, hsameHead.name, ActivityRow.name]
    rw [hsameHead.splitBaseName, hshown]
    exact (hrecorded head hhead hheadId).imp_right fun h => ⟨h.1, h.2, hmany⟩
  have hfreeRoot := hfamilies.root_free hholds
  refine ⟨⟨?_, fun it hit => ?_, fun r' hr' hpiece hitem => ?_, fun ρ hholdsρ => ?_⟩, fun row' hrow' => ?_⟩
  · rw [Db.renumber_links, Db.renumber_items]
    exact hfamilies
  · have hbefore : ∃ r₂ ∈ db₂.rows, r₂.id = it.2 := by
      rw [Db.renumber_items, hitems] at hit
      rcases mem_splitItems.mp hit with hit | ⟨rfl, -⟩
      · obtain ⟨r, hr, hid⟩ := h.itemised it hit
        obtain ⟨r₂, hr₂, hsame⟩ := hstay r hr
        exact ⟨r₂, hr₂, hsame.id.trans hid⟩
      · exact ⟨tail, htailMem, htailId⟩
    obtain ⟨r₂, hr₂, hid⟩ := hbefore
    obtain ⟨r', hr', hkin⟩ := (db₂.renumber_kin p row.rootId).mem hr₂
    exact ⟨r', hr', hkin.id.trans hid⟩
  · obtain ⟨r₂, hr₂, hsame⟩ := Db.mem_renumber_place hr'
    rw [hsame.splitRootId] at hpiece
    rw [hsame.id, Db.renumber_items, hitems] at hitem
    rw [hsame.id]
    rcases hrows r₂ hr₂ with rfl | ⟨r, hr, hsame'⟩
    · rw [htailId, Imports.isActivityId, Bool.and_eq_true, decide_eq_true_eq, decide_eq_true_eq]
      constructor
      · omega
      · omega
    · rw [hsame'.splitRootId] at hpiece
      rw [hsame'.id] at hitem ⊢
      rcases mem_splitItems.mp hitem with hitem | ⟨heq, -⟩
      · exact h.valid r hr hpiece hitem
      · exact absurd (congrArg Prod.snd heq) (hfresh r hr)
  · -- the root of a row that the trip holds is the split one's, or was one before
    obtain ⟨r', hr', hroot, hitem⟩ := hholdsρ
    have hbefore : ρ ≠ row.rootId → s.db.Holds p ρ := by
      intro hneρ
      obtain ⟨r₂, hr₂, hsame⟩ := Db.mem_renumber_place hr'
      rw [hsame.rootId] at hroot
      rw [hsame.id, Db.renumber_items, hitems] at hitem
      rcases hrows r₂ hr₂ with rfl | ⟨r, hr, hsame'⟩
      · rw [ActivityRow.rootId, htailRoot] at hroot
        exact absurd hroot.symm hneρ
      · rw [hsame'.id] at hitem
        rcases mem_splitItems.mp hitem with hitem | ⟨heq, -⟩
        · exact ⟨r, hr, hsame'.rootId.symm.trans hroot, hitem⟩
        · exact absurd (congrArg Prod.snd heq) (hfresh r hr)
    by_cases hneρ : ρ = row.rootId
    · subst hneρ
      exact rootNames_of_many hrowHead hplain₂ hfreeRoot hmany hbase hne hplain
        (hbase₂.imp_right fun h => ⟨h.1, h.2.1⟩)
    · have hold := hbefore hneρ
      obtain ⟨h', hh', hid', hnone'⟩ := h.families.held_root hold
      obtain ⟨h₂, hh₂, hsame'⟩ := hstay h' hh'
      -- no row of the other family is the tail
      have hrows' : ∀ r₂ ∈ db₂.rows, r₂.id = ρ → ∃ r ∈ s.db.rows, SameName r r₂ := by
        intro r₂ hr₂ hid
        refine (hrows r₂ hr₂).resolve_left ?_
        rintro rfl
        exact hfresh h' hh' (hid'.trans (hid.symm.trans htailId))
      obtain ⟨hnamePlain, hnameRecorded, hnameBase, hunsplit⟩ := h.roots ρ hold
      have hroots : RootNames ⟨db₂, first⟩ ρ := by
        refine ⟨fun r₂ hr₂ hid => ?_, fun r₂ hr₂ hid => ?_, ?_, fun hnone => ⟨fun r₂ hr₂ hid => ?_,
          fun r₂ hr₂ => ?_⟩⟩
        · obtain ⟨r, hr, hsame⟩ := hrows' r₂ hr₂ hid
          rw [hsame.name]
          exact hnamePlain r hr (hsame.id.symm.trans hid)
        · obtain ⟨r, hr, hsame⟩ := hrows' r₂ hr₂ hid
          rw [hsame.splitBaseName]
          exact (hnameRecorded r hr (hsame.id.symm.trans hid)).trans (hother ρ hneρ).symm
        · show ∀ b, first ρ = some b → _
          rw [hother ρ hneρ]
          exact hnameBase
        · obtain ⟨r, hr, hsame⟩ := hrows' r₂ hr₂ hid
          rw [hsame.name]
          exact (hunsplit ((hother ρ hneρ).symm.trans hnone)).1 r hr (hsame.id.symm.trans hid)
        · rcases hrows r₂ hr₂ with rfl | ⟨r, hr, hsame⟩
          · rw [htailRoot]
            exact fun heq => hneρ (Option.some.inj heq).symm
          · rw [hsame.splitRootId]
            exact (hunsplit ((hother ρ hneρ).symm.trans hnone)).2 r hr
      exact hroots.renumber hh₂ (hsame'.id.trans hid') (hsame'.splitRootId.trans hnone') p row.rootId
  · obtain rfl : row = row' := Option.some.inj (hrow.symm.trans hrow')
    exact ⟨base, hbase, Db.renumber_named hrowHead hplain₂ hfreeRoot hne hbase₂⟩

end Splits

/-! ## 4. The result -/

/-- A proper operation. -/
abbrev FamilyStep (m : TrackMath Point) (p : ℕ) : NamedDb → FamilyOp Point → NamedDb → Prop :=
  Meeting (Steps (FamilyOp.step m p)) fun s op => op.Proper p s

section Result

variable {m : TrackMath Point} {p : ℕ} {s s' : NamedDb} {op : FamilyOp Point}

theorem NamesHold.step (h : NamesHold p s) (hstep : FamilyStep m p s op s') : NamesHold p s' ∧
      (∀ root, op.renames p s.db = some root →
        ∃ base, s'.first root = some base ∧ s'.db.FamilyNamed p root base) ∧
      ∀ x expected, op = .reset x expected → op.renames p s.db = none →
        s'.db.shownNames = s.db.shownNames := by
  obtain ⟨hrun, hproper⟩ := hstep
  obtain ⟨db', hdb', rfl⟩ := Option.map_eq_some_iff.mp hrun
  cases op with
  | split x splitIndex dropBoundary points expected tailId =>
    obtain ⟨hcontains, hsplit⟩ := Option.ite_none_right_eq_some.mp hdb'
    obtain ⟨hkept, hnamed⟩ := h.split (Db.contains_iff.mp hcontains) hsplit
    refine ⟨hkept, fun root hroot => ?_, fun y v hop _ => by cases hop⟩
    obtain ⟨row, hrow, rfl⟩ := Option.map_eq_some_iff.mp hroot
    exact hnamed row hrow
  | deleteLocal x =>
    obtain ⟨hheld, hunnamed⟩ := hproper
    obtain ⟨hkept, hnamed⟩ := h.deleteLocalPiece hheld hunnamed hdb'
    refine ⟨hkept, fun root hroot => ?_, fun y v hop _ => by cases hop⟩
    obtain ⟨row, hrow, hsplit⟩ := Option.bind_eq_some_iff.mp hroot
    exact hnamed row hrow root hsplit
  | deleteItem index =>
    obtain ⟨hkept, hnamed⟩ := NamesHold.removeItem Point h hdb'
    exact ⟨hkept, hnamed, fun y v hop _ => by cases hop⟩
  | reset x expected =>
    obtain ⟨hcontains, hreset⟩ := Option.ite_none_right_eq_some.mp hdb'
    cases hdone : resetActivityTrack m s.db p x expected with
    | error refusal =>
      rw [hdone] at hreset
      cases hreset
    | ok db'' =>
      rw [hdone] at hreset
      obtain rfl : db'' = db' := Option.some.inj hreset
      obtain ⟨hkept, hnamed, hshown⟩ := h.reset (Db.contains_iff.mp hcontains) hdone
      refine ⟨hkept, fun root hroot => ?_, fun y v hop hnone => ?_⟩
      · obtain ⟨hsome, hroot⟩ := Option.ite_none_left_eq_some.mp hroot
        obtain ⟨row, hrow, rfl⟩ := Option.map_eq_some_iff.mp hroot
        exact hnamed hsome row hrow
      · by_cases hempty : s.db.splitDescendants p x = []
        · exact hshown hempty
        · have hrow : (s.db.row x).map ActivityRow.rootId = none := by
            have hnone' : (if s.db.splitDescendants p x = [] then none
                else (s.db.row x).map ActivityRow.rootId) = none := hnone
            rwa [if_neg hempty] at hnone'
          obtain ⟨row, db₁, hfound, -⟩ := resetActivityTrack_some hdone
          rw [hfound] at hrow
          cases hrow
  | refresh userInfoId act projectId x =>
    obtain rfl := Option.some.inj hdb'
    refine ⟨h.refresh hproper, fun root hroot => ?_, fun y v hop _ => by cases hop⟩
    cases hroot

/-- **Split families are named by rank after every history** of activities never split before: after each
    split, deletion or reset that takes pieces in or out, by the name that the root showed when it was first
    split; and a reset that takes nothing out renames nothing. -/
theorem family_named {db : Db} {tr : List (FamilyOp Point)} (hstart : NeverSplit p db)
    (hrun : Run (FamilyStep m p) ⟨db, fun _ => none⟩ tr s) (hstep : FamilyStep m p s op s') :
    (∀ root, op.renames p s.db = some root →
      ∃ base, s'.first root = some base ∧ s'.db.FamilyNamed p root base) ∧
    ∀ x expected, op = .reset x expected → op.renames p s.db = none → s'.db.shownNames = s.db.shownNames := by
  have hkept : NamesHold p s := hrun.invariant hstart.namesHold fun _ _ _ hs hnext => (hs.step hnext).1
  exact (hkept.step hstep).2

end Result

/-- A tail starts after its head. -/
def laterMath : TrackMath Char := { letterMath with shift := fun date _ => date ++ "+" }

/-- A trip with an activity that was never split, beside another trip. -/
def unsplit (name : String) : Db := twoTrips ((stravaRow 7).withName name) (show [(7 : ℤ), 8].Nodup by decide)

theorem unsplit_neverSplit : NeverSplit 1 (unsplit "Ride") := by
  have hlinks : (unsplit "Ride").links = [⟨7, none, none⟩, ⟨8, none, none⟩] := by decide
  have hnone : ∀ l ∈ (unsplit "Ride").links, l.root = none ∧ l.parent = none := by
    rw [hlinks]
    decide
  have htrip : ∀ it ∈ (unsplit "Ride").items, it.1 = if it.2 = 7 then 1 else 2 := by decide
  refine ⟨⟨Db.links_unique _, fun l hl r hr => ?_, fun l hl r hr => ?_, fun l hl _ => (hnone l hl).2,
    fun a ha b hb hfam q q' hq hq' => ?_⟩, by decide, ?_⟩
  · rw [(hnone l hl).1] at hr
    cases hr
  · rw [(hnone l hl).1] at hr
    cases hr
  · rw [Link.family, Link.family, (hnone a ha).1, (hnone b hb).1] at hfam
    have hid : a.id = b.id := hfam
    have hq₁ := htrip _ hq
    have hq₂ := htrip _ hq'
    dsimp only at hq₁ hq₂
    rw [hq₁, hq₂, hid]
  · intro r hr hheld
    rcases List.mem_cons.mp hr with rfl | hr
    · exact ⟨by decide, rfl, rfl, by decide⟩
    · rw [List.mem_singleton.mp hr] at hheld
      exact absurd hheld (by decide)

/-- The rows that the trip holds and the names of all rows, after the operations. -/
def namesAfter (name : String) (ops : List (FamilyOp Char)) : Option (List ℤ × List (ℤ × Option String)) :=
  (exec (FamilyOp.step laterMath 1) ⟨unsplit name, fun _ => none⟩ ops).map fun s =>
    (s.db.tripRows 1, s.db.shownNames)

def alps : FetchedActivity := { stravaAnswer with name := "Alps" }

def cutInTwo (x tailId : ℤ) : FamilyOp Char := .split x 1 false (some ['a', 'b', 'c', 'd']) none tailId

/-- The activity split, the tail removed, and the activity split again. -/
theorem family_named_again : ∃ s s' : NamedDb, FamilyStep laterMath 1 s (cutInTwo 7 (-3)) s' ∧
    (∀ root, (cutInTwo 7 (-3)).renames 1 s.db = some root →
      ∃ base, s'.first root = some base ∧ s'.db.FamilyNamed 1 root base) ∧
    ∀ x expected, cutInTwo 7 (-3) = .reset x expected → (cutInTwo 7 (-3)).renames 1 s.db = none →
      s'.db.shownNames = s.db.shownNames := by
  have hexec : (exec (FamilyOp.step laterMath 1) ⟨unsplit "Ride", fun _ => none⟩
      [cutInTwo 7 (-2), .deleteItem 1, cutInTwo 7 (-3)]).isSome = true := by decide +kernel
  obtain ⟨s₃, hexec⟩ := Option.isSome_iff_exists.mp hexec
  obtain ⟨s₁, hfirst, hexec⟩ := Option.bind_eq_some_iff.mp hexec
  obtain ⟨s₂, hsecond, hexec⟩ := Option.bind_eq_some_iff.mp hexec
  obtain ⟨s₃, hthird, -⟩ := Option.bind_eq_some_iff.mp hexec
  have hrun : Run (FamilyStep laterMath 1) ⟨unsplit "Ride", fun _ => none⟩
      [cutInTwo 7 (-2), .deleteItem 1] s₂ :=
    (Run.start.step (cutInTwo 7 (-2)) ⟨hfirst, trivial⟩).step (.deleteItem 1) ⟨hsecond, trivial⟩
  exact ⟨s₂, s₃, ⟨hthird, trivial⟩, family_named unsplit_neverSplit hrun ⟨hthird, trivial⟩⟩

/-- **The base is not the name shown when the root was last the only piece**, if a refresh gave it another
    one. Nor does a reset that takes nothing out name the family anew, nor the removal of the root's item;
    and an empty name lets the suffixes pile up. -/
theorem family_named_fails : NeverSplit 1 (unsplit "Ride") ∧
    namesAfter "Ride" [cutInTwo 7 (-2), .deleteItem 1, .refresh 0 alps (some 1) 7] =
      some ([7], [(7, some "Alps"), (8, some "Ride")]) ∧
    namesAfter "Ride" [cutInTwo 7 (-2), .deleteItem 1, .refresh 0 alps (some 1) 7, cutInTwo 7 (-3)] =
      some ([7, -3], [(7, some "Ride (1/2)"), (8, some "Ride"), (-3, some "Ride (2/2)")]) ∧
    namesAfter "Ride" [cutInTwo 7 (-2), .refresh 0 alps (some 1) 7, .reset (-2) none] =
      some ([7, -2], [(7, some "Alps"), (8, some "Ride"), (-2, some "Ride (2/2)")]) ∧
    namesAfter "Ride" [cutInTwo 7 (-2), cutInTwo (-2) (-3), .deleteItem 0] =
      some ([-2, -3], [(7, some "Ride (1/3)"), (8, some "Ride"), (-2, some "Ride (2/3)"),
        (-3, some "Ride (3/3)")]) ∧
    namesAfter "" [cutInTwo 7 (-2), cutInTwo 7 (-3)] =
      some ([7, -3, -2], [(7, some " (1/2) (1/3)"), (8, some "Ride"), (-2, some " (1/2) (2/3)"),
        (-3, some " (1/2) (3/3)")]) := by
  refine ⟨unsplit_neverSplit, ?_, ?_, ?_, ?_, ?_⟩
  all_goals decide +kernel

end TraxJourney.Activity
