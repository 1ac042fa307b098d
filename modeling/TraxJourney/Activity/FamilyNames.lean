/-
  File:      Activity/FamilyNames.lean
  Subject:   The names of split families: the operations on one trip's activities that change them
             (`_renumber_split_family`, `force_update_activity` and their callers in
             `src/project/repo_activities.py`), and what every run of them keeps.

  * **`NamesHold.renumber`**, **`NamesHold.named`** -- renumbering keeps it, and names a family by it.

  `Activity/FamilyRuns.lean` has the operations, one by one, and their runs.
-/
import TraxJourney.Activity.Resets

namespace TraxJourney.Activity

open Lib

variable {Point : Type}

/-! ## 1. The operations -/

@[simp] theorem forced_id (m : TrackMath Point) (row : ActivityRow) (act : FetchedActivity) :
    (forced m row act).id = row.id := rfl

def forceUpdateActivity (m : TrackMath Point) (db : Db) (userInfoId : ℕ) (act : FetchedActivity)
    (projectId : Option ℕ) (target : ℤ) : Db :=
  match db.row target with
  | none => db
  | some existing =>
    if existing.stravaUserId ≠ some userInfoId then db
    else if projectId.any fun p => !db.contains p target then db
    else
      let db := match projectId with
        | some p => db.bump p
        | none => db
      let rows := db.rows.update (·.hasId target) (fun r => forced m r act) fun r => forced_id m r act
      { db with rows := rows }

/-- A request of an editor about the trip's activities, or a refresh from Strava. -/
inductive FamilyOp (Point : Type) where
  | split (activityId splitIndex : ℤ) (dropBoundary : Bool) (points : Option (List Point))
      (lockVersion : Option ℕ) (tailId : ℤ)
  | deleteLocal (activityId : ℤ)
  | deleteItem (index : ℕ)
  | reset (activityId : ℤ) (lockVersion : Option ℕ)
  | refresh (userInfoId : ℕ) (act : FetchedActivity) (projectId : Option ℕ) (activityId : ℤ)

/-- What the operation does; `none` where it is refused. -/
def FamilyOp.run (m : TrackMath Point) (p : ℕ) (db : Db) : FamilyOp Point → Option Db
  | .split x splitIndex dropBoundary points expected tailId =>
    if db.contains p x then
      splitActivity m db p x splitIndex dropBoundary points expected tailId
    else none
  | .deleteLocal x => deleteLocalPiece db p x
  | .deleteItem index => removeItem db p index
  | .reset x expected => if db.contains p x then (resetActivityTrack m db p x expected).toOption else none
  | .refresh userInfoId act projectId x => some (forceUpdateActivity m db userInfoId act projectId x)

/-- The root of the family that the operation renames: a split, a deletion that takes a piece's last
    item, a reset that takes pieces out. -/
def FamilyOp.renames (p : ℕ) (db : Db) : FamilyOp Point → Option ℤ
  | .split x _ _ _ _ _ => (db.row x).map ActivityRow.rootId
  | .deleteLocal x => (db.row x).bind ActivityRow.splitRootId
  | .deleteItem index => do
      let it ← db.items[index]?
      if (db.items.eraseIdx index).any fun other => other.2 == it.2 then none
      else (← db.row it.2).splitRootId
  | .reset x _ => if db.splitDescendants p x = [] then none else (db.row x).map ActivityRow.rootId
  | .refresh _ _ _ _ => none

/-- The store, with the name that each activity showed when it was first split. -/
structure NamedDb where
  db : Db
  first : ℤ → Option String

/-- The names shown at first splits, the operation's counted. -/
def FamilyOp.note (s : NamedDb) : FamilyOp Point → ℤ → Option String
  | .split x _ _ _ _ _ =>
    match s.db.row x with
    | some row =>
      if row.splitRootId = none ∧ s.first x = none then Function.update s.first x (some row.name)
      else s.first
    | none => s.first
  | _ => s.first

def FamilyOp.step (m : TrackMath Point) (p : ℕ) (s : NamedDb) (op : FamilyOp Point) : Option NamedDb :=
  (op.run m p s.db).map fun db => ⟨db, op.note s⟩

/-! ## 2. What the names are -/

/-- The rows of the family of `root` that the trip holds. -/
def Db.familyIn (db : Db) (p : ℕ) (root : ℤ) : List ActivityRow :=
  db.rows.rows.filter fun m => (m.hasId root || m.splitRootId == some root) && (db.tripRows p).contains m.id

/-- `f"{base_name} ({i}/{n})"`, `i` counted from 0. -/
def pieceName (base : String) (i n : ℕ) : String :=
  base ++ " (" ++ toString (i + 1) ++ "/" ++ toString n ++ ")"

/-- **The trip's members of the family are named by their rank**: "base (i/N)" in the order of their
    start dates, or plainly the base where one is left. -/
def Db.FamilyNamed (db : Db) (p : ℕ) (root : ℤ) (base : String) : Prop :=
  (∀ r, db.familyIn p root = [r] → r.text .name = some base) ∧
  (2 ≤ (db.familyIn p root).length → ∃ ranked : List ActivityRow,
    ranked.Perm (db.familyIn p root) ∧ ranked.Pairwise ActivityRow.StartsBefore ∧
    ∀ (i : ℕ) (hi : i < ranked.length), ranked[i].text .name = some (pieceName base i ranked.length))

/-- Split families, every item naming a row, and the trip's activities plain and never split. -/
structure NeverSplit (p : ℕ) (db : Db) : Prop where
  families : Families db.links db.items
  itemised : ∀ it ∈ db.items, ∃ r ∈ db.rows, r.id = it.2
  unsplit : ∀ r ∈ db.rows, (p, r.id) ∈ db.items →
    isPlain (r.text .name) = true ∧ r.splitRootId = none ∧ r.splitBaseName = none ∧
      ∀ r' ∈ db.rows, r'.splitRootId ≠ some r.id

/-- Refreshed names are plain too, and a local activity is deleted only if the trip holds it and no
    piece names it as its root. -/
def FamilyOp.Proper (p : ℕ) (s : NamedDb) : FamilyOp Point → Prop
  | .refresh _ act _ _ => isPlain (some act.name) = true
  | .deleteLocal x => (p, x) ∈ s.db.items ∧ ∀ r ∈ s.db.rows, r.splitRootId ≠ some x
  | _ => True

/-! ## 3. Splits and resets keep split families -/

section Families

variable {links : List Link} {items : List (ℕ × ℤ)} {db : Db} {p : ℕ} {x y : ℤ} {l : Link}

theorem Families.leaf {tailId : ℤ} (h : Families links items) (hl : l ∈ links) (hheld : (p, l.id) ∈ items)
    (hfresh : tailId ∉ links.map Link.id) (hunheld : ∀ it ∈ items, it.2 ≠ tailId) :
    Families (links ++ [⟨tailId, some l.family, some l.id⟩]) (splitItems items p l.id tailId) := by
  have hunique : ((links ++ [(⟨tailId, some l.family, some l.id⟩ : Link)]).map Link.id).Nodup := by
    rw [List.map_append, List.nodup_append]
    refine ⟨h.unique, List.nodup_singleton _, fun a ha b hb => ?_⟩
    rintro rfl
    obtain rfl : a = tailId := by simpa using hb
    exact hfresh ha
  have hsub : links ⊆ links ++ [⟨tailId, some l.family, some l.id⟩] := List.subset_append_left _ _
  have hnew : (⟨tailId, some l.family, some l.id⟩ : Link) ∈
      links ++ [⟨tailId, some l.family, some l.id⟩] := by simp
  -- the row that is cut is the root or comes to it
  have hreaches : Reaches (isPiece links l.family) (parentIn links) l.family l.id := by
    cases hroot : l.root with
    | none =>
      have hfam : l.family = l.id := by rw [Link.family, hroot, Option.getD_none]
      rw [hfam]
      exact .root
    | some r =>
      have hfam : l.family = r := by rw [Link.family, hroot, Option.getD_some]
      rw [hfam]
      exact h.chain l hl r hroot
  have hhead : ∃ h' ∈ links, h'.id = l.family ∧ h'.root = none := by
    cases hroot : l.root with
    | none => exact ⟨l, hl, by rw [Link.family, hroot, Option.getD_none], hroot⟩
    | some r =>
      rw [show l.family = r by rw [Link.family, hroot, Option.getD_some]]
      exact h.head l hl r hroot
  refine ⟨hunique, fun a ha r hr => ?_, fun a ha r hr => ?_, fun a ha hr => ?_,
    fun a ha b hb hfam q q' hq hq' => ?_⟩
  · rcases List.mem_append.mp ha with ha | ha
    · exact chain_mono hunique hsub (h.chain a ha r hr)
    · rw [List.mem_singleton] at ha
      subst ha
      obtain rfl := Option.some.inj hr
      exact .step ⟨_, hnew, rfl, rfl⟩ (parentIn_of_mem hunique hnew) (chain_mono hunique hsub hreaches)
  · have hold : ∃ h' ∈ links, h'.id = r ∧ h'.root = none := by
      rcases List.mem_append.mp ha with ha | ha
      · exact h.head a ha r hr
      · rw [List.mem_singleton] at ha
        subst ha
        obtain rfl := Option.some.inj hr
        exact hhead
    obtain ⟨h', hmem, hid, hnone⟩ := hold
    exact ⟨h', hsub hmem, hid, hnone⟩
  · rcases List.mem_append.mp ha with ha | ha
    · exact h.plain a ha hr
    · rw [List.mem_singleton] at ha
      subst ha
      cases hr
  · -- an item of a row of the family comes from one of an old row of it
    have hbefore : ∀ c ∈ links ++ [(⟨tailId, some l.family, some l.id⟩ : Link)], ∀ q'',
        (q'', c.id) ∈ splitItems items p l.id tailId →
          ∃ c' ∈ links, c'.family = c.family ∧ (q'', c'.id) ∈ items := by
      intro c hc q'' hitem
      rcases List.mem_append.mp hc with hc | hc
      · rcases mem_splitItems.mp hitem with hitem | ⟨heq, -⟩
        · exact ⟨c, hc, rfl, hitem⟩
        · have hid : c.id = tailId := congrArg Prod.snd heq
          exact absurd (hid ▸ List.mem_map_of_mem hc) hfresh
      · rw [List.mem_singleton] at hc
        subst hc
        rcases mem_splitItems.mp hitem with hitem | ⟨heq, -⟩
        · exact absurd rfl (hunheld _ hitem)
        · obtain rfl : q'' = p := congrArg Prod.fst heq
          exact ⟨l, hl, rfl, hheld⟩
    obtain ⟨a', ha', hfam', hq⟩ := hbefore a ha q hq
    obtain ⟨b', hb', hfam'', hq'⟩ := hbefore b hb q' hq'
    exact h.oneTrip a' ha' b' hb' (hfam'.trans (hfam.trans hfam''.symm)) q q' hq hq'

theorem Families.descendant (h : Families db.links db.items) {row : ActivityRow} (hrow : row ∈ db.rows)
    (hx : x ∈ db.splitDescendants p row.id) :
    isPiece db.links row.rootId x ∧ Relation.TransGen (Lib.Link (parentIn db.links)) x row.id := by
  have hlink : ∀ r ∈ db.walked p, r.link ∈ db.links := fun r hr =>
    List.mem_map_of_mem (List.mem_filter.mp hr).1
  -- the row itself, and what leads to it
  let s : ℤ → Prop := fun z => z = row.id ∨ isPiece db.links row.rootId z ∧
    Relation.TransGen (Lib.Link (parentIn db.links)) z row.id
  have hclosed : ∀ r ∈ db.walked p, ∀ z, r.splitParentId = some z → s z → s r.id := by
    intro r hr z hparent hz
    have hnext : Lib.Link (parentIn db.links) r.id z := (parentIn_of_mem h.unique (hlink r hr)).trans hparent
    obtain ⟨root, hroot, l', hl', hid, hfam⟩ := h.parent_mem (hlink r hr) hparent
    have hroot' : row.rootId = root := by
      rcases hz with hz | ⟨⟨l'', hl'', hid'', hpiece⟩, -⟩
      · obtain rfl : l' = row.link := List.inj_on_of_nodup_map h.unique hl'
          (Db.mem_links.mpr ⟨row, hrow, rfl⟩) (hid.trans hz)
        exact hfam
      · obtain rfl : l' = l'' := List.inj_on_of_nodup_map h.unique hl' hl'' (hid.trans hid''.symm)
        rw [← hfam, Link.family, hpiece, Option.getD_some]
    refine .inr ⟨⟨r.link, hlink r hr, rfl, hroot'.symm ▸ hroot⟩, ?_⟩
    rcases hz with rfl | ⟨-, hleads⟩
    · exact .single hnext
    · exact .head hnext hleads
  obtain ⟨hs, hnew⟩ := splitDescendants_within (s := s) (fun z hz => .inl (List.mem_singleton.mp hz))
    hclosed x hx
  exact hs.resolve_left fun heq => hnew (List.mem_singleton.mpr heq)

theorem Families.withoutDescendants (h : Families db.links db.items) {row : ActivityRow}
    (hrow : row ∈ db.rows) (hheld : (p, row.id) ∈ db.items) (hsub : items ⊆ db.items) :
    Families (removeLinks (db.splitDescendants p row.id).contains Link.parent db.links) items := by
  have hrowLink : row.link ∈ db.links := Db.mem_links.mpr ⟨row, hrow, rfl⟩
  refine h.remove hsub (fun l hl hstay r hr => ?_) (fun l _ hnone => hnone)
    fun l hl hstay q hq => ⟨1, some q, ?_, hq⟩
  · -- what is found is no root
    refine Bool.eq_false_iff.mpr fun hmem => ?_
    obtain ⟨⟨l', hl', hid, hpiece⟩, -⟩ := h.descendant hrow (by simpa using hmem)
    obtain ⟨h', hmem', hid', hnone⟩ := h.head l hl r hr
    obtain rfl : h' = l' := List.inj_on_of_nodup_map h.unique hmem' hl' (hid'.trans hid.symm)
    rw [hnone] at hpiece
    cases hpiece
  · -- a child of what is found is found, or is the row, which would be on a loop
    have hq' : q ∉ db.splitDescendants p row.id := by
      intro hfound
      obtain ⟨⟨l', hl', rfl, hpiece⟩, hleads⟩ := h.descendant hrow hfound
      obtain ⟨root, hroot, l'', hl'', hid, hfam⟩ := h.parent_mem hl hq
      obtain rfl : l'' = l' := List.inj_on_of_nodup_map h.unique hl'' hl' hid
      have hfam' : l.family = row.link.family := by
        have hsame : root = row.rootId := by rw [← hfam, Link.family, hpiece, Option.getD_some]
        show l.family = row.rootId
        rw [Link.family, hroot, Option.getD_some, hsame]
      obtain ⟨r, hr, rfl⟩ := Db.mem_links.mp hl
      have hwalked : r ∈ db.walked p := by
        refine List.mem_filter.mpr ⟨hr, ?_⟩
        have hfree : db.heldElsewhere p r.id = false := by
          rw [Db.heldElsewhere, List.any_eq_false]
          rintro ⟨q', y⟩ hit hother
          simp only [Bool.and_eq_true, bne_iff_ne, ne_eq, beq_iff_eq] at hother
          obtain ⟨hne, rfl⟩ := hother
          exact hne (h.oneTrip _ hl _ hrowLink hfam' q' p hit hheld)
        simp [hfree]
      have hrounds : (db.walked p).countP (fun r => !([row.id] : List ℤ).contains r.id) ≤
          (db.walked p).length := List.countP_le_length
      have hstep := splitDescendants_closed hrounds r hwalked l''.id hq (List.mem_append_right _ hfound)
      rcases List.mem_append.mp hstep with hself | hfound'
      · have hself' : r.id = row.id := List.mem_singleton.mp hself
        obtain rfl : r = row := Table.eq_of_key hr hrow hself'
        have hloop : OnLoop (parentIn db.links) l''.id :=
          Relation.TransGen.tail hleads ((parentIn_of_mem h.unique hl).trans hq)
        exact (h.parent_ends hl hq).not_onLoop hloop
      · have hmem : r.id ∈ db.splitDescendants p row.id := hfound'
        have hgone : (db.splitDescendants p row.id).contains r.id = true := by simpa using hmem
        have hstay' : (db.splitDescendants p row.id).contains r.id = false := hstay
        rw [hgone] at hstay'
        cases hstay'
    simp [climb, hq']

end Families

/-! ## 4. Renumbering -/

section Renumber

variable {db db' : Db} {p q : ℕ} {root x : ℤ} {base : String} {r h : ActivityRow}

/-- What a renaming of a family, and a write that is none of the name's, keep of a row. -/
structure SamePlace (r r' : ActivityRow) : Prop where
  id : r'.id = r.id
  splitRootId : r'.splitRootId = r.splitRootId
  startDate : r'.startDate = r.startDate

/-- What a write that is none of the name's keeps. -/
structure SameName (r r' : ActivityRow) : Prop extends SamePlace r r' where
  name : r'.text .name = r.text .name
  splitBaseName : r'.splitBaseName = r.splitBaseName

theorem SameName.refl (r : ActivityRow) : SameName r r := ⟨⟨rfl, rfl, rfl⟩, rfl, rfl⟩

theorem isEncryptedEnvelope_append {suffix : String} (hdot : '.' ∉ suffix.toList)
    (hplain : isEncryptedEnvelope (some base) = false) :
    isEncryptedEnvelope (some (base ++ suffix)) = false := by
  -- the parts of the longer text are those of the shorter, the last one longer
  have hparts : ∀ cs : List Char, ∃ front last, splitDots cs = front ++ [last] ∧
      splitDots (cs ++ suffix.toList) = front ++ [last ++ suffix.toList] := by
    intro cs
    induction cs with
    | nil => exact ⟨[], [], rfl, by simp [splitDots_of_not_mem hdot]⟩
    | cons c cs ih =>
      obtain ⟨front, last, hshort, hlong⟩ := ih
      by_cases hc : c = '.'
      · refine ⟨[] :: front, last, ?_, ?_⟩
        · cases front <;> simp [splitDots, hshort, hc]
        · cases front <;> simp [splitDots, hlong, hc]
      · cases front with
        | nil => exact ⟨[], c :: last, by simp [splitDots, hshort, hc], by simp [splitDots, hlong, hc]⟩
        | cons part front =>
          exact ⟨(c :: part) :: front, last, by simp [splitDots, hshort, hc],
            by simp [splitDots, hlong, hc]⟩
  obtain ⟨front, last, hshort, hlong⟩ := hparts base.toList
  unfold isEncryptedEnvelope at hplain ⊢
  dsimp only at hplain ⊢
  rw [String.toList_append, hlong]
  rw [hshort] at hplain
  rcases front with _ | ⟨a, _ | ⟨b, _ | ⟨c, rest⟩⟩⟩
  · rfl
  · rfl
  · exact hplain
  · cases rest <;> rfl

theorem pieceName_plain (hplain : isEncryptedEnvelope (some base) = false) (i n : ℕ) :
    isEncryptedEnvelope (some (pieceName base i n)) = false := by
  have hassoc : pieceName base i n = base ++ (" (" ++ toString (i + 1) ++ "/" ++ toString n ++ ")") := by
    simp only [pieceName, String.append_assoc]
  rw [hassoc]
  refine isEncryptedEnvelope_append ?_ hplain
  have hdigits : ∀ k : ℕ, '.' ∉ (toString k).toList := by
    intro k hdot
    rw [Nat.toString_eq_repr, Nat.toList_repr] at hdot
    have hdigit := Nat.isDigit_of_mem_toDigits (Nat.zero_lt_succ 9) (Nat.le_refl 10) hdot
    exact absurd hdigit (by decide)
  simp only [String.toList_append, List.mem_append, not_or]
  exact ⟨⟨⟨⟨by decide, hdigits _⟩, by decide⟩, hdigits _⟩, by decide⟩

/-- `root.split_base_name or root.name`. -/
def ActivityRow.baseName (h : ActivityRow) : String :=
  match h.splitBaseName with
  | some base => if base = "" then h.name else base
  | none => h.name

theorem renumberSplitFamily_many (hroot : db.row root = some h)
    (hplain : isEncryptedEnvelope (h.text .name) = false)
    (hmany : 2 ≤ (db.familyIn p root).length) (x : ℤ) :
    renumberSplitFamily db.rows.rows (db.tripRows p) root x =
      ⟨if x = root ∧ h.splitBaseName = none then some h.baseName else none,
        (((db.familyIn p root).insertionSort ActivityRow.StartsBefore).findIdx? (·.hasId x)).map
          fun i => pieceName h.baseName i (db.familyIn p root).length⟩ := by
  have hroot' : db.rows.rows.find? (·.hasId root) = some h := hroot
  unfold Db.familyIn at hmany ⊢
  unfold renumberSplitFamily
  rw [hroot']
  dsimp only
  rw [if_neg (by simp [hplain]), if_neg (by omega)]
  rfl

theorem renumberSplitFamily_few (hroot : db.row root = some h)
    (hplain : isEncryptedEnvelope (h.text .name) = false)
    (hfew : (db.familyIn p root).length < 2) (x : ℤ) :
    (renumberSplitFamily db.rows.rows (db.tripRows p) root x).base = none ∧
      ∀ n, (renumberSplitFamily db.rows.rows (db.tripRows p) root x).name = some n →
        h.splitBaseName = some n ∧ n ≠ "" := by
  have hroot' : db.rows.rows.find? (·.hasId root) = some h := hroot
  unfold Db.familyIn at hfew
  unfold renumberSplitFamily
  rw [hroot']
  dsimp only
  rw [if_neg (by simp [hplain]), if_pos hfew]
  split
  case h_1 m base _ hbase =>
    refine ⟨rfl, fun n hn => ?_⟩
    dsimp only at hn
    split at hn
    case isTrue hcond =>
      obtain rfl := Option.some.inj hn
      exact ⟨hbase, hcond.1⟩
    case isFalse => cases hn
  case h_2 => exact ⟨rfl, fun n hn => by cases hn⟩

theorem renumberSplitFamily_one (hroot : db.row root = some h)
    (hplain : isEncryptedEnvelope (h.text .name) = false) (hbase : h.splitBaseName = some base)
    (hne : base ≠ "") (hone : db.familyIn p root = [r]) :
    renumberSplitFamily db.rows.rows (db.tripRows p) root r.id = ⟨none, some base⟩ := by
  have hroot' : db.rows.rows.find? (·.hasId root) = some h := hroot
  unfold Db.familyIn at hone
  unfold renumberSplitFamily
  rw [hroot']
  dsimp only
  rw [if_neg (by simp [hplain]), hone, if_pos (by simp), hbase]
  simp [hne]

theorem SamePlace.renamed (r : ActivityRow) (n : Renaming) : SamePlace r (r.renamed n) := ⟨rfl, rfl, rfl⟩

theorem Db.renumber_rows (hfree : db.heldElsewhere p root = false) :
    (db.renumber p root).rows.rows = db.rows.rows.map fun r =>
      r.renamed (renumberSplitFamily db.rows.rows (db.tripRows p) root r.id) := by
  unfold Db.renumber
  rw [if_neg (by simp [hfree])]
  show (db.rows.rows.map fun r => if true then _ else r) = _
  simp only [if_true]

variable (p root) in
theorem Db.familyIn_map {f : ActivityRow → ActivityRow} (hrows : db'.rows.rows = db.rows.rows.map f)
    (hf : ∀ r ∈ db.rows, SamePlace r (f r)) (hitems : db'.items = db.items) :
    db'.familyIn p root = (db.familyIn p root).map f := by
  unfold Db.familyIn Db.tripRows
  rw [hrows, hitems, List.filter_map]
  congr 1
  refine List.filter_congr fun r hr => ?_
  have hsame := hf r hr
  simp [Function.comp, ActivityRow.hasId, hsame.id, hsame.splitRootId]

theorem mem_familyIn : r ∈ db.familyIn p root ↔
    r ∈ db.rows ∧ (r.id = root ∨ r.splitRootId = some root) ∧ (p, r.id) ∈ db.items := by
  unfold Db.familyIn
  rw [List.mem_filter, Bool.and_eq_true, Bool.or_eq_true, ActivityRow.hasId_iff, beq_iff_eq]
  have hcontains : (db.tripRows p).contains r.id = true ↔ (p, r.id) ∈ db.items := Db.contains_iff
  rw [hcontains]
  exact Iff.rfl

theorem Db.familyIn_nodup : ((db.familyIn p root).map ActivityRow.id).Nodup :=
  db.rows.unique.sublist (List.filter_sublist.map _)

theorem ActivityRow.sorted_startsBefore (rows : List ActivityRow) :
    (rows.insertionSort ActivityRow.StartsBefore).Pairwise ActivityRow.StartsBefore :=
  haveI : Std.Total ActivityRow.StartsBefore := ⟨fun r r' => String.le_total r.startDate r'.startDate⟩
  haveI : IsTrans ActivityRow ActivityRow.StartsBefore := ⟨fun _ _ _ => String.le_trans⟩
  List.pairwise_insertionSort _ rows

theorem findIdx?_hasId {rows : List ActivityRow} (hnodup : (rows.map ActivityRow.id).Nodup) {i : ℕ}
    (hi : i < rows.length) : rows.findIdx? (·.hasId rows[i].id) = some i := by
  rw [List.findIdx?_eq_some_iff_getElem]
  refine ⟨hi, ActivityRow.hasId_iff.mpr rfl, fun j hj hsame => ?_⟩
  have hid : (rows.map ActivityRow.id).get ⟨j, by simp; omega⟩ =
      (rows.map ActivityRow.id).get ⟨i, by simpa⟩ := by
    simpa using ActivityRow.hasId_iff.mp hsame
  have heq := (List.Nodup.getElem_inj_iff hnodup).mp hid
  omega

theorem Db.renumber_named (hroot : db.row root = some h) (hplain : isEncryptedEnvelope (h.text .name) = false)
    (hfree : db.heldElsewhere p root = false) (hne : base ≠ "")
    (hbase : h.splitBaseName = some base ∨
      h.splitBaseName = none ∧ h.name = base ∧ 2 ≤ (db.familyIn p root).length) :
    (db.renumber p root).FamilyNamed p root base := by
  have hbaseName : h.baseName = base := by
    unfold ActivityRow.baseName
    rcases hbase with hbase | ⟨hbase, hname, -⟩
    · rw [hbase]
      exact if_neg hne
    · rw [hbase]
      exact hname
  have hfamily := Db.familyIn_map p root (Db.renumber_rows hfree)
    (fun r _ => SamePlace.renamed r _) Db.renumber_items
  constructor
  · intro r' hone
    rw [hfamily] at hone
    obtain ⟨r, hr, rfl⟩ := List.map_eq_singleton_iff.mp hone
    rcases hbase with hbase | ⟨-, -, hmany⟩
    · rw [renumberSplitFamily_one hroot hplain hbase hne hr]
      simp [ActivityRow.renamed]
    · rw [hr] at hmany
      simp at hmany
  · intro hmany
    rw [hfamily, List.length_map] at hmany
    have hname := renumberSplitFamily_many hroot hplain hmany
    rw [hbaseName] at hname
    rw [hfamily]
    generalize hranked : (db.familyIn p root).insertionSort ActivityRow.StartsBefore = ranked at hname
    have hperm : ranked.Perm (db.familyIn p root) := hranked ▸ List.perm_insertionSort _ _
    have hsorted : ranked.Pairwise ActivityRow.StartsBefore := hranked ▸ ActivityRow.sorted_startsBefore _
    have hnodup : (ranked.map ActivityRow.id).Nodup :=
      (hperm.map ActivityRow.id).nodup_iff.mpr Db.familyIn_nodup
    refine ⟨_, hperm.map _, List.pairwise_map.mpr hsorted, fun i hi => ?_⟩
    rw [List.length_map] at hi
    have hlength := hperm.length_eq
    rw [List.getElem_map, hname, findIdx?_hasId hnodup hi, ← hlength]
    simp [ActivityRow.renamed]

end Renumber

/-! ## 5. What every run keeps -/

/-- **The names of a family's root**: plain; its base, once the first split has recorded the name shown
    then, for good; and no piece before that. -/
structure RootNames (s : NamedDb) (root : ℤ) : Prop where
  plain : ∀ h ∈ s.db.rows, h.id = root → isEncryptedEnvelope (h.text .name) = false
  recorded : ∀ h ∈ s.db.rows, h.id = root → h.splitBaseName = s.first root
  base : ∀ base, s.first root = some base → base ≠ "" ∧ isEncryptedEnvelope (some base) = false
  unsplit : s.first root = none → (∀ h ∈ s.db.rows, h.id = root → isPlain (h.text .name) = true) ∧
      ∀ r ∈ s.db.rows, r.splitRootId ≠ some root

/-- The trip holds a row of the family. -/
def Db.Holds (db : Db) (p : ℕ) (root : ℤ) : Prop := ∃ r ∈ db.rows, r.rootId = root ∧ (p, r.id) ∈ db.items

/-- **What every run keeps.** -/
structure NamesHold (p : ℕ) (s : NamedDb) : Prop where
  families : Families s.db.links s.db.items
  itemised : ∀ it ∈ s.db.items, ∃ r ∈ s.db.rows, r.id = it.2
  valid : ∀ r ∈ s.db.rows, r.splitRootId ≠ none → (p, r.id) ∈ s.db.items → Imports.isActivityId r.id = true
  roots : ∀ root, s.db.Holds p root → RootNames s root

section Kept

variable {db db' : Db} {s : NamedDb} {p q : ℕ} {root ρ x : ℤ} {base : String} {r : ActivityRow}

theorem NeverSplit.namesHold (h : NeverSplit p db) : NamesHold p ⟨db, fun _ => none⟩ where
  families := h.families
  itemised := h.itemised
  valid := fun r hr hpiece hheld => absurd (h.unsplit r hr hheld).2.1 hpiece
  roots := by
    rintro root ⟨r, hr, hroot, hheld⟩
    obtain ⟨hplain, hnone, hbase, hunnamed⟩ := h.unsplit r hr hheld
    obtain rfl : r.id = root := by rw [← hroot, ActivityRow.rootId, hnone, Option.getD_none]
    have hsame : ∀ h' ∈ db.rows, h'.id = r.id → h' = r := fun h' hh' hid => Table.eq_of_key hh' hr hid
    refine ⟨fun h' hh' hid => ?_, fun h' hh' hid => ?_, fun b hb => ?_, fun _ => ⟨?_, hunnamed⟩⟩
    · rw [hsame h' hh' hid]
      exact isPlain_not_envelope hplain
    · rw [hsame h' hh' hid]
      exact hbase
    · cases hb
    · intro h' hh' hid
      rw [hsame h' hh' hid]
      exact hplain

theorem Families.root_row (h : Families db.links db.items) (hr : r ∈ db.rows) :
    ∃ h' ∈ db.rows, h'.id = r.rootId ∧ h'.splitRootId = none := by
  cases hroot : r.splitRootId with
  | none => exact ⟨r, hr, by rw [ActivityRow.rootId, hroot, Option.getD_none], hroot⟩
  | some root =>
    obtain ⟨l, hl, hid, hnone⟩ := h.head r.link (Db.mem_links.mpr ⟨r, hr, rfl⟩) root hroot
    obtain ⟨h', hh', rfl⟩ := Db.mem_links.mp hl
    exact ⟨h', hh', by rw [ActivityRow.rootId, hroot, Option.getD_some]; exact hid, hnone⟩

theorem Families.held_root (h : Families db.links db.items) (hholds : db.Holds p root) :
    ∃ h' ∈ db.rows, h'.id = root ∧ h'.splitRootId = none := by
  obtain ⟨r, hr, rfl, -⟩ := hholds
  exact h.root_row hr

theorem Families.holder (h : Families db.links db.items) (hholds : db.Holds p root) (hr : r ∈ db.rows)
    (hroot : r.rootId = root) (hitem : (q, r.id) ∈ db.items) : q = p := by
  obtain ⟨r', hr', hroot', hitem'⟩ := hholds
  exact h.oneTrip r.link (Db.mem_links.mpr ⟨r, hr, rfl⟩) r'.link (Db.mem_links.mpr ⟨r', hr', rfl⟩)
    (hroot.trans hroot'.symm) q p hitem hitem'

theorem Families.free (h : Families db.links db.items) (hholds : db.Holds p root) (hr : r ∈ db.rows)
    (hroot : r.rootId = root) : db.heldElsewhere p r.id = false := by
  rw [Db.heldElsewhere, List.any_eq_false]
  rintro ⟨q, y⟩ hit hother
  simp only [Bool.and_eq_true, bne_iff_ne, ne_eq, beq_iff_eq] at hother
  obtain ⟨hne, rfl⟩ := hother
  exact hne (h.holder hholds hr hroot hit)

theorem Families.root_free (h : Families db.links db.items) (hholds : db.Holds p root) :
    db.heldElsewhere p root = false := by
  obtain ⟨h', hh', rfl, hnone⟩ := h.held_root hholds
  exact h.free hholds hh' (by rw [ActivityRow.rootId, hnone, Option.getD_none])

theorem RootNames.of_rows (h : RootNames s root)
    (hrows : ∀ r' ∈ db'.rows, ∃ r ∈ s.db.rows, SameName r r') : RootNames ⟨db', s.first⟩ root where
  plain := fun r' hr' hid => by
    obtain ⟨r, hr, hsame⟩ := hrows r' hr'
    rw [hsame.name]
    exact h.plain r hr (hsame.id.symm.trans hid)
  recorded := fun r' hr' hid => by
    obtain ⟨r, hr, hsame⟩ := hrows r' hr'
    rw [hsame.splitBaseName]
    exact h.recorded r hr (hsame.id.symm.trans hid)
  base := h.base
  unsplit := fun hnone => by
    obtain ⟨hplain, hunnamed⟩ := h.unsplit hnone
    refine ⟨fun r' hr' hid => ?_, fun r' hr' => ?_⟩
    · obtain ⟨r, hr, hsame⟩ := hrows r' hr'
      rw [hsame.name]
      exact hplain r hr (hsame.id.symm.trans hid)
    · obtain ⟨r, hr, hsame⟩ := hrows r' hr'
      rw [hsame.splitRootId]
      exact hunnamed r hr

theorem SamePlace.trans {r r' r'' : ActivityRow} (h : SamePlace r r') (h' : SamePlace r' r'') :
    SamePlace r r'' :=
  ⟨h'.id.trans h.id, h'.splitRootId.trans h.splitRootId, h'.startDate.trans h.startDate⟩

theorem SamePlace.rootId {r r' : ActivityRow} (h : SamePlace r r') : r'.rootId = r.rootId := by
  rw [ActivityRow.rootId, h.splitRootId, h.id, ActivityRow.rootId]

theorem NamesHold.shrink (h : NamesHold p s) (hfamilies : Families db'.links db'.items)
    (hitemised : ∀ it ∈ db'.items, ∃ r ∈ db'.rows, r.id = it.2)
    (hrows : ∀ r' ∈ db'.rows, ∃ r ∈ s.db.rows, SameName r r') (hitems : db'.items ⊆ s.db.items) :
    NamesHold p ⟨db', s.first⟩ where
  families := hfamilies
  itemised := hitemised
  valid := by
    intro r' hr' hpiece hheld
    obtain ⟨r, hr, hsame⟩ := hrows r' hr'
    rw [hsame.splitRootId] at hpiece
    rw [hsame.id] at hheld ⊢
    exact h.valid r hr hpiece (hitems hheld)
  roots := by
    rintro root ⟨r', hr', hroot, hheld⟩
    obtain ⟨r, hr, hsame⟩ := hrows r' hr'
    refine (h.roots root ⟨r, hr, ?_, ?_⟩).of_rows hrows
    · rw [← hroot, hsame.rootId]
    · rw [← hsame.id]
      exact hitems hheld

theorem exists_piece (hmany : 2 ≤ (db.familyIn p root).length) :
    ∃ r ∈ db.rows, r.splitRootId = some root := by
  have hnodup : ((db.familyIn p root).map ActivityRow.id).Nodup := Db.familyIn_nodup
  have hmem : ∀ r ∈ db.familyIn p root, r ∈ db.rows ∧ (r.id = root ∨ r.splitRootId = some root) :=
    fun r hr => ⟨(mem_familyIn.mp hr).1, (mem_familyIn.mp hr).2.1⟩
  match hfamily : db.familyIn p root with
  | [] | [_] => simp [hfamily] at hmany
  | a :: b :: rest =>
    rw [hfamily] at hnodup hmem
    obtain ⟨ha, hamember⟩ := hmem a List.mem_cons_self
    obtain ⟨hb, hbmember⟩ := hmem b (List.mem_cons_of_mem _ List.mem_cons_self)
    rcases hamember with haid | haroot
    · rcases hbmember with hbid | hbroot
      · simp [haid, hbid] at hnodup
      · exact ⟨b, hb, hbroot⟩
    · exact ⟨a, ha, haroot⟩

theorem RootNames.renaming (h : RootNames s ρ) (hr : r ∈ s.db.rows) (hid : r.id = ρ)
    (hnone : r.splitRootId = none) (q : ℕ) (root : ℤ) :
    (renumberSplitFamily s.db.rows.rows (s.db.tripRows q) root ρ).base = none ∧
      ∀ n, (renumberSplitFamily s.db.rows.rows (s.db.tripRows q) root ρ).name = some n →
        s.first ρ ≠ none ∧ isEncryptedEnvelope (some n) = false := by
  by_cases hroot : ρ = root
  · subst hroot
    have hrow : s.db.row ρ = some r := hid ▸ Db.row_of_mem hr
    have hplain := h.plain r hr hid
    have hrecorded := h.recorded r hr hid
    by_cases hmany : 2 ≤ (s.db.familyIn q ρ).length
    · rw [renumberSplitFamily_many hrow hplain hmany]
      obtain ⟨piece, hpiece, hnames⟩ := exists_piece hmany
      cases hfirst : s.first ρ with
      | none => exact absurd hnames ((h.unsplit hfirst).2 piece hpiece)
      | some base =>
        rw [hfirst] at hrecorded
        obtain ⟨hne, hbase⟩ := h.base base hfirst
        have hbaseName : r.baseName = base := by
          rw [ActivityRow.baseName, hrecorded]
          exact if_neg hne
        refine ⟨if_neg (by simp [hrecorded]), fun n hn => ⟨by simp, ?_⟩⟩
        obtain ⟨i, -, rfl⟩ := Option.map_eq_some_iff.mp hn
        rw [hbaseName]
        exact pieceName_plain hbase _ _
    · obtain ⟨hbase, hname⟩ := renumberSplitFamily_few (p := q) hrow hplain (by omega) ρ
      refine ⟨hbase, fun n hn => ?_⟩
      obtain ⟨hrecorded', -⟩ := hname n hn
      have hfirst : s.first ρ = some n := hrecorded.symm.trans hrecorded'
      exact ⟨by simp [hfirst], (h.base n hfirst).2⟩
  · have hother : ∀ r' ∈ s.db.rows.rows, r'.id = ρ → r'.splitRootId ≠ some root := by
      intro r' hr' hid'
      obtain rfl : r' = r := Table.eq_of_key (t := s.db.rows) hr' hr (hid'.trans hid.symm)
      simp [hnone]
    rw [renumberSplitFamily_outside hroot hother]
    exact ⟨rfl, fun n hn => by cases hn⟩

theorem Db.mem_renumber {r' : ActivityRow} (hr' : r' ∈ (db.renumber q root).rows) :
    ∃ r ∈ db.rows, r' = r ∨ r' = r.renamed (renumberSplitFamily db.rows.rows (db.tripRows q) root r.id) := by
  cases hfree : db.heldElsewhere q root with
  | true =>
    rw [Db.renumber, if_pos hfree] at hr'
    exact ⟨r', hr', .inl rfl⟩
  | false =>
    have hrows := Db.renumber_rows hfree
    have hmem : r' ∈ (db.renumber q root).rows.rows := hr'
    rw [hrows] at hmem
    obtain ⟨r, hr, rfl⟩ := List.mem_map.mp hmem
    exact ⟨r, hr, .inr rfl⟩

theorem Db.mem_renumber_place {r' : ActivityRow} (hr' : r' ∈ (db.renumber q root).rows) :
    ∃ r ∈ db.rows, SamePlace r r' := by
  obtain ⟨r, hr, rfl | rfl⟩ := Db.mem_renumber hr'
  · exact ⟨r', hr, rfl, rfl, rfl⟩
  · exact ⟨r, hr, SamePlace.renamed r _⟩

theorem RootNames.renumber (h : RootNames s ρ) (hr : r ∈ s.db.rows) (hid : r.id = ρ)
    (hnone : r.splitRootId = none) (q : ℕ) (root : ℤ) :
    RootNames ⟨s.db.renumber q root, s.first⟩ ρ := by
  obtain ⟨hbase, hname⟩ := h.renaming hr hid hnone q root
  -- the root's row afterwards
  have hrow : ∀ r' ∈ (s.db.renumber q root).rows, r'.id = ρ → r'.splitBaseName = r.splitBaseName ∧
        (r'.text .name = r.text .name ∨ s.first ρ ≠ none ∧ isEncryptedEnvelope (r'.text .name) = false) := by
    intro r' hr' hid'
    obtain ⟨r₀, hr₀, rfl | rfl⟩ := Db.mem_renumber hr'
    · obtain rfl : r' = r := Table.eq_of_key hr₀ hr (hid'.trans hid.symm)
      exact ⟨rfl, .inl rfl⟩
    · obtain rfl : r₀ = r := Table.eq_of_key hr₀ hr (hid'.trans hid.symm)
      rw [hid]
      cases hn : (renumberSplitFamily s.db.rows.rows (s.db.tripRows q) root ρ).name with
      | none => exact ⟨by simp [ActivityRow.renamed, hbase], .inl (by simp [ActivityRow.renamed, hn])⟩
      | some n =>
        refine ⟨by simp [ActivityRow.renamed, hbase], .inr ⟨(hname n hn).1, ?_⟩⟩
        simpa [ActivityRow.renamed, hn] using (hname n hn).2
  refine ⟨fun r' hr' hid' => ?_, fun r' hr' hid' => ?_, h.base, fun hfirst => ⟨fun r' hr' hid' => ?_,
    fun r' hr' => ?_⟩⟩
  · rcases (hrow r' hr' hid').2 with hsame | ⟨-, hplain⟩
    · rw [hsame]
      exact h.plain r hr hid
    · exact hplain
  · rw [(hrow r' hr' hid').1]
    exact h.recorded r hr hid
  · rcases (hrow r' hr' hid').2 with hsame | ⟨hsplit, -⟩
    · rw [hsame]
      exact (h.unsplit hfirst).1 r hr hid
    · exact absurd hfirst hsplit
  · obtain ⟨r₀, hr₀, hsame⟩ := Db.mem_renumber_place hr'
    rw [hsame.splitRootId]
    exact (h.unsplit hfirst).2 r₀ hr₀

theorem NamesHold.renumber (h : NamesHold p s) (q : ℕ) (root : ℤ) :
    NamesHold p ⟨s.db.renumber q root, s.first⟩ where
  families := by
    have hsame := h.families
    rwa [← Db.renumber_links (p := q) (r := root), ← Db.renumber_items (p := q) (r := root)] at hsame
  itemised := by
    intro it hit
    rw [show (s.db.renumber q root).items = s.db.items from Db.renumber_items] at hit
    obtain ⟨r, hr, hid⟩ := h.itemised it hit
    obtain ⟨r', hr', hkin⟩ := (s.db.renumber_kin q root).mem hr
    exact ⟨r', hr', hkin.id.trans hid⟩
  valid := by
    intro r' hr' hpiece hheld
    obtain ⟨r, hr, hsame⟩ := Db.mem_renumber_place hr'
    rw [hsame.splitRootId] at hpiece
    rw [hsame.id] at hheld ⊢
    exact h.valid r hr hpiece (by simpa using hheld)
  roots := by
    rintro ρ ⟨r', hr', hroot, hheld⟩
    obtain ⟨r, hr, hsame⟩ := Db.mem_renumber_place hr'
    have hitem : (p, r.id) ∈ s.db.items := by
      rw [← hsame.id]
      simpa using hheld
    have hholds : s.db.Holds p ρ := ⟨r, hr, hsame.rootId.symm.trans hroot, hitem⟩
    obtain ⟨h', hh', hid, hnone⟩ := h.families.held_root hholds
    exact (h.roots ρ hholds).renumber hh' hid hnone q root

theorem familyNamed_of_not_holds (hnot : ¬ db.Holds p root)
    (hpiece : ∀ r ∈ db.rows, r.id = root → r.splitRootId = none)
    (hrows : ∀ r' ∈ db'.rows, ∃ r ∈ db.rows, SamePlace r r') (hitems : db'.items ⊆ db.items) :
    db'.FamilyNamed p root base := by
  have hempty : db'.familyIn p root = [] := by
    refine List.eq_nil_iff_forall_not_mem.mpr fun r' hr' => hnot ?_
    obtain ⟨hmem, hmember, hheld⟩ := mem_familyIn.mp hr'
    obtain ⟨r, hr, hsame⟩ := hrows r' hmem
    rw [hsame.id] at hheld
    rw [hsame.id, hsame.splitRootId] at hmember
    refine ⟨r, hr, ?_, hitems hheld⟩
    rw [ActivityRow.rootId]
    rcases hmember with hid | hname
    · rw [hpiece r hr hid]
      exact hid
    · rw [hname]
      rfl
  constructor
  · intro r hr
    rw [hempty] at hr
    cases hr
  · intro hmany
    simp [hempty] at hmany

theorem NamesHold.named (h : NamesHold p s) (hfirst : s.first root = some base)
    (hpiece : ∀ r ∈ s.db.rows, r.id = root → r.splitRootId = none) :
    (s.db.renumber p root).FamilyNamed p root base := by
  by_cases hholds : s.db.Holds p root
  · have hroot := h.roots root hholds
    obtain ⟨h', hh', rfl, hnone⟩ := h.families.held_root hholds
    exact Db.renumber_named (Db.row_of_mem hh') (hroot.plain h' hh' rfl)
      (h.families.root_free hholds) (hroot.base base hfirst).1
      (.inl ((hroot.recorded h' hh' rfl).trans hfirst))
  · refine familyNamed_of_not_holds hholds hpiece (fun r' hr' => Db.mem_renumber_place hr') ?_
    exact fun it hit => by simpa using hit

end Kept

end TraxJourney.Activity
