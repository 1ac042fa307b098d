/-
  File:      Activity/Resets.lean
  Subject:   What reset undoes: an activity that was never edited or split, any number of edits and
             splits of it and of edits, splits and deletions of its pieces, and then a reset.

  * **`reset_undoes`** -- a reset gives the track back and leaves the store of before.
-/
import TraxJourney.Activity.Edits
import TraxJourney.Activity.System

namespace TraxJourney.Activity

open Lib

variable {Point : Type}

/-! ## 1. The requests -/

/-- `_project_contains_activity`. -/
def Db.contains (db : Db) (projectId : ℕ) (activityId : ℤ) : Bool :=
  (db.tripRows projectId).contains activityId

/-- A request of an editor of the trip `projectId`; a split comes with the id that is drawn for its
    tail. -/
inductive Request (Point : Type) where
  | edit (projectId : ℕ) (activityId : ℤ) (points : List Point) (lockVersion : Option ℕ)
  | editEncrypted (projectId : ℕ) (activityId : ℤ) (piece : EncryptedPiece) (lockVersion : ℕ)
  | split (projectId : ℕ) (activityId splitIndex : ℤ) (dropBoundary : Bool)
      (points : Option (List Point)) (lockVersion : Option ℕ) (tailId : ℤ)
  | splitEncrypted (projectId : ℕ) (activityId : ℤ) (head tail : EncryptedPiece) (tailName : String)
      (lockVersion : ℕ) (tailId : ℤ)
  | deleteLocal (projectId : ℕ) (activityId : ℤ)
  | deleteItem (projectId : ℕ) (index : ℕ)

/-- What the request does; `none` where it is refused. -/
def Request.run (m : TrackMath Point) (db : Db) : Request Point → Option Db
  | .edit p x points expected => if db.contains p x then editActivityTrack m db p x points expected else none
  | .editEncrypted p x piece expected =>
    if db.contains p x then editActivityTrackEncrypted db p x piece expected else none
  | .split p x splitIndex dropBoundary points expected tailId =>
    if db.contains p x then
      splitActivity m db p x splitIndex dropBoundary points expected tailId
    else none
  | .splitEncrypted p x head tail tailName expected tailId =>
    if db.contains p x then
      splitActivityEncrypted m db p x head tail tailName expected tailId
    else none
  | .deleteLocal p x => deleteLocalPiece db p x
  | .deleteItem p index => removeItem db p index

instance (links : List Link) (root x : ℤ) : Decidable (isPiece links root x) :=
  inferInstanceAs (Decidable (∃ l ∈ links, l.id = x ∧ l.root = some root))

/-- An edit or split of `root` or of one of its pieces, or a deletion of a piece. -/
def Request.concerns (db : Db) (root : ℤ) : Request Point → Bool
  | .edit _ x _ _ | .editEncrypted _ x _ _ | .split _ x _ _ _ _ _ | .splitEncrypted _ x _ _ _ _ _ =>
    decide (x = root ∨ isPiece db.links root x)
  | .deleteLocal _ x => decide (isPiece db.links root x)
  | .deleteItem _ index => (db.items[index]?).any fun it => decide (isPiece db.links root it.2)

/-- One request about `root` and its pieces. -/
def Request.about (m : TrackMath Point) (root : ℤ) (db : Db) (req : Request Point) : Option Db :=
  if req.concerns db root then req.run m db else none

/-! ## 2. Before and since -/

/-- A row has the id. -/
def Db.has (db : Db) (id : ℤ) : Bool := db.rows.rows.any (·.hasId id)

theorem Db.has_iff {db : Db} {x : ℤ} : db.has x = true ↔ ∃ r ∈ db.rows, r.id = x := by
  simp [Db.has, Table.mem_def]

/-- **The activity before its first edit or split**, in a store whose split links and items name rows:
    it is no piece, no row names it, one trip holds it, and its two columns that are never null are
    there. -/
structure Untouched (db : Db) (p : ℕ) (row : ActivityRow) : Prop where
  stored : row ∈ db.rows
  link : row.link = ⟨row.id, none, none⟩
  unedited : row.isEdited = false
  held : (p, row.id) ∈ db.items
  heldOnce : ∀ q, (q, row.id) ∈ db.items → q = p
  unnamed : ∀ l ∈ db.links, l.root ≠ some row.id ∧ l.parent ≠ some row.id
  linked : ∀ l ∈ db.links, ∀ x, l.root = some x ∨ l.parent = some x → db.has x = true
  itemised : ∀ it ∈ db.items, db.has it.2 = true
  distance : (row.figure .distance).isSome = true
  gain : (row.figure .totalElevationGain).isSome = true

/-- The track and figures of `row` are those of `row₀`. -/
def SameTrack (row₀ row : ActivityRow) : Prop :=
  (∀ e ∈ snapshotColumns, row.text e.2 = row₀.text e.2) ∧ row.figure = row₀.figure

/-- The snapshot of `row` is the track and figures of `row₀`. -/
def KeepsTrack (row₀ row : ActivityRow) : Prop :=
  (∀ e ∈ snapshotColumns, row.text e.1 = row₀.text e.2) ∧
    (∀ f, f ≠ .maxSpeed → row.originalFigure f = row₀.figure f) ∧
    row.figure .maxSpeed = row₀.figure .maxSpeed

/-- **The store since**: what reset relies on. -/
structure Since (db₀ : Db) (p : ℕ) (row₀ : ActivityRow) (db : Db) : Prop where
  family : Family db.links row₀.id
  kept : ∀ r ∈ db₀.rows, r.id ≠ row₀.id → r ∈ db.rows
  rows : ∀ r ∈ db.rows, r.id = row₀.id ∨ r ∈ db₀.rows ∨
    (r.splitRootId = some row₀.id ∧ db₀.has r.id = false ∧ Imports.isActivityId r.id = true)
  unedited : ∀ row ∈ db.rows, row.id = row₀.id → row.isEdited = false →
    SameTrack row₀ row ∧ ∀ x, ¬ isPiece db.links row₀.id x
  edited : ∀ row ∈ db.rows, row.id = row₀.id → row.isEdited = true → KeepsTrack row₀ row
  items : db.items.filter (fun it => db₀.has it.2) = db₀.items
  pieceItems : ∀ it ∈ db.items, db₀.has it.2 = false → it.1 = p ∧ isPiece db.links row₀.id it.2
  holds : ∀ x, isPiece db.links row₀.id x → (p, x) ∈ db.items

section Since

variable {db₀ db db' : Db} {p : ℕ} {row₀ : ActivityRow} {x : ℤ}

theorem Untouched.since (h : Untouched db₀ p row₀) : Since db₀ p row₀ db₀ where
  family := by
    refine ⟨db₀.links_unique, fun l hl hroot => absurd hroot (h.unnamed l hl).1,
      ⟨row₀.link, Db.mem_links.mpr ⟨row₀, h.stored, rfl⟩, rfl, ?_, ?_⟩, fun l hl y hy hmember => ?_⟩
    · rw [h.link]
    · rw [h.link]
    · rcases hmember with rfl | ⟨m, hm, -, hroot⟩
      · exact absurd hy (h.unnamed l hl).2
      · exact absurd hroot (h.unnamed m hm).1
  kept := fun r hr _ => hr
  rows := fun r hr => .inr (.inl hr)
  unedited := fun row hrow hid _ => by
    obtain rfl : row = row₀ := Table.eq_of_key hrow h.stored hid
    exact ⟨⟨fun _ _ => rfl, rfl⟩, fun x ⟨l, hl, _, hroot⟩ => (h.unnamed l hl).1 hroot⟩
  edited := fun row hrow hid hedited => by
    obtain rfl : row = row₀ := Table.eq_of_key hrow h.stored hid
    rw [h.unedited] at hedited
    cases hedited
  items := List.filter_eq_self.mpr h.itemised
  pieceItems := fun it hit hno => by
    rw [h.itemised it hit] at hno
    cases hno
  holds := fun x ⟨l, hl, _, hroot⟩ => absurd hroot (h.unnamed l hl).1

theorem Untouched.outside (h : Untouched db₀ p row₀) {r : ActivityRow} (hr : r ∈ db₀.rows) :
    r.splitRootId ≠ some row₀.id :=
  (h.unnamed r.link (Db.mem_links.mpr ⟨r, hr, rfl⟩)).1

theorem Since.piece_row (h : Since db₀ p row₀ db) (hu : Untouched db₀ p row₀)
    (hx : isPiece db.links row₀.id x) : ∃ r ∈ db.rows, r.id = x ∧ r.splitRootId = some row₀.id ∧
      db₀.has x = false ∧ Imports.isActivityId x = true := by
  obtain ⟨l, hl, rfl, hroot⟩ := hx
  obtain ⟨r, hr, rfl⟩ := Db.mem_links.mp hl
  rcases h.rows r hr with hid | hold | ⟨-, hnew, hvalid⟩
  · exact absurd ⟨r.link, hl, hid, hroot⟩ h.family.root_not_piece
  · exact absurd hroot (hu.outside hold)
  · exact ⟨r, hr, rfl, hroot, hnew, hvalid⟩

theorem Since.own_row (h : Since db₀ p row₀ db) :
    ∃ row, db.row row₀.id = some row ∧ row ∈ db.rows ∧ row.id = row₀.id ∧
      row.splitRootId = none ∧ row.splitParentId = none := by
  obtain ⟨head, hmem, hid, hroot, hparent⟩ := h.family.head
  obtain ⟨row, hrow, rfl⟩ := Db.mem_links.mp hmem
  have hid' : row.id = row₀.id := hid
  exact ⟨row, hid' ▸ Db.row_of_mem hrow, hrow, hid', hroot, hparent⟩

theorem Since.has_row (h : Since db₀ p row₀ db) (hx : db₀.has x = true) : ∃ r ∈ db.rows, r.id = x := by
  obtain ⟨r, hr, rfl⟩ := Db.has_iff.mp hx
  by_cases hid : r.id = row₀.id
  · obtain ⟨row, -, hrow, hrowId, -⟩ := h.own_row
    exact ⟨row, hrow, hrowId.trans hid.symm⟩
  · exact ⟨r, h.kept r hr hid, rfl⟩

variable {q : ℕ}

theorem Since.holder (h : Since db₀ p row₀ db) (hu : Untouched db₀ p row₀)
    (hx : x = row₀.id ∨ isPiece db.links row₀.id x) (hq : (q, x) ∈ db.items) : q = p := by
  rcases hx with rfl | hx
  · have hhas : db₀.has row₀.id = true := Db.has_iff.mpr ⟨row₀, hu.stored, rfl⟩
    have hmem : (q, row₀.id) ∈ db.items.filter fun it => db₀.has it.2 := List.mem_filter.mpr ⟨hq, hhas⟩
    rw [h.items] at hmem
    exact hu.heldOnce q hmem
  · obtain ⟨-, -, -, -, hnew, -⟩ := h.piece_row hu hx
    exact (h.pieceItems _ hq hnew).1

theorem Since.root_of_none (h : Since db₀ p row₀ db) (hu : Untouched db₀ p row₀) :
    ∀ l ∈ db.links, ∀ x, isPiece db.links row₀.id x → l.root ≠ some x := by
  intro l hl x hx hroot
  obtain ⟨-, -, -, -, hnew, -⟩ := h.piece_row hu hx
  obtain ⟨r, hr, rfl⟩ := Db.mem_links.mp hl
  rcases h.rows r hr with hid | hold | ⟨hpiece, -, -⟩
  · obtain ⟨row, -, hrow, hrowId, hnone, -⟩ := h.own_row
    obtain rfl : r = row := Table.eq_of_key hr hrow (hid.trans hrowId.symm)
    have hroot' : r.splitRootId = some x := hroot
    rw [hnone] at hroot'
    cases hroot'
  · have hhas := hu.linked r.link (Db.mem_links.mpr ⟨r, hold, rfl⟩) x (.inl hroot)
    rw [hnew] at hhas
    cases hhas
  · have heq : row₀.id = x := Option.some.inj (hpiece.symm.trans hroot)
    rw [← heq] at hx
    exact h.family.root_not_piece hx

/-! ## 3. What keeps it -/

theorem Since.congr (h : Since db₀ p row₀ db) (hrows : db'.rows = db.rows)
    (hitems : db'.items = db.items) : Since db₀ p row₀ db' := by
  have hlinks : db'.links = db.links := by rw [Db.links, hrows, Db.links]
  exact ⟨hlinks ▸ h.family, hrows ▸ h.kept, hrows ▸ h.rows, by rw [hrows, hlinks]; exact h.unedited,
    hrows ▸ h.edited, hitems ▸ h.items, by rw [hitems, hlinks]; exact h.pieceItems,
    by rw [hitems, hlinks]; exact h.holds⟩

theorem Db.TakenOut.piece_iff {root : ℤ} {gone : List ℤ} (h : db.TakenOut root gone db') :
    isPiece db'.links root x ↔ isPiece db.links root x ∧ x ∉ gone := by
  constructor
  · rintro ⟨l', hl', rfl, hroot⟩
    obtain ⟨r', hr', rfl⟩ := Db.mem_links.mp hl'
    obtain ⟨r, hr, hkin⟩ := h.rows.mem_of hr'
    obtain ⟨hr, hstay⟩ := List.mem_filter.mp hr
    have hid : r'.id = r.id := hkin.id
    refine ⟨⟨r.link, Db.mem_links.mpr ⟨r, hr, rfl⟩, hid.symm, ?_⟩, ?_⟩
    · exact hkin.splitRootId.symm.trans hroot
    · show r'.id ∉ gone
      rw [hid]
      simpa using hstay
  · rintro ⟨⟨l, hl, rfl, hroot⟩, hstay⟩
    obtain ⟨r, hr, rfl⟩ := Db.mem_links.mp hl
    have hstay' : r.id ∉ gone := hstay
    have hmem : r ∈ db.rows.rows.filter fun r => !gone.contains r.id :=
      List.mem_filter.mpr ⟨hr, by simpa using hstay'⟩
    obtain ⟨r', hr', hkin⟩ := h.rows.mem hmem
    exact ⟨r'.link, Db.mem_links.mpr ⟨r', hr', rfl⟩, hkin.id, hkin.splitRootId.trans hroot⟩

variable {row : ActivityRow}

theorem KeepsTrack.kin {row' : ActivityRow} {root : ℤ} (h : KeepsTrack row₀ row) (hkin : Kin root row row') :
    KeepsTrack row₀ row' := by
  obtain ⟨htext, hfigure, hmax⟩ := h
  refine ⟨fun e he => ?_, fun f hf => ?_, ?_⟩
  · exact (hkin.text e.1 (snapshotColumns_ne_name e he).1).trans (htext e he)
  · rw [hkin.originalFigure]
    exact hfigure f hf
  · rw [hkin.figure]
    exact hmax

theorem Since.takenOut {gone : List ℤ} (h : Since db₀ p row₀ db) (hu : Untouched db₀ p row₀)
    (htaken : db.TakenOut row₀.id gone db')
    (hitems : db'.items.filter (fun it => db₀.has it.2) = db₀.items)
    (hpieces : ∀ it ∈ db'.items, db₀.has it.2 = false → it.1 = p ∧ isPiece db'.links row₀.id it.2)
    (hholds : ∀ x, isPiece db'.links row₀.id x → (p, x) ∈ db'.items) : Since db₀ p row₀ db' := by
  have hback : ∀ r' ∈ db'.rows, ∃ r ∈ db.rows, Kin row₀.id r r' := by
    intro r' hr'
    obtain ⟨r, hr, hkin⟩ := htaken.rows.mem_of hr'
    exact ⟨r, (List.mem_filter.mp hr).1, hkin⟩
  refine ⟨htaken.family, fun r hr hne => ?_, fun r' hr' => ?_, fun row' hrow' hid hun => ?_,
    fun row' hrow' hid hed => ?_, hitems, hpieces, hholds⟩
  · -- a row of before is no piece, so it is not taken out and not renamed
    have hstay : r.id ∉ gone := by
      intro hmem
      obtain ⟨-, -, -, -, hnew, -⟩ := h.piece_row hu (htaken.pieces r.id hmem)
      rw [Db.has_iff.mpr ⟨r, hr, rfl⟩] at hnew
      cases hnew
    have hmem : r ∈ db.rows.rows.filter fun r => !gone.contains r.id :=
      List.mem_filter.mpr ⟨h.kept r hr hne, by simpa using hstay⟩
    obtain ⟨r', hr', hkin⟩ := htaken.rows.mem hmem
    have hsame : r' = r := hkin.outside hne (hu.outside hr)
    exact hsame ▸ hr'
  · obtain ⟨r, hr, hkin⟩ := hback r' hr'
    by_cases hown : r'.id = row₀.id
    · exact .inl hown
    · rcases h.rows r hr with hid | hold | ⟨hroot, hnew, hvalid⟩
      · exact absurd (hkin.id.trans hid) hown
      · have hsame : r' = r := hkin.outside (hkin.id ▸ hown) (hu.outside hold)
        exact .inr (.inl (hsame ▸ hold))
      · exact .inr (.inr ⟨hkin.splitRootId.trans hroot, hkin.id ▸ hnew, hkin.id ▸ hvalid⟩)
  · obtain ⟨row, hrow, hkin⟩ := hback row' hrow'
    have hsame := h.unedited row hrow (hkin.id.symm.trans hid) (hkin.isEdited.symm.trans hun)
    refine ⟨⟨fun e he => ?_, hkin.figure.trans hsame.1.2⟩, fun x hx => hsame.2 x (htaken.piece_iff.mp hx).1⟩
    exact (hkin.text e.2 (snapshotColumns_ne_name e he).2).trans (hsame.1.1 e he)
  · obtain ⟨row, hrow, hkin⟩ := hback row' hrow'
    exact (h.edited row hrow (hkin.id.symm.trans hid) (hkin.isEdited.symm.trans hed)).kin hkin

theorem Since.renumber (h : Since db₀ p row₀ db) (hu : Untouched db₀ p row₀) (q : ℕ) :
    Since db₀ p row₀ (db.renumber q row₀.id) := by
  have hfamily : Family (db.renumber q row₀.id).links row₀.id := by
    rw [Db.renumber_links]
    exact h.family
  refine h.takenOut hu (.renamed hfamily (db.renumber_kin q row₀.id)) ?_ ?_ ?_
  · rw [Db.renumber_items]
    exact h.items
  · rw [Db.renumber_items, Db.renumber_links]
    exact h.pieceItems
  · rw [Db.renumber_items, Db.renumber_links]
    exact h.holds

theorem KeepsTrack.written {new : ActivityRow} (hw : Written row new)
    (hun : row.isEdited = false → SameTrack row₀ row) (hed : row.isEdited = true → KeepsTrack row₀ row) :
    KeepsTrack row₀ new := by
  cases hedited : row.isEdited with
  | false =>
    obtain ⟨htext, hfigure⟩ := hun hedited
    have hsnap : snapshotFirstEdit row = snapshotCurrent row := by simp [snapshotFirstEdit, hedited]
    refine ⟨fun e he => ?_, fun f hf => ?_, ?_⟩
    · rw [hw.text e he, hsnap, snapshotCurrent_text row e he, htext e he]
    · rw [hw.originalFigure, hsnap, ← hfigure]
      exact if_neg hf
    · rw [hw.maxSpeed, hfigure]
  | true =>
    obtain ⟨htext, hfigure, hmax⟩ := hed hedited
    have hsnap : snapshotFirstEdit row = row := by simp [snapshotFirstEdit, hedited]
    refine ⟨fun e he => ?_, fun f hf => ?_, hw.maxSpeed.trans hmax⟩
    · rw [hw.text e he, hsnap]
      exact htext e he
    · rw [hw.originalFigure, hsnap]
      exact hfigure f hf

theorem Since.write {row new : ActivityRow} (h : Since db₀ p row₀ db) (hu : Untouched db₀ p row₀)
    (hrow : row ∈ db.rows) (hfam : row.id = row₀.id ∨ isPiece db.links row₀.id row.id)
    (hw : Written row new) : Since db₀ p row₀ (db.write new) := by
  have hid : new.id = row.id := congrArg Link.id hw.link
  have hroot : new.splitRootId = row.splitRootId := congrArg Link.root hw.link
  have hlinks := Db.write_links hrow hw.link
  have hold : ∀ r ∈ db₀.rows, r.id ≠ row₀.id → r.id ≠ row.id := by
    intro r hr hne heq
    rcases hfam with hown | hpiece
    · exact hne (heq.trans hown)
    · obtain ⟨-, -, -, -, hnew, -⟩ := h.piece_row hu hpiece
      rw [Db.has_iff.mpr ⟨r, hr, heq⟩] at hnew
      cases hnew
  refine ⟨hlinks ▸ h.family, fun r hr hne => ?_, fun r hr => ?_, fun r hr hrid hun => ?_,
    fun r hr hrid hed => ?_, h.items, ?_, ?_⟩
  · refine Db.mem_write.mpr (.inl ⟨h.kept r hr hne, ?_⟩)
    rw [hid]
    exact hold r hr hne
  · rcases Db.mem_write.mp hr with ⟨hr, -⟩ | ⟨rfl, -⟩
    · exact h.rows r hr
    · rw [hid, hroot]
      rcases h.rows row hrow with hown | hmem | hpiece
      · exact .inl hown
      · rcases hfam with hown | hpiece
        · exact .inl hown
        · obtain ⟨-, -, -, -, hnew, -⟩ := h.piece_row hu hpiece
          rw [Db.has_iff.mpr ⟨row, hmem, rfl⟩] at hnew
          cases hnew
      · exact .inr (.inr hpiece)
  · rcases Db.mem_write.mp hr with ⟨hr, -⟩ | ⟨rfl, -⟩
    · rw [hlinks]
      exact h.unedited r hr hrid hun
    · rw [hw.isEdited] at hun
      cases hun
  · rcases Db.mem_write.mp hr with ⟨hr, -⟩ | ⟨rfl, -⟩
    · exact h.edited r hr hrid hed
    · have hown : row.id = row₀.id := hid.symm.trans hrid
      exact KeepsTrack.written hw (fun hun => (h.unedited row hrow hown hun).1)
        (h.edited row hrow hown)
  · rw [hlinks]
    exact h.pieceItems
  · rw [hlinks]
    exact h.holds

theorem Since.parent_row (h : Since db₀ p row₀ db) (hu : Untouched db₀ p row₀) {l : Link}
    (hl : l ∈ db.links) (hx : l.parent = some x) : x ∈ db.links.map Link.id := by
  obtain ⟨r, hr, rfl⟩ := Db.mem_links.mp hl
  rcases h.rows r hr with hid | hold | ⟨hroot, -, -⟩
  · obtain ⟨row, -, hrow, hrowId, -, hnone⟩ := h.own_row
    obtain rfl : r = row := Table.eq_of_key hr hrow (hid.trans hrowId.symm)
    have hx' : r.splitParentId = some x := hx
    rw [hnone] at hx'
    cases hx'
  · have hhas := hu.linked r.link (Db.mem_links.mpr ⟨r, hold, rfl⟩) x (.inr hx)
    obtain ⟨s, hs, rfl⟩ := h.has_row hhas
    exact List.mem_map.mpr ⟨s.link, Db.mem_links.mpr ⟨s, hs, rfl⟩, rfl⟩
  · obtain ⟨y, hy, hreaches⟩ := h.family.parent_reaches hl hroot
    obtain rfl : x = y := Option.some.inj (hx.symm.trans hy)
    rcases reaches_cases hreaches with rfl | ⟨m, hm, rfl, -⟩
    · obtain ⟨head, hmem, hid, -⟩ := h.family.head
      exact hid ▸ List.mem_map_of_mem hmem
    · exact List.mem_map_of_mem hm

theorem Since.addTail {tail : ActivityRow} {y : ℤ} (h : Since db₀ p row₀ db) (hu : Untouched db₀ p row₀)
    (hedited : ∀ row ∈ db.rows, row.id = row₀.id → row.isEdited = true)
    (hitems : db'.items = splitItems db.items p y tail.id)
    (hrows : ∀ r, r ∈ db'.rows ↔ r ∈ db.rows ∨ r = tail)
    (hlinks : db'.links = db.links ++ [tail.link])
    (htail : tail.link = ⟨tail.id, some row₀.id, some y⟩)
    (hy : y = row₀.id ∨ isPiece db.links row₀.id y) (hheld : (p, y) ∈ db.items)
    (hfresh : tail.id ∉ db.links.map Link.id) (hvalid : Imports.isActivityId tail.id = true) :
    Since db₀ p row₀ db' := by
  have hnew : db₀.has tail.id = false := by
    refine Bool.eq_false_iff.mpr fun hhas => hfresh ?_
    obtain ⟨r, hr, hid⟩ := h.has_row hhas
    exact List.mem_map.mpr ⟨r.link, Db.mem_links.mpr ⟨r, hr, rfl⟩, hid⟩
  have hown : tail.id ≠ row₀.id := by
    intro heq
    rw [heq, Db.has_iff.mpr ⟨row₀, hu.stored, rfl⟩] at hnew
    cases hnew
  have hpiece : isPiece db'.links row₀.id tail.id := by
    rw [hlinks, htail]
    exact ⟨⟨tail.id, some row₀.id, some y⟩, by simp, rfl, rfl⟩
  have hmono : ∀ x, isPiece db.links row₀.id x → isPiece db'.links row₀.id x := by
    rintro x ⟨l, hl, hid, hroot⟩
    exact ⟨l, by rw [hlinks]; exact List.mem_append_left _ hl, hid, hroot⟩
  refine ⟨?_, fun r hr hne => (hrows r).mpr (.inl (h.kept r hr hne)), fun r hr => ?_,
    fun r hr hid hun => ?_, fun r hr hid hed => ?_, ?_, fun it hit hno => ?_, fun x hx => ?_⟩
  · rw [hlinks, htail]
    refine h.family.leaf hy hfresh fun l hl hparent => hfresh ?_
    exact h.parent_row hu hl hparent
  · rcases (hrows r).mp hr with hr | rfl
    · exact h.rows r hr
    · exact .inr (.inr ⟨congrArg Link.root htail, hnew, hvalid⟩)
  · rcases (hrows r).mp hr with hr | rfl
    · rw [hedited r hr hid] at hun
      cases hun
    · exact absurd hid hown
  · rcases (hrows r).mp hr with hr | rfl
    · exact h.edited r hr hid hed
    · exact absurd hid hown
  · rw [hitems, filter_splitItems hnew]
    exact h.items
  · rw [hitems] at hit
    rcases mem_splitItems.mp hit with hit | ⟨rfl, -⟩
    · exact ⟨(h.pieceItems it hit hno).1, hmono _ (h.pieceItems it hit hno).2⟩
    · exact ⟨rfl, hpiece⟩
  · rw [hitems]
    refine mem_splitItems.mpr ?_
    obtain ⟨l, hl, hid, hroot⟩ := hx
    rw [hlinks] at hl
    rcases List.mem_append.mp hl with hl | hl
    · exact .inl (h.holds x ⟨l, hl, hid, hroot⟩)
    · rw [List.mem_singleton] at hl
      subst hl
      have hid' : tail.id = x := hid
      exact .inr ⟨by rw [hid'], hheld⟩

theorem Since.rootId (h : Since db₀ p row₀ db) (hrow : row ∈ db.rows)
    (hfam : row.id = row₀.id ∨ isPiece db.links row₀.id row.id) : row.rootId = row₀.id := by
  rcases hfam with hid | ⟨l, hl, hid, hroot⟩
  · obtain ⟨own, -, hown, hownId, hnone, -⟩ := h.own_row
    obtain rfl : row = own := Table.eq_of_key hrow hown (hid.trans hownId.symm)
    rw [ActivityRow.rootId, hnone]
    exact hid
  · obtain ⟨r, hr, rfl⟩ := Db.mem_links.mp hl
    obtain rfl : r = row := Table.eq_of_key hr hrow hid
    have hroot' : r.splitRootId = some row₀.id := hroot
    rw [ActivityRow.rootId, hroot']
    rfl

theorem Since.storeSplit {head tail : ActivityRow} (h : Since db₀ p row₀ db) (hu : Untouched db₀ p row₀)
    (hrow : row ∈ db.rows) (hfam : row.id = row₀.id ∨ isPiece db.links row₀.id row.id)
    (hheld : (q, row.id) ∈ db.items) (hhead : Written row head)
    (htail : tail.link = ⟨tail.id, some row.rootId, some row.id⟩) (hfree : db.isFree tail.id = true)
    (hstore : db.storeSplit q head tail = some db') :
    Since db₀ p row₀ db' := by
  obtain ⟨db₁, hitems, hrows, hlinks, rfl⟩ := Db.storeSplit_some hstore
  have hid : head.id = row.id := congrArg Link.id hhead.link
  have hroot : row.rootId = row₀.id := h.rootId hrow hfam
  have hheadRoot : head.rootId = row₀.id := by
    rw [← hroot, ActivityRow.rootId, ActivityRow.rootId, hid]
    congr 1
    exact congrArg Link.root hhead.link
  obtain rfl : q = p := h.holder hu hfam hheld
  have hwritten := h.write hu hrow hfam hhead
  have hsame := Db.write_links hrow hhead.link
  rw [hroot] at htail
  rw [hid] at hitems
  simp only [Db.isFree, Bool.and_eq_true, decide_eq_true_eq] at hfree
  obtain ⟨⟨hlow, hneg⟩, hnone⟩ := hfree
  have hfresh : tail.id ∉ (db.write head).links.map Link.id := by
    rw [hsame]
    intro hmem
    obtain ⟨l, hl, hlid⟩ := List.mem_map.mp hmem
    obtain ⟨r, hr, rfl⟩ := Db.mem_links.mp hl
    have hfound := Db.row_of_mem hr
    rw [show r.id = tail.id from hlid] at hfound
    rw [hfound] at hnone
    cases hnone
  have hvalid : Imports.isActivityId tail.id = true := by
    simp only [Imports.isActivityId, Bool.and_eq_true, decide_eq_true_eq]
    constructor
    · omega
    · omega
  have hedited : ∀ r ∈ (db.write head).rows, r.id = row₀.id → r.isEdited = true := by
    intro r hr hown
    rcases Db.mem_write.mp hr with ⟨hr, hne⟩ | ⟨rfl, -⟩
    · -- a piece is split: it was cut out of the activity, which is edited since
      refine Bool.not_eq_false _ |>.mp fun hun => ?_
      have hpiece := hfam.resolve_left fun heq => hne (hown.trans (heq.symm.trans hid.symm))
      exact (h.unedited r hr hown hun).2 _ hpiece
    · exact hhead.isEdited
  have hadded := hwritten.addTail hu hedited hitems hrows hlinks htail (hsame ▸ hfam) hheld hfresh hvalid
  rw [hheadRoot]
  exact hadded.renumber hu q

theorem Since.dropUnreferenced (h : Since db₀ p row₀ db) (db₁ : Db) (ids : List ℤ)
    (hu : Untouched db₀ p row₀) (hrows : db₁.rows = db.rows)
    (hitems : db₁.items.filter (fun it => db₀.has it.2) = db₀.items) (hsub : db₁.items ⊆ db.items)
    (hkeep : ∀ x, isPiece db.links row₀.id x → x ∉ ids → (p, x) ∈ db₁.items)
    (hids : ∀ x ∈ ids, x = row₀.id ∨ isPiece db.links row₀.id x) :
    ∃ db' renamed, deleteUnreferencedActivities db₁ ids = some (db', renamed) ∧ Since db₀ p row₀ db' := by
  have hlinks : db₁.links = db.links := by rw [Db.links, hrows, Db.links]
  have hroot : ∃ it ∈ db₁.items, it.2 = row₀.id := by
    have hmem := hu.held
    rw [← hitems] at hmem
    exact ⟨_, (List.mem_filter.mp hmem).1, rfl⟩
  have hfamily : Family db₁.links row₀.id := hlinks ▸ h.family
  obtain ⟨db', renamed, gone, hdrop, hsame, htaken, hunnamed, hgo⟩ :=
    deleteUnreferenced_family hfamily (hlinks ▸ hids) hroot (hlinks ▸ h.root_of_none hu)
  have htaken' : db.TakenOut row₀.id gone db' := ⟨hlinks ▸ htaken.pieces, hrows ▸ htaken.rows, htaken.family⟩
  refine ⟨db', renamed, hdrop, h.takenOut hu htaken' ?_ (fun it hit hno => ?_) fun x hx => ?_⟩
  · rw [hsame]
    exact hitems
  · rw [hsame] at hit
    obtain ⟨hp, hpiece⟩ := h.pieceItems it (hsub hit) hno
    exact ⟨hp, htaken'.piece_iff.mpr ⟨hpiece, fun hmem => hunnamed it.2 hmem it hit rfl⟩⟩
  · obtain ⟨hpiece, hstay⟩ := htaken'.piece_iff.mp hx
    rw [hsame]
    refine Classical.byContradiction fun hno => hstay ?_
    -- no item names the piece, so it was one of those given, and went
    obtain ⟨-, -, -, -, hnew, hvalid⟩ := h.piece_row hu hpiece
    have hnone : ∀ it ∈ db₁.items, it.2 ≠ x := by
      rintro ⟨q, y⟩ hit rfl
      obtain rfl : q = p := (h.pieceItems _ (hsub hit) hnew).1
      exact hno hit
    have hmem : x ∈ ids := Classical.byContradiction fun hout => hno (hkeep x hpiece hout)
    exact hgo x hmem hvalid (hlinks ▸ hpiece) hnone

theorem Since.deleteLocal (h : Since db₀ p row₀ db) (hu : Untouched db₀ p row₀)
    (hx : isPiece db.links row₀.id x) (hdel : deleteLocalPiece db q x = some db') :
    Since db₀ p row₀ db' := by
  obtain ⟨row, hrow, hdel⟩ := Option.bind_eq_some_iff.mp hdel
  obtain ⟨db₁, hlocal, hroots⟩ := Option.bind_eq_some_iff.mp hdel
  obtain ⟨r, hr, hrid, hroot, hnew, -⟩ := h.piece_row hu hx
  obtain ⟨hmem, hid⟩ := Db.row_some hrow
  obtain rfl : r = row := Table.eq_of_key hr hmem (hrid.trans hid.symm)
  simp only [hroot] at hroots
  obtain ⟨-, -, -, hheld, -, -⟩ := deleteLocal_links hlocal
  -- the piece is the trip's, so the request is
  obtain rfl : q = p := by
    refine Classical.byContradiction fun hne => ?_
    have hno := List.any_eq_false.mp hheld (p, x) (h.holds x hx)
    exact hno (by simp [Ne.symm hne])
  have hchildren : ∀ l ∈ db.links, l.parent = some x → db.heldElsewhere q l.id = false := by
    intro l hl hparent
    have hpiece : isPiece db.links row₀.id l.id := ⟨l, hl, rfl, h.family.closed l hl x hparent (.inr hx)⟩
    refine List.any_eq_false.mpr fun it hit => ?_
    simp only [Bool.and_eq_true, bne_iff_ne, beq_iff_eq, not_and]
    intro hq heq
    have hholder : (it.1, l.id) ∈ db.items := heq ▸ hit
    exact hq (h.holder hu (.inr hpiece) hholder)
  obtain ⟨hitems, htaken⟩ := deleteLocal_family h.family hx hchildren hlocal
  have hsince : Since db₀ q row₀ db₁ := by
    refine h.takenOut hu htaken ?_ (fun it hit hno => ?_) fun y hy => ?_
    · rw [hitems, List.filter_filter, ← h.items]
      refine List.filter_congr fun it _ => ?_
      by_cases heq : it = (q, x)
      · simp [heq, hnew]
      · simp [heq]
    · rw [hitems] at hit
      obtain ⟨hit, hne⟩ := List.mem_filter.mp hit
      obtain ⟨hq, hpiece⟩ := h.pieceItems it hit hno
      refine ⟨hq, htaken.piece_iff.mpr ⟨hpiece, fun hgone => ?_⟩⟩
      have heq : it = (q, x) := Prod.ext hq (List.mem_singleton.mp hgone)
      simp [heq] at hne
    · obtain ⟨hpiece, hstay⟩ := htaken.piece_iff.mp hy
      rw [hitems]
      refine List.mem_filter.mpr ⟨h.holds y hpiece, ?_⟩
      have hne : y ≠ x := fun heq => hstay (List.mem_singleton.mpr heq)
      simp [hne]
  obtain ⟨db₂, renamed, hdrop, hsince₂⟩ := hsince.dropUnreferenced db₁ [row₀.id] hu rfl
    hsince.items (List.Subset.refl _) (fun y hy _ => hsince.holds y hy)
    fun y hy => .inl (List.mem_singleton.mp hy)
  rw [hdrop] at hroots
  obtain rfl := Option.some.inj hroots
  exact hsince₂

theorem Since.removeItem {index : ℕ} {it : ℕ × ℤ} (h : Since db₀ p row₀ db) (hu : Untouched db₀ p row₀)
    (hit : db.items[index]? = some it) (hx : isPiece db.links row₀.id it.2)
    (hdel : removeItem db q index = some db') :
    Since db₀ p row₀ db' := by
  obtain ⟨it', hit', hdel⟩ := Option.bind_eq_some_iff.mp hdel
  obtain rfl : it = it' := Option.some.inj (hit.symm.trans hit')
  obtain ⟨holder, x⟩ := it
  dsimp only at hdel hx
  split at hdel
  case isFalse => cases hdel
  case isTrue =>
    obtain ⟨-, -, -, -, hnew, -⟩ := h.piece_row hu hx
    have hitems : (db.items.eraseIdx index).filter (fun it => db₀.has it.2) = db₀.items := by
      obtain ⟨hlt, hget⟩ := List.getElem?_eq_some_iff.mp hit
      have hparts : db.items = db.items.take index ++ (holder, x) :: db.items.drop (index + 1) := by
        rw [← hget, List.getElem_cons_drop, List.take_append_drop]
      rw [List.eraseIdx_eq_take_drop_succ, List.filter_append, ← h.items]
      conv => rhs; rw [hparts]
      simp [hnew]
    have hkeep : ∀ y, isPiece db.links row₀.id y → y ∉ [x] → (p, y) ∈ db.items.eraseIdx index := by
      intro y hy hne
      obtain ⟨i, hi⟩ := List.mem_iff_getElem?.mp (h.holds y hy)
      refine List.mem_eraseIdx_iff_getElem?.mpr ⟨i, ?_, hi⟩
      rintro rfl
      have heq : (holder, x) = (p, y) := Option.some.inj (hit.symm.trans hi)
      exact hne (List.mem_singleton.mpr (congrArg Prod.snd heq).symm)
    obtain ⟨db₂, renamed, hdrop, hsince⟩ := h.dropUnreferenced
      ({ db with items := db.items.eraseIdx index }.bump q) [x] hu rfl hitems
      (fun _ hmem => List.mem_of_mem_eraseIdx hmem) hkeep
      fun y hy => .inr (List.mem_singleton.mp hy ▸ hx)
    rw [hdrop] at hdel
    obtain rfl := Option.some.inj hdel
    exact hsince

/-! ## 4. Every request -/

theorem Db.contains_iff : db.contains q x = true ↔ (q, x) ∈ db.items := by
  simp [Db.contains, Db.tripRows]

theorem Since.edit (h : Since db₀ p row₀ db) (hu : Untouched db₀ p row₀)
    (hx : x = row₀.id ∨ isPiece db.links row₀.id x) (hedit : EditOf db x db') :
    Since db₀ p row₀ db' := by
  obtain ⟨row, new, db₁, hmem, rfl, hwritten, hrows, hitems, rfl⟩ := hedit
  have hlinks : db₁.links = db.links := by rw [Db.links, hrows, Db.links]
  exact (h.congr hrows hitems).write hu (hrows ▸ hmem) (hlinks ▸ hx) hwritten

theorem Since.split (h : Since db₀ p row₀ db) (hu : Untouched db₀ p row₀)
    (hx : x = row₀.id ∨ isPiece db.links row₀.id x) (hheld : (q, x) ∈ db.items)
    (hsplit : SplitOf db q x db') : Since db₀ p row₀ db' := by
  obtain ⟨row, head, tail, db₁, hmem, rfl, hwritten, htail, hrows, hitems, hfree, hstore⟩ := hsplit
  have hlinks : db₁.links = db.links := by rw [Db.links, hrows, Db.links]
  exact (h.congr hrows hitems).storeSplit hu (hrows ▸ hmem) (hlinks ▸ hx) (hitems ▸ hheld) hwritten
    htail hfree hstore

theorem Since.step {m : TrackMath Point} {req : Request Point} (h : Since db₀ p row₀ db)
    (hu : Untouched db₀ p row₀) (hstep : Steps (Request.about m row₀.id) db req db') :
    Since db₀ p row₀ db' := by
  obtain ⟨hconcerns, hrun⟩ := Option.ite_none_right_eq_some.mp hstep
  cases req with
  | edit q x points expected =>
    obtain ⟨-, hrun⟩ := Option.ite_none_right_eq_some.mp hrun
    exact h.edit hu (of_decide_eq_true hconcerns) (editActivityTrack_some hrun)
  | editEncrypted q x piece expected =>
    obtain ⟨-, hrun⟩ := Option.ite_none_right_eq_some.mp hrun
    exact h.edit hu (of_decide_eq_true hconcerns) (editActivityTrackEncrypted_some hrun)
  | split q x splitIndex dropBoundary points expected tailId =>
    obtain ⟨hheld, hrun⟩ := Option.ite_none_right_eq_some.mp hrun
    exact h.split hu (of_decide_eq_true hconcerns) (Db.contains_iff.mp hheld) (splitActivity_some hrun)
  | splitEncrypted q x head tail tailName expected tailId =>
    obtain ⟨hheld, hrun⟩ := Option.ite_none_right_eq_some.mp hrun
    exact h.split hu (of_decide_eq_true hconcerns) (Db.contains_iff.mp hheld) (splitActivityEncrypted_some hrun)
  | deleteLocal q x => exact h.deleteLocal hu (of_decide_eq_true hconcerns) hrun
  | deleteItem q index =>
    simp only [Request.concerns, Option.any_eq_true] at hconcerns
    obtain ⟨it, hit, hpiece⟩ := hconcerns
    exact h.removeItem hu hit (of_decide_eq_true hpiece) hrun

/-! ## 5. Reset -/

theorem restored_sameTrack {m : TrackMath Point} (hu : Untouched db₀ p row₀) (hkeeps : KeepsTrack row₀ row) :
    SameTrack row₀ (restored m row) := by
  obtain ⟨htext, hfigure, hmax⟩ := hkeeps
  have hdistance : (row.originalFigure .distance).isSome = true := by
    rw [hfigure .distance nofun]
    exact hu.distance
  have hgain : ∃ gain, row.originalFigure .totalElevationGain = some gain := by
    rw [hfigure .totalElevationGain nofun]
    exact Option.isSome_iff_exists.mp hu.gain
  obtain ⟨htrack, hprofile, hstart, hend⟩ := forall_snapshotColumns.mp htext
  refine ⟨forall_snapshotColumns.mpr ⟨htrack, hprofile, ?_, ?_⟩, funext fun f => ?_⟩
  · show (if (row.originalFigure .distance).isSome then _ else _) = _
    rw [if_pos hdistance]
    exact hstart
  · show (if (row.originalFigure .distance).isSome then _ else _) = _
    rw [if_pos hdistance]
    exact hend
  · obtain ⟨gain, hgain⟩ := hgain
    cases f with
    | totalElevationGain =>
      rw [← hfigure .totalElevationGain nofun]
      simp [restored, hgain, hdistance]
    | maxSpeed => exact hmax
    | distance => exact (if_pos hdistance).trans (hfigure .distance nofun)
    | movingTime => exact (if_pos hdistance).trans (hfigure .movingTime nofun)
    | elapsedTime => exact (if_pos hdistance).trans (hfigure .elapsedTime nofun)
    | averageSpeed => exact (if_pos hdistance).trans (hfigure .averageSpeed nofun)
    | elevHigh => exact (if_pos hdistance).trans (hfigure .elevHigh nofun)
    | elevLow => exact (if_pos hdistance).trans (hfigure .elevLow nofun)

theorem Since.has_iff_not_piece (h : Since db₀ p row₀ db) (hu : Untouched db₀ p row₀)
    {r : ActivityRow} (hr : r ∈ db.rows) : db₀.has r.id = true ↔ ¬ isPiece db.links row₀.id r.id := by
  constructor
  · intro hhas hpiece
    obtain ⟨-, -, -, -, hnew, -⟩ := h.piece_row hu hpiece
    rw [hnew] at hhas
    cases hhas
  · intro hno
    rcases h.rows r hr with hid | hold | ⟨hroot, -, -⟩
    · exact Db.has_iff.mpr ⟨row₀, hu.stored, hid.symm⟩
    · exact Db.has_iff.mpr ⟨r, hold, rfl⟩
    · exact absurd ⟨r.link, Db.mem_links.mpr ⟨r, hr, rfl⟩, rfl, hroot⟩ hno

theorem Since.mem_descendants (h : Since db₀ p row₀ db) (hu : Untouched db₀ p row₀) :
    x ∈ db.splitDescendants p row₀.id ↔ isPiece db.links row₀.id x := by
  refine splitDescendants_spec h.family (fun y hy => List.any_eq_false.mpr fun it hit => ?_) x
  simp only [Bool.and_eq_true, bne_iff_ne, beq_iff_eq, not_and]
  intro hq heq
  have hholder : (it.1, y) ∈ db.items := heq ▸ hit
  exact hq (h.holder hu (.inr hy) hholder)

theorem Since.removeSplitDescendants (h : Since db₀ p row₀ db) (hu : Untouched db₀ p row₀)
    (hrow : row ∈ db.rows) (hid : row.id = row₀.id) :
    (db.removeSplitDescendants p row).items = db₀.items ∧
      KinRows row₀.id (db.rows.rows.filter fun r => db₀.has r.id)
        (db.removeSplitDescendants p row).rows.rows := by
  have hitems : db.items.filter (fun it =>
      !(it.1 == p && (db.splitDescendants p row.id).contains it.2)) = db₀.items := by
    rw [hid, ← h.items]
    refine List.filter_congr fun it hit => ?_
    cases hhas : db₀.has it.2 with
    | false =>
      obtain ⟨hp, hpiece⟩ := h.pieceItems it hit hhas
      have hmem := (h.mem_descendants hu).mpr hpiece
      simp [hp, hmem]
    | true =>
      have hmem : it.2 ∉ db.splitDescendants p row₀.id := by
        intro hmem
        obtain ⟨-, -, -, -, hnew, -⟩ := h.piece_row hu ((h.mem_descendants hu).mp hmem)
        rw [hnew] at hhas
        cases hhas
      simp [hmem]
  have hrows : db.rows.rows.filter (fun r => !(db.splitDescendants p row.id).contains r.id) =
      db.rows.rows.filter fun r => db₀.has r.id := by
    rw [hid]
    refine List.filter_congr fun r hr => ?_
    rw [Bool.eq_iff_iff, h.has_iff_not_piece hu hr, ← h.mem_descendants hu]
    simp
  unfold Db.removeSplitDescendants
  by_cases hnone : db.splitDescendants p row.id = []
  · rw [hnone] at hitems hrows
    have hall : db.items = db₀.items := by simpa using hitems
    have hsame : db.rows.rows = db.rows.rows.filter fun r => db₀.has r.id := by simpa using hrows
    rw [if_pos hnone]
    exact ⟨hall, hsame ▸ KinRows.refl row₀.id db.rows.rows⟩
  · rw [if_neg hnone, h.rootId hrow (.inl hid), Db.renumber_items]
    refine ⟨hitems, ?_⟩
    rw [← hrows]
    exact Db.renumber_kin { db with
        items := db.items.filter fun it => !(it.1 == p && (db.splitDescendants p row.id).contains it.2)
        rows := db.rows.delete fun r => (db.splitDescendants p row.id).contains r.id } p row₀.id

/-- **Everything undone**: the activity has its track and figures of before and is not edited; gone
    are exactly the rows that descend from it by splitting; every other row, of whatever family and
    trip, and every item is the one of before. -/
structure Undone (db₀ db db' : Db) (row₀ : ActivityRow) : Prop where
  track : ∃ row ∈ db'.rows, row.id = row₀.id ∧ row.isEdited = false ∧ SameTrack row₀ row
  descendants : ∀ r ∈ db.rows, (∃ r' ∈ db'.rows, r'.id = r.id) ↔
    ¬ Relation.TransGen (Lib.Link (parentIn db.links)) r.id row₀.id
  others : ∀ r, r.id ≠ row₀.id → (r ∈ db'.rows ↔ r ∈ db₀.rows)
  items : db'.items = db₀.items

theorem Since.descendants (h : Since db₀ p row₀ db) (hu : Untouched db₀ p row₀)
    (hids : ∀ x, (∃ r' ∈ db'.rows, r'.id = x) ↔ db₀.has x = true) :
    ∀ r ∈ db.rows, (∃ r' ∈ db'.rows, r'.id = r.id) ↔
      ¬ Relation.TransGen (Lib.Link (parentIn db.links)) r.id row₀.id := by
  intro r hr
  rw [hids, h.has_iff_not_piece hu hr, h.family.descends_iff]

theorem Since.undone_unedited (h : Since db₀ p row₀ db) (hu : Untouched db₀ p row₀) (hrow : row ∈ db.rows)
    (hid : row.id = row₀.id) (hedited : row.isEdited = false) : Undone db₀ db db row₀ := by
  obtain ⟨hsame, hnone⟩ := h.unedited row hrow hid hedited
  refine ⟨⟨row, hrow, hid, hedited, hsame⟩, ?_, fun r hne => ⟨fun hr => ?_,
    fun hr => h.kept r hr hne⟩, ?_⟩
  · refine h.descendants hu fun x => ⟨?_, h.has_row⟩
    rintro ⟨r, hr, rfl⟩
    exact (h.has_iff_not_piece hu hr).mpr (hnone r.id)
  · rcases h.rows r hr with heq | hold | ⟨hroot, -, -⟩
    · exact absurd heq hne
    · exact hold
    · exact absurd ⟨r.link, Db.mem_links.mpr ⟨r, hr, rfl⟩, rfl, hroot⟩ (hnone r.id)
  · refine Eq.trans (List.filter_eq_self.mpr fun it hit => ?_).symm h.items
    refine Bool.not_eq_false _ |>.mp fun hno => ?_
    exact hnone it.2 (h.pieceItems it hit hno).2

theorem Since.undone_restored {m : TrackMath Point} {db₂ : Db} (h : Since db₀ p row₀ db)
    (hu : Untouched db₀ p row₀) (hrow : row ∈ db.rows) (hid : row.id = row₀.id) (hkeeps : KeepsTrack row₀ row)
    (hitems : db₂.items = db₀.items)
    (hkin : KinRows row₀.id (db.rows.rows.filter fun r => db₀.has r.id) db₂.rows.rows) :
    Undone db₀ db { db₂ with
      rows := db₂.rows.update (·.hasId row₀.id) (restored m) (restored_id m) } row₀ := by
  have hupdate : ∀ r' : ActivityRow, r' ∈ db₂.rows.update (·.hasId row₀.id) (restored m)
      (restored_id m) ↔ ∃ s ∈ db₂.rows, r' = if s.hasId row₀.id then restored m s else s :=
    fun r' => Table.mem_update _
  have hsameId : ∀ s : ActivityRow, (if s.hasId row₀.id then restored m s else s).id = s.id := by
    intro s
    split <;> rfl
  refine ⟨?_, h.descendants hu fun x => ⟨?_, fun hx => ?_⟩, fun r hne => ⟨fun hr => ?_,
    fun hr => ?_⟩, hitems⟩
  · have hown : db₀.has row.id = true := Db.has_iff.mpr ⟨row₀, hu.stored, hid.symm⟩
    obtain ⟨s, hs, hskin⟩ := hkin.mem (List.mem_filter.mpr ⟨hrow, hown⟩)
    have hsid : s.id = row₀.id := hskin.id.trans hid
    refine ⟨restored m s, (hupdate _).mpr ⟨s, hs, ?_⟩, hsid, rfl, restored_sameTrack hu (hkeeps.kin hskin)⟩
    rw [if_pos (ActivityRow.hasId_iff.mpr hsid)]
  · rintro ⟨r', hr', rfl⟩
    obtain ⟨s, hs, rfl⟩ := (hupdate r').mp hr'
    obtain ⟨r, hr, hskin⟩ := hkin.mem_of hs
    rw [hsameId, hskin.id]
    exact (List.mem_filter.mp hr).2
  · obtain ⟨r, hr, rfl⟩ := h.has_row hx
    obtain ⟨s, hs, hskin⟩ := hkin.mem (List.mem_filter.mpr ⟨hr, hx⟩)
    exact ⟨_, (hupdate _).mpr ⟨s, hs, rfl⟩, (hsameId s).trans hskin.id⟩
  · obtain ⟨s, hs, rfl⟩ := (hupdate r).mp hr
    rw [hsameId] at hne
    obtain ⟨q, hq, hskin⟩ := hkin.mem_of hs
    obtain ⟨hq, hhas⟩ := List.mem_filter.mp hq
    have hqne : q.id ≠ row₀.id := fun heq => hne (hskin.id.trans heq)
    rw [if_neg (mt ActivityRow.hasId_iff.mp hne)]
    rcases h.rows q hq with heq | hold | ⟨-, hnew, -⟩
    · exact absurd heq hqne
    · have hsame : s = q := hskin.outside hqne (hu.outside hold)
      exact hsame ▸ hold
    · rw [hnew] at hhas
      cases hhas
  · have hmem : r ∈ db.rows.rows.filter fun r => db₀.has r.id :=
      List.mem_filter.mpr ⟨h.kept r hr hne, Db.has_iff.mpr ⟨r, hr, rfl⟩⟩
    obtain ⟨s, hs, hskin⟩ := hkin.mem hmem
    obtain rfl : s = r := hskin.outside hne (hu.outside hr)
    refine (hupdate s).mpr ⟨s, hs, ?_⟩
    rw [if_neg (mt ActivityRow.hasId_iff.mp hne)]

theorem resettable_of_keeps (hu : Untouched db₀ p row₀)
    (htrack : ∃ track, row₀.text .summaryPolyline = some track ∧ track ≠ "") (hedited : row.isEdited = true)
    (hkeeps : KeepsTrack row₀ row) : row.resettable = true := by
  obtain ⟨track, hpolyline, hne⟩ := htrack
  have hsnapshot : row.text .originalPolyline = some track :=
    (forall_snapshotColumns.mp hkeeps.1).1.trans hpolyline
  have hdistance : (row.originalFigure .distance).isNone = false := by
    rw [hkeeps.2.1 .distance nofun, Option.isNone_eq_false_iff]
    exact hu.distance
  simp [ActivityRow.resettable, hedited, hsnapshot, hne, hdistance]

/-- **Reset undoes everything**: of an activity that had a track before its first edit or split, and
    after any requests that edit and split it and edit, split and delete its pieces, whoever makes
    them. Either it is edited, and a reset with the current lock version or none is done; or there
    was nothing to undo. -/
theorem reset_undoes {m : TrackMath Point} {reqs : List (Request Point)} (hu : Untouched db₀ p row₀)
    (htrack : ∃ track, row₀.text .summaryPolyline = some track ∧ track ≠ "")
    (hrun : Run (Steps (Request.about m row₀.id)) db₀ reqs db) (expected : Option ℕ)
    (hexpected : ∀ v, expected = some v → db.lockVersion p = v) :
    ∃ db', (resetActivityTrack m db p row₀.id expected = .ok db' ∨
        resetActivityTrack m db p row₀.id expected = .error .notEdited ∧ db' = db) ∧
      Undone db₀ db db' row₀ := by
  have h : Since db₀ p row₀ db := hrun.invariant hu.since fun _ _ _ hsince hstep => hsince.step hu hstep
  obtain ⟨row, hfind, hrow, hid, -, -⟩ := h.own_row
  unfold resetActivityTrack
  rw [hfind]
  dsimp only
  cases hedited : row.isEdited with
  | false => exact ⟨db, .inr ⟨rfl, rfl⟩, h.undone_unedited hu hrow hid hedited⟩
  | true =>
    have hkeeps := h.edited row hrow hid hedited
    obtain ⟨db₁, hlock⟩ : ∃ db₁, db.lock p expected = some db₁ := by
      cases expected with
      | none => exact ⟨_, rfl⟩
      | some v => exact ⟨_, if_pos (hexpected v rfl)⟩
    obtain ⟨hrows, hitems⟩ := Db.lock_some hlock
    have hlocked := h.congr hrows hitems
    obtain ⟨hitems', hkin⟩ := hlocked.removeSplitDescendants hu (hrows ▸ hrow) hid
    rw [hrows] at hkin
    rw [resettable_of_keeps hu htrack hedited hkeeps, hlock]
    exact ⟨_, .inl rfl, h.undone_restored hu hrow hid hkeeps hitems' hkin⟩

end Since

def twoTrips (row : ActivityRow) (h : [row.id, 8].Nodup) : Db where
  items := [(1, row.id), (2, 8)]
  lockVersion := fun _ => 3
  rows := ⟨[row, stravaRow 8], h⟩

theorem twoTrips_untouched {row : ActivityRow} (h : [row.id, 8].Nodup)
    (hlink : row.link = ⟨row.id, none, none⟩) (hedited : row.isEdited = false)
    (hdistance : (row.figure .distance).isSome = true)
    (hgain : (row.figure .totalElevationGain).isSome = true) :
    Untouched (twoTrips row h) 1 row := by
  have hne : row.id ≠ 8 := by
    rintro heq
    simp [heq] at h
  have hplain : ∀ l ∈ (twoTrips row h).links, l.root = none ∧ l.parent = none := by
    intro l hl
    obtain ⟨r, hr, rfl⟩ := Db.mem_links.mp hl
    rcases List.mem_cons.mp hr with rfl | hr
    · rw [hlink]
      exact ⟨rfl, rfl⟩
    · rw [List.mem_singleton.mp hr]
      exact ⟨rfl, rfl⟩
  refine ⟨List.mem_cons_self, hlink, hedited, List.mem_cons_self, fun q hq => ?_, fun l hl => ?_,
    fun l hl x hx => ?_, fun it hit => Db.has_iff.mpr ?_, hdistance, hgain⟩
  · rcases List.mem_cons.mp hq with heq | hq
    · exact congrArg Prod.fst heq
    · exact absurd (congrArg Prod.snd (List.mem_singleton.mp hq)) hne
  · rw [(hplain l hl).1, (hplain l hl).2]
    exact ⟨nofun, nofun⟩
  · rw [(hplain l hl).1, (hplain l hl).2] at hx
    rcases hx with hx | hx
    · cases hx
    · cases hx
  · rcases List.mem_cons.mp hit with rfl | hit
    · exact ⟨row, List.mem_cons_self, rfl⟩
    · rw [List.mem_singleton.mp hit]
      exact ⟨stravaRow 8, List.mem_cons_of_mem _ List.mem_cons_self, rfl⟩

/-- The activity split, its tail split again and then removed: the last piece is the activity's. -/
def splitTwiceOver : List (Request Char) :=
  [.split 1 7 1 false (some ['a', 'b', 'c', 'd']) none (-2), .split 1 (-2) 1 false none (some 4) (-3),
   .edit 1 (-3) ['d', 'e'] none, .deleteItem 1 1]

/-- Reset takes the last piece back too. -/
theorem reset_undoes_adopted : ∃ db db',
    Run (Steps (Request.about letterMath 7)) (twoTrips (stravaRow 7) (by decide)) splitTwiceOver db ∧
    db.links = [⟨7, none, none⟩, ⟨8, none, none⟩, ⟨-3, some 7, some 7⟩] ∧
    (resetActivityTrack letterMath db 1 7 none = .ok db' ∨
      resetActivityTrack letterMath db 1 7 none = .error .notEdited ∧ db' = db) ∧
    Undone (twoTrips (stravaRow 7) (by decide)) db db' (stravaRow 7) := by
  have hexec : (exec (Request.about letterMath 7) (twoTrips (stravaRow 7) (by decide))
      splitTwiceOver).map Db.links =
        some [⟨7, none, none⟩, ⟨8, none, none⟩, ⟨-3, some 7, some 7⟩] := by decide +kernel
  obtain ⟨db, hdb, hlinks⟩ := Option.map_eq_some_iff.mp hexec
  have hrun := run_iff_exec.mpr hdb
  have hu : Untouched (twoTrips (stravaRow 7) (by decide)) 1 (stravaRow 7) :=
    twoTrips_untouched _ rfl rfl rfl rfl
  obtain ⟨db', hreset, hundone⟩ := reset_undoes hu ⟨"ab", rfl, by decide⟩ hrun none nofun
  exact ⟨db, db', hrun, hlinks, hreset, hundone⟩

/-- An activity without a track: one that was entered by hand. -/
def tracklessRow : ActivityRow := { stravaRow 7 with text := fun c => if c = .name then some "Gym" else none }

/-- **An activity that had no track is given one, and reset refuses to take it back.** -/
theorem reset_fails_trackless : Untouched (twoTrips tracklessRow (by decide)) 1 tracklessRow ∧
    ∃ db, Run (Steps (Request.about letterMath 7)) (twoTrips tracklessRow (by decide))
        [.edit 1 7 ['a', 'b'] none] db ∧
      resetActivityTrack letterMath db 1 7 none = .error .nothingToRestore ∧
      ¬ ∃ db', (resetActivityTrack letterMath db 1 7 none = .ok db' ∨
          resetActivityTrack letterMath db 1 7 none = .error .notEdited ∧ db' = db) ∧
        Undone (twoTrips tracklessRow (by decide)) db db' tracklessRow := by
  have hexec : (exec (Request.about letterMath 7) (twoTrips tracklessRow (by decide))
      [.edit 1 7 ['a', 'b'] none]).map (fun db =>
        match resetActivityTrack letterMath db 1 7 none with
        | .error refusal => some refusal
        | .ok _ => none) = some (some .nothingToRestore) := by decide +kernel
  obtain ⟨db, hdb, hrefused⟩ := Option.map_eq_some_iff.mp hexec
  have hreset : resetActivityTrack letterMath db 1 7 none = .error .nothingToRestore := by
    split at hrefused
    case h_1 refusal h => rw [h, Option.some.inj hrefused]
    case h_2 => cases hrefused
  refine ⟨twoTrips_untouched _ rfl rfl rfl rfl, db, run_iff_exec.mpr hdb, hreset, ?_⟩
  rintro ⟨db', hdone, -⟩
  rw [hreset] at hdone
  rcases hdone with hdone | ⟨hdone, -⟩
  · cases hdone
  · cases hdone

end TraxJourney.Activity
