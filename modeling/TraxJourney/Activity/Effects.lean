/-
  File:      Activity/Effects.lean
  Subject:   What a commit of Writers.lean does to the rows, said once.

  * **`commit_rows`** -- each row after a commit: as it was; written by the session's flush; renamed
    with its split family, by a split or by a reset; or the tail of a split.
-/
import TraxJourney.Activity.Writers

namespace TraxJourney.Activity

open Lib

variable {Point : Type}

/-! ## 1. The lock and the row -/

variable {s s' : Store} {expected : Option ℕ}

theorem Store.lock_some (h : s.lock expected = some s') :
    s' = { s with lockVersion := s.lockVersion + 1 } ∧ ∀ v, expected = some v → s.lockVersion = v := by
  cases expected with
  | none => exact ⟨(Option.some.inj h).symm, fun v hv => (nomatch hv)⟩
  | some v =>
    simp only [Store.lock] at h
    split at h
    · rename_i hv
      cases h
      exact ⟨by rw [hv], fun v' hv' => hv.trans (Option.some.inj hv')⟩
    · cases h

theorem Store.row_some {id : ℤ} {r : ActivityRow} (h : s.row id = some r) :
    r ∈ s.rows ∧ r.id = id := by
  obtain ⟨hr, hid⟩ := Table.first_some h
  exact ⟨hr, ActivityRow.hasId_iff.mp hid⟩

theorem Store.row_of_mem {r : ActivityRow} (h : r ∈ s.rows) : s.row r.id = some r := by
  obtain ⟨r', hrow⟩ := Table.first_isSome (p := (·.hasId r.id)) h (ActivityRow.hasId_iff.mpr rfl)
  obtain ⟨hr', hid⟩ := Store.row_some hrow
  obtain rfl := Table.eq_of_key h hr' hid.symm
  exact hrow

variable {row : ActivityRow}

theorem Store.refreshed_some {row' : ActivityRow} {cols : List TextColumn}
    (h : s.refreshed row cols = some row') : ∃ cur ∈ s.rows, cur.id = row.id ∧
      row' = { row with text := fun c => if c ∈ cols then cur.text c else row.text c } := by
  obtain ⟨cur, hcur, he⟩ := Option.map_eq_some_iff.mp h
  obtain ⟨hr, hid⟩ := Store.row_some hcur
  exact ⟨cur, hr, hid, he.symm⟩

/-! ## 2. Sessions and effects -/

/-- The session of a transaction on its own row: the row as loaded, and as it made it. -/
def Pending.Session (m : TrackMath Point) (s : Store) : Pending Point → ActivityRow → ActivityRow → Prop
  | .edit row points _, loaded, new =>
    s.refreshed row [.summaryPolyline, .elevationProfileJson] = some loaded ∧
      loaded.encryptedGeometry = false ∧ new = writeTrackGeometry m loaded points
  | .editEncrypted row piece _, loaded, new =>
    s.refreshed row [.summaryPolyline] = some loaded ∧
      isEncryptedEnvelope (loaded.text .summaryPolyline) = true ∧
      new = applyEncryptedPiece (snapshotFirstEdit loaded) piece
  | .split row headPoints _ _, loaded, new =>
    s.refreshed row [.summaryPolyline, .elevationProfileJson] = some loaded ∧
      loaded.encryptedGeometry = false ∧ new = writeTrackGeometry m loaded headPoints
  | .splitEncrypted row headPiece _ _ _, loaded, new =>
    s.refreshed row [.summaryPolyline] = some loaded ∧
      isEncryptedEnvelope (loaded.text .summaryPolyline) = true ∧
      new = applyEncryptedPiece (snapshotFirstEdit loaded) headPiece
  | .reset row _, loaded, new => loaded = row ∧ ∃ n, new = restored m (row.renamed n)
  | .refresh row act _, loaded, new => loaded = row ∧ new = forced m row act
  | .enrichment row polyline profile, loaded, new => loaded = row ∧ new = enriched m row polyline profile
  | .fields row data held _, loaded, new =>
    (loaded = row ∨ s.row row.id = some loaded) ∧
      new = withFields (if held then some s.ownerId else none) loaded data

/-- A row after a commit, by what became of it. -/
inductive RowEffect (m : TrackMath Point) (s s' : Store) (tailId : ℤ) (p : Pending Point)
    (r' : ActivityRow) : Prop where
  | kept (r : ActivityRow) (hr : r ∈ s.rows) (h : r' = r)
  | written (r : ActivityRow) (hr : r ∈ s.rows) (hid : r.id = p.row.id) (loaded new : ActivityRow)
      (hs : p.Session m s loaded new) (h : r' = loaded.flush new r)
  | family (r : ActivityRow) (hr : r ∈ s.rows) (loaded new tail : ActivityRow)
      (hs : p.Session m s loaded new) (hid : loaded.id = p.row.id) (htail : tail.id = tailId)
      (hsplit : p.isSplit = true) (hnew : tailId ∉ s.rows.rows.map ActivityRow.id)
      (hitems : s'.items = insertSplitTail s.items loaded.id tailId)
      (h : let n := renumberSplitFamily (splitView s.rows loaded new tail) s'.items loaded.rootId r.id
        r' = if r.id = loaded.id then loaded.flush (new.renamed n) r else r.renamed n)
  | pieces (r : ActivityRow) (hr : r ∈ s.rows) (n : Renaming) (hreset : p.isReset = true)
      (h : r' = r.renamed n)
  | tail (hsplit : p.isSplit = true) (hnew : tailId ∉ s.rows.rows.map ActivityRow.id) (hid : r'.id = tailId)

variable {m : TrackMath Point} {tailId : ℤ} {p : Pending Point} {loaded : ActivityRow}

theorem rowEffect_flushInto {new r' : ActivityRow} {rows : ActivityTable} (hs : p.Session m s loaded new)
    (hid : loaded.id = p.row.id) (h : flushInto s.rows loaded new = some rows) (hr' : r' ∈ rows) :
    RowEffect m s s' tailId p r' := by
  obtain ⟨r, hr, ⟨-, rfl⟩ | ⟨hrid, rfl⟩⟩ := mem_flushInto h hr'
  · exact .kept _ hr rfl
  · exact .written r hr (hrid.trans hid) loaded new hs rfl

theorem storeSplit_some {head tail : ActivityRow} (h : storeSplit s loaded head tail = some s') :
    let items := insertSplitTail s.items loaded.id tail.id
    let view := splitView s.rows loaded head tail
    s' = { s with items := items, rows := s'.rows } ∧
      (renumbered s.rows view items loaded.rootId loaded head).insert
        (tail.renamed (renumberSplitFamily view items loaded.rootId tail.id)) = some s'.rows := by
  intro items view
  obtain ⟨rows, hins, he⟩ := Option.bind_eq_some_iff.mp h
  cases he
  exact ⟨rfl, hins⟩

theorem renumbered_insert_fresh {rows rows' : ActivityTable} {view : List ActivityRow} {items : List ℤ}
    {rootId : ℤ} {new tail : ActivityRow}
    (h : (renumbered rows view items rootId loaded new).insert tail = some rows') :
    tail.id ∉ rows.rows.map ActivityRow.id := by
  intro hmem
  obtain ⟨r, hr, hrid⟩ := List.mem_map.mp hmem
  unfold Table.insert at h
  split at h
  · cases h
  · rename_i hnot
    refine hnot (List.mem_map.mpr ⟨_, (Table.mem_update _).mpr ⟨r, hr, rfl⟩, ?_⟩)
    show ActivityRow.id _ = tail.id
    rw [← hrid]
    simp only [if_true]
    split <;> rfl

theorem rowEffect_storeSplit {head tail r' : ActivityRow} (hs : p.Session m s loaded head)
    (hid : loaded.id = p.row.id) (hsplit : p.isSplit = true) (htail : tail.id = tailId) {v : ℕ}
    (h : storeSplit { s with lockVersion := v } loaded head tail = some s') (hr' : r' ∈ s'.rows) :
    RowEffect m s s' tailId p r' := by
  obtain ⟨he, hins⟩ := storeSplit_some h
  have hnot := renumbered_insert_fresh hins
  have hfresh : tailId ∉ s.rows.rows.map ActivityRow.id := htail ▸ hnot
  have hitems : s'.items = insertSplitTail s.items loaded.id tail.id := by rw [he]
  rcases (Table.mem_insert hins).mp hr' with hr' | rfl
  · obtain ⟨r, hr, rfl⟩ := (Table.mem_update _).mp hr'
    refine .family r hr loaded head tail hs hid htail hsplit hfresh (htail ▸ hitems) ?_
    simp only [hitems, if_true]
  · exact .tail hsplit hfresh htail

/-! ## 3. Each transaction -/

theorem commitEdit_some {points : List Point} (h : commitEdit m s row points expected = some s') :
    (∀ v, expected = some v → s.lockVersion = v) ∧ ∃ loaded rows,
      s.refreshed row [.summaryPolyline, .elevationProfileJson] = some loaded ∧
      loaded.encryptedGeometry = false ∧
      flushInto s.rows loaded (writeTrackGeometry m loaded points) = some rows ∧
      s' = { s with lockVersion := s.lockVersion + 1, rows := rows } := by
  obtain ⟨s₁, hl, h⟩ := Option.bind_eq_some_iff.mp h
  obtain ⟨loaded, hr, h⟩ := Option.bind_eq_some_iff.mp h
  obtain ⟨rfl, hv⟩ := Store.lock_some hl
  split at h
  · cases h
  · rename_i henc
    obtain ⟨rows, hf, he⟩ := Option.bind_eq_some_iff.mp h
    exact ⟨hv, loaded, rows, hr, Bool.eq_false_iff.mpr henc, hf, (Option.some.inj he).symm⟩

theorem commitEditEncrypted_some {piece : EncryptedPiece} {expected : ℕ}
    (h : commitEditEncrypted s row piece expected = some s') :
    s.lockVersion = expected ∧ ∃ loaded rows, s.refreshed row [.summaryPolyline] = some loaded ∧
      isEncryptedEnvelope (loaded.text .summaryPolyline) = true ∧
      flushInto s.rows loaded (applyEncryptedPiece (snapshotFirstEdit loaded) piece) = some rows ∧
      s' = { s with lockVersion := s.lockVersion + 1, rows := rows } := by
  obtain ⟨s₁, hl, h⟩ := Option.bind_eq_some_iff.mp h
  obtain ⟨loaded, hr, h⟩ := Option.bind_eq_some_iff.mp h
  obtain ⟨rfl, hv⟩ := Store.lock_some hl
  split at h
  · rename_i henc
    obtain ⟨rows, hf, he⟩ := Option.bind_eq_some_iff.mp h
    exact ⟨hv _ rfl, loaded, rows, hr, henc, hf, (Option.some.inj he).symm⟩
  · cases h

theorem commitSplit_some {headPoints tailPoints : List Point}
    (h : commitSplit m s tailId row headPoints tailPoints expected = some s') :
    (∀ v, expected = some v → s.lockVersion = v) ∧ ∃ loaded,
      s.refreshed row [.summaryPolyline, .elevationProfileJson] = some loaded ∧
      loaded.encryptedGeometry = false ∧
      let head := writeTrackGeometry m loaded headPoints
      storeSplit { s with lockVersion := s.lockVersion + 1 } loaded head
        (splitTail m loaded head tailPoints tailId) = some s' := by
  obtain ⟨s₁, hl, h⟩ := Option.bind_eq_some_iff.mp h
  obtain ⟨loaded, hr, h⟩ := Option.bind_eq_some_iff.mp h
  obtain ⟨rfl, hv⟩ := Store.lock_some hl
  split at h
  · cases h
  · rename_i henc
    exact ⟨hv, loaded, hr, Bool.eq_false_iff.mpr henc, h⟩

theorem commitSplitEncrypted_some {headPiece tailPiece : EncryptedPiece} {tailName : String} {expected : ℕ}
    (h : commitSplitEncrypted m s tailId row headPiece tailPiece tailName expected = some s') :
    s.lockVersion = expected ∧ ∃ loaded tail, s.refreshed row [.summaryPolyline] = some loaded ∧
      isEncryptedEnvelope (loaded.text .summaryPolyline) = true ∧ tail.id = tailId ∧
      storeSplit { s with lockVersion := s.lockVersion + 1 } loaded
        (applyEncryptedPiece (snapshotFirstEdit loaded) headPiece) tail = some s' := by
  obtain ⟨s₁, hl, h⟩ := Option.bind_eq_some_iff.mp h
  obtain ⟨loaded, hr, h⟩ := Option.bind_eq_some_iff.mp h
  obtain ⟨rfl, hv⟩ := Store.lock_some hl
  split at h
  · rename_i henc
    exact ⟨hv _ rfl, loaded, _, hr, henc, rfl, h⟩
  · cases h

theorem commitReset_some (h : commitReset m s row expected = some s') :
    (∀ v, expected = some v → s.lockVersion = v) ∧
    ∃ (pieces items : List ℤ) (naming : ℤ → Renaming) (rows : ActivityTable),
      flushInto (withoutPieces s.rows row pieces naming) row
        (restored m (row.renamed (naming row.id))) = some rows ∧
      s' = { s with lockVersion := s.lockVersion + 1, items := items, rows := rows } := by
  obtain ⟨s₁, hl, h⟩ := Option.bind_eq_some_iff.mp h
  obtain ⟨rfl, hv⟩ := Store.lock_some hl
  obtain ⟨rows, hf, he⟩ := Option.bind_eq_some_iff.mp h
  exact ⟨hv, _, _, _, rows, hf, (Option.some.inj he).symm⟩

theorem Store.lockIf_some {takes : Bool} (h : s.lockIf takes expected = some s') :
    s' = { s with lockVersion := if takes then s.lockVersion + 1 else s.lockVersion } ∧
      (takes = true → ∀ v, expected = some v → s.lockVersion = v) := by
  cases takes with
  | true =>
    obtain ⟨he, hv⟩ := Store.lock_some h
    exact ⟨he, fun _ => hv⟩
  | false => exact ⟨(Option.some.inj h).symm, fun ht => (nomatch ht)⟩

theorem commitRefresh_some {act : FetchedActivity} {named : Bool}
    (h : commitRefresh m s row act named = some s') :
    ∃ rows, flushInto s.rows row (forced m row act) = some rows ∧
      s' = { s with lockVersion := if named then s.lockVersion + 1 else s.lockVersion
                    rows := rows } := by
  obtain ⟨s₁, hl, h⟩ := Option.bind_eq_some_iff.mp h
  obtain ⟨rfl, -⟩ := Store.lockIf_some hl
  obtain ⟨rows, hf, he⟩ := Option.bind_eq_some_iff.mp h
  exact ⟨rows, hf, (Option.some.inj he).symm⟩

theorem commitEnrichment_some {polyline profile : Option String}
    (h : commitEnrichment m s row polyline profile = some s') :
    ∃ rows, flushInto s.rows row (enriched m row polyline profile) = some rows ∧
      s' = { s with rows := rows } := by
  obtain ⟨rows, hf, he⟩ := Option.bind_eq_some_iff.mp h
  exact ⟨rows, hf, (Option.some.inj he).symm⟩

theorem Store.currentOwner_some {held : Bool} (h : s.currentOwner row held = some loaded) :
    loaded = row ∨ s.row row.id = some loaded := by
  unfold Store.currentOwner at h
  split at h
  · exact .inr h
  · exact .inl (Option.some.inj h).symm

theorem commitFields_some {data : FieldsUpdate} {held : Bool} {cas : Option ℕ}
    (h : commitFields s row data held cas = some s') :
    (held = true → ∀ v, cas = some v → s.lockVersion = v) ∧ ∃ loaded rows,
      (loaded = row ∨ s.row row.id = some loaded) ∧
      flushInto s.rows loaded (withFields (if held then some s.ownerId else none) loaded data) = some rows ∧
      s' = { s with lockVersion := if held then s.lockVersion + 1 else s.lockVersion
                    rows := rows } := by
  obtain ⟨s₁, hl, h⟩ := Option.bind_eq_some_iff.mp h
  obtain ⟨loaded, hr, h⟩ := Option.bind_eq_some_iff.mp h
  obtain ⟨rfl, hv⟩ := Store.lockIf_some hl
  have hl' : loaded = row ∨ s.row row.id = some loaded := Store.currentOwner_some hr
  split at h
  · cases h
  · obtain ⟨rows, hf, he⟩ := Option.bind_eq_some_iff.mp h
    exact ⟨hv, loaded, rows, hl', hf, (Option.some.inj he).symm⟩

theorem commit_rows {r' : ActivityRow} (h : commit m s tailId p = some s') (hr' : r' ∈ s'.rows) :
    RowEffect m s s' tailId p r' := by
  cases p with
  | edit row points expected =>
    obtain ⟨-, loaded, rows, hl, henc, hf, rfl⟩ := commitEdit_some h
    obtain ⟨cur, -, -, rfl⟩ := Store.refreshed_some hl
    exact rowEffect_flushInto ⟨hl, henc, rfl⟩ rfl hf hr'
  | editEncrypted row piece expected =>
    obtain ⟨-, loaded, rows, hl, henc, hf, rfl⟩ := commitEditEncrypted_some h
    obtain ⟨cur, -, -, rfl⟩ := Store.refreshed_some hl
    exact rowEffect_flushInto ⟨hl, henc, rfl⟩ rfl hf hr'
  | split row headPoints tailPoints expected =>
    obtain ⟨-, loaded, hl, henc, hsplit⟩ := commitSplit_some h
    obtain ⟨cur, -, -, rfl⟩ := Store.refreshed_some hl
    exact rowEffect_storeSplit ⟨hl, henc, rfl⟩ rfl rfl (splitTail_id ..) hsplit hr'
  | splitEncrypted row headPiece tailPiece tailName expected =>
    obtain ⟨-, loaded, tail, hl, henc, htail, hsplit⟩ := commitSplitEncrypted_some h
    obtain ⟨cur, -, -, rfl⟩ := Store.refreshed_some hl
    exact rowEffect_storeSplit ⟨hl, henc, rfl⟩ rfl rfl htail hsplit hr'
  | reset row expected =>
    obtain ⟨-, pieces, items, naming, rows, hf, rfl⟩ := commitReset_some h
    obtain ⟨q, hq, hcase⟩ := mem_flushInto hf hr'
    obtain ⟨r, hr, rfl⟩ := (Table.mem_update _).mp hq
    have hrs : r ∈ s.rows := (Table.mem_delete.mp hr).1
    by_cases hid : r.id = row.id
    · have hb : (!r.hasId row.id) = false := by simp [hid]
      simp only [hb, Bool.false_eq_true, if_false, hid] at hcase
      rcases hcase with ⟨hne, -⟩ | ⟨-, rfl⟩
      · exact absurd rfl hne
      · exact .written r hrs hid row _ ⟨rfl, _, rfl⟩ rfl
    · have hb : (!r.hasId row.id) = true := by simp [ActivityRow.hasId, hid]
      simp only [hb, if_true] at hcase
      rcases hcase with ⟨-, rfl⟩ | ⟨he, -⟩
      · exact .pieces r hrs _ rfl rfl
      · exact absurd he hid
  | refresh row act named =>
    obtain ⟨rows, hf, rfl⟩ := commitRefresh_some h
    exact rowEffect_flushInto ⟨rfl, rfl⟩ rfl hf hr'
  | enrichment row polyline profile =>
    obtain ⟨rows, hf, rfl⟩ := commitEnrichment_some h
    exact rowEffect_flushInto ⟨rfl, rfl⟩ rfl hf hr'
  | fields row data held cas =>
    obtain ⟨-, loaded, rows, hl, hf, rfl⟩ := commitFields_some h
    have hid : loaded.id = row.id := by
      rcases hl with rfl | hl
      · rfl
      · exact (Store.row_some hl).2
    exact rowEffect_flushInto ⟨hl, rfl⟩ hid hf hr'

end TraxJourney.Activity
