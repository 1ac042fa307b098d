/-
  File:      Activity/EditedMark.lean
  Subject:   A track edited by hand and the jobs that write from Strava.

  * **`edited_track_kept`** -- no job changes a row marked as edited, if none is marked in between.
-/
import TraxJourney.Activity.System

namespace TraxJourney.Activity

open Lib

variable {Nonce Point : Type} {d : Device Nonce} {m : TrackMath Point}

/-! ## 1. Marking a row -/

/-- The transaction marks the row `id` as edited. -/
def Pending.marks (tailId : ℤ) : Pending Point → ℤ → Prop
  | .edit row _ _, id | .editEncrypted row _ _, id => id = row.id
  | .split row _ _ _, id | .splitEncrypted row _ _ _ _, id => id = row.id ∨ id = tailId
  | _, _ => False

theorem isEdited_of_flush {loaded new cur : ActivityRow}
    (he : (loaded.flush new cur).isEdited = true) (h : new.isEdited = loaded.isEdited) :
    cur.isEdited = true := by
  have hp : pick loaded.isEdited new.isEdited cur.isEdited = true := he
  rwa [h, pick_self] at hp

variable {s s' : Store} {p : Pending Point}

theorem commit_isEdited {tailId : ℤ} {r' : ActivityRow} (h : commit m s tailId p = some s')
    (hr' : r' ∈ s'.rows) (he : r'.isEdited = true) :
    (∃ r ∈ s.rows, r.id = r'.id ∧ r.isEdited = true) ∨ p.marks tailId r'.id := by
  cases commit_rows h hr' with
  | kept r hr hrr => exact .inl ⟨r, hr, by rw [hrr], by rw [← hrr]; exact he⟩
  | pieces r hr n _ hrr => exact .inl ⟨r, hr, by rw [hrr]; rfl, by rw [hrr] at he; exact he⟩
  | written r hr hid loaded new hs hrr =>
    have hid' : r'.id = p.row.id := by rw [hrr]; exact hid
    cases p with
    | edit row points expected => exact .inr hid'
    | editEncrypted row piece expected => exact .inr hid'
    | split row headPoints tailPoints expected => exact .inr (.inl hid')
    | splitEncrypted row headPiece tailPiece tailName expected => exact .inr (.inl hid')
    | reset row expected =>
      -- a reset only clears the mark
      obtain ⟨-, n, rfl⟩ := hs
      refine .inl ⟨r, hr, by rw [hrr]; rfl, ?_⟩
      rw [hrr] at he
      rcases pick_cases loaded.isEdited false r.isEdited with ⟨hp, -⟩ | ⟨hp, -⟩
      · exact hp.symm.trans he
      · exact absurd (hp.symm.trans he) Bool.false_ne_true
    | refresh row act named =>
      obtain ⟨rfl, rfl⟩ := hs
      exact .inl ⟨r, hr, by rw [hrr]; rfl, isEdited_of_flush (hrr ▸ he) rfl⟩
    | enrichment row polyline profile =>
      obtain ⟨rfl, rfl⟩ := hs
      exact .inl ⟨r, hr, by rw [hrr]; rfl, isEdited_of_flush (hrr ▸ he) rfl⟩
    | fields row data held cas =>
      obtain ⟨-, rfl⟩ := hs
      exact .inl ⟨r, hr, by rw [hrr]; rfl, isEdited_of_flush (hrr ▸ he) rfl⟩
  | family r hr loaded new tail hs hid htail hsplit _ _ hrr =>
    by_cases hrl : r.id = loaded.id
    · refine .inr ?_
      have hid' : r'.id = p.row.id := by
        rw [hrr, if_pos hrl]
        exact hrl.trans hid
      cases p with
      | split row headPoints tailPoints expected => exact .inl hid'
      | splitEncrypted row headPiece tailPiece tailName expected => exact .inl hid'
      | _ => cases hsplit
    · simp only [if_neg hrl] at hrr
      exact .inl ⟨r, hr, by rw [hrr]; rfl, by rw [hrr] at he; exact he⟩
  | tail hsplit _ hid =>
    refine .inr ?_
    cases p with
    | split row headPoints tailPoints expected => exact .inr hid
    | splitEncrypted row headPiece tailPiece tailName expected => exact .inr hid
    | _ => cases hsplit

/-! ## 2. Between a check and its write -/

/-- The row that a refresh or an enrichment pass has found not edited and will write. -/
def Local.checked : Local Point → Option ℤ
  | .refreshRequested id _ | .refreshFetching id _ | .refreshFetched id _ _ => some id
  | .refreshRow row _ => some row.id
  | .enrichFetching id _ _ _ | .enrichFetched id _ _ _ _ _ => some id
  | .enrichRow row _ _ _ _ _ | .enrichWriting row _ _ _ _ _ => some row.id
  | .pending p => if p.fromStrava then some p.row.id else none
  | _ => none

theorem Local.checked_of_pending {l : Local Point} (h : l.pending? = some p) (hp : p.fromStrava = true) :
    l.checked = some p.row.id := by
  cases l with
  | pending q =>
    obtain rfl := Option.some.inj h
    exact if_pos hp
  | enrichWriting row polyline profile user todo any =>
    obtain rfl := Option.some.inj h
    rfl
  | passWriting row data todo expected =>
    obtain rfl := Option.some.inj h
    cases hp
  | _ => cases h

theorem Local.after_checked (l : Local Point) (s : Store) (b : Bool) : (l.after s b).checked = none := by
  cases l with
  | passWriting row data todo expected =>
    simp only [Local.after]
    split
    · rfl
    · split <;> rfl
  | _ => rfl

/-- No row with this id is marked as edited. -/
def NotEdited (s : Store) (id : ℤ) : Prop := ∀ r ∈ s.rows, r.id = id → r.isEdited = false

variable {r : ActivityRow}

theorem NotEdited.of_row (hr : r ∈ s.rows) (he : r.isEdited = false) : NotEdited s r.id := by
  intro r' hr' hid
  rw [Table.eq_of_key hr' hr hid]
  exact he

theorem notEdited_of_isEdited {id : ℤ} (h : s.isEdited id = false) : NotEdited s id := by
  intro r hr hid
  cases hrow : s.row id with
  | none =>
    have := Table.first_none hrow hr
    simp [ActivityRow.hasId, hid] at this
  | some r' =>
    obtain ⟨hr', hid'⟩ := Store.row_some hrow
    obtain rfl : r = r' := Table.eq_of_key hr hr' (hid.trans hid'.symm)
    simpa [Store.isEdited, hrow] using h

theorem reads_checked {l l' : Local Point} {id : ℤ} (h : Reads d s l l') (hc : l'.checked = some id) :
    l.checked = some id ∨ NotEdited s id := by
  cases h with
  | request p hr hp => simp only [Local.checked, hp, Bool.false_eq_true, if_false] at hc; cases hc
  | requestRefresh row user hr he =>
    obtain rfl := Option.some.inj hc
    exact .inr (NotEdited.of_row hr he)
  | enrichChecked id' user todo any he =>
    obtain rfl := Option.some.inj hc
    exact .inr (notEdited_of_isEdited he)
  | startJob | fetched | refreshRow | refreshUnnamed | refreshHeld | enrichFetched | enrichRow
  | enrichHeld => exact .inl hc
  | _ => cases hc

/-! ## 3. Every run -/

section Runs

variable {ι : Type}

/-- A commit that marks a row as edited finds no job between its check and its write of it. -/
def EditsApart (m : TrackMath Point) (w : Clients ι (Local Point) Store) : ι × Act Nonce Point → Prop
  | (i, .commit tailId) => ∀ p s', (w.locals i).pending? = some p → commit m w.store tailId p = some s' →
      ∀ id, p.marks tailId id → ∀ j, (w.locals j).checked ≠ some id
  | _ => True

/-- What a job has found not edited is still not edited. -/
def CheckHolds (l : Local Point) (s : Store) : Prop := ∀ id, l.checked = some id → NotEdited s id

theorem checkHolds_idle (s : Store) : CheckHolds (Local.idle : Local Point) s := fun _ hc => nomatch hc

theorem NotEdited.of_rows {id : ℤ} (h : NotEdited s id) (hrows : s'.rows = s.rows) :
    NotEdited s' id := by
  intro r hr
  rw [hrows] at hr
  exact h r hr

theorem checkHolds_kept : Kept (ι := ι) (step d m) (EditsApart m) (fun _ => True) CheckHolds where
  own := by
    intro w i a l' s' _ hI _ h
    refine ⟨trivial, fun id hc => ?_⟩
    rcases step_cases h with ⟨hr, rfl⟩ | ⟨t, p, -, -, -, rfl, -⟩ | ⟨t, p, -, -, -, rfl⟩ | ⟨-, rfl, -⟩
    · exact (reads_checked hr hc).elim (hI i id) fun hn => hn
    · rw [Local.after_checked] at hc
      cases hc
    · rw [Local.after_checked] at hc
      cases hc
    · cases hc
  other := by
    intro w i a l' s' j _ _ hI hC h id hc
    have hn : NotEdited w.store id := hI j id hc
    rcases step_cases h with ⟨-, rfl⟩ | ⟨t, p, -, -, -, -, rfl⟩ | ⟨t, p, rfl, hp, hcommit, -⟩ |
      ⟨-, -, hrows, -⟩
    · exact hn
    · exact hn
    · intro r' hr' hid
      refine Bool.eq_false_iff.mpr fun he => ?_
      rcases commit_isEdited hcommit hr' he with ⟨r, hr, hrid, hre⟩ | hmarks
      · have hnot : r.isEdited = false := hn r hr (hrid.trans hid)
        rw [hnot] at hre
        cases hre
      · exact hC p s' hp hcommit r'.id hmarks j (hid ▸ hc)
    · exact hn.of_rows hrows

/-- Every row marked as edited keeps its track and its figures. -/
def TrackKept (s s' : Store) : Prop := ∀ r ∈ s.rows, r.isEdited = true → ∃ r' ∈ s'.rows,
  r'.id = r.id ∧ (∀ c ∈ trackColumns, r'.text c = r.text c) ∧ r'.figure = r.figure

theorem TrackKept.row (h : TrackKept s s') (id : ℤ) (hr : s.row id = some r) (he : r.isEdited = true) :
    ∃ r', s'.row id = some r' ∧ ∀ c ∈ trackColumns, r'.text c = r.text c := by
  obtain ⟨hmem, rfl⟩ := Store.row_some hr
  obtain ⟨r', hr', hid, htext, -⟩ := h r hmem he
  exact ⟨r', hid ▸ Store.row_of_mem hr', htext⟩

theorem commit_fromStrava {tailId : ℤ} (h : commit m s tailId p = some s') (hp : p.fromStrava = true)
    (hr : r ∈ s.rows) (hne : r.id ≠ p.row.id) : r ∈ s'.rows := by
  cases p with
  | refresh row act named =>
    obtain ⟨rows, hf, rfl⟩ := commitRefresh_some h
    exact mem_flushInto_of_ne hf hr hne
  | enrichment row polyline profile =>
    obtain ⟨rows, hf, rfl⟩ := commitEnrichment_some h
    exact mem_flushInto_of_ne hf hr hne
  | _ => cases hp

/-- **A track edited by hand is not overwritten from Strava**: if no edit or split of a row commits while a
    refresh job or an enrichment pass is between its check and its write of that row, no write of such a job
    changes the track of a row marked as edited. -/
theorem edited_track_kept [DecidableEq ι] {s₀ : Store} {tr : List (ι × Act Nonce Point)}
    {w w' : Clients ι (Local Point) Store} {p : Pending Point}
    (h : Run (Meeting (Steps (Clients.step (step d m))) (EditsApart m)) (idleClients s₀) tr w)
    (i : ι) (tailId : ℤ)
    (hp : (w.locals i).pending? = some p) (hstrava : p.fromStrava = true)
    (hstep : Clients.step (step d m) w (i, .commit tailId) = some w') :
    TrackKept w.store w'.store := by
  have hchecked : NotEdited w.store p.row.id :=
    (checkHolds_kept.run trivial (fun _ => checkHolds_idle s₀) h).2 i p.row.id
      (Local.checked_of_pending hp hstrava)
  obtain ⟨l', s', hs, rfl⟩ := Clients.step_cases hstep
  intro r hr he
  have hne : r.id ≠ p.row.id := by
    intro hid
    rw [hchecked r hr hid] at he
    cases he
  refine ⟨r, ?_, rfl, fun _ _ => rfl, rfl⟩
  rcases step_cases hs with ⟨-, rfl⟩ | ⟨t, q, -, -, -, -, rfl⟩ | ⟨t, q, -, hq, hcommit, -⟩ | ⟨-, -, hrows, -⟩
  · exact hr
  · exact hr
  · obtain rfl := Option.some.inj (hp.symm.trans hq)
    exact commit_fromStrava hcommit hstrava hr hne
  · exact hrows ▸ hr

/-- Client `true` edits the track of row 7 while client `false` refreshes row 8. -/
def editedOther : List (Bool × Act ℕ Char) :=
  [(true, .editTrack 7 ['x', 'y'] none), (false, .requestRefresh 8 true), (false, .startJob true),
   (true, .commit 0), (false, .fetched stravaAnswer), (false, .readRow true), (false, .checkHeld)]

theorem edited_track_kept_other : ∃ w w' : Clients Bool (Local Char) Store,
    exec (Clients.step (step letterDevice letterMath)) (idleClients stravaTrip) editedOther = some w ∧
    Clients.step (step letterDevice letterMath) w (false, .commit 0) = some w' ∧
    w.store.isEdited 7 = true ∧ TrackKept w.store w'.store := by
  have hmeet : AllMeet (Clients.step (step letterDevice letterMath)) (EditsApart letterMath)
      (idleClients stravaTrip) editedOther := by
    refine .cons rfl trivial (.cons rfl trivial (.cons rfl trivial (.cons rfl ?_
      (.cons rfl trivial (.cons rfl trivial (.cons rfl trivial trivial))))))
    intro p s' hp _ id hm j
    obtain rfl := Option.some.inj hp
    obtain rfl : id = 7 := hm
    cases j <;> decide
  have hrun : Run _ (idleClients stravaTrip) editedOther _ := run_of_allMeet rfl hmeet
  refine ⟨_, _, rfl, rfl, rfl, ?_⟩
  exact edited_track_kept hrun false 0 rfl rfl rfl

/-- Client `true` edits the track of row 7 while Strava answers the refresh of row 7. -/
def editedMeanwhile : List (Bool × Act ℕ Char) :=
  [(false, .requestRefresh 7 true), (false, .startJob true),
   (true, .editTrack 7 ['x', 'y'] none), (true, .commit 0),
   (false, .fetched stravaAnswer), (false, .readRow true), (false, .checkHeld)]

/-- The edit is then lost to what Strava answered. -/
theorem edited_track_overwritten : ∃ (w w' : Clients Bool (Local Char) Store) (p : Pending Char),
    Run (Steps (Clients.step (step letterDevice letterMath))) (idleClients stravaTrip) editedMeanwhile w ∧
    (w.locals false).pending? = some p ∧ p.fromStrava = true ∧
    Clients.step (step letterDevice letterMath) w (false, .commit 0) = some w' ∧
    ¬ TrackKept w.store w'.store := by
  have hrun : Run (Steps (Clients.step (step letterDevice letterMath))) (idleClients stravaTrip)
    editedMeanwhile _ := run_iff_exec.mpr rfl
  refine ⟨_, _, _, hrun, rfl, rfl, rfl, fun hkept => ?_⟩
  obtain ⟨r', hrow, htext⟩ := hkept.row 7 rfl rfl
  have hedited : r'.text .summaryPolyline = some "xy" := htext .summaryPolyline (by decide)
  have hanswer : r'.text .summaryPolyline = some "ab" := by
    cases hrow
    rfl
  exact absurd (hedited.symm.trans hanswer) (by decide)

end Runs

end TraxJourney.Activity
