/-
  File:      Activity/Ciphertext.lean
  Subject:   The server's own writers of a row, and the envelopes that the clients of its owner put
             into it.

  * **`ciphertext_kept`** -- no envelope is replaced in a run whose steps meet `EncryptsApart`.
-/
import TraxJourney.Activity.System

namespace TraxJourney.Activity

open Lib

variable {Nonce Point : Type} {d : Device Nonce} {m : TrackMath Point}

/-! ## 1. The server's writers -/

/-- The transaction writes what the server computed or fetched. -/
def Pending.isServer : Pending Point → Bool
  | .edit _ _ _ | .split _ _ _ _ | .refresh _ _ _ | .enrichment _ _ _ => true
  | _ => false

def contentColumns : List TextColumn := .name :: trackColumns

/-- The columns that the transaction spares if its own copy, read before the lock, is an envelope. Track
    edits and splits read the polyline and the profile again. -/
def Pending.relies : Pending Point → TextColumn → Prop
  | .split row _ _ _, c => c = .name ∧ row.rootId = row.id
  | .refresh _ _ _, c => c ∈ [.name, .summaryPolyline, .startLatlngJson, .endLatlngJson,
      .elevationProfileJson]
  | .enrichment _ polyline profile, c =>
    (c = .summaryPolyline ∧ polyline.isSome) ∨ (c = .elevationProfileJson ∧ profile.isSome)
  | _, _ => False

/-- The end points and the low-res profile are envelopes only beside an enveloped track. -/
def GeometryTogether (r : ActivityRow) : Prop :=
  ∀ c ∈ [TextColumn.startLatlngJson, .endLatlngJson, .elevationProfileLowResJson],
    isEncryptedEnvelope (r.text c) = true → r.encryptedGeometry = true

/-- The low-res profile is an envelope only beside an enveloped full one. -/
def ProfileTogether (r : ActivityRow) : Prop :=
  isEncryptedEnvelope (r.text .elevationProfileLowResJson) = true →
    isEncryptedEnvelope (r.text .elevationProfileJson) = true

/-- A piece of the row's split family has an enveloped name only beside a root that has one. -/
def FamilyTogether (s : Store) (row : ActivityRow) : Prop :=
  ∀ r ∈ s.rows, r.id ∈ s.items → (r.id = row.id ∨ r.id = row.rootId ∨ r.splitRootId = some row.rootId) →
    isEncryptedEnvelope (r.text .name) = true →
    ∃ root ∈ s.rows, root.id = row.rootId ∧ isEncryptedEnvelope (root.text .name) = true

/-- What the write of a server's transaction takes for granted. -/
def Together (s : Store) : Pending Point → Prop
  | .edit row _ _ => ∀ r ∈ s.rows, r.id = row.id → GeometryTogether r
  | .split row _ _ _ => (∀ r ∈ s.rows, r.id = row.id → GeometryTogether r) ∧ FamilyTogether s row
  | .refresh row _ _ => ∀ r ∈ s.rows, r.id = row.id → ProfileTogether r
  | .enrichment row _ profile => profile.isSome = true → ∀ r ∈ s.rows, r.id = row.id → ProfileTogether r
  | _ => True

/-- Where the row holds an envelope that the transaction looks at, its copy holds one. -/
def CopyHolds (p : Pending Point) (s : Store) : Prop :=
  ∀ r ∈ s.rows, r.id = p.row.id → ∀ c, p.relies c →
    isEncryptedEnvelope (r.text c) = true → isEncryptedEnvelope (p.row.text c) = true

/-- No envelope of a name or a track is replaced. -/
def CiphertextKept (s s' : Store) : Prop :=
  ∀ r ∈ s.rows, ∀ r' ∈ s'.rows, r'.id = r.id → ∀ c ∈ contentColumns,
    isEncryptedEnvelope (r.text c) = true → r'.text c = r.text c

/-! ## 2. What each makes of a row -/

theorem writeTrackGeometry_name (row : ActivityRow) (points : List Point) :
    (writeTrackGeometry m row points).text .name = row.text .name := by
  show (snapshotFirstEdit row).text .name = row.text .name
  unfold snapshotFirstEdit
  split <;> rfl

variable {c : TextColumn}

theorem forced_ciphertext {row r : ActivityRow} {act : FetchedActivity}
    (hcopy : ∀ c, (.refresh row act true : Pending Point).relies c →
      isEncryptedEnvelope (r.text c) = true → isEncryptedEnvelope (row.text c) = true)
    (hprofile : ProfileTogether r) (hc : c ∈ contentColumns) (he : isEncryptedEnvelope (r.text c) = true) :
    (row.flush (forced m row act) r).text c = r.text c := by
  refine flush_text_of_eq r ?_
  cases c with
  | name | summaryPolyline | startLatlngJson | endLatlngJson | elevationProfileJson =>
    exact if_pos (hcopy _ (by simp [Pending.relies]) he)
  | elevationProfileLowResJson =>
    exact if_pos (hcopy .elevationProfileJson (by simp [Pending.relies]) (hprofile he))
  | _ => simp [contentColumns, trackColumns] at hc

theorem enriched_ciphertext {row r : ActivityRow} {polyline profile : Option String}
    (hcopy : ∀ c, (.enrichment row polyline profile : Pending Point).relies c →
      isEncryptedEnvelope (r.text c) = true → isEncryptedEnvelope (row.text c) = true)
    (hprofile : profile.isSome = true → ProfileTogether r) (he : isEncryptedEnvelope (r.text c) = true) :
    (row.flush (enriched m row polyline profile) r).text c = r.text c := by
  refine flush_text_of_eq r ?_
  have hfull (hp : profile.isSome = true) (hr : isEncryptedEnvelope (r.text .elevationProfileJson) = true) :
      isEncryptedEnvelope (row.text .elevationProfileJson) = true :=
    hcopy _ (.inr ⟨rfl, hp⟩) hr
  cases c with
  | summaryPolyline =>
    refine if_neg fun h => ?_
    obtain ⟨hp, hnot⟩ := Bool.and_eq_true_iff.mp h
    rw [hcopy _ (.inl ⟨rfl, hp⟩) he] at hnot
    cases hnot
  | elevationProfileJson =>
    refine if_neg fun h => ?_
    obtain ⟨hp, hnot⟩ := Bool.and_eq_true_iff.mp h
    rw [hfull hp he] at hnot
    cases hnot
  | elevationProfileLowResJson =>
    refine if_neg fun h => ?_
    obtain ⟨hp, hnot⟩ := Bool.and_eq_true_iff.mp h
    rw [hfull hp (hprofile hp he)] at hnot
    cases hnot
  | _ => rfl

theorem refreshed_encryptedGeometry {s : Store} {row loaded r : ActivityRow}
    (h : s.refreshed row [.summaryPolyline, .elevationProfileJson] = some loaded)
    (hr : r ∈ s.rows) (hid : r.id = row.id) :
    loaded.encryptedGeometry = r.encryptedGeometry := by
  obtain ⟨cur, hcur, hcid, rfl⟩ := Store.refreshed_some h
  obtain rfl := Table.eq_of_key hr hcur (hid.trans hcid.symm)
  rfl

theorem GeometryTogether.name {r : ActivityRow} (h : GeometryTogether r)
    (hplain : r.encryptedGeometry = false) (hc : c ∈ contentColumns)
    (he : isEncryptedEnvelope (r.text c) = true) : c = .name := by
  have hnot : isEncryptedEnvelope (r.text .summaryPolyline) = false ∧
      isEncryptedEnvelope (r.text .elevationProfileJson) = false := Bool.or_eq_false_iff.mp hplain
  cases c with
  | name => rfl
  | summaryPolyline => exact absurd he (by simp [hnot.1])
  | elevationProfileJson => exact absurd he (by simp [hnot.2])
  | startLatlngJson | endLatlngJson | elevationProfileLowResJson =>
    have := h _ (by simp) he
    rw [hplain] at this
    cases this
  | _ => simp [contentColumns, trackColumns] at hc

/-! ## 3. Names of a split family -/

theorem mem_splitView {rows : ActivityTable} {loaded head tail x : ActivityRow}
    (h : x ∈ splitView rows loaded head tail) :
    x = head ∨ (x ∈ rows ∧ x.id ≠ loaded.id) ∨ x = tail := by
  rcases List.mem_append.mp h with h | h
  · obtain ⟨r, hr, rfl⟩ := List.mem_map.mp h
    split
    · exact .inl rfl
    · rename_i hne
      exact .inr (.inl ⟨hr, hne⟩)
  · exact .inr (.inr (List.mem_singleton.mp h))

theorem renumberSplitFamily_name {view : List ActivityRow} {items : List ℤ} {rootId id : ℤ}
    (h : (renumberSplitFamily view items rootId id).name.isSome = true) :
    (∃ root ∈ view, root.id = rootId ∧ isEncryptedEnvelope (root.text .name) = false) ∧
      id ∈ items ∧ ∃ x ∈ view, x.id = id ∧ (x.id = rootId ∨ x.splitRootId = some rootId) := by
  unfold renumberSplitFamily at h
  split at h
  · cases h
  · rename_i root hroot
    dsimp only at h
    have hid : root.id = rootId := ActivityRow.hasId_iff.mp (List.find?_some hroot)
    split at h
    · cases h
    · rename_i hplain
      refine ⟨⟨root, List.mem_of_find?_eq_some hroot, hid, Bool.eq_false_iff.mpr hplain⟩, ?_⟩
      -- the piece is one of the family's members
      suffices hmem : ∃ x ∈ view.filter fun m =>
          (m.hasId rootId || m.splitRootId == some rootId) && items.contains m.id, x.id = id by
        obtain ⟨x, hx, rfl⟩ := hmem
        obtain ⟨hview, hx⟩ := List.mem_filter.mp hx
        simp only [Bool.and_eq_true, Bool.or_eq_true, ActivityRow.hasId_iff, beq_iff_eq,
          List.contains_iff_mem] at hx
        exact ⟨hx.2, x, hview, rfl, hx.1⟩
      split at h
      · split at h
        · rename_i x base hx _
          refine ⟨x, hx ▸ List.mem_singleton_self x, ?_⟩
          by_contra hne
          simp [hne] at h
        · cases h
      · rw [Option.isSome_map, List.findIdx?_isSome, List.any_eq_true] at h
        obtain ⟨x, hx, hxid⟩ := h
        exact ⟨x, (List.mem_insertionSort _).mp hx, ActivityRow.hasId_iff.mp hxid⟩

theorem mem_insertSplitTail {items : List ℤ} {headId tailId i : ℤ}
    (h : i ∈ insertSplitTail items headId tailId) (hne : i ≠ tailId) : i ∈ items := by
  obtain ⟨j, hj, hi⟩ := List.mem_flatMap.mp h
  split at hi
  · rcases List.mem_cons.mp hi with rfl | hi
    · exact hj
    · exact absurd (List.mem_singleton.mp hi) hne
  · exact List.mem_singleton.mp hi ▸ hj

theorem renamed_text {n : Renaming} (h : n.name = none ∨ c ≠ .name) (r : ActivityRow) :
    (r.renamed n).text c = r.text c := by
  show (if c = .name then n.name.or (r.text c) else r.text c) = r.text c
  rcases h with h | h
  · rw [h, Option.none_or, ite_self]
  · exact if_neg h

theorem split_name {s s' : Store} {row loaded head tail r : ActivityRow}
    {headPoints tailPoints : List Point} {expected : Option ℕ} {tailId : ℤ}
    (hcopy : CopyHolds (.split row headPoints tailPoints expected) s)
    (hfamily : FamilyTogether s row)
    (hloaded : loaded.id = row.id ∧ loaded.rootId = row.rootId ∧ loaded.text .name = row.text .name)
    (hhead : head.id = loaded.id ∧ head.text .name = loaded.text .name)
    (htail : tail.id = tailId) (hnew : tailId ∉ s.rows.rows.map ActivityRow.id)
    (hitems : s'.items = insertSplitTail s.items loaded.id tailId)
    (hr : r ∈ s.rows) (he : isEncryptedEnvelope (r.text .name) = true) :
    (renumberSplitFamily (splitView s.rows loaded head tail) s'.items loaded.rootId r.id).name =
      none := by
  obtain ⟨hid, hrootId, hname⟩ := hloaded
  have hfresh : ∀ q ∈ s.rows, q.id ≠ tailId := fun q hq hqid => hnew (List.mem_map.mpr ⟨q, hq, hqid⟩)
  refine Option.not_isSome_iff_eq_none.mp fun hsome => ?_
  obtain ⟨⟨root, hroot, hrid, hplain⟩, hitem, x, hx, hxid, hmember⟩ := renumberSplitFamily_name hsome
  have hritem : r.id ∈ s.items := mem_insertSplitTail (hitems ▸ hitem) (hfresh r hr)
  have hpiece : r.id = row.id ∨ r.id = row.rootId ∨ r.splitRootId = some row.rootId := by
    rcases mem_splitView hx with rfl | ⟨hxr, -⟩ | rfl
    · exact .inl (hxid.symm.trans (hhead.1.trans hid))
    · obtain rfl := Table.eq_of_key hxr hr hxid
      rw [hrootId] at hmember
      exact .inr hmember
    · exact absurd (hxid.symm.trans htail) (hfresh r hr)
  obtain ⟨root₀, hroot₀, hrid₀, henv⟩ := hfamily r hr hritem hpiece he
  rcases mem_splitView hroot with rfl | ⟨hrootr, -⟩ | rfl
  · -- the root is the row of the split: its name is the copy's
    have hself : row.rootId = row.id := by rw [← hrootId, ← hrid, hhead.1, hid]
    have := hcopy root₀ hroot₀ (hrid₀.trans hself) .name ⟨rfl, hself⟩ henv
    rw [hhead.2, hname] at hplain
    exact absurd (this.symm.trans hplain) (by decide)
  · obtain rfl := Table.eq_of_key hrootr hroot₀ (by rw [hrid, hrid₀, hrootId])
    exact absurd (henv.symm.trans hplain) (by decide)
  · exact hfresh root₀ hroot₀ (by rw [hrid₀, ← hrootId, ← hrid, htail])

/-! ## 4. A write -/

variable {p : Pending Point}

theorem commit_ciphertext {s s' : Store} {tailId : ℤ} (h : commit m s tailId p = some s')
    (hserver : p.isServer = true) (ht : Together s p) (hcopy : CopyHolds p s) : CiphertextKept s s' := by
  intro r hr r' hr' hrid c hc he
  have same {q : ActivityRow} (hq : q ∈ s.rows) (hqid : r'.id = q.id) : q = r :=
    Table.eq_of_key hq hr (hqid.symm.trans hrid)
  cases commit_rows h hr' with
  | kept q hq hrr =>
    obtain rfl := same hq (by rw [hrr])
    rw [hrr]
  | pieces q hq n hreset hrr =>
    cases p with
    | reset row expected => cases hserver
    | _ => cases hreset
  | tail hsplit hnew hid => exact absurd (List.mem_map.mpr ⟨r, hr, hrid.symm.trans hid⟩) hnew
  | written q hq hid loaded new hs hrr =>
    obtain rfl := same hq (by rw [hrr]; rfl)
    subst hrr
    cases p with
    | edit row points expected =>
      obtain ⟨hl, hplain, rfl⟩ := hs
      rw [refreshed_encryptedGeometry hl hr hid] at hplain
      obtain rfl := (ht q hr hid).name hplain hc he
      exact flush_text_of_eq q (writeTrackGeometry_name loaded points)
    | split row headPoints tailPoints expected =>
      obtain ⟨hl, hplain, rfl⟩ := hs
      rw [refreshed_encryptedGeometry hl hr hid] at hplain
      obtain rfl := (ht.1 q hr hid).name hplain hc he
      exact flush_text_of_eq q (writeTrackGeometry_name loaded headPoints)
    | refresh row act named =>
      obtain ⟨rfl, rfl⟩ := hs
      exact forced_ciphertext (hcopy q hr hid) (ht q hr hid) hc he
    | enrichment row polyline profile =>
      obtain ⟨rfl, rfl⟩ := hs
      exact enriched_ciphertext (hcopy q hr hid) (fun hp => ht hp q hr hid) he
    | _ => cases hserver
  | family q hq loaded new tail hs hid htail hsplit hnew hitems hrr =>
    obtain rfl := same hq (by rw [hrr]; split <;> rfl)
    cases p with
    | split row headPoints tailPoints expected =>
      obtain ⟨hl, hplain, rfl⟩ := hs
      have hloaded : loaded.id = row.id ∧ loaded.rootId = row.rootId ∧
          loaded.text .name = row.text .name := by
        obtain ⟨cur, -, -, rfl⟩ := Store.refreshed_some hl
        exact ⟨rfl, rfl, rfl⟩
      have hhead := writeTrackGeometry_name (m := m) loaded headPoints
      have hrenamed : ∀ x : ActivityRow, (x.renamed (renumberSplitFamily
          (splitView s.rows loaded (writeTrackGeometry m loaded headPoints) tail) s'.items
          loaded.rootId q.id)).text c = x.text c := fun x => by
        by_cases hcn : c = .name
        · subst hcn
          exact renamed_text (.inl (split_name hcopy ht.2 hloaded
            ⟨writeTrackGeometry_id m loaded headPoints, hhead⟩ htail hnew hitems hq he)) x
        · exact renamed_text (.inr hcn) x
      rw [hrr]
      split
      · rename_i hqid
        refine flush_text_of_eq q ((hrenamed _).trans ?_)
        rw [refreshed_encryptedGeometry hl hq (hqid.trans hloaded.1)] at hplain
        obtain rfl := (ht.1 q hq (hqid.trans hloaded.1)).name hplain hc he
        exact hhead
      · exact hrenamed q
    | edit | refresh | enrichment => cases hsplit
    | _ => cases hserver

/-! ## 5. Every run -/

/-- The transaction whose row a client has read. -/
def Local.reading? : Local Point → Option (Pending Point)
  | .refreshRow row act => some (.refresh row act true)
  | .enrichRow row polyline profile _ _ _ => some (.enrichment row polyline profile)
  | l => l.pending?

theorem Local.after_reading (l : Local Point) (s : Store) (b : Bool) : (l.after s b).reading? = none := by
  cases l with
  | passWriting row data todo expected =>
    simp only [Local.after]
    split
    · rfl
    · split <;> rfl
  | _ => rfl

theorem Local.reading_of_pending {l : Local Point} (h : l.pending? = some p) :
    l.reading? = some p := by
  cases l with
  | refreshRow | enrichRow => cases h
  | _ => exact h

theorem CopyHolds.of_read {s : Store} (hr : p.row ∈ s.rows) : CopyHolds p s := by
  intro r hr' hid c _ he
  rwa [Table.eq_of_key hr' hr hid] at he

theorem reads_copyHolds {l l' : Local Point} {s : Store} (h : Reads d s l l') (hp : l'.reading? = some p) :
    l.reading? = some p ∨ CopyHolds p s := by
  cases h with
  | request q hr _ | refreshRow row user act hr | refreshUnnamed row user act hr
  | enrichRow row polyline profile user todo any hr | put row data todo expected hr _ _ =>
    obtain rfl := Option.some.inj hp
    exact .inr (.of_read hr)
  | refreshHeld | enrichHeld => exact .inl hp
  | _ => cases hp

/-- The step makes an envelope of a column of the row `id` that was none. -/
def Encrypts (s s' : Store) (id : ℤ) (c : TextColumn) : Prop :=
  (∃ r' ∈ s'.rows, r'.id = id ∧ isEncryptedEnvelope (r'.text c) = true) ∧
    ∀ r ∈ s.rows, r.id = id → isEncryptedEnvelope (r.text c) = false

section Runs

variable {ι : Type}

/-- A commit that makes an envelope of a column finds no other transaction that relies on its copy
    of it, and a server's writer finds the rows it takes for granted. -/
def EncryptsApart (m : TrackMath Point) (w : Clients ι (Local Point) Store) : ι × Act Nonce Point → Prop
  | (i, .commit tailId) => ∀ p, (w.locals i).pending? = some p → Together w.store p ∧
      ∀ s', commit m w.store tailId p = some s' → ∀ j, j ≠ i → ∀ q,
        (w.locals j).reading? = some q → ∀ c, q.relies c → ¬ Encrypts w.store s' q.row.id c
  | _ => True

def CopiesHold (l : Local Point) (s : Store) : Prop := ∀ p, l.reading? = some p → CopyHolds p s

theorem copiesHold_idle (s : Store) : CopiesHold (Local.idle : Local Point) s := fun _ hp => nomatch hp

theorem copiesHold_kept : Kept (ι := ι) (step d m) (EncryptsApart m) (fun _ => True) CopiesHold where
  own := by
    intro w i a l' s' _ hI _ h
    refine ⟨trivial, fun p hp => ?_⟩
    rcases step_cases h with ⟨hr, rfl⟩ | ⟨t, q, -, -, -, rfl, -⟩ | ⟨t, q, -, -, -, rfl⟩ | ⟨-, rfl, -⟩
    · exact (reads_copyHolds hr hp).elim (hI i p) fun hc => hc
    · rw [Local.after_reading] at hp
      cases hp
    · rw [Local.after_reading] at hp
      cases hp
    · cases hp
  other := by
    intro w i a l' s' j hj _ hI hC h q hq
    have hcopy : CopyHolds q w.store := hI j q hq
    rcases step_cases h with ⟨-, rfl⟩ | ⟨t, p, -, -, -, -, rfl⟩ | ⟨t, p, rfl, hp, hcommit, -⟩ |
      ⟨-, -, hrows, -⟩
    · exact hcopy
    · exact hcopy
    · intro r' hr' hid c hrelies he
      by_contra hnot
      refine (hC p hp).2 s' hcommit j hj q hq c hrelies ⟨⟨r', hr', hid, he⟩, fun r hr hrid => ?_⟩
      exact Bool.eq_false_iff.mpr fun hre => hnot (hcopy r hr hrid c hrelies hre)
    · intro r hr
      rw [hrows] at hr
      exact hcopy r hr

/-- **Ciphertext is never replaced by the server**: in every run, if no column becomes an envelope
    while another transaction relies on its copy of it, and each server's write finds the rows it
    takes for granted, no write of a server's transaction replaces an envelope. -/
theorem ciphertext_kept [DecidableEq ι] {s₀ : Store} {tr : List (ι × Act Nonce Point)}
    {w w' : Clients ι (Local Point) Store} {p : Pending Point}
    (h : Run (Meeting (Steps (Clients.step (step d m))) (EncryptsApart m)) (idleClients s₀) tr w)
    (i : ι) (tailId : ℤ) (hp : (w.locals i).pending? = some p) (hserver : p.isServer = true)
    (hstep : Meeting (Steps (Clients.step (step d m))) (EncryptsApart m) w (i, .commit tailId) w') :
    CiphertextKept w.store w'.store := by
  have hcopy : CopyHolds p w.store :=
    (copiesHold_kept.run trivial (fun _ => copiesHold_idle s₀) h).2 i p
      (Local.reading_of_pending hp)
  have ht : Together w.store p := (hstep.2 p hp).1
  obtain ⟨l', s', hs, rfl⟩ := Clients.step_cases hstep.1
  have hsame : CiphertextKept w.store w.store := fun r hr r' hr' hid c _ _ => by
    rw [Table.eq_of_key hr' hr hid]
  rcases step_cases hs with ⟨-, rfl⟩ | ⟨t, q, -, -, -, -, rfl⟩ | ⟨t, q, -, hq, hcommit, -⟩ | ⟨-, -, hrows, -⟩
  · exact hsame
  · exact hsame
  · obtain rfl := Option.some.inj (hp.symm.trans hq)
    exact commit_ciphertext hcommit hserver ht hcopy
  · intro r hr r' hr'
    exact hsame r hr r' (hrows ▸ hr')

/-- The body of a request that gives an encrypted name. -/
def encryptedName : FieldsUpdate := fun c => if c = .name then some (some "v1.k.n") else none

def renamedAnswer : FetchedActivity := { stravaAnswer with name := "Morning ride" }

/-- Client `true` encrypts the name of row 7 before the refresh reads it. -/
def encryptedBefore : List (Bool × Act ℕ Char) :=
  [(false, .requestRefresh 7 true), (true, .updateFields 0 7 encryptedName none),
   (false, .startJob true), (true, .commit 0), (false, .fetched renamedAnswer),
   (false, .readRow true), (false, .checkHeld)]

theorem ciphertext_kept_before : ∃ w w' : Clients Bool (Local Char) Store,
    exec (Clients.step (step letterDevice letterMath)) (idleClients stravaTrip) encryptedBefore = some w ∧
    Clients.step (step letterDevice letterMath) w (false, .commit 0) = some w' ∧
    (w.store.row 7).map (·.text .name) = some (some "v1.k.n") ∧
    CiphertextKept w.store w'.store := by
  have hmeet : AllMeet (Clients.step (step letterDevice letterMath)) (EncryptsApart letterMath)
      (idleClients stravaTrip) encryptedBefore := by
    refine .cons rfl trivial (.cons rfl trivial (.cons rfl trivial (.cons rfl ?_
      (.cons rfl trivial (.cons rfl trivial (.cons rfl trivial trivial))))))
    intro p hp
    obtain rfl := Option.some.inj hp
    refine ⟨trivial, fun s' _ j hj q hq => ?_⟩
    cases j with
    | false => cases hq
    | true => exact absurd rfl hj
  have hrun : Run _ (idleClients stravaTrip) encryptedBefore _ := run_of_allMeet rfl hmeet
  refine ⟨_, _, rfl, rfl, rfl, ?_⟩
  refine ciphertext_kept hrun false 0 rfl rfl ⟨rfl, fun p hp => ?_⟩
  obtain rfl := Option.some.inj hp
  refine ⟨fun r hr hid => ?_, fun s' _ j hj q hq => ?_⟩
  · have hrow : Store.row _ 7 = some r := hid ▸ Store.row_of_mem hr
    cases hrow
    exact fun he => nomatch he
  · cases j with
    | true => cases hq
    | false => exact absurd rfl hj

/-- Client `true` encrypts the name of row 7 between the read and the write of the refresh. -/
def encryptedMeanwhile : List (Bool × Act ℕ Char) :=
  [(false, .requestRefresh 7 true), (false, .startJob true), (false, .fetched renamedAnswer),
   (false, .readRow true), (true, .updateFields 0 7 encryptedName none), (true, .commit 0),
   (false, .checkHeld)]

theorem CiphertextKept.row {s s' : Store} (h : CiphertextKept s s') (id : ℤ) {r r' : ActivityRow}
    (hr : s.row id = some r) (hr' : s'.row id = some r') (hc : c ∈ contentColumns)
    (he : isEncryptedEnvelope (r.text c) = true) :
    r'.text c = r.text c := by
  obtain ⟨hmem, hid⟩ := Store.row_some hr
  obtain ⟨hmem', hid'⟩ := Store.row_some hr'
  exact h r hmem r' hmem' (hid'.trans hid.symm) c hc he

/-- The refresh then puts the plaintext name back. -/
theorem ciphertext_replaced : ∃ (w w' : Clients Bool (Local Char) Store) (p : Pending Char),
    Run (Steps (Clients.step (step letterDevice letterMath))) (idleClients stravaTrip) encryptedMeanwhile w ∧
    (w.locals false).pending? = some p ∧ p.isServer = true ∧
    Clients.step (step letterDevice letterMath) w (false, .commit 0) = some w' ∧
    (w'.store.row 7).map (·.text .name) = some (some "Morning ride") ∧
    ¬ CiphertextKept w.store w'.store := by
  have hrun : Run (Steps (Clients.step (step letterDevice letterMath))) (idleClients stravaTrip)
    encryptedMeanwhile _ := run_iff_exec.mpr rfl
  refine ⟨_, _, _, hrun, rfl, rfl, rfl, rfl, fun hkept => ?_⟩
  have hname := hkept.row 7 rfl rfl (c := .name) (by decide) rfl
  exact absurd hname (by decide)

end Runs

end TraxJourney.Activity
