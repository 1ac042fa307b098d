/-
  File:      Device/Freshness.lean
  Subject:   When the trip cache of the device is fresh.

  * **`device_cache_fresh`** -- in a run whose steps all meet it a read returns what was stored for the
    version recorded before it began, and a row on disk holds only columns of its own version.
-/
import TraxJourney.Device.Cache

namespace TraxJourney.Device

open Lib

/-! ## 1. Rows and the writes to come -/

/-- Every column was stored for the row's own version, under its key. -/
def Entry.Own (key : Key) (e : Entry) : Prop :=
  ∀ field data, e.heavy field = some data → data = ⟨key, e.lockVersion⟩

/-- Every payload that is written was fetched for the version that is written with it. -/
def DiskWrite.Own (key : Key) (row : DiskWrite) : Prop :=
  ∀ field data, row.columns field = some (some data) → data = ⟨key, row.lockVersion⟩

/-- A write fits a row of its own version, and any row where it names every column. -/
def DiskWrite.Fits (row : DiskWrite) (prev : Option Entry) : Prop :=
  (∀ field, row.columns field ≠ none) ∨ prev.map (·.lockVersion) = some row.lockVersion

/-- The row that the writes leave. -/
def flushed : Option Entry → List Task → Option Entry
  | row, [] => row
  | row, task :: tasks => flushed (some (task.row.merge row)) tasks

/-- Each write fits what the ones before it leave. -/
def Line (key : Key) : Option Entry → List Task → Prop
  | _, [] => True
  | row, task :: tasks => task.row.Own key ∧ task.row.Fits row ∧ Line key (some (task.row.merge row)) tasks

variable {key : Key} {row : DiskWrite} {prev : Option Entry} {e : Entry} {tasks : List Task}

theorem Entry.Own.fresh (v : ℤ) : (Entry.fresh v).Own key := by
  intro field data h
  cases h

theorem Entry.Own.withHeavy (h : e.Own key) (field : Heavy) :
    (e.withHeavy field ⟨key, e.lockVersion⟩).Own key := by
  intro field' data hdata
  by_cases hf : field' = field
  · subst hf
    simp only [Entry.withHeavy, Function.update_self, Option.some.injEq] at hdata
    exact hdata.symm
  · simp only [Entry.withHeavy, Function.update_of_ne hf] at hdata
    exact h field' data hdata

theorem Entry.Own.ofRow (h : e.Own key) : e.ofRow.Own key := by
  intro field data hdata
  by_cases hf : field = .fullGeo
  · subst hf
    simp [Entry.ofRow] at hdata
  · simp only [Entry.ofRow, Function.update_of_ne hf] at hdata
    exact h field data hdata

theorem Entry.Own.merge (hrow : row.Own key) (hfits : row.Fits prev)
    (hprev : ∀ r, prev = some r → r.Own key) : (row.merge prev).Own key := by
  intro field data hdata
  simp only [DiskWrite.merge] at hdata ⊢
  cases hcol : row.columns field with
  | some value =>
    rw [hcol] at hdata
    dsimp only at hdata
    subst hdata
    exact hrow field data hcol
  | none =>
    -- the column is carried over
    rw [hcol] at hdata
    obtain ⟨r, rfl, hr⟩ := Option.bind_eq_some_iff.mp hdata
    rcases hfits with hall | hver
    · exact absurd hcol (hall field)
    · have hv : r.lockVersion = row.lockVersion := by simpa using hver
      rw [← hv]
      exact hprev r rfl field data hr

theorem flushed_append (task : Task) :
    flushed prev (tasks ++ [task]) = some (task.row.merge (flushed prev tasks)) := by
  induction tasks generalizing prev with
  | nil => rfl
  | cons t tasks ih => exact ih

theorem line_append (hline : Line key prev tasks) (hown : row.Own key)
    (hfits : row.Fits (flushed prev tasks)) : Line key prev (tasks ++ [⟨row, none⟩]) := by
  induction tasks generalizing prev with
  | nil => exact ⟨hown, hfits, trivial⟩
  | cons t tasks ih => exact ⟨hline.1, hline.2.1, ih hline.2.2 hfits⟩

/-! ## 2. What holds at every moment -/

/-- The writes of one key, over its row: each fits, only the first may have read, and together they
    leave the version recorded last. -/
structure Queued (key : Key) (disk : Option Entry) (recorded : Option ℤ) (tasks : List Task) :
    Prop where
  own : ∀ r, disk = some r → r.Own key
  line : Line key disk tasks
  version : (flushed disk tasks).map (·.lockVersion) = recorded
  head : ∀ task ∈ tasks.head?, ∀ prev, task.prev = some prev → prev = disk
  tail : ∀ task ∈ tasks.tail, task.prev = none

structure Sound (s : Cache) : Prop where
  mem : ∀ key e, s.mem key = some e → s.recorded key = some e.lockVersion ∧ e.Own key
  queued : ∀ key, Queued key (s.disk key) (s.recorded key) (s.tasks key)

/-- What holds of a read between its beginning and its return. -/
structure Reading (key : Key) (scope : ℕ) (recorded : Option ℤ) (recordings : ℕ) (s : Cache) :
    Prop where
  scope : scope ≤ s.scope
  count : recordings ≤ s.recordings key
  still : s.recordings key = recordings → s.recorded key = recorded

/-- What holds of an operation at an await. -/
def Await.Ok (op : Await) (s : Cache) : Prop :=
  match op with
  | .idle => True
  | .opened _ scope => scope ≤ s.scope
  | .requested ref scope key _ => scope ≤ s.scope ∧ (scope = s.scope → s.key ref = key)
  | .promoting ref scope key _ row => (scope ≤ s.scope ∧ (scope = s.scope → s.key ref = key)) ∧
      ∀ r, row = some r → r.Own key
  | .reading key _ scope recorded recordings => Reading key scope recorded recordings s
  | .decoding key _ scope recorded recordings row => Reading key scope recorded recordings s ∧
      ∀ r, row = some r → r.Own key ∧
        (scope = s.scope → s.mem key = none → s.recorded key = some r.lockVersion)
  | .returned key recorded undisturbed result => ∀ data, result = some data →
      data.key = key ∧ (undisturbed = true → recorded = some data.held)

/-- What the operations rely on: sessions and recordings are counted up; within a session an entry
    stays, and a version is recorded only with an entry. -/
structure Later (s s' : Cache) : Prop where
  scope : s.scope ≤ s'.scope
  user : s.scope = s'.scope → s'.currentUserId = s.currentUserId
  mem : s.scope = s'.scope → ∀ key, s'.mem key = none → s.mem key = none
  recorded : s.scope = s'.scope → ∀ key, s'.mem key = none → s'.recorded key = s.recorded key
  recordings : ∀ key, s.recordings key ≤ s'.recordings key
  still : ∀ key, s'.recordings key = s.recordings key → s'.recorded key = s.recorded key

variable {s s' : Cache} {op op' : Await} {a : Action}

theorem Later.refl (s : Cache) : Later s s where
  scope := Nat.le_refl _
  user _ := rfl
  mem _ _ h := h
  recorded _ _ _ := rfl
  recordings _ := Nat.le_refl _
  still _ _ := rfl

theorem Later.trans {s₁ : Cache} (h : Later s s₁) (h' : Later s₁ s') : Later s s' := by
  have hs := h.scope
  have hs' := h'.scope
  refine ⟨Nat.le_trans hs hs', fun he => ?_, fun he key hm => ?_, fun he key hm => ?_,
    fun key => Nat.le_trans (h.recordings key) (h'.recordings key), fun key he => ?_⟩
  · exact (h'.user (by omega)).trans (h.user (by omega))
  · exact h.mem (by omega) key (h'.mem (by omega) key hm)
  · have hm₁ := h'.mem (by omega) key hm
    exact (h'.recorded (by omega) key hm).trans (h.recorded (by omega) key hm₁)
  · have hc := h.recordings key
    have hc' := h'.recordings key
    exact (h'.still key (by omega)).trans (h.still key (by omega))

variable {scope : ℕ} {recorded : Option ℤ}

theorem Reading.later {recordings : ℕ} (h : Reading key scope recorded recordings s) (hl : Later s s') :
    Reading key scope recorded recordings s' := by
  have hscope := h.scope
  have hcount := h.count
  have hc := hl.recordings key
  refine ⟨Nat.le_trans hscope hl.scope, by omega, fun he => ?_⟩
  exact (hl.still key (by omega)).trans (h.still (by omega))

variable {ref : ProjectRef}

theorem Later.sameKey (hl : Later s s') (h : scope ≤ s.scope ∧ (scope = s.scope → s.key ref = key)) :
    scope ≤ s'.scope ∧ (scope = s'.scope → s'.key ref = key) := by
  obtain ⟨hle, hkey⟩ := h
  have hs := hl.scope
  refine ⟨Nat.le_trans hle hs, fun he => ?_⟩
  have huser := hl.user (by omega)
  rw [← hkey (by omega)]
  simp [Cache.key, huser]

theorem Await.Ok.later (h : op.Ok s) (hl : Later s s') : op.Ok s' := by
  cases op with
  | idle => trivial
  | opened ref scope => exact Nat.le_trans h hl.scope
  | requested ref scope key lockVersion => exact hl.sameKey h
  | promoting ref scope key lockVersion row => exact ⟨hl.sameKey h.1, h.2⟩
  | reading key field scope recorded recordings => exact Reading.later h hl
  | decoding key field scope recorded recordings row =>
    obtain ⟨hread, hrow⟩ := h
    refine ⟨hread.later hl, fun r hr => ?_⟩
    obtain ⟨hown, hver⟩ := hrow r hr
    refine ⟨hown, fun he hm => ?_⟩
    have hs := hl.scope
    have hle := hread.scope
    have hm' := hl.mem (by omega) key hm
    exact (hl.recorded (by omega) key hm).trans (hver (by omega) hm')
  | returned key recorded undisturbed result => exact h

/-! ## 3. What one step can do -/

/-- The condition: a row is promoted over no entry of another version, nor the full geometry of one; a
    read, and a write that reads what it merges with, find every write issued earlier for the key
    inserted; and a seed, which carries no scope, lands in the session of its request. -/
def Orderly (op : Await) (a : Action) (s : Cache) : Prop :=
  match a, op with
  | .resumes, .decoding key _ scope _ _ (some row) => ¬ s.stale scope →
      ∀ e ∈ s.mem key, e.lockVersion = row.lockVersion
  | .promotionLands, .promoting ref scope _ lockVersion (some row) => row.heavy .fullGeo ≠ none →
      ¬ s.stale scope → ¬ s.outdated (s.key ref) (some lockVersion) → row.lockVersion = lockVersion
  | .queries, .reading key _ _ _ _ => s.tasks key = []
  | .diskSteps key n, _ => ∀ task ∈ (s.tasks key)[n]?, task.prev = none → n = 0
  | .seedLands, .requested _ scope _ _ => scope = s.scope
  | _, _ => True

theorem Queued.append {disk : Option Entry} (h : Queued key disk recorded tasks) (hown : row.Own key)
    (hfits : row.Fits (flushed disk tasks)) :
    Queued key disk (some row.lockVersion) (tasks ++ [⟨row, none⟩]) where
  own := h.own
  line := line_append h.line hown hfits
  version := by
    rw [flushed_append]
    rfl
  head := by
    cases tasks with
    | nil =>
      intro task ht prev hp
      cases ht
      cases hp
    | cons t tasks => exact h.head
  tail := by
    cases tasks with
    | nil =>
      intro task ht
      cases ht
    | cons t tasks =>
      intro task ht
      rcases List.mem_append.mp ht with hold | hnew
      · exact h.tail task hold
      · rw [List.mem_singleton.mp hnew]

/-- The record of a version, its entry and the write of it, in one; every write that is issued is
    a case of it. -/
def Cache.issue (s : Cache) (key : Key) (e : Entry) (row : DiskWrite) : Cache :=
  ((s.record key e.lockVersion).putMem key e).storeWrite key row

theorem Later.record_putMem (s : Cache) (key : Key) (e : Entry) :
    Later s ((s.record key e.lockVersion).putMem key e) := by
  unfold Cache.record
  split
  · rename_i hsame
    refine ⟨Nat.le_refl _, fun _ => rfl, fun _ k hm => ?_, fun _ k _ => rfl,
      fun _ => Nat.le_refl _, fun _ _ => rfl⟩
    by_cases hk : k = key
    · subst hk
      simp [Cache.putMem] at hm
    · simpa [Cache.putMem, Function.update_of_ne hk] using hm
  · refine ⟨Nat.le_refl _, fun _ => rfl, fun _ k hm => ?_, fun _ k hm => ?_, fun k => ?_,
      fun k he => ?_⟩
    · by_cases hk : k = key
      · subst hk
        simp [Cache.putMem] at hm
      · simpa [Cache.putMem, Function.update_of_ne hk] using hm
    · by_cases hk : k = key
      · subst hk
        simp [Cache.putMem] at hm
      · simp [Cache.putMem, Function.update_of_ne hk]
    · by_cases hk : k = key
      · subst hk
        simp [Cache.putMem]
      · simp [Cache.putMem, Function.update_of_ne hk]
    · by_cases hk : k = key
      · subst hk
        simp [Cache.putMem] at he
      · simp [Cache.putMem, Function.update_of_ne hk]

theorem Later.storeWrite (s : Cache) (key : Key) (row : DiskWrite) : Later s (s.storeWrite key row) :=
  ⟨Nat.le_refl _, fun _ => rfl, fun _ _ h => h, fun _ _ _ => rfl, fun _ => Nat.le_refl _,
    fun _ _ => rfl⟩

theorem Later.issue (s : Cache) (key : Key) (e : Entry) (row : DiskWrite) : Later s (s.issue key e row) :=
  (Later.record_putMem s key e).trans (Later.storeWrite _ key row)

theorem Cache.record_recorded (s : Cache) (key : Key) (v : ℤ) :
    (s.record key v).recorded = Function.update s.recorded key (some v) := by
  unfold Cache.record
  split
  · rename_i hsame
    rw [← hsame, Function.update_eq_self]
  · rfl

variable {v : ℤ}

theorem Cache.record_eq (h : s.recorded key = some v) : s.record key v = s := if_pos h

theorem Cache.record_others (s : Cache) (key : Key) (v : ℤ) :
    (s.record key v).mem = s.mem ∧ (s.record key v).disk = s.disk ∧ (s.record key v).tasks = s.tasks := by
  unfold Cache.record
  split
  · exact ⟨rfl, rfl, rfl⟩
  · exact ⟨rfl, rfl, rfl⟩

theorem Sound.issue (hs : Sound s) (hver : row.lockVersion = e.lockVersion) (he : e.Own key)
    (hown : row.Own key) (hfits : row.Fits (flushed (s.disk key) (s.tasks key))) :
    Sound (s.issue key e row) := by
  obtain ⟨hmem, hdisk, htasks⟩ := s.record_others key e.lockVersion
  refine ⟨fun k e' he' => ?_, fun k => ?_⟩
  · simp only [Cache.issue, Cache.storeWrite, Cache.putMem, hmem, Cache.record_recorded] at he' ⊢
    by_cases hk : k = key
    · subst hk
      simp only [Function.update_self, Option.some.injEq] at he' ⊢
      subst he'
      exact ⟨rfl, he⟩
    · simp only [Function.update_of_ne hk] at he' ⊢
      exact hs.mem k e' he'
  · simp only [Cache.issue, Cache.storeWrite, Cache.putMem, hdisk, htasks, Cache.record_recorded]
    by_cases hk : k = key
    · subst hk
      simp only [Function.update_self]
      rw [← hver]
      exact (hs.queued k).append hown hfits
    · simp only [Function.update_of_ne hk]
      exact hs.queued k

theorem Sound.putMem (hs : Sound s) (hrec : s.recorded key = some e.lockVersion) (he : e.Own key) :
    Sound (s.putMem key e) := by
  refine ⟨fun k e' he' => ?_, hs.queued⟩
  by_cases hk : k = key
  · subst hk
    simp only [Cache.putMem, Function.update_self, Option.some.injEq] at he'
    subst he'
    exact ⟨hrec, he⟩
  · simp only [Cache.putMem, Function.update_of_ne hk] at he'
    exact hs.mem k e' he'

theorem Later.putMem (hrec : s.recorded key = some e.lockVersion) : Later s (s.putMem key e) := by
  have hl := Later.record_putMem s key e
  rwa [Cache.record_eq hrec] at hl

theorem Sound.fits (hs : Sound s) (he : s.mem key = some e) (hver : row.lockVersion = e.lockVersion) :
    row.Fits (flushed (s.disk key) (s.tasks key)) := by
  right
  rw [(hs.queued key).version, (hs.mem key e he).1, hver]

theorem onMetaFetched_effect (hs : Sound s) (ref : ProjectRef) (lockVersion : Option ℤ)
    (scope : ℕ) : Later s (s.onMetaFetched ref lockVersion scope) ∧
      Sound (s.onMetaFetched ref lockVersion scope) := by
  unfold Cache.onMetaFetched
  split
  · exact ⟨Later.refl s, hs⟩
  · split
    · exact ⟨Later.refl s, hs⟩
    · rename_i v
      dsimp only
      split
      · -- the version is the one on file
        rename_i prev hprev
        obtain ⟨hmem, hv⟩ := Option.filter_eq_some_iff.mp hprev
        obtain rfl : prev.lockVersion = v := by simpa using hv
        have hfits : DiskWrite.Fits ⟨prev.lockVersion, fun _ => none⟩
            (flushed (s.disk (s.key ref)) (s.tasks (s.key ref))) := hs.fits hmem rfl
        exact ⟨Later.issue s _ prev _, hs.issue rfl (hs.mem _ prev hmem).2 nofun hfits⟩
      · have hfits : DiskWrite.Fits ⟨v, fun _ => some none⟩
            (flushed (s.disk (s.key ref)) (s.tasks (s.key ref))) := .inl nofun
        have hown : DiskWrite.Own (s.key ref) ⟨v, fun _ => some none⟩ := by
          intro field data h
          cases h
        exact ⟨Later.issue s _ (.fresh v) _, hs.issue rfl (Entry.Own.fresh v) hown hfits⟩

theorem column_own (field : Heavy) (v : ℤ) : DiskWrite.Own key
    ⟨v, Function.update (fun _ => none) field (some (some ⟨key, v⟩))⟩ := by
  intro field' data h
  by_cases hf : field' = field
  · subst hf
    simp only [Function.update_self, Option.some.injEq] at h
    exact h.symm
  · simp [Function.update_of_ne hf] at h

theorem not_outdated (h : ¬ s.outdated key (some v)) :
    ∃ e, s.mem key = some e ∧ e.lockVersion = v := by
  have heq : (s.mem key).map (·.lockVersion) = some v := by
    by_contra hne
    exact h ⟨nofun, hne⟩
  obtain ⟨e, he, hv⟩ := Option.map_eq_some_iff.mp heq
  exact ⟨e, he, hv⟩

theorem writeHeavy_effect (hs : Sound s) (hkey : scope = s.scope → s.key ref = key) (field : Heavy) :
    Later s (s.writeHeavy ref field ⟨key, v⟩ scope (some v)) ∧
      Sound (s.writeHeavy ref field ⟨key, v⟩ scope (some v)) := by
  unfold Cache.writeHeavy
  split
  · exact ⟨Later.refl s, hs⟩
  · rename_i hstale
    obtain rfl := hkey (not_not.mp hstale)
    split
    · exact ⟨Later.refl s, hs⟩
    · rename_i hout
      obtain ⟨e, hmem, rfl⟩ := not_outdated hout
      obtain ⟨hrec, hown⟩ := hs.mem _ e hmem
      have hissue : (s.putMem (s.key ref) (e.withHeavy field ⟨s.key ref, e.lockVersion⟩)).storeWrite
          (s.key ref) ⟨e.lockVersion, Function.update (fun _ => none) field
            (some (some ⟨s.key ref, e.lockVersion⟩))⟩ =
          s.issue (s.key ref) (e.withHeavy field ⟨s.key ref, e.lockVersion⟩)
            ⟨e.lockVersion, Function.update (fun _ => none) field
              (some (some ⟨s.key ref, e.lockVersion⟩))⟩ := by
        rw [Cache.issue, Cache.record_eq (by exact hrec)]
      simp only [hmem, Option.getD_some, hissue]
      exact ⟨Later.issue s _ _ _, hs.issue rfl (hown.withHeavy field) (column_own field _) (hs.fits hmem rfl)⟩

theorem promoteFullGeo_effect (hs : Sound s) {geo : Payload} (hkey : scope = s.scope → s.key ref = key)
    (hgeo : ¬ s.stale scope → ¬ s.outdated (s.key ref) (some v) → geo = ⟨key, v⟩) :
    Later s (s.promoteFullGeo ref geo scope (some v)) ∧ Sound (s.promoteFullGeo ref geo scope (some v)) := by
  unfold Cache.promoteFullGeo
  split
  · exact ⟨Later.refl s, hs⟩
  · rename_i hstale
    split
    · exact ⟨Later.refl s, hs⟩
    · rename_i hout
      obtain rfl := hgeo hstale hout
      obtain rfl := hkey (not_not.mp hstale)
      obtain ⟨e, hmem, rfl⟩ := not_outdated hout
      obtain ⟨hrec, hown⟩ := hs.mem _ e hmem
      simp only [hmem, Option.getD_some]
      exact ⟨Later.putMem hrec, hs.putMem hrec (hown.withHeavy .fullGeo)⟩

theorem seedFullGeoToDisk_effect (hs : Sound s)
    (hkey : s.key ref = key) : Later s (s.seedFullGeoToDisk ref ⟨key, v⟩ v) ∧
      Sound (s.seedFullGeoToDisk ref ⟨key, v⟩ v) := by
  subst hkey
  unfold Cache.seedFullGeoToDisk
  split
  · exact ⟨Later.refl s, hs⟩
  · rename_i e hmem
    split
    · exact ⟨Later.refl s, hs⟩
    · rename_i hv
      obtain rfl : e.lockVersion = v := not_not.mp hv
      obtain ⟨hrec, hown⟩ := hs.mem _ e hmem
      -- the entry stays as it is
      have hput : s.putMem (s.key ref) e = s := by rw [Cache.putMem, ← hmem, Function.update_eq_self]
      have hissue : s.issue (s.key ref) e ⟨e.lockVersion, Function.update (fun _ => none) .fullGeo
          (some (some ⟨s.key ref, e.lockVersion⟩))⟩ = s.storeWrite (s.key ref)
            ⟨e.lockVersion, Function.update (fun _ => none) .fullGeo
              (some (some ⟨s.key ref, e.lockVersion⟩))⟩ := by
        rw [Cache.issue, Cache.record_eq hrec, hput]
      rw [← hissue]
      exact ⟨Later.issue s _ _ _, hs.issue rfl hown (column_own .fullGeo _) (hs.fits hmem rfl)⟩

theorem setCurrentUser_effect (hs : Sound s) (userId : Option ℤ) :
    Later s (s.setCurrentUser userId) ∧ Sound (s.setCurrentUser userId) := by
  unfold Cache.setCurrentUser
  split
  · exact ⟨Later.refl s, hs⟩
  · refine ⟨⟨Nat.le_succ _, fun h => ?_, fun h => ?_, fun h => ?_, fun _ => Nat.le_refl _,
      fun _ _ => rfl⟩, nofun, hs.queued⟩
    · exact absurd h (Nat.ne_of_lt (Nat.lt_succ_self _))
    · exact absurd h (Nat.ne_of_lt (Nat.lt_succ_self _))
    · exact absurd h (Nat.ne_of_lt (Nat.lt_succ_self _))

theorem diskStep_effect (hs : Sound s) {n : ℕ} (hC : ∀ task ∈ (s.tasks key)[n]?, task.prev = none → n = 0)
    (h : s.diskStep key n = some s') : Later s s' ∧ Sound s' := by
  have hq := hs.queued key
  unfold Cache.diskStep at h
  split at h
  · cases h
  · rename_i task htask
    -- a write that has read is the first of its key
    have hzero : n = 0 := by
      cases hp : task.prev with
      | none => exact hC task htask hp
      | some prev =>
        cases n with
        | zero => rfl
        | succ n =>
          have hmem : task ∈ (s.tasks key).tail := by
            rw [List.mem_iff_getElem?]
            exact ⟨n, by rwa [List.getElem?_tail]⟩
          rw [hq.tail task hmem] at hp
          cases hp
    subst hzero
    obtain ⟨rest, hrest⟩ : ∃ rest, s.tasks key = task :: rest := by
      cases ht : s.tasks key with
      | nil =>
        rw [ht] at htask
        cases htask
      | cons t rest =>
        rw [ht] at htask
        cases htask
        exact ⟨rest, rfl⟩
    rw [hrest] at hq
    have hlater : ∀ disk tasks, Later s { s with disk := disk, tasks := tasks } := fun _ _ =>
      ⟨Nat.le_refl _, fun _ => rfl, fun _ _ h => h, fun _ _ _ => rfl, fun _ => Nat.le_refl _,
        fun _ _ => rfl⟩
    split at h
    · -- it reads the row
      cases h
      refine ⟨hlater _ _, hs.mem, fun k => ?_⟩
      by_cases hk : k = key
      · subst hk
        simp only [Function.update_self, hrest, List.set_cons_zero]
        refine ⟨hq.own, hq.line, hq.version, ?_, hq.tail⟩
        intro t ht prev hp
        cases ht
        cases hp
        rfl
      · simp only [Function.update_of_ne hk]
        exact hs.queued k
    · -- it inserts the merged row
      rename_i prev hprev
      cases h
      obtain rfl : prev = s.disk key := hq.head task rfl prev hprev
      refine ⟨hlater _ _, hs.mem, fun k => ?_⟩
      by_cases hk : k = key
      · subst hk
        simp only [Function.update_self, hrest, List.eraseIdx_cons_zero]
        obtain ⟨hown, hfits, hline⟩ := hq.line
        refine ⟨fun r hr => ?_, hline, hq.version, fun t ht prev hp => ?_, fun t ht => ?_⟩
        · cases hr
          exact Entry.Own.merge hown hfits hq.own
        · have hnone := hq.tail t (List.mem_of_mem_head? ht)
          rw [hnone] at hp
          cases hp
        · exact hq.tail t (List.mem_of_mem_tail ht)
      · simp only [Function.update_of_ne hk]
        exact hs.queued k

theorem readDisk_effect (hs : Sound s) {recordings : ℕ} {r : Entry}
    (hread : Reading key scope recorded recordings s) (hown : r.Own key)
    (hver : scope = s.scope → s.mem key = none → s.recorded key = some r.lockVersion)
    (hC : ¬ s.stale scope → ∀ e ∈ s.mem key, e.lockVersion = r.lockVersion) (field : Heavy) :
    Later s (s.readDisk key scope (some r)).1 ∧ Sound (s.readDisk key scope (some r)).1 ∧
      Await.Ok (.returned key recorded ((s.readDisk key scope (some r)).1.recordings key == recordings)
        ((s.readDisk key scope (some r)).2.bind fun entry => entry.heavy field))
        (s.readDisk key scope (some r)).1 := by
  unfold Cache.readDisk
  dsimp only
  split
  · exact ⟨Later.refl s, hs, nofun⟩
  · rename_i hstale
    have hrec : s.recorded key = some r.lockVersion := by
      cases hmem : s.mem key with
      | none => exact hver (not_not.mp hstale) hmem
      | some e =>
        have hv : e.lockVersion = r.lockVersion := hC hstale e hmem
        rw [(hs.mem key e hmem).1, hv]
    refine ⟨Later.putMem hrec, hs.putMem hrec hown.ofRow, fun data hdata => ?_⟩
    obtain rfl : data = ⟨key, r.lockVersion⟩ := hown.ofRow field data hdata
    refine ⟨rfl, fun hun => ?_⟩
    have hcount : s.recordings key = recordings := by simpa [Cache.putMem] using hun
    exact (hread.still hcount).symm.trans hrec

theorem act_effect (hs : Sound s) (hop : op.Ok s) (hC : Orderly op a s)
    (h : act op a s = some (op', s')) : Later s s' ∧ Sound s' ∧ op'.Ok s' := by
  have hrefl := Later.refl s
  cases a with
  | diskSteps key n =>
    obtain ⟨s₁, hstep, he⟩ := Option.map_eq_some_iff.mp h
    cases he
    obtain ⟨hl, hs'⟩ := diskStep_effect hs hC hstep
    exact ⟨hl, hs', hop.later hl⟩
  | setsUser userId =>
    cases op <;> cases h
    obtain ⟨hl, hs'⟩ := setCurrentUser_effect hs userId
    exact ⟨hl, hs', trivial⟩
  | opens ref =>
    cases op <;> cases h
    exact ⟨hrefl, hs, Nat.le_refl _⟩
  | metaLands lockVersion =>
    cases op <;> cases h
    obtain ⟨hl, hs'⟩ := onMetaFetched_effect hs _ lockVersion _
    exact ⟨hl, hs', trivial⟩
  | requests =>
    cases op with
    | opened ref scope =>
      obtain ⟨v, -, he⟩ := Option.map_eq_some_iff.mp h
      cases he
      exact ⟨hrefl, hs, hop, fun _ => rfl⟩
    | idle => cases h
    | requested _ _ _ _ => cases h
    | promoting _ _ _ _ _ => cases h
    | reading _ _ _ _ _ => cases h
    | decoding _ _ _ _ _ _ => cases h
    | returned _ _ _ _ => cases h
  | writeLands field =>
    cases op <;> cases h
    obtain ⟨hl, hs'⟩ := writeHeavy_effect hs hop.2 field
    exact ⟨hl, hs', trivial⟩
  | readsBytes =>
    cases op <;> cases h
    exact ⟨hrefl, hs, hop, (hs.queued _).own⟩
  | promotionLands =>
    cases op <;> cases h
    rename_i ref scope key lockVersion row
    obtain ⟨⟨-, hkey⟩, hrow⟩ := hop
    cases hgeo : row.bind fun r => r.heavy .fullGeo with
    | none => exact ⟨hrefl, hs, trivial⟩
    | some geo =>
      obtain ⟨r, rfl, hr⟩ := Option.bind_eq_some_iff.mp hgeo
      have hown : ¬ s.stale scope → ¬ s.outdated (s.key ref) (some lockVersion) →
          geo = ⟨key, lockVersion⟩ := by
        intro hstale hout
        rw [hrow r rfl .fullGeo geo hr, hC (hr ▸ Option.some_ne_none geo) hstale hout]
      obtain ⟨hl, hs'⟩ := promoteFullGeo_effect hs hkey hown
      exact ⟨hl, hs', trivial⟩
  | seedLands =>
    cases op <;> cases h
    obtain ⟨hl, hs'⟩ := seedFullGeoToDisk_effect hs (hop.2 hC)
    exact ⟨hl, hs', trivial⟩
  | reads ref field =>
    cases op with
    | idle =>
      simp only [act] at h
      split at h
      · rename_i e hmem
        cases h
        obtain ⟨hrec, hown⟩ := hs.mem _ e hmem
        refine ⟨hrefl, hs, fun data hdata => ?_⟩
        obtain rfl := hown field data hdata
        exact ⟨rfl, fun _ => hrec⟩
      · cases h
        exact ⟨hrefl, hs, Nat.le_refl _, Nat.le_refl _, fun _ => rfl⟩
    | opened _ _ => cases h
    | requested _ _ _ _ => cases h
    | promoting _ _ _ _ _ => cases h
    | reading _ _ _ _ _ => cases h
    | decoding _ _ _ _ _ _ => cases h
    | returned _ _ _ _ => cases h
  | queries =>
    cases op <;> cases h
    rename_i key field scope recorded recordings
    have hread : Reading key scope recorded recordings s := hop
    have hempty : s.tasks key = [] := hC
    refine ⟨hrefl, hs, hread, fun r hr => ?_⟩
    have hq := hs.queued key
    refine ⟨hq.own r hr, fun _ _ => ?_⟩
    -- nothing is still to be written: the row has the version recorded last
    have hver := hq.version
    rw [hempty, flushed, hr] at hver
    exact hver.symm
  | resumes =>
    cases op <;> cases h
    rename_i key field scope recorded recordings row
    obtain ⟨hread, hrow⟩ := hop
    cases row with
    | none => exact ⟨hrefl, hs, nofun⟩
    | some r =>
      obtain ⟨hown, hver⟩ := hrow r rfl
      exact readDisk_effect hs hread hown hver hC field
  | ends =>
    cases op <;> cases h
    exact ⟨hrefl, hs, trivial⟩

/-! ## 4. Freshness -/

variable {ι : Type*} [DecidableEq ι]

omit [DecidableEq ι] in
theorem act_kept : Kept act
    (fun (w : Clients ι Await Cache) l => Orderly (w.locals l.1) l.2 w.store) Sound Await.Ok where
  own _ i _ _ _ hs hop hC h := (act_effect hs (hop i) hC h).2
  other _ i _ _ _ j _ hs hop hC h := (hop j).later (act_effect hs (hop i) hC h).1

/-- A device that has cached nothing yet. -/
def start : Clients ι Await Cache := ⟨fun _ => .idle, .start⟩

theorem start_sound : Sound Cache.start where
  mem := nofun
  queued _ := ⟨nofun, trivial, rfl, nofun, nofun⟩

/-- **The device's cache is fresh** in every run whose steps are orderly: what a read returns was
    stored by a write for the same user and trip; when version `v` was recorded before the read
    began and no other one until it returned, the write's request began while the cache held `v`;
    and every column of a row on disk was stored for the row's version. -/
theorem device_cache_fresh {tr : List (ι × Action)} {w : Clients ι Await Cache}
    (h : Run (Meeting (Steps (Clients.step act)) fun w l => Orderly (w.locals l.1) l.2 w.store)
      start tr w) :
    (∀ i key recorded undisturbed data, w.locals i = .returned key recorded undisturbed (some data) →
        data.key = key ∧ (undisturbed = true → recorded = some data.held)) ∧
      ∀ key row field data, w.store.disk key = some row → row.heavy field = some data →
        data.held = row.lockVersion := by
  have hidle : ∀ i, ((start : Clients ι Await Cache).locals i).Ok Cache.start := fun _ => trivial
  obtain ⟨hsound, hok⟩ := act_kept.run start_sound hidle h
  constructor
  · intro i key recorded undisturbed data hop
    have hi := hok i
    rw [hop] at hi
    exact hi data rfl
  · intro key row field data hrow hdata
    have hown := (hsound.queued key).own row hrow field data hdata
    rw [hown]

/-- The trip of every run below. -/
def alps : ProjectRef := ⟨none, "Alps"⟩

/-- Operation 1 records version 5, operation 2 caches the low-res and then the full geometry for it, and the
    disk writes come through, one after the other. -/
def cached : List (ℕ × Action) :=
  [(1, .setsUser (some 7)), (1, .opens alps), (1, .metaLands (some 5)), (2, .opens alps), (2, .requests),
    (2, .writeLands .lowResGeo), (2, .opens alps), (2, .requests), (2, .writeLands .fullGeo)] ++
  List.replicate 6 (1, .diskSteps ⟨7, 0, "Alps"⟩ 0)

/-- The user signs out and in again, and operation 3 reads the row from disk. -/
def coldRead : List (ℕ × Action) :=
  cached ++ ([(1, .setsUser none), (1, .setsUser (some 7)), (3, .reads alps .lowResGeo),
    (3, .queries)] : List (ℕ × Action))

instance (op : Await) (a : Action) (s : Cache) : Decidable (Orderly op a s) :=
  match a, op with
  | .resumes, .decoding key _ _ _ _ (some row) =>
    match h : s.mem key with
    | none => isTrue (by simp [Orderly, h])
    | some e => decidable_of_iff (s.stale _ ∨ e.lockVersion = row.lockVersion) (by
        simp only [Orderly, h, Option.mem_some_iff, forall_eq']
        exact Decidable.or_iff_not_imp_left)
  | .promotionLands, .promoting ref scope _ lockVersion (some row) =>
    inferInstanceAs (Decidable (row.heavy .fullGeo ≠ none → ¬ s.stale scope →
      ¬ s.outdated (s.key ref) (some lockVersion) → row.lockVersion = lockVersion))
  | .queries, .reading key _ _ _ _ =>
    match h : s.tasks key with
    | [] => isTrue h
    | _ :: _ => isFalse fun hnil => by
        have hnil' : s.tasks key = [] := hnil
        rw [h] at hnil'
        cases hnil'
  | .diskSteps key n, _ =>
    match h : (s.tasks key)[n]? with
    | none => isTrue (by simp [Orderly, h])
    | some task =>
      match hp : task.prev with
      | none => decidable_of_iff (n = 0) (by simp [Orderly, h, hp])
      | some _ => isTrue (by simp [Orderly, h, hp])
  | .seedLands, .requested _ scope _ _ => inferInstanceAs (Decidable (scope = s.scope))
  | .resumes, .decoding _ _ _ _ _ none => isTrue trivial
  | .resumes, .idle | .resumes, .opened _ _ | .resumes, .requested _ _ _ _ | .resumes, .promoting _ _ _ _ _
  | .resumes, .reading _ _ _ _ _ | .resumes, .returned _ _ _ _ => isTrue trivial
  | .promotionLands, .promoting _ _ _ _ none => isTrue trivial
  | .promotionLands, .idle | .promotionLands, .opened _ _ | .promotionLands, .requested _ _ _ _
  | .promotionLands, .reading _ _ _ _ _ | .promotionLands, .decoding _ _ _ _ _ _
  | .promotionLands, .returned _ _ _ _ => isTrue trivial
  | .queries, .idle | .queries, .opened _ _ | .queries, .requested _ _ _ _ | .queries, .promoting _ _ _ _ _
  | .queries, .decoding _ _ _ _ _ _ | .queries, .returned _ _ _ _ => isTrue trivial
  | .seedLands, .idle | .seedLands, .opened _ _ | .seedLands, .promoting _ _ _ _ _
  | .seedLands, .reading _ _ _ _ _ | .seedLands, .decoding _ _ _ _ _ _ | .seedLands, .returned _ _ _ _ =>
    isTrue trivial
  | .setsUser _, _ | .opens _, _ | .metaLands _, _ | .requests, _ | .writeLands _, _
  | .readsBytes, _ | .reads _ _, _ | .ends, _ => isTrue trivial

/-- What a read has returned. -/
def Await.result : Await → Option (Option ℤ × Bool × Option Payload)
  | .returned _ recorded undisturbed result => some (recorded, undisturbed, result)
  | _ => none

/-- Its row is promoted, then the full geometry from its bytes, and operation 4 reads that. -/
def promotedBytes : List (ℕ × Action) :=
  coldRead ++ ([(3, .resumes), (4, .opens alps), (4, .requests), (4, .readsBytes), (4, .promotionLands),
    (4, .reads alps .fullGeo)] : List (ℕ × Action))

theorem device_cache_fresh_coldRead : ∃ w : Clients ℕ Await Cache,
    Run (Meeting (Steps (Clients.step act)) fun w l => Orderly (w.locals l.1) l.2 w.store) start promotedBytes w ∧
      [(w.locals 3).result, (w.locals 4).result] =
        List.replicate 2 (some (some 5, true, some ⟨⟨7, 0, "Alps"⟩, 5⟩)) ∧
      ((∀ i key recorded undisturbed data, w.locals i = .returned key recorded undisturbed (some data) →
          data.key = key ∧ (undisturbed = true → recorded = some data.held)) ∧
        ∀ key row field data, w.store.disk key = some row → row.heavy field = some data →
          data.held = row.lockVersion) := by
  have hmeet : AllMeet (Clients.step act)
      (fun (w : Clients ℕ Await Cache) l => Orderly (w.locals l.1) l.2 w.store) start promotedBytes := by
    decide +kernel
  have hend : (exec (Clients.step act) start promotedBytes).map
      (fun w : Clients ℕ Await Cache => [(w.locals 3).result, (w.locals 4).result]) =
        some (List.replicate 2 (some (some 5, true, some ⟨⟨7, 0, "Alps"⟩, 5⟩))) := by
    decide +kernel
  obtain ⟨w, hw, he⟩ := Option.map_eq_some_iff.mp hend
  have hrun := run_of_allMeet hw hmeet
  exact ⟨w, hrun, he, device_cache_fresh hrun⟩

/-- Version 6 is recorded while operation 3 decodes the row of version 5. -/
def promoted : List (ℕ × Action) :=
  coldRead ++ ([(4, .opens alps), (4, .metaLands (some 6)), (3, .resumes),
    (5, .reads alps .lowResGeo)] : List (ℕ × Action))

/-- Version 6 is recorded, the full geometry is cached for it, and both disk writes read the row of
    version 5 before either inserts its own. -/
def overlapped : List (ℕ × Action) :=
  cached ++ ([(4, .opens alps), (4, .metaLands (some 6)), (5, .opens alps), (5, .requests),
    (5, .writeLands .fullGeo), (5, .diskSteps ⟨7, 0, "Alps"⟩ 0), (5, .diskSteps ⟨7, 0, "Alps"⟩ 1),
    (5, .diskSteps ⟨7, 0, "Alps"⟩ 0), (5, .diskSteps ⟨7, 0, "Alps"⟩ 0)] : List (ℕ × Action))

/-- **A read returns a payload of another version than the one recorded last**, from memory, and
    a row on disk mixes two versions. -/
theorem device_cache_fails_promoted : (¬ ∀ (tr : List (ℕ × Action)) (w : Clients ℕ Await Cache),
      Run (Steps (Clients.step act)) start tr w → ∀ i key recorded data,
        w.locals i = .returned key (some recorded) true (some data) → data.held = recorded) ∧
    ¬ ∀ (tr : List (ℕ × Action)) (w : Clients ℕ Await Cache),
      Run (Steps (Clients.step act)) start tr w → ∀ key row field data,
        w.store.disk key = some row → row.heavy field = some data → data.held = row.lockVersion := by
  constructor
  · intro hall
    have hend : (exec (Clients.step act) start promoted).map
        (fun w : Clients ℕ Await Cache => (w.locals 5).result) =
          some (some (some 6, true, some ⟨⟨7, 0, "Alps"⟩, 5⟩)) := by decide +kernel
    obtain ⟨w, hw, he⟩ := Option.map_eq_some_iff.mp hend
    cases hop : w.locals 5 with
    | returned key recorded undisturbed result =>
      rw [hop, Await.result, Option.some.injEq, Prod.mk.injEq, Prod.mk.injEq] at he
      obtain ⟨rfl, rfl, rfl⟩ := he
      have hbad := hall promoted w (run_iff_exec.mpr hw) 5 key 6 _ hop
      exact absurd hbad (by decide)
    | idle => simp [hop, Await.result] at he
    | opened _ _ => simp [hop, Await.result] at he
    | requested _ _ _ _ => simp [hop, Await.result] at he
    | promoting _ _ _ _ _ => simp [hop, Await.result] at he
    | reading _ _ _ _ _ => simp [hop, Await.result] at he
    | decoding _ _ _ _ _ _ => simp [hop, Await.result] at he
  · intro hall
    have hend : (exec (Clients.step act) start overlapped).map
        (fun w : Clients ℕ Await Cache => (w.store.disk ⟨7, 0, "Alps"⟩).map fun row =>
          (row.lockVersion, row.heavy .lowResGeo)) =
          some (some (6, some ⟨⟨7, 0, "Alps"⟩, 5⟩)) := by decide +kernel
    obtain ⟨w, hw, he⟩ := Option.map_eq_some_iff.mp hend
    obtain ⟨row, hrow, hdata⟩ := Option.map_eq_some_iff.mp he
    obtain ⟨hv, hdata⟩ := Prod.mk.inj hdata
    have hbad := hall overlapped w (run_iff_exec.mpr hw) _ row _ _ hrow hdata
    rw [hv] at hbad
    exact absurd hbad (by decide)

end TraxJourney.Device
