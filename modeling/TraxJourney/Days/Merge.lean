/-
  File:      Days/Merge.lean
  Subject:   Patches of a trip's day notes (`patch_day_meta` in `api/projects.py`) among the structural
             saves of the trip, each under the optimistic lock (`check_and_bump_lock_version` in
             `src/project/repo_core.py`).

  * **`day_notes_merge`** -- the writes act on each day by itself, one after another; and no note is lost
    of a day that hidden entries alone kept. `notes_fail_cleared` -- content that the caller sees keeps none.

  The trip's name, dates and lists, which the same requests may carry, are columns of their own.
-/
import TraxJourney.Days.Notes
import TraxJourney.Lib.Clients

namespace TraxJourney.Days

open Lib Transfer

/-! ## 1. The clients -/

/-- The two readings of the content days, every member's first. -/
def queries (callerId : ℤ) : List (Option ℤ × Source) :=
  Source.all.map (none, ·) ++ Source.all.map (some callerId, ·)

/-- The queries that were asked, each with the trip as it stood then. -/
abbrev Scan := List ((Option ℤ × Source) × Trip)

def Scan.found (scan : Scan) (visibleTo : Option ℤ) : List String :=
  ((scan.filter fun a => decide (a.1.1 = visibleTo)).flatMap fun a => a.2.query a.1.1 a.1.2).filter
    fun day => decide (day ≠ "")

def Scan.invisible (scan : Scan) (callerId : ℤ) : List Text :=
  ((scan.found none).filter fun day => !(scan.found (some callerId)).contains day).map .valid

/-- An attempt of a patch, after its row was read. -/
structure Attempt where
  patch : DayMetaPatch
  number : ℕ
  expected : ℕ
  column : Option Json
  todo : List (Option ℤ × Source)
  scan : Scan

def defaultAttempts : ℕ := 5

inductive Outcome where
  | nothing
  | refused (status : ℕ)
  | failed
  | staleWriteError
  | patched
  | saved

inductive Local where
  | done (o : Outcome)
  | reading (patch : DayMetaPatch) (number : ℕ)
  | scanning (a : Attempt)
  | loaded (expected : ℕ) (days : Lib.Dict Text DayMeta)

/-- A committed write of the column. -/
inductive Commit where
  | patch (p : DayMetaPatch) (scan : Scan)
  | save (dates : List String)

structure Shared where
  trip : Trip
  log : List Commit

/-- `check_and_bump_lock_version`, with the column that is written beside it. -/
def Trip.write (t : Trip) (expected : ℕ) (column : Option Json) : Option Trip :=
  if t.lockVersion = expected then
    some { t with lockVersion := expected + 1, dayMeta := column }
  else none

/-- The statements of a client. `save` has the days between the activities of the trip in memory, and
    what the trip holds when it is stored; `other` is any write that leaves the column alone. -/
inductive Act where
  | patch (p : DayMetaPatch)
  | readRow
  | query
  | write
  | load
  | save (dates : List String) (content : Content)
  | other (members : List ℤ) (content : Content) (advances : Bool)
  | abandon

/-- What the guard asks: nothing where no note with content is dropped. -/
def DayMetaPatch.asks (p : DayMetaPatch) (column : Option Json) : List (Option ℤ × Source) :=
  if (dropped (p.whole column) column).rows.isEmpty then [] else queries p.callerId

def Attempt.merged (a : Attempt) : Option Json :=
  dumpMap (mergedDayMeta a.patch (a.scan.invisible a.patch.callerId) a.column)

def step (py : Python) (textFloat : Text → Option Double) : Local → Act → Shared → Option (Local × Shared)
  | .done _, .patch p, s => if p.overlaps then some (.done (.refused 400), s) else some (.reading p 0, s)
  | .reading p number, .readRow, s =>
    match checkWrittenDayNotes py p.days s.trip.dayMeta with
    | some _ => some (.done (.refused 422), s)
    | none => some (.scanning ⟨p, number, s.trip.lockVersion, s.trip.dayMeta, p.asks s.trip.dayMeta, []⟩, s)
  | .scanning a, .query, s =>
    match a.todo with
    | [] => none
    | q :: todo => some (.scanning { a with todo := todo, scan := a.scan ++ [(q, s.trip)] }, s)
  | .scanning a, .write, s =>
    match a.todo with
    | _ :: _ => none
    | [] =>
      match s.trip.write a.expected a.merged with
      | some trip => some (.done .patched, ⟨trip, s.log ++ [.patch a.patch a.scan]⟩)
      | none =>
        -- the last attempt raises, any other one reads again
        if a.number + 1 = defaultAttempts then some (.done .staleWriteError, s)
        else some (.reading a.patch (a.number + 1), s)
  | .done _, .load, s =>
    match loadDays textFloat s.trip.dayMeta with
    | none => some (.done .failed, s)
    | some days => some (.loaded s.trip.lockVersion days, s)
  | .loaded expected days, .save dates content, s =>
    match s.trip.write expected (dumpDays (fillDayGaps dates days)) with
    | some trip => some (.done .saved, ⟨{ trip with content := content }, s.log ++ [.save dates]⟩)
    | none => some (.done .staleWriteError, s)
  | .done o, .other members content advances, s =>
    let lockVersion := if advances then s.trip.lockVersion + 1 else s.trip.lockVersion
    some (.done o, { s with trip := { s.trip with
      lockVersion := lockVersion, members := members, content := content } })
  | _, .abandon, s => some (.done .nothing, s)
  | _, _, _ => none

/-- A trip that no client has touched yet. -/
def start {ι : Type} (trip : Trip) : Clients ι Local Shared := ⟨fun _ => .done .nothing, ⟨trip, []⟩⟩

/-! ## 2. One day, write by write -/

/-- What a save makes of one day: the day as it was loaded, or an empty one where it fills a gap. -/
def savedDay (textFloat : Text → Option Double) (dates : List String) (day : Text)
    (stored : Option Json) : Option Json :=
  match stored.filter isObj with
  | some v => some (((loadDay textFloat v).map saveDay).getD v)
  | none => if ∃ date ∈ dates, day = .valid date then some (saveDay emptyDay) else none

def Commit.day (textFloat : Text → Option Double) (day : Text) (stored : Option Json) : Commit → Option Json
  | .patch p scan => p.day (scan.invisible p.callerId) day stored
  | .save dates => savedDay textFloat dates day stored

def Commit.Names (day : Text) : Commit → Prop
  | .patch p _ => p.Names day
  | .save _ => False

def Trip.note (t : Trip) (day : Text) : Option Json := (storedDayMeta t.dayMeta).find day

def through (textFloat : Text → Option Double) (day : Text) (stored : Option Json)
    (log : List Commit) : Option Json :=
  log.foldl (fun stored c => c.day textFloat day stored) stored

/-- The day is kept by content that the caller does not see. -/
def Trip.Hidden (t : Trip) (callerId : ℤ) (day : Text) : Prop :=
  ∃ d, day = .valid d ∧ d ∈ t.contentDayKeys none ∧ d ∉ t.contentDayKeys (some callerId)

/-- An entry as it was set, or as a save has written it: the day that is read of it, or an empty one
    where there was none. -/
inductive Settled (textFloat : Text → Option Double) : Option Json → Option Json → Prop where
  | same (e : Option Json) : Settled textFloat e e
  | saved (v : Json) (d : DayMeta) (h : loadDay textFloat v = some d) :
      Settled textFloat (some v) (some (saveDay d))
  | gap : Settled textFloat none (some (saveDay emptyDay))

variable {py : Python} {textFloat : Text → Option Double} {day : Text} {e e' : Option Json}

/-- A day that can be read, or is not there. -/
def Readable (e : Option Json) : Prop := e.filter isObj = e

theorem Readable.settled (he : Readable e) (h : Settled textFloat e e') : Readable e' := by
  cases h with
  | same => exact he
  | saved v d h => rfl
  | gap => rfl

theorem readable_patched {p : DayMetaPatch} {invisible : List Text} : Readable (p.day invisible day e) := by
  unfold DayMetaPatch.day
  split
  · rename_i fields _
    have hobj : ∀ s : Json, isObj (withCounters s (.obj fields)) = true := by
      intro s
      unfold withCounters
      dsimp only
      split
      · split
        · split
          · rfl
          · rfl
        · rfl
      · rfl
    cases e with
    | none => rfl
    | some s => simp [Readable, hobj s]
  · split
    · rfl
    · rw [Readable, Option.filter_filter]
      simp

theorem Settled.write {c : Commit} (he : Readable e) (h : Settled textFloat e e')
    (hc : ¬ c.Names day) : Settled textFloat e (c.day textFloat day e') := by
  have he' := he.settled h
  cases c with
  | patch p scan =>
    have hnone : p.days.find day = none := by
      cases hfind : p.days.find day with
      | none => rfl
      | some fields => exact absurd (.inl (by rw [hfind]; rfl)) hc
    have hdelete : day ∉ p.delete := fun hmem => hc (.inr hmem)
    rw [Commit.day, DayMetaPatch.day, hnone]
    rw [if_neg (fun hboth => hdelete hboth.1), he']
    exact h
  | save dates =>
    rw [Commit.day, savedDay, he']
    cases h with
    | same =>
      cases e with
      | none =>
        dsimp only
        split
        · exact .gap
        · exact .same none
      | some v =>
        dsimp only
        cases hload : loadDay textFloat v with
        | none => exact .same _
        | some d => exact .saved v d hload
    | saved v d h =>
      dsimp only
      rw [loadDay_saveDay]
      exact .saved v d h
    | gap =>
      dsimp only
      rw [loadDay_saveDay]
      exact .gap

theorem Settled.through {log : List Commit} (he : Readable e) (h : Settled textFloat e e')
    (hlog : ∀ c ∈ log, ¬ c.Names day) : Settled textFloat e (through textFloat day e' log) := by
  induction log generalizing e' with
  | nil => exact h
  | cons c log ih =>
    exact ih (h.write he (hlog c List.mem_cons_self)) fun c' hc' => hlog c' (List.mem_cons_of_mem _ hc')

/-! ## 3. What the guard keeps -/

variable {p : DayMetaPatch} {column : Option Json} {scan : Scan} {t : Trip}

theorem not_set_of_deleted (hp : p.overlaps = false) (hday : day ∈ p.delete) : p.days.find day = none := by
  cases hfind : p.days.find day with
  | none => rfl
  | some fields =>
    have hmem := Table.find_eq_some.mp hfind
    have hno := List.any_eq_false.mp hp _ hmem
    exact absurd (by simpa using hday) hno

theorem Trip.Hidden.journals {callerId : ℤ} (h : t.Hidden callerId day) :
    ∃ d, day = .valid d ∧ d ≠ "" ∧ d ∈ t.query none .journals ∧
      ∀ source, d ∉ t.query (some callerId) source := by
  obtain ⟨d, rfl, hall, hown⟩ := h
  obtain ⟨hmem, hne⟩ := List.mem_filter.mp hall
  have hne' : d ≠ "" := of_decide_eq_true hne
  have hunseen : ∀ source, d ∉ t.query (some callerId) source := by
    intro source hd
    have hsource : source ∈ Source.all := by cases source <;> decide
    exact hown (List.mem_filter.mpr ⟨List.mem_flatMap.mpr ⟨source, hsource, hd⟩, hne⟩)
  refine ⟨d, rfl, hne', ?_, hunseen⟩
  obtain ⟨source, -, hd⟩ := List.mem_flatMap.mp hmem
  cases source with
  | journals => exact hd
  -- the other sources answer the caller the same
  | memories => exact absurd hd (hunseen .memories)
  | encounters => exact absurd hd (hunseen .encounters)
  | activities => exact absurd hd (hunseen .activities)
  | segments => exact absurd hd (hunseen .segments)

theorem mem_found {visibleTo : Option ℤ} {d : String} : d ∈ scan.found visibleTo ↔
    (∃ a ∈ scan, a.1.1 = visibleTo ∧ d ∈ a.2.query a.1.1 a.1.2) ∧ d ≠ "" := by
  simp only [Scan.found, List.mem_filter, List.mem_flatMap, decide_eq_true_eq, and_assoc]

theorem spared (hp : p.overlaps = false) (hscan : scan.map Prod.fst = p.asks column) (hday : day ∈ p.delete)
    (hcontent : ((storedDayMeta column).find day).any dayMetaHasContent = true)
    (hhidden : ∀ a ∈ scan, a.2.Hidden p.callerId day) :
    p.day (scan.invisible p.callerId) day ((storedDayMeta column).find day) =
      (storedDayMeta column).find day := by
  obtain ⟨s, hs, hfull⟩ := (Option.any_eq_true _ _).mp hcontent
  have hnone := not_set_of_deleted hp hday
  have hdropped : (dropped (p.whole column) column).find day = some s := by
    have hwhole : (p.whole column).find day = none := by
      rw [find_whole, hnone]
      exact if_pos hday
    rw [dropped, Table.find_delete, hs]
    simp [Option.filter_some, hwhole, hfull]
  have hasked : p.asks column = queries p.callerId := by
    have hmem := Table.find_eq_some.mp hdropped
    rw [DayMetaPatch.asks, if_neg]
    intro hempty
    rw [List.isEmpty_iff] at hempty
    exact absurd (hempty ▸ hmem : (day, s) ∈ ([] : List _)) List.not_mem_nil
  have hjournals : (none, Source.journals) ∈ scan.map Prod.fst := by
    rw [hscan, hasked]
    exact List.mem_append_left _ (by decide)
  obtain ⟨a, ha, hquery⟩ := List.mem_map.mp hjournals
  obtain ⟨d, rfl, hne, hfound, -⟩ := (hhidden a ha).journals
  have hall : d ∈ scan.found none := mem_found.mpr ⟨⟨a, ha, by rw [hquery], by rwa [hquery]⟩, hne⟩
  have hown : d ∉ scan.found (some p.callerId) := by
    intro hmem
    obtain ⟨⟨b, hb, hviewer, hd⟩, -⟩ := mem_found.mp hmem
    obtain ⟨d', heq, -, -, hunseen⟩ := (hhidden b hb).journals
    obtain rfl : d = d' := Text.valid.inj heq
    exact hunseen b.1.2 (hviewer ▸ hd)
  have hinvisible : Text.valid d ∈ scan.invisible p.callerId :=
    List.mem_map_of_mem (List.mem_filter.mpr ⟨hall, by simpa using hown⟩)
  rw [hs, DayMetaPatch.day, hnone]
  rw [if_neg]
  · exact Option.filter_some_pos (isObj_of_content hfull)
  · exact fun hboth => hboth.2 ⟨hinvisible, hfull⟩

/-! ## 4. What a client holds -/

variable {trip₀ : Trip} {s s' : Shared} {l l' : Local} {act : Act}

/-- Each day is what the writes made of it, and every note that a patch was to keep was kept. -/
structure Sound (textFloat : Text → Option Double) (trip₀ : Trip) (s : Shared) : Prop where
  days : ∀ day, s.trip.note day = through textFloat day (trip₀.note day) s.log
  spares : ∀ before p scan, before ++ [.patch p scan] <+: s.log → ∀ day ∈ p.delete,
    (through textFloat day (trip₀.note day) before).any dayMetaHasContent = true →
    (∀ a ∈ scan, a.2.Hidden p.callerId day) →
    through textFloat day (trip₀.note day) (before ++ [.patch p scan]) =
      through textFloat day (trip₀.note day) before

/-- What was read is there as long as the lock stays. -/
def Held (textFloat : Text → Option Double) : Local → Shared → Prop
  | .reading p _, _ => p.overlaps = false
  | .scanning a, s => a.patch.overlaps = false ∧
      a.scan.map Prod.fst ++ a.todo = a.patch.asks a.column ∧ a.expected ≤ s.trip.lockVersion ∧
      (s.trip.lockVersion = a.expected → s.trip.dayMeta = a.column)
  | .loaded expected days, s => expected ≤ s.trip.lockVersion ∧
      (s.trip.lockVersion = expected → loadDays textFloat s.trip.dayMeta = some days)
  | .done _, _ => True

/-- The lock has advanced, or the column is as it was. -/
def Later (s s' : Shared) : Prop :=
  s.trip.lockVersion ≤ s'.trip.lockVersion ∧
    (s'.trip.lockVersion = s.trip.lockVersion → s'.trip.dayMeta = s.trip.dayMeta)

theorem Later.refl (s : Shared) : Later s s := ⟨Nat.le_refl _, fun _ => rfl⟩

theorem Held.later (h : Held textFloat l s) (hl : Later s s') : Held textFloat l s' := by
  obtain ⟨hle, hcolumn⟩ := hl
  cases l with
  | reading p number => exact h
  | scanning a =>
    obtain ⟨hp, hscan, hexpected, hread⟩ := h
    refine ⟨hp, hscan, Nat.le_trans hexpected hle, fun hv => ?_⟩
    rw [hcolumn (by omega), hread (by omega)]
  | loaded expected days =>
    obtain ⟨hexpected, hread⟩ := h
    refine ⟨Nat.le_trans hexpected hle, fun hv => ?_⟩
    rw [hcolumn (by omega), hread (by omega)]
  | done o => trivial

theorem Trip.write_some {t t' : Trip} {expected : ℕ} (h : t.write expected column = some t') :
    t.lockVersion = expected ∧ t' = { t with lockVersion := expected + 1, dayMeta := column } := by
  unfold Trip.write at h
  split at h
  · rename_i hv
    exact ⟨hv, (Option.some.inj h).symm⟩
  · cases h

theorem through_concat {log : List Commit} {c : Commit} : through textFloat day e (log ++ [c]) =
    c.day textFloat day (through textFloat day e log) := by
  rw [through, List.foldl_append]
  rfl

theorem Sound.commit {c : Commit} {trip : Trip} (h : Sound textFloat trip₀ s)
    (hdays : ∀ day, trip.note day = c.day textFloat day (s.trip.note day))
    (hspares : ∀ p scan, c = .patch p scan → ∀ day ∈ p.delete,
      (s.trip.note day).any dayMetaHasContent = true →
      (∀ a ∈ scan, a.2.Hidden p.callerId day) →
      p.day (scan.invisible p.callerId) day (s.trip.note day) = s.trip.note day) :
    Sound textFloat trip₀ ⟨trip, s.log ++ [c]⟩ where
  days day := by
    show trip.note day = through textFloat day _ (s.log ++ [c])
    rw [hdays, through_concat, h.days]
  spares before p scan hprefix day hday hcontent hhidden := by
    rcases List.prefix_concat_iff.mp hprefix with heq | hold
    · obtain ⟨rfl, hc⟩ := List.append_inj' heq rfl
      have hc : Commit.patch p scan = c := List.singleton_inj.mp hc
      rw [through_concat]
      rw [← h.days] at hcontent ⊢
      exact hspares p scan hc.symm day hday hcontent hhidden
    · exact h.spares before p scan hold day hday hcontent hhidden

theorem note_saved {days : Lib.Dict Text DayMeta} {dates : List String} {t : Trip}
    (hload : loadDays textFloat t.dayMeta = some days) :
    (storedDayMeta (dumpDays (fillDayGaps dates days))).find day =
      savedDay textFloat dates day (t.note day) := by
  obtain ⟨hfind, hsome⟩ := Table.find_mapValues (k := day) hload
  have hparsed : (parseDayMetaJson t.dayMeta).find day = (t.note day).filter isObj := by
    rw [parseDayMetaJson, Table.find_delete]
    simp [Trip.note]
  rw [hparsed] at hfind hsome
  rw [find_dumpDays, find_fillDayGaps, hfind, savedDay]
  cases hv : (t.note day).filter isObj with
  | none =>
    rw [Option.bind_none, Option.none_or]
    split
    · rfl
    · rfl
  | some v =>
    obtain ⟨d, hd⟩ := Option.isSome_iff_exists.mp (hsome v hv)
    rw [Option.bind_some, hd, Option.some_or]
    dsimp only
    rw [hd]
    rfl

theorem step_sound (hs : Sound textFloat trip₀ s) (hl : Held textFloat l s)
    (h : step py textFloat l act s = some (l', s')) :
    Sound textFloat trip₀ s' ∧ Held textFloat l' s' ∧ Later s s' := by
  cases l with
  | done o =>
    cases act with
    | patch p =>
      simp only [step] at h
      split at h
      · cases h
        exact ⟨hs, trivial, .refl _⟩
      · rename_i hoverlaps
        cases h
        exact ⟨hs, eq_false_of_ne_true hoverlaps, .refl _⟩
    | load =>
      simp only [step] at h
      split at h
      · cases h
        exact ⟨hs, trivial, .refl _⟩
      · rename_i days hload
        cases h
        exact ⟨hs, ⟨Nat.le_refl _, fun _ => hload⟩, .refl _⟩
    | other members content advances =>
      cases h
      refine ⟨⟨hs.days, hs.spares⟩, trivial, ?_, fun _ => rfl⟩
      show s.trip.lockVersion ≤ if advances then s.trip.lockVersion + 1 else s.trip.lockVersion
      split
      · exact Nat.le_succ _
      · exact Nat.le_refl _
    | abandon =>
      cases h
      exact ⟨hs, trivial, .refl _⟩
    | _ => cases h
  | reading p number =>
    cases act with
    | readRow =>
      simp only [step] at h
      split at h
      · cases h
        exact ⟨hs, trivial, .refl _⟩
      · cases h
        exact ⟨hs, ⟨hl, rfl, Nat.le_refl _, fun _ => rfl⟩, .refl _⟩
    | abandon =>
      cases h
      exact ⟨hs, trivial, .refl _⟩
    | _ => cases h
  | scanning a =>
    obtain ⟨hp, hscan, hexpected, hread⟩ := hl
    cases act with
    | query =>
      simp only [step] at h
      split at h
      · cases h
      · rename_i q todo htodo
        cases h
        refine ⟨hs, ⟨hp, ?_, hexpected, hread⟩, .refl _⟩
        rw [List.map_append, List.append_assoc, ← hscan, htodo]
        rfl
    | write =>
      simp only [step] at h
      split at h
      · cases h
      · rename_i htodo
        split at h
        · rename_i trip hwrite
          cases h
          obtain ⟨hlock, rfl⟩ := Trip.write_some hwrite
          have hcolumn := hread hlock
          rw [htodo, List.append_nil] at hscan
          refine ⟨hs.commit (fun day => ?_) ?_, trivial, ?_, fun hsame => ?_⟩
          · show (storedDayMeta (dumpMap _)).find day = _
            rw [find_dumpMap, find_merged, ← hcolumn]
            rfl
          · rintro p scan hc day hday hcontent hhidden
            obtain ⟨rfl, rfl⟩ := Commit.patch.inj hc
            rw [← hcolumn] at hscan
            exact spared hp hscan hday hcontent hhidden
          · show s.trip.lockVersion ≤ a.expected + 1
            omega
          · have hsame : a.expected + 1 = s.trip.lockVersion := hsame
            omega
        · split at h
          · cases h
            exact ⟨hs, trivial, .refl _⟩
          · cases h
            exact ⟨hs, hp, .refl _⟩
    | abandon =>
      cases h
      exact ⟨hs, trivial, .refl _⟩
    | _ => cases h
  | loaded expected days =>
    obtain ⟨hexpected, hread⟩ := hl
    cases act with
    | save dates content =>
      simp only [step] at h
      split at h
      · rename_i trip hwrite
        cases h
        obtain ⟨hlock, rfl⟩ := Trip.write_some hwrite
        refine ⟨hs.commit (fun day => note_saved (hread hlock)) (fun p scan hc => ?_), trivial,
          ?_, fun hsame => ?_⟩
        · cases hc
        · show s.trip.lockVersion ≤ expected + 1
          omega
        · have hsame : expected + 1 = s.trip.lockVersion := hsame
          omega
      · cases h
        exact ⟨hs, trivial, .refl _⟩
    | abandon =>
      cases h
      exact ⟨hs, trivial, .refl _⟩
    | _ => cases h

/-! ## 5. Runs -/

section Runs

variable {ι : Type} {tr : List (ι × Act)} {w : Clients ι Local Shared}

theorem kept_sound (py : Python) (textFloat : Text → Option Double) (trip₀ : Trip) :
    Kept (step py textFloat) (fun (_ : Clients ι Local Shared) _ => True) (Sound textFloat trip₀)
      (Held textFloat) where
  own w i a l' s' hs hl _ h := by
    obtain ⟨hs', hl', -⟩ := step_sound hs (hl i) h
    exact ⟨hs', hl'⟩
  other w i a l' s' j _ hs hl _ h := (hl j).later (step_sound hs (hl i) h).2.2

theorem sound_start (trip : Trip) : Sound textFloat trip ⟨trip, []⟩ where
  days _ := rfl
  spares before p scan hprefix := by
    have hlen := hprefix.length_le
    simp at hlen

variable [DecidableEq ι]

/-- **Day notes merge per day**: the writes made of each day by itself what they make of it one after
    another. The last patch that names a day leaves it as that patch made it, a readable day that none names
    stays, and none that a patch deletes loses a note that only entries hidden from the caller kept. -/
theorem day_notes_merge (py : Python) (textFloat : Text → Option Double) (trip₀ : Trip)
    (h : Run (Steps (Clients.step (step py textFloat))) (start trip₀) tr w) :
    (∀ day, w.store.trip.note day = through textFloat day (trip₀.note day) w.store.log) ∧
    (∀ day before p scan after, w.store.log = before ++ .patch p scan :: after → p.Names day →
      (∀ c ∈ after, ¬ c.Names day) →
      Settled textFloat (p.day (scan.invisible p.callerId) day
        (through textFloat day (trip₀.note day) before)) (w.store.trip.note day)) ∧
    (∀ day, Readable (trip₀.note day) → (∀ c ∈ w.store.log, ¬ c.Names day) →
      Settled textFloat (trip₀.note day) (w.store.trip.note day)) ∧
    ∀ before p scan, before ++ [.patch p scan] <+: w.store.log → ∀ day ∈ p.delete,
      (through textFloat day (trip₀.note day) before).any dayMetaHasContent = true →
      (∀ a ∈ scan, a.2.Hidden p.callerId day) →
      through textFloat day (trip₀.note day) (before ++ [.patch p scan]) =
        through textFloat day (trip₀.note day) before := by
  obtain ⟨hsound, -⟩ := (kept_sound py textFloat trip₀).run_steps (w := start trip₀)
    (sound_start trip₀) (fun _ => trivial) h
  refine ⟨hsound.days, fun day before p scan after hlog _ hafter => ?_, fun day hread hlog => ?_,
    hsound.spares⟩
  · have hcut : through textFloat day (trip₀.note day) w.store.log = through textFloat day
        (p.day (scan.invisible p.callerId) day (through textFloat day (trip₀.note day) before))
        after := by
      rw [hlog]
      exact List.foldl_append
    rw [hsound.days, hcut]
    exact (Settled.same _).through readable_patched hafter
  · rw [hsound.days]
    exact (Settled.same _).through hread hlog

/-! ## 6. Fixed runs -/

/-- A trip of user 1, with user 2 as a member. A memory lies on the 1st, a journal entry of user 2 on
    the 1st and one on the 2nd, and both days have a note. -/
def sharedTrip : Trip where
  lockVersion := 3
  dayMeta := some (.obj [(.valid "2024-07-01", .obj [(.valid "journal", .str "Up")]),
    (.valid "2024-07-02", .obj [(.valid "journal", .str "Down")])])
  owner := 1
  members := [2]
  content := ⟨[some "2024-07-01"], [], [(some 2, some "2024-07-01T08:00"), (some 2, some "2024-07-02")],
    [], []⟩

/-- User 1 sets the 3rd and deletes the first two days. -/
def clearing : DayMetaPatch where
  callerId := 1
  days := Table.ofEntries [(.valid "2024-07-03",
    [(.valid "journal", .str "Rest"), (.valid "mood", .str "good")])]
  delete := [.valid "2024-07-01", .valid "2024-07-02"]

def clearingRun : List (ℕ × Act) :=
  ([(0, .patch clearing), (0, .readRow)] : List (ℕ × Act)) ++
    (List.replicate 10 (0, .query) : List (ℕ × Act)) ++ ([(0, .write)] : List (ℕ × Act))

/-- While a structural save has the trip in memory, the patch is written; the save raises. -/
def overlappingRun : List (ℕ × Act) :=
  ([(1, .load)] : List (ℕ × Act)) ++ clearingRun ++ ([(1, .save [] sharedTrip.content)] : List (ℕ × Act))

/-- A library that reads nothing. -/
def bareLibrary : Python := ⟨fun _ => "", fun _ => none, fun _ => none⟩

abbrev sharedRun : Clients ℕ Local Shared → List (ℕ × Act) → Option (Clients ℕ Local Shared) :=
  exec (Clients.step (step bareLibrary fun _ => none))

/-- The note of the 2nd stays, whose only content is hidden from user 1. -/
theorem day_notes_merge_overlapping : ∃ w, sharedRun (start sharedTrip) overlappingRun = some w ∧
    w.store.log.length = 1 ∧ (w.store.trip.note (.valid "2024-07-02")).isSome = true ∧
    ∀ day, w.store.trip.note day = through (fun _ => none) day (sharedTrip.note day) w.store.log := by
  have hends : ((sharedRun (start sharedTrip) overlappingRun).any fun w =>
      w.store.log.length == 1 && (w.store.trip.note (.valid "2024-07-02")).isSome) = true := by
    decide +kernel
  obtain ⟨w, hw, hends⟩ := (Option.any_eq_true _ _).mp hends
  rw [Bool.and_eq_true, beq_iff_eq] at hends
  have hrun : Run (Steps (Clients.step (step bareLibrary fun _ => none))) (start sharedTrip)
      overlappingRun w := run_iff_exec.mpr hw
  exact ⟨w, hw, hends.1, hends.2, (day_notes_merge _ _ _ hrun).1⟩

/-- A field that no load reads. -/
def hasMood : Json → Bool
  | .obj e => (Obj.get e "mood").isSome
  | _ => false

/-- The one patch of the 1st, by user 1. -/
def clearsFirst : List Commit → Bool
  | [.patch p _] => p.callerId == 1 && p.delete.contains (.valid "2024-07-01")
  | _ => false

/-- A patch of the 3rd with such a field, and then a save. -/
def savesThird : List Commit → Bool
  | [.patch p _, .save _] => (p.days.find (.valid "2024-07-03")).any fun fields => hasMood (.obj fields)
  | _ => false

/-- **Content that the caller sees keeps no note**, though another member's lies on the day as well; and
    **a save writes only the fields that a load reads**. -/
theorem notes_fail_cleared : (¬ ∀ (tr : List (ℕ × Act)) w,
      Run (Steps (Clients.step (step bareLibrary fun _ => none))) (start sharedTrip) tr w →
      ∀ p scan, w.store.log = [.patch p scan] → p.callerId ≠ 2 → ∀ day ∈ p.delete,
        (∃ j ∈ sharedTrip.content.journals, j.1 = some 2 ∧ day = .valid (dayKey j.2)) →
        w.store.trip.note day = sharedTrip.note day) ∧
    ¬ ∀ (tr : List (ℕ × Act)) w,
      Run (Steps (Clients.step (step bareLibrary fun _ => none))) (start sharedTrip) tr w →
      ∀ p scan dates, w.store.log = [.patch p scan, .save dates] →
        ∀ day fields, p.days.find day = some fields → sharedTrip.note day = none →
          w.store.trip.note day = some (.obj fields) := by
  constructor
  · intro hclaim
    have hends : ((sharedRun (start sharedTrip) clearingRun).any fun w =>
        clearsFirst w.store.log &&
        (w.store.trip.note (.valid "2024-07-01")).isNone) = true := by decide +kernel
    obtain ⟨w, hw, hends⟩ := (Option.any_eq_true _ _).mp hends
    rw [Bool.and_eq_true] at hends
    obtain ⟨hlog, hnote⟩ := hends
    unfold clearsFirst at hlog
    split at hlog
    · rename_i p scan hlogged
      rw [Bool.and_eq_true, beq_iff_eq] at hlog
      have hcaller : p.callerId ≠ 2 := by omega
      have hkept := hclaim clearingRun w (run_iff_exec.mpr hw) p scan hlogged hcaller
        (.valid "2024-07-01") (by simpa using hlog.2)
        ⟨(some 2, some "2024-07-01T08:00"), by decide, rfl, by decide⟩
      have hstored : (sharedTrip.note (.valid "2024-07-01")).isSome = true := by decide +kernel
      rw [← hkept, Option.isNone_iff_eq_none.mp hnote] at hstored
      cases hstored
    · cases hlog
  · intro hclaim
    have hends : ((sharedRun (start sharedTrip)
          (clearingRun ++ [(1, .load), (1, .save [] sharedTrip.content)])).any fun w =>
        savesThird w.store.log &&
        (w.store.trip.note (.valid "2024-07-03")).any fun v => !hasMood v) = true := by
      decide +kernel
    obtain ⟨w, hw, hends⟩ := (Option.any_eq_true _ _).mp hends
    rw [Bool.and_eq_true] at hends
    obtain ⟨hlog, hnote⟩ := hends
    unfold savesThird at hlog
    split at hlog
    · rename_i p scan dates hlogged
      obtain ⟨fields, hfields, hmood⟩ := (Option.any_eq_true _ _).mp hlog
      have hkept := hclaim _ w (run_iff_exec.mpr hw) p scan dates hlogged _ fields hfields (by decide +kernel)
      rw [hkept, Option.any_some, hmood] at hnote
      cases hnote
    · cases hlog

end Runs

end TraxJourney.Days
