/-
  File:      Transfer/RoundTrip.lean
  Subject:   A trip file that is accepted: read in full, and written to a file that is accepted as it
             stands and read back to the same trip.

  * **`trip_file_round_trip`** -- the round trip.
-/
import TraxJourney.Transfer.Rewritten
import TraxJourney.Track.ElevationGain

namespace TraxJourney.Transfer

open Lib Schema

/-! ## 1. The width of a track -/

theorem not_isZero_of_widthFits {d : Double} (hfinite : d.exact.isSome = true)
    (h : widthFits (.float d) = true) : d.isZero = false := by
  obtain ⟨q, hq⟩ := Option.isSome_iff_exists.mp hfinite
  change d.exact.all (fun q => decide (0 < q ∧ q ≤ (trackWidthMax : ℚ))) = true at h
  rw [hq] at h
  have hpos : 0 < q := (of_decide_eq_true h).1
  cases d with
  | finite negative magnitude =>
    cases Option.some.inj hq
    by_contra hzero
    have hmagnitude : magnitude = 0 := by simpa [Double.isZero] using hzero
    rw [hmagnitude] at hpos
    cases negative <;> simp [Double.signed] at hpos
  | _ => rfl

theorem widthFits_ofInt {n : ℤ} (h : widthFits (.int n) = true) : widthFits (.float (.ofInt n)) = true := by
  have hall : ∀ k ∈ List.range 51, 0 < k → widthFits (.float (.ofInt (k : ℕ))) = true := by decide +kernel
  have hbounds : (0 : ℚ) < n ∧ (n : ℚ) ≤ (trackWidthMax : ℚ) := of_decide_eq_true h
  have hpos : 0 < n := by exact_mod_cast hbounds.1
  have hle : n ≤ 50 := by exact_mod_cast hbounds.2
  obtain ⟨k, rfl⟩ := Int.eq_ofNat_of_zero_le hpos.le
  exact hall k (List.mem_range.mpr (by omega)) (by omega)

variable {d : Obj}

theorem readWidth_sound (h : ∀ v, d.get "track_width" = some v → Sound float.optional v)
    (hdraw : DrawableAt d "track_width") :
    ∃ w, readWidth d = some w ∧ w.exact.isSome = true ∧ widthFits (.float w) = true := by
  have hdefault : defaultWidth.exact.isSome = true ∧ widthFits (.float defaultWidth) = true := by
    decide +kernel
  unfold readWidth
  dsimp only
  cases hv : d.get "track_width" with
  | none => exact ⟨defaultWidth, rfl, hdefault⟩
  | some v =>
    rw [Option.getD_some]
    by_cases htruthy : v.truthy = true
    · rw [if_pos htruthy]
      rcases sound_optional (h v hv) with rfl | hfloat
      · cases htruthy
      · obtain ⟨w, hw, hfinite⟩ := toFloat_sound hfloat
        refine ⟨w, hw, hfinite, ?_⟩
        have hfits := hdraw v hv
        cases v with
        | num n =>
          change (decide ("track_width" ≠ "track_width") || widthFits n) = true at hfits
          have hwidth : widthFits n = true := by simpa using hfits
          cases n with
          | int n =>
            change (if (Double.ofInt n).exact.isSome = true then some (Double.ofInt n)
              else none) = some w at hw
            split at hw
            · exact Option.some.inj hw ▸ widthFits_ofInt hwidth
            · cases hw
          | float d => exact Option.some.inj hw ▸ hwidth
        | _ => cases hw
    · rw [if_neg htruthy]
      exact ⟨defaultWidth, rfl, hdefault⟩

/-! ## 2. Reading -/

theorem parseActivities_sound (py : Python) (now : Clock) {raw : List Json}
    (h : ∀ r ∈ raw, Sound (model (activityMembers py)) r) :
    List.Forall₂ (fun r a => ∃ t, fromStravaApi py t r = some a) raw
        (parseActivitiesOrLog py now raw) ∧
      ∀ a ∈ parseActivitiesOrLog py now raw, Sound (model (activityMembers py)) (.obj a.toTraxjDict) := by
  have hfrom : ∀ n, List.Forall₂ (fun r a => ∃ t, fromStravaApi py t r = some a) raw
        ((raw.zipIdx n).filterMap fun r => fromStravaApi py (now r.2) r.1) ∧
      ∀ a ∈ (raw.zipIdx n).filterMap fun r => fromStravaApi py (now r.2) r.1,
        Sound (model (activityMembers py)) (.obj a.toTraxjDict) := by
    induction raw with
    | nil => exact fun n => ⟨.nil, fun _ ha => absurd ha List.not_mem_nil⟩
    | cons r raw ih =>
      intro n
      obtain ⟨a, ha, hsound⟩ := activity_sound py (now n) (h r List.mem_cons_self)
      obtain ⟨hall, hsounds⟩ := ih (fun r' hr' => h r' (List.mem_cons_of_mem _ hr')) (n + 1)
      simp only [List.zipIdx_cons, List.filterMap_cons, ha]
      exact ⟨.cons ⟨_, ha⟩ hall, List.forall_mem_cons.mpr ⟨hsound, hsounds⟩⟩
  exact hfrom 0

theorem records_sound {t : Layout} {members : List Member} {data : Obj} {key : String}
    (hsuits : t.Suits members) (ht : goodLayout t) (hall : beside t members = [])
    (h : ∀ v, data.get key = some v → Sound (model members).listOf v) :
    ∃ rs, ((listAt data key).bind fun xs => xs.mapM (readRecord t)) = some rs ∧
      ∀ r ∈ rs, Sound (model members) (.obj r.entries) := by
  cases hv : data.get key with
  | none =>
    refine ⟨[], ?_, fun _ hr => absurd hr List.not_mem_nil⟩
    unfold listAt
    rw [hv]
    rfl
  | some v =>
    obtain ⟨xs, rfl, hxs⟩ := sound_listOf.mp (h v hv)
    have hone : ∀ x ∈ xs, ∃ r, readRecord t x = some r ∧ Sound (model members) (.obj r.entries) := by
      intro x hx
      obtain ⟨o, rfl, ho⟩ := sound_model.mp (hxs x hx)
      exact ⟨Record.read t o, rfl, sound_entries hsuits ht hall ho⟩
    obtain ⟨rs, hrs, -, hsound⟩ := mapM_sound hone
    exact ⟨rs, by rw [listAt_of_get hv]; exact hrs, hsound⟩

theorem sound_dictOf {s : Schema} {v : Json} : Sound (dictOf s) v ↔ ∃ entries, v = .obj entries ∧
      ∀ e ∈ entries, keyFault (.name e.1) = none ∧ Sound s e.2 := by
  constructor
  · rintro ⟨haccepts, hgood⟩
    obtain ⟨entries, rfl, hall⟩ := accepts_dictOf.mp haccepts
    refine ⟨entries, rfl, fun e he => ?_⟩
    obtain ⟨hkey, hvalue⟩ := goodEntries_iff.mp hgood e he
    exact ⟨hkey, hall e he, hvalue⟩
  · rintro ⟨entries, rfl, h⟩
    exact ⟨accepts_dictOf.mpr ⟨entries, rfl, fun e he => (h e he).2.accepts⟩,
      goodEntries_iff.mpr fun e he => ⟨(h e he).1, (h e he).2.good⟩⟩

theorem filterState_sound
    (h : ∀ v, d.get "filter_state" = some v → Sound (model filterStateMembers).optional v) :
    ∃ o, entriesOrNone d "filter_state" = some o ∧ SoundObj filterStateMembers o := by
  have hempty : SoundObj filterStateMembers [] := soundObj_nil (by simp [filterStateMembers])
  cases hv : d.get "filter_state" with
  | none => exact ⟨[], by unfold entriesOrNone; rw [hv]; rfl, hempty⟩
  | some v =>
    rcases sound_optional (h v hv) with rfl | hsound
    · exact ⟨[], by unfold entriesOrNone; rw [hv]; rfl, hempty⟩
    · obtain ⟨o, rfl, ho⟩ := sound_model.mp hsound
      exact ⟨o, entriesOrNone_of_get hv, ho⟩

theorem days_sound (h : ∀ v, d.get "day_meta" = some v → Sound (dictOf (model dayMetaMembers)).optional v) :
    ∃ days dayMeta, entriesOrNone d "day_meta" = some days ∧
      days.mapM (fun e => (readDay e.2).map fun day => (e.1, day)) = some dayMeta ∧
      ∀ e ∈ dayMeta, keyFault (.name e.1) = none ∧ Sound (model dayMetaMembers) e.2.json := by
  cases hv : d.get "day_meta" with
  | none => exact ⟨[], [], by unfold entriesOrNone; rw [hv]; rfl, rfl, fun _ he => absurd he List.not_mem_nil⟩
  | some v =>
    rcases sound_optional (h v hv) with rfl | hsound
    · exact ⟨[], [], by unfold entriesOrNone; rw [hv]; rfl, rfl,
        fun _ he => absurd he List.not_mem_nil⟩
    · obtain ⟨days, rfl, hdays⟩ := sound_dictOf.mp hsound
      have hone : ∀ e ∈ days, ∃ e', (readDay e.2).map (fun day => (e.1, day)) = some e' ∧
          keyFault (.name e'.1) = none ∧ Sound (model dayMetaMembers) e'.2.json := by
        intro e he
        obtain ⟨hkey, hday⟩ := hdays e he
        obtain ⟨day, hread, hsound⟩ := day_sound hday
        exact ⟨(e.1, day), by rw [hread]; rfl, hkey, hsound⟩
      obtain ⟨dayMeta, hread, -, hsounds⟩ := mapM_sound hone
      exact ⟨days, dayMeta, entriesOrNone_of_get hv, hread, hsounds⟩

theorem counters_sound (h : ∀ v, d.get "counters" = some v → Sound (model counterMembers).listOf.optional v) :
    ∃ cs, ((listOrNone d "counters").bind fun xs => xs.mapM (readCount "start")) = some cs ∧
      ∀ c ∈ cs, SoundCount c := by
  cases hv : d.get "counters" with
  | none => exact ⟨[], by unfold listOrNone; rw [hv]; rfl, fun _ hc => absurd hc List.not_mem_nil⟩
  | some v =>
    rcases sound_optional (h v hv) with rfl | hsound
    · exact ⟨[], by unfold listOrNone; rw [hv]; rfl, fun _ hc => absurd hc List.not_mem_nil⟩
    · obtain ⟨xs, rfl, hxs⟩ := sound_listOf.mp hsound
      obtain ⟨cs, hcs, -, hsounds⟩ := mapM_sound fun x hx => counter_sound (hxs x hx)
      exact ⟨cs, by rw [listOrNone_of_get hv]; exact hcs, hsounds⟩

/-- What is read of a trip: everything the parts of it are sound of, in one place. -/
structure SoundTrip (py : Python) (p : Project) : Prop where
  fields : ∃ d, SoundObj (tripMembers py) d ∧ Drawable d ∧ p.fields = Record.read projectFields d
  filterState : Sound (model filterStateMembers) (.obj p.filterState.entries)
  items : ∀ i ∈ p.items, SoundItem py (serialiseItem i)
  activities : ∀ a ∈ p.activities, Sound (model (activityMembers py)) (.obj a.toTraxjDict)
  people : ∀ r ∈ p.people, Sound (model personMembers) (.obj r.entries)
  groups : ∀ r ∈ p.groups, Sound (model groupMembers) (.obj r.entries)
  dayMeta : ∀ e ∈ p.dayMeta, keyFault (.name e.1) = none ∧ Sound (model dayMetaMembers) e.2.json
  counters : ∀ c ∈ p.counters, SoundCount c
  width : p.trackWidth.exact.isSome = true ∧ widthFits (.float p.trackWidth) = true
  lockVersion : p.lockVersion = 0

variable {py : Python}

theorem readTrip_sound (now : Clock) (hfault : fault py d = none) (hdraw : Drawable d) :
    ∃ p items activities, readTrip py now d = some p ∧ SoundTrip py p ∧
      itemsOf d = some items ∧ List.Forall₂ (fun raw i => deserialiseItem raw = some i) items p.items ∧
      listAt d "activities" = some activities ∧
      List.Forall₂ (fun raw a => ∃ t, fromStravaApi py t raw = some a) activities p.activities := by
  obtain ⟨hgood, hok, items, hitems, hitemsOk⟩ := fault_none_iff.mp hfault
  have hd : SoundObj (tripMembers py) d := ⟨hok, hgood⟩
  have hget : ∀ {key : String} {s : Schema}, (⟨key, s, false⟩ : Member) ∈ tripMembers py →
      ∀ v, Obj.get d key = some v → Sound s v := fun hm _ hv => hd.get hm hv
  obtain ⟨filter, hfilter, hfilterSound⟩ := filterState_sound (hget (by simp [tripMembers]))
  obtain ⟨days, dayMeta, hdays, hdayMeta, hdaySound⟩ := days_sound (hget (by simp [tripMembers]))
  obtain ⟨counters, hcounters, hcounterSound⟩ := counters_sound (hget (by simp [tripMembers]))
  have hpeopleGet : ∀ v, d.get "people" = some v → Sound (model personMembers).listOf v :=
    hget (by simp [tripMembers])
  obtain ⟨people, hpeople, hpeopleSound⟩ := records_sound (t := personFields) (by decide)
    (by decide) (by rfl) hpeopleGet
  have hgroupsGet : ∀ v, d.get "groups" = some v → Sound (model groupMembers).listOf v :=
    hget (by simp [tripMembers])
  obtain ⟨groups, hgroups, hgroupSound⟩ := records_sound (t := groupFields) (by decide)
    (by decide) (by rfl) hgroupsGet
  obtain ⟨width, hwidth, hwidthSound⟩ := readWidth_sound (hget (by simp [tripMembers]))
    (hdraw "track_width" (by decide))
  have hactivitiesGet : ∀ v, d.get "activities" = some v →
      Sound (model (activityMembers py)).listOf v := hget (by simp [tripMembers])
  obtain ⟨activities, hactivities, hactivitySound⟩ : ∃ xs, listAt d "activities" = some xs ∧
      ∀ x ∈ xs, Sound (model (activityMembers py)) x := by
    cases hv : d.get "activities" with
    | none => exact ⟨[], by unfold listAt; rw [hv], fun _ hx => absurd hx List.not_mem_nil⟩
    | some v =>
      obtain ⟨xs, rfl, hxs⟩ := sound_listOf.mp (hactivitiesGet v hv)
      exact ⟨xs, listAt_of_get hv, hxs⟩
  have hitemSound : ∀ raw ∈ items, ∃ i, deserialiseItem raw = some i ∧ SoundItem py (serialiseItem i) :=
    fun raw hraw => item_sound ⟨hitemsOk raw hraw, goodList_iff.mp (good_get hgood hitems) raw hraw⟩
  obtain ⟨parsed, hparsed, hall, hparsedSound⟩ := mapM_sound hitemSound
  obtain ⟨hparse, hparseSound⟩ := parseActivities_sound py now hactivitySound
  refine ⟨{ fields := Record.read projectFields d, filterState := Record.read filterStateFields filter,
            items := parsed, activities := parseActivitiesOrLog py now activities, people := people,
            groups := groups, dayMeta := dayMeta, counters := counters, trackWidth := width,
            lockVersion := 0,
            settingsCarried := settings.filter fun key => (d.get key).isSome },
    items, activities, ?_, ?_, itemsOf_of_get hitems, hall, hactivities, hparse⟩
  · unfold readTrip
    rw [hfilter, hactivities, itemsOf_of_get hitems, hdays, hpeople, hgroups, hcounters, hwidth]
    simp only [Option.bind_eq_bind, Option.bind_some]
    rw [hparsed, hdayMeta]
    rfl
  · exact
      { fields := ⟨d, hd, hdraw, rfl⟩
        filterState := sound_entries (by decide) (by decide) rfl hfilterSound
        items := hparsedSound
        activities := hparseSound
        people := hpeopleSound
        groups := hgroupSound
        dayMeta := hdaySound
        counters := hcounterSound
        width := hwidthSound
        lockVersion := rfl }

/-! ## 3. Writing -/

theorem beside_project (py : Python) : beside projectFields (tripMembers py) = [
    ⟨"filter_state", (model filterStateMembers).optional, false⟩,
    ⟨"items", (dictOf any).listOf, true⟩,
    ⟨"activities", (model (activityMembers py)).listOf, false⟩,
    ⟨"people", (model personMembers).listOf, false⟩, ⟨"groups", (model groupMembers).listOf, false⟩,
    ⟨"day_meta", (dictOf (model dayMetaMembers)).optional, false⟩,
    ⟨"counters", (model counterMembers).listOf.optional, false⟩,
    ⟨"track_width", float.optional, false⟩, ⟨"lock_version", any, false⟩] := by
  rfl

theorem sound_map {α : Type} {s : Schema} {f : α → Json} {xs : List α} (h : ∀ x ∈ xs, Sound s (f x)) :
    Sound s.listOf (.list (xs.map f)) := by
  refine sound_listOf.mpr ⟨_, rfl, fun v hv => ?_⟩
  obtain ⟨x, hx, rfl⟩ := List.mem_map.mp hv
  exact h x hx

theorem drawable_read {f : Field} (hmissing : drawable f.name f.missing = true)
    (hotherwise : drawable f.name f.otherwise = true) (h : DrawableAt d f.name) :
    drawable f.name (f.read d) = true := by
  have hread : drawable f.name ((d.get f.name).getD f.missing) = true := by
    cases hv : d.get f.name with
    | none => exact hmissing
    | some v => exact h v hv
  unfold Field.read Field.clean
  split
  · exact hread
  · exact hotherwise

theorem fault_traxjDocument {p : Project} (h : SoundTrip py p) :
    fault py p.traxjDocument = none ∧ Drawable p.traxjDocument := by
  obtain ⟨d, hd, hdraw, hfields⟩ := h.fields
  have hitems : Sound (dictOf any).listOf (.list (p.items.map serialiseItem)) := by
    refine sound_map fun i hi => ⟨?_, (h.items i hi).good⟩
    obtain ⟨entries, he, -⟩ := (h.items i hi).ok
    exact accepts_dictOf.mpr ⟨entries, he, fun e _ => accepts_any e.2⟩
  have hactivities := sound_map h.activities
  have hpeople := sound_map (f := fun r : Record personFields => Json.obj r.entries) h.people
  have hgroups := sound_map (f := fun r : Record groupFields => Json.obj r.entries) h.groups
  have hcounters := sound_map fun c hc => sound_counter (h.counters c hc)
  have hdays : Sound (dictOf (model dayMetaMembers)) (.obj (p.dayMeta.map fun e => (e.1, e.2.json))) := by
    refine sound_dictOf.mpr ⟨_, rfl, fun e he => ?_⟩
    obtain ⟨e', he', rfl⟩ := List.mem_map.mp he
    exact h.dayMeta e' he'
  have hwidth := sound_float h.width.1
  have hdoc : Sound (trip py) (.obj p.traxjDocument) := by
    unfold Project.traxjDocument Project.toDict
    rw [hfields]
    refine sound_written (of_decide_eq_true (by rfl)) (by decide) hd ⟨?_, ?_⟩
    · rw [beside_project]
      simp only [List.forall_mem_cons, List.not_mem_nil, false_imp_iff, implies_true, and_true]
      exact ⟨.of_some rfl h.filterState.toOptional.accepts, .of_some rfl hitems.accepts,
        .of_some rfl hactivities.accepts, .of_some rfl hpeople.accepts, .of_some rfl hgroups.accepts,
        .of_some rfl hdays.toOptional.accepts, .of_some rfl hcounters.toOptional.accepts,
        .of_some rfl hwidth.toOptional.accepts, .of_some rfl (accepts_any _)⟩
    · refine goodEntries_iff.mpr ?_
      simp only [List.forall_mem_cons, List.not_mem_nil, false_imp_iff, implies_true, and_true]
      rw [h.lockVersion]
      exact ⟨⟨rfl, by decide⟩, ⟨rfl, h.filterState.good⟩, ⟨rfl, hitems.good⟩, ⟨rfl, hactivities.good⟩,
        ⟨rfl, hpeople.good⟩, ⟨rfl, hgroups.good⟩, ⟨rfl, hdays.good⟩, ⟨rfl, hcounters.good⟩, rfl,
        hwidth.good⟩
  obtain ⟨_, he, hok⟩ := sound_model.mp hdoc
  cases he
  constructor
  · refine fault_none_iff.mpr ⟨hok.good, hok.ok, p.items.map serialiseItem,
      Record.get_beside (by decide) _ _, fun item hitem => ?_⟩
    obtain ⟨i, hi, rfl⟩ := List.mem_map.mp hitem
    exact (h.items i hi).ok
  · intro key hkey v hv
    by_cases hfield : key ∈ projectFields.fields.map (·.name)
    case pos =>
      have hdefaults : ∀ f ∈ projectFields.fields,
          drawable f.name f.missing = true ∧ drawable f.name f.otherwise = true := by decide
      obtain ⟨f, hf, rfl⟩ := List.mem_map.mp hfield
      have hget := Layout.get_readEntries hf d
      unfold Project.traxjDocument Project.toDict at hv
      rw [hfields] at hv
      obtain rfl := Option.some.inj ((hget _).symm.trans hv)
      exact drawable_read (hdefaults f hf).1 (hdefaults f hf).2 (hdraw f.name hkey)
    case neg =>
      have hother : ∀ key ∈ colourKeys ++ ["track_width"],
          key ∉ projectFields.fields.map (·.name) → key = "track_width" := by decide
      obtain rfl := hother key hkey hfield
      have hget : p.traxjDocument.get "track_width" = some (.num (.float p.trackWidth)) :=
        Record.get_beside hfield _ _
      obtain rfl := Option.some.inj (hget.symm.trans hv)
      exact h.width.2

/-! ## 4. What normalising leaves -/

variable {document : Obj}

theorem normaliseDays_get {key : String} (h : key ≠ "day_meta") :
    (normaliseDays py document).get key = document.get key := by
  unfold normaliseDays
  split
  · rw [Obj.get_set, if_neg h.symm]
  · rfl

theorem normaliseStyle_get {key : String} (h : key ∉ colourKeys ++ ["track_width"]) :
    (normaliseStyle document).get key = document.get key := by
  have hone : ∀ (o : Obj) (other : String), other ≠ key → (normaliseKey o other).get key = o.get key := by
    intro o other hne
    unfold normaliseKey
    split
    · split
      · rfl
      · rw [Obj.get_set, if_neg hne]
    · rfl
  unfold normaliseStyle
  generalize colourKeys ++ ["track_width"] = keys at h
  induction keys generalizing document with
  | nil => rfl
  | cons first keys ih =>
    rw [List.foldl_cons, ih fun hmem => h (List.mem_cons_of_mem _ hmem)]
    exact hone document first fun heq => h (heq ▸ List.mem_cons_self)

theorem listAt_set (o : Obj) (key : String) (xs : List Json) : listAt (o.set key (.list xs)) key = some xs :=
  listAt_of_get (by rw [Obj.get_set, if_pos rfl])

theorem normalise_keeps {elevationGain : GainOf} {normal : Obj}
    (h : normalise py elevationGain document = some normal) :
    normal.get "items" = document.get "items" ∧ ∀ checked, listAt normal "activities" = some checked →
        ∃ raw, listAt document "activities" = some raw ∧
          raw.mapM (normaliseActivity elevationGain raw) = some checked := by
  have hkept : ∀ key, key ≠ "day_meta" → key ∉ colourKeys ++ ["track_width"] →
      (normaliseStyle (normaliseDays py document)).get key = document.get key :=
    fun key hday hstyle => (normaliseStyle_get hstyle).trans (normaliseDays_get hday)
  have hactivities := hkept "activities" (by decide) (by decide)
  have hitems := hkept "items" (by decide) (by decide)
  unfold normalise at h
  dsimp only at h
  split at h
  · rename_i raw hraw
    obtain ⟨repaired, hrepaired, hset⟩ := Option.bind_eq_some_iff.mp h
    obtain rfl := Option.some.inj hset
    refine ⟨?_, fun checked hchecked => ⟨raw, listAt_of_get (hactivities.symm.trans hraw), ?_⟩⟩
    · rw [Obj.get_set, if_neg (by decide)]
      exact hitems
    · rw [← Option.some.inj ((listAt_set _ _ repaired).symm.trans hchecked)]
      exact hrepaired
  · rename_i hother
    obtain rfl := Option.some.inj h
    refine ⟨hitems, fun checked hchecked => ?_⟩
    unfold listAt at hchecked ⊢
    rw [hactivities] at hchecked hother
    split at hchecked
    · exact ⟨[], rfl, hchecked⟩
    · rename_i xs hxs
      exact absurd hxs (hother xs)
    · cases hchecked

/-! ## 5. The round trip -/

/-- **Every item and every activity of a document is in the trip** that is read of it, in order: the
    activities as they are once repaired. -/
structure ReadInFull (py : Python) (elevationGain : GainOf) (document : Obj) (p : Project) : Prop where
  items : ∃ items, itemsOf document = some items ∧
    List.Forall₂ (fun raw i => deserialiseItem raw = some i) items p.items
  activities : ∃ raw repaired, listAt document "activities" = some raw ∧
    raw.mapM (normaliseActivity elevationGain raw) = some repaired ∧
    List.Forall₂ (fun r a => ∃ now, fromStravaApi py now r = some a) repaired p.activities

theorem fromDict_of_check {elevationGain : GainOf} {now : Clock} {checked : Obj} {p : Project}
    (hitems : (document.get "items").isSome = true) (hcheck : check py elevationGain document = .ok checked)
    (hread : readTrip py now checked = some p) :
    fromDict py elevationGain now (.obj document) = .ok p := by
  have hsome : ¬ (document.get "items").isNone = true := by
    rw [← Option.not_isSome, hitems]
    decide
  unfold fromDict
  dsimp only
  rw [if_neg hsome, hcheck]
  dsimp only
  rw [hread]

/-- **A trip file that is accepted**: checking it again changes nothing, all of it is read, what is
    written of the trip is accepted as it stands, and is read back to the same trip. -/
theorem trip_file_round_trip (py : Python) (elevationGain : GainOf) (now now' : Clock)
    {document checked : Obj} (h : check py elevationGain document = .ok checked) :
    check py elevationGain checked = .ok checked ∧
    ∃ p p', fromDict py elevationGain now (.obj document) = .ok p ∧ ReadInFull py elevationGain document p ∧
      check py elevationGain p.traxjDocument = .ok p.traxjDocument ∧
      fromDict py elevationGain now' (.obj p.traxjDocument) = .ok p' ∧
      { p' with lockVersion := p.lockVersion, settingsCarried := p.settingsCarried } = p := by
  obtain ⟨hnormal, hfault⟩ := check_ok h
  obtain ⟨hitemsKept, hactivitiesKept⟩ := normalise_keeps hnormal
  obtain ⟨p, items, activities, hread, hsound, hitems, hall, hactivities, hparsed⟩ :=
    readTrip_sound now hfault (drawable_of_normalise hnormal)
  obtain ⟨hwritten, hdraw⟩ := fault_traxjDocument hsound
  have hagain : check py elevationGain p.traxjDocument = .ok p.traxjDocument :=
    check_of_fault_none hwritten hdraw
  have hback := readTrip_traxjDocument py now' (not_isZero_of_widthFits hsound.width.1 hsound.width.2)
  have hcontent : (document.get "items").isSome = true := by
    rw [← hitemsKept]
    unfold itemsOf at hitems
    split at hitems
    · rename_i hget
      rw [hget]
      rfl
    · cases hitems
  have hpresent : (p.traxjDocument.get "items").isSome = true :=
    Option.isSome_of_eq_some (Record.get_beside (by decide) _ _)
  obtain ⟨raw, hraw, hrepaired⟩ := hactivitiesKept activities hactivities
  refine ⟨check_accepted h, p, _, fromDict_of_check hcontent h hread, ⟨⟨items, ?_, hall⟩, ?_⟩, hagain,
    fromDict_of_check hpresent hagain hback, rfl⟩
  · unfold itemsOf at hitems ⊢
    rwa [hitemsKept] at hitems
  · exact ⟨raw, activities, hraw, hrepaired, hparsed⟩

/-- `elevation_gain(elevs, dists)`. -/
def serverGain : GainOf := fun elevs dists => Track.elevationGain doubles elevs (some dists) none

/-- A library that reads no route, and no date but the one `isoformat` writes. -/
def plainPython : Python where
  floatText := fun _ => "2.5"
  loads := fun _ => none
  otherForms := fun _ => none

/-- A trip of one activity and one memory, from before the format was checked: a colour of no client,
    a note that is a number, and an elapsed time that is no measurement. -/
def oldTrip : Obj :=
  [(.valid "name", .str "Via Alpina"), (.valid "track_color", .str "orange"), (.valid "items", .list [
      .obj [(.valid "item_type", .str "activity"), (.valid "activity_id", .int 7)],
      .obj [(.valid "item_type", .str "memory"),
        (.valid "memory", .obj [(.valid "id", .int 3), (.valid "date", .str "2024-07-01")])]]),
   (.valid "activities", .list [.obj [
      (.valid "id", .int 7), (.valid "name", .str "Stage 1"), (.valid "source", .str "gpx"),
      (.valid "start_date", .str "2024-07-01T08:00:00Z"),
      (.valid "moving_time", .int 3600), (.valid "elapsed_time", .int 2000000000),
      (.valid "total_elevation_gain", .int 60),
      (.valid "elevation_profile", .obj [ (.valid "distances_km", .list [.int 0, .int 1, .int 2]),
        (.valid "elevations_m", .list [.int 100, .int 160, .int 130])])]]),
   (.valid "day_meta", .obj [(.valid "2024-07-01", .obj [(.valid "weather", .int 21),
      (.valid "counters", .obj [(.valid "passes", .int 2)])])])]

def stillClock : Clock := fun _ => (noon, noon)
where
  noon : Instant := ⟨⟨2024, 7, 1, 12, 0, 0, 0, none⟩, by decide⟩

theorem oldTrip_round_trip : ∃ checked, check plainPython serverGain oldTrip = .ok checked ∧
      check plainPython serverGain checked = .ok checked ∧
      ∃ p p', fromDict plainPython serverGain stillClock (.obj oldTrip) = .ok p ∧
        ReadInFull plainPython serverGain oldTrip p ∧
        check plainPython serverGain p.traxjDocument = .ok p.traxjDocument ∧
        fromDict plainPython serverGain stillClock (.obj p.traxjDocument) = .ok p' ∧
        { p' with lockVersion := p.lockVersion, settingsCarried := p.settingsCarried } = p := by
  have haccepted : (match check plainPython serverGain oldTrip with
      | .ok _ => true
      | .error _ => false) = true := by decide +kernel
  cases hcheck : check plainPython serverGain oldTrip with
  | error raised =>
    rw [hcheck] at haccepted
    cases haccepted
  | ok checked => exact ⟨checked, rfl, trip_file_round_trip _ _ stillClock stillClock hcheck⟩

end TraxJourney.Transfer
