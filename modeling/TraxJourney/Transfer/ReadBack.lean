/-
  File:      Transfer/ReadBack.lean
  Subject:   What is written of a trip is read back: every record of it, whatever it holds.

  * **`readTrip_traxjDocument`** -- a trip whose width is not zero, but for its lock version and for
    the settings that the file carries.
-/
import TraxJourney.Transfer.Project

namespace TraxJourney.Transfer

open Lib Schema

/-! ## 1. Lists -/

theorem mapM_map {α β : Type} {f : β → Option α} {g : α → β} {xs : List α}
    (h : ∀ x ∈ xs, f (g x) = some x) : (xs.map g).mapM f = some xs := by
  induction xs with
  | nil => rfl
  | cons x xs ih =>
    rw [List.map_cons, List.mapM_cons, h x List.mem_cons_self, ih fun y hy => h y (List.mem_cons_of_mem _ hy)]
    rfl

/-! ## 2. Activities -/

theorem activityIdOrNone_idJson (id : Option ActivityId) : activityIdOrNone (idJson id) = some id := by
  cases id with
  | none => rfl
  | some n => exact dif_pos n.property

variable {data : Obj} {key : String}

theorem readTrack_trackJson {track : Track} (h : data.get key = some (trackJson track)) :
    readTrack data key = some track := by
  unfold readTrack
  rw [h]
  cases track <;> rfl

theorem timeText_ne (t : Instant) : timeText t ≠ "" := by
  intro h
  have hz : 'Z' ∉ t.isoformat := not_mem_isoformat (by decide) (by decide) t
  have hutc : utc ≠ [] := by decide
  have hback := replaceAll_back hutc hz
  have hnil : replaceAll utc ['Z'] t.isoformat = [] := by
    rw [← String.toList_ofList (l := replaceAll utc ['Z'] t.isoformat)]
    exact congrArg String.toList h
  rw [hnil] at hback
  have hempty : t.isoformat = [] := hback.symm
  simp [Instant.isoformat] at hempty

theorem readStart_timeText {py : Python} {now : Instant} {t : Instant}
    (h : data.get key = some (.str (timeText t))) : readStart py now data key = some t := by
  unfold readStart
  rw [h]
  show (if timeText t = "" then some now else py.readTime (timeText t)) = some t
  rw [if_neg (timeText_ne t), readTime_timeText]

theorem readNested_entries {t : Layout} {r : Record t} (h : data.get key = some (.obj r.entries)) :
    readNested t data key = some r := by
  have hback := r.read_written []
  rw [List.append_nil] at hback
  unfold readNested
  rw [h]
  exact congrArg some hback

theorem fromStravaApi_toTraxjDict (py : Python) (now : Instant × Instant) (a : Activity) :
    fromStravaApi py now (.obj a.toTraxjDict) = some a := by
  have hid : Obj.get a.toTraxjDict "id" = some (idJson a.id) := Record.get_beside (by decide +kernel) _ _
  have hstart : Obj.get a.toTraxjDict "start_date" = some (.str (timeText a.startDate)) :=
    Record.get_beside (by decide +kernel) _ _
  have hlocal : Obj.get a.toTraxjDict "start_date_local" = some (.str (timeText a.startDateLocal)) :=
    Record.get_beside (by decide +kernel) _ _
  have hmap : Obj.get a.toTraxjDict "map" = some (.obj a.map.entries) :=
    Record.get_beside (by decide +kernel) _ _
  have htrack : Obj.get a.toTraxjDict "elevation_profile" = some (trackJson a.elevationProfile) :=
    Record.get_beside (by decide +kernel) _ _
  have hstrava : Obj.get a.toTraxjDict "strava_id" = some (idJson a.stravaId) :=
    Record.get_beside (by decide +kernel) _ _
  have horiginal : Obj.get a.toTraxjDict "original_elevation_profile" =
      some (trackJson a.originalElevationProfile) := Record.get_beside (by decide +kernel) _ _
  have hfields : Record.read activityFields a.toTraxjDict = a.fields := a.fields.read_written _
  unfold fromStravaApi stravaIdOf
  dsimp only
  rw [hid, Option.getD_some, activityIdOrNone_idJson, readStart_timeText hstart,
    readStart_timeText hlocal, readNested_entries hmap, readTrack_trackJson htrack, hstrava,
    readTrack_trackJson horiginal, hfields]
  dsimp only
  rw [activityIdOrNone_idJson]
  rfl

theorem parseActivitiesOrLog_written (py : Python) (now : Clock) (activities : List Activity) :
    parseActivitiesOrLog py now (activities.map fun a => .obj a.toTraxjDict) = activities := by
  unfold parseActivitiesOrLog
  rw [List.zipIdx_map, List.filterMap_map]
  have hback : (fun r : Activity × ℕ => fromStravaApi py (now r.2) (.obj r.1.toTraxjDict)) =
      fun r => some r.1 := funext fun r => fromStravaApi_toTraxjDict py (now r.2) r.1
  calc activities.zipIdx.filterMap _ = activities.zipIdx.filterMap fun r => some r.1 :=
        congrArg (List.filterMap · _) hback
    _ = activities := by rw [List.filterMap_eq_map', List.zipIdx_map_fst]

/-! ## 3. Items -/

theorem fromDict_toDict (s : Segment) : Segment.fromDict s.toDict = some s := by
  have hstart : Obj.get s.toDict "start" = some (.obj s.start.entries) := Record.get_beside (by decide) _ _
  have hstop : Obj.get s.toDict "end" = some (.obj s.stop.entries) := Record.get_beside (by decide) _ _
  have hfields : Record.read segmentFields s.toDict = s.fields := s.fields.read_written _
  unfold Segment.fromDict
  rw [readNested_entries hstart, readNested_entries hstop, hfields]
  rfl

theorem read_entries {t : Layout} (r : Record t) : Record.read t r.entries = r := by
  have hback := r.read_written []
  rwa [List.append_nil] at hback

theorem deserialiseItem_serialiseItem (i : ProjectItem) : deserialiseItem (serialiseItem i) = some i := by
  cases i with
  | activity activityId => rfl
  | memory m => exact congrArg (fun r => some (ProjectItem.memory r)) (m.read_written unread)
  | journal j => exact congrArg (fun r => some (ProjectItem.journal r)) (read_entries j)
  | encounter e => exact congrArg (fun r => some (ProjectItem.encounter r)) (read_entries e)
  | segment s => exact congrArg (Option.map ProjectItem.segment) (fromDict_toDict s)

/-! ## 4. Counters and days -/

theorem readCount_json (hkey : key ≠ "name") (c : Count) :
    readCount key (c.json key) = some c := by
  have hname : Obj.get [(.valid "name", c.name), (.valid key, .num (.float c.number))] key =
      some (.num (.float c.number)) := by
    have hne : ¬ Text.valid "name" = .valid key := fun h => hkey (Text.valid.inj h).symm
    rw [Obj.get_cons, if_neg hne, Obj.get_cons, if_pos rfl]
  show (do
    let name ← some c.name
    let number ← toFloat ((Obj.get _ key).getD (.int 0))
    some ({ name := name, number := number } : Count)) = some c
  rw [hname]
  rfl

theorem dayCountersFromJson_toJson (counters : List Count) :
    dayCountersFromJson (dayCountersToJson counters) = some counters := by
  show ((counters.map (·.json "value")).filter isNamed).mapM (readCount "value") = some counters
  have hnamed : (counters.map (·.json "value")).filter isNamed = counters.map (·.json "value") := by
    refine List.filter_eq_self.mpr fun v hv => ?_
    obtain ⟨c, -, rfl⟩ := List.mem_map.mp hv
    rfl
  rw [hnamed]
  exact mapM_map fun c _ => readCount_json (by decide) c

theorem readDay_json (d : DayMeta) : readDay d.json = some d := by
  obtain ⟨fields, counters⟩ := d
  have hnull : ∀ f ∈ dayMetaFields.fields, f.missing = .null := by simp [dayMetaFields, plain]
  have hnone : Obj.get fields.entries "counters" = none := by
    have hkey : "counters" ∉ dayMetaFields.fields.map (·.name) := by decide
    have hbeside := Record.get_beside hkey fields []
    rwa [List.append_nil] at hbeside
  have hcounters : ∀ rest : Obj, Obj.get (fields.entries.withoutNulls ++ rest) "counters" =
      rest.get "counters" := by
    intro rest
    rw [Obj.get_append, Obj.get_withoutNulls fields.nodup, hnone]
    rfl
  have hback : ∀ (rest : Obj) (cs : List Count), (∀ f ∈ dayMetaFields.fields, rest.get f.name = none) →
      dayCountersFromJson ((rest.get "counters").getD .null) = some cs →
      readDay (.obj (fields.entries.withoutNulls ++ rest)) = some { fields := fields, counters := cs } := by
    intro rest cs hrest hcs
    unfold readDay
    dsimp only
    rw [hcounters, hcs, Option.map_some, fields.read_withoutNulls hnull hrest]
  cases counters with
  | nil => exact hback [] [] (fun _ _ => rfl) rfl
  | cons c counters =>
    refine hback [(.valid "counters", dayCountersToJson (c :: counters))] _ ?_ (dayCountersFromJson_toJson _)
    simp [dayMetaFields, plain, Obj.get_cons]

/-! ## 5. Trips -/

section

variable {data : Obj} {key : String}

theorem listAt_of_get {xs : List Json} (h : data.get key = some (.list xs)) : listAt data key = some xs := by
  unfold listAt
  rw [h]

theorem itemsOf_of_get {xs : List Json} (h : data.get "items" = some (.list xs)) :
    itemsOf data = some xs := by
  unfold itemsOf
  rw [h]

theorem listOrNone_of_get {xs : List Json} (h : data.get key = some (.list xs)) :
    listOrNone data key = some xs := by
  unfold listOrNone
  rw [h]
  rfl

theorem entriesOrNone_of_get {o : Obj} (h : data.get key = some (.obj o)) :
    entriesOrNone data key = some o := by
  unfold entriesOrNone
  rw [h]
  rfl

end

theorem settings_carried (p : Project) :
    settings.filter (fun key => (p.traxjDocument.get key).isSome) = settings := by
  have hwhere : ∀ key ∈ settings, key ∈ projectFields.fields.map (·.name) ∨
      key ∉ projectFields.fields.map (·.name) ∧ (key = "counters" ∨ key = "track_width") := by
    decide
  refine List.filter_eq_self.mpr fun key hkey => ?_
  rcases hwhere key hkey with hfield | ⟨hbeside, hother⟩
  · obtain ⟨f, hf, rfl⟩ := List.mem_map.mp hfield
    have hget := Layout.get_readEntries hf p.fields.entries
    rw [p.fields.fixed] at hget
    exact Option.isSome_of_eq_some (hget _)
  · show (Obj.get (p.fields.entries ++ _) key).isSome = true
    rw [Record.get_beside hbeside]
    rcases hother with rfl | rfl <;> rfl

theorem readTrip_traxjDocument (py : Python) (now : Clock) {p : Project}
    (hwidth : p.trackWidth.isZero = false) :
    readTrip py now p.traxjDocument = some { p with lockVersion := 0, settingsCarried := settings } := by
  have hfilter : entriesOrNone p.traxjDocument "filter_state" = some p.filterState.entries :=
    entriesOrNone_of_get (Record.get_beside (by decide) _ _)
  have hactivities : listAt p.traxjDocument "activities" =
      some (p.activities.map fun a => .obj a.toTraxjDict) :=
    listAt_of_get (Record.get_beside (by decide) _ _)
  have hitems : itemsOf p.traxjDocument = some (p.items.map serialiseItem) :=
    itemsOf_of_get (Record.get_beside (by decide) _ _)
  have hdays : entriesOrNone p.traxjDocument "day_meta" = some (p.dayMeta.map fun e => (e.1, e.2.json)) :=
    entriesOrNone_of_get (Record.get_beside (by decide) _ _)
  have hpeople : listAt p.traxjDocument "people" = some (p.people.map fun r => .obj r.entries) :=
    listAt_of_get (Record.get_beside (by decide) _ _)
  have hgroups : listAt p.traxjDocument "groups" = some (p.groups.map fun r => .obj r.entries) :=
    listAt_of_get (Record.get_beside (by decide) _ _)
  have hcounters : listOrNone p.traxjDocument "counters" = some (p.counters.map (·.json "start")) :=
    listOrNone_of_get (Record.get_beside (by decide) _ _)
  have htrackWidth : readWidth p.traxjDocument = some p.trackWidth := by
    have hget : p.traxjDocument.get "track_width" = some (.num (.float p.trackWidth)) :=
      Record.get_beside (by decide) _ _
    have htruthy : (Json.num (.float p.trackWidth)).truthy = true := by
      show (!p.trackWidth.isZero) = true
      rw [hwidth]
      rfl
    unfold readWidth
    rw [hget]
    exact if_pos htruthy
  have hfields : Record.read projectFields p.traxjDocument = p.fields := p.fields.read_written _
  have hrecords : ∀ {t : Layout} (rs : List (Record t)),
      (rs.map fun r => Json.obj r.entries).mapM (readRecord t) = some rs :=
    fun rs => mapM_map fun r _ => congrArg some (read_entries r)
  have hdayMeta : (p.dayMeta.map fun e => (e.1, e.2.json)).mapM
      (fun e => (readDay e.2).map fun day => (e.1, day)) = some p.dayMeta :=
    mapM_map fun e _ => by rw [readDay_json]; rfl
  unfold readTrip
  rw [hfilter, hactivities, hitems, hdays, hpeople, hgroups, hcounters, htrackWidth]
  simp only [Option.bind_eq_bind, Option.bind_some]
  rw [mapM_map fun i _ => deserialiseItem_serialiseItem i, hdayMeta, hrecords, hrecords,
    mapM_map fun c _ => readCount_json (by decide) c, parseActivitiesOrLog_written, settings_carried,
    hfields, read_entries]
  rfl

end TraxJourney.Transfer
