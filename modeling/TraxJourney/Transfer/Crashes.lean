/-
  File:      Transfer/Crashes.lean
  Subject:   The one file that is neither read nor refused: an activity whose profile has no samples,
             beside a figure that is to be measured from it.

  * **`fromDict_returns_iff`** -- every other file is read, or refused as no trip file.
-/
import TraxJourney.Track.Readings
import TraxJourney.Transfer.RoundTrip

namespace TraxJourney.Transfer

open Lib Schema

/-! ## 1. Measuring -/

theorem plausible_below {v : Json} {n : Number} (h : plausibleElevation v = some n) : Below 20000 n := by
  cases v with
  | num m =>
    change (if m.within elevationMinM elevationMaxM then some m else none) = some n at h
    split at h
    · rename_i hwithin
      obtain rfl := Option.some.inj h
      obtain ⟨q, hq, hbounds⟩ := (Option.any_eq_true _ _).mp hwithin
      obtain ⟨hlo, hhi⟩ := of_decide_eq_true hbounds
      refine ⟨q, hq, abs_le.mpr ⟨?_, ?_⟩⟩
      · exact le_trans (by norm_num [elevationMinM]) hlo
      · exact hhi.trans (by norm_num [elevationMaxM])
    · cases h
  | _ => cases h

theorem finite_exact {v : Json} {n : Number} (h : finiteOrNone v = some n) : n.exact.isSome = true := by
  cases v with
  | num m =>
    change (if m.exact.isSome then some m else none) = some n at h
    split at h
    · rename_i hsome
      exact Option.some.inj h ▸ hsome
    · cases h
  | _ => cases h

theorem serverGain_some (es ds : List Json) :
    ∃ gain, serverGain (es.filterMap plausibleElevation) (ds.filterMap finiteOrNone) = some gain := by
  refine Track.elevationGain_readings (fun x hx => ?_) fun xs hxs d hd => ?_
  · obtain ⟨v, -, hv⟩ := List.mem_filterMap.mp hx
    exact plausible_below hv
  · obtain rfl := Option.some.inj hxs
    obtain ⟨v, -, hv⟩ := List.mem_filterMap.mp hd
    exact finite_exact hv

theorem maximum_none_iff {xs : List Number} : Number.maximum xs = none ↔ xs = [] := by
  cases xs <;> simp [Number.maximum]

theorem minimum_none_iff {xs : List Number} : Number.minimum xs = none ↔ xs = [] := by
  cases xs <;> simp [Number.minimum]

theorem readings_nil_iff {p : Profile} (h : p.needsRepair = false) :
    p.elevationsM.filterMap plausibleElevation = [] ↔ p.elevationsM = [] := by
  constructor
  · intro hnil
    unfold Profile.needsRepair at h
    rw [Bool.not_eq_false', Bool.and_eq_true, List.all_eq_true, List.all_eq_true] at h
    cases hes : p.elevationsM with
    | nil => rfl
    | cons e es =>
      obtain ⟨n, hn⟩ := Option.isSome_iff_exists.mp (h.2 e (hes ▸ List.mem_cons_self))
      have hmem : n ∈ p.elevationsM.filterMap plausibleElevation :=
        List.mem_filterMap.mpr ⟨e, hes ▸ List.mem_cons_self, hn⟩
      rw [hnil] at hmem
      cases hmem
  · intro hnil
    rw [hnil]
    rfl

/-- A profile without samples, all of its distances finite: no repair is seen to be needed. -/
def Profile.isEmpty (p : Profile) : Bool :=
  p.elevationsM.isEmpty && p.distancesKm.all fun d => (finiteOrNone d).isSome

variable {profile : Option Profile}

theorem measured_none_iff :
    measured serverGain profile = none ↔ profile.any Profile.isEmpty = true := by
  cases profile with
  | none => simp [measured]
  | some p =>
    cases hneeds : p.needsRepair with
    | true =>
      have hnot : p.isEmpty = false := by
        by_contra hempty
        rw [Bool.not_eq_false, Profile.isEmpty, Bool.and_eq_true, List.isEmpty_iff] at hempty
        rw [Profile.needsRepair, hempty.1, hempty.2] at hneeds
        cases hneeds
      simp [measured, Option.filter, hneeds, hnot]
    | false =>
      obtain ⟨gain, hgain⟩ := serverGain_some p.elevationsM p.distancesKm
      have hempty : p.isEmpty = true ↔ p.elevationsM = [] := by
        unfold Profile.needsRepair at hneeds
        rw [Bool.not_eq_false', Bool.and_eq_true] at hneeds
        rw [Profile.isEmpty, hneeds.1, Bool.and_true, List.isEmpty_iff]
      rw [Option.any_some, hempty, ← readings_nil_iff hneeds]
      have hkept : (some p).filter (fun p => !p.needsRepair) = some p := by simp [Option.filter, hneeds]
      unfold measured
      rw [hkept]
      simp only [Option.bind_eq_bind]
      rw [hgain, Option.bind_some, Option.bind_eq_none_iff]
      constructor
      · intro h
        by_contra hne
        obtain ⟨high, hhigh⟩ := Option.ne_none_iff_exists'.mp (mt maximum_none_iff.mp hne)
        obtain ⟨low, hlow⟩ := Option.ne_none_iff_exists'.mp (mt minimum_none_iff.mp hne)
        have hnone := h high hhigh
        rw [hlow] at hnone
        cases hnone
      · intro hnil high hhigh
        rw [maximum_none_iff.mpr hnil] at hhigh
        cases hhigh

/-! ## 2. Figures -/

theorem cleaned_not_empty {p q : Profile} (h : cleanElevationProfile p = some q) : q.isEmpty = false := by
  unfold cleanElevationProfile at h
  dsimp only at h
  split at h
  · cases h
  · rename_i hsamples
    obtain rfl := Option.some.inj h
    unfold Profile.isEmpty interpolateElevationGaps
    rw [Bool.and_eq_false_iff, List.isEmpty_eq_false_iff]
    left
    rw [← List.length_pos_iff, List.length_map, List.length_map, List.length_range, List.length_map]
    omega

def Figures.bad (given : Figures) : Bool :=
  badGain given.gain || badElevation given.high || badElevation given.low

theorem plausible_none_iff {given : Figures} :
    plausibleFigures serverGain profile given = none ↔
      given.bad = true ∧ profile.any Profile.isEmpty = true := by
  unfold plausibleFigures
  change (if given.bad = true then _ else _) = none ↔ _
  by_cases hbad : given.bad = true
  · rw [if_pos hbad, Option.map_eq_none_iff, measured_none_iff]
    exact (and_iff_right hbad).symm
  · rw [if_neg hbad]
    exact ⟨nofun, fun h => absurd h.1 hbad⟩

theorem repairElevations_none_iff {given : Figures} {byApp : Bool} :
    repairElevations serverGain profile given byApp = none ↔
      given.bad = true ∧ profile.any Profile.isEmpty = true := by
  unfold repairElevations
  dsimp only
  cases hrepaired : profile.any Profile.rebuilt with
  | true =>
    -- what is rebuilt has samples, and what needs a repair had some
    obtain ⟨p, rfl, hp⟩ := (Option.any_eq_true _ _).mp hrepaired
    have hempty : p.isEmpty = false := by
      by_contra hempty
      rw [Bool.not_eq_false] at hempty
      have hnone := measured_none_iff.mpr ((Option.any_some).trans hempty)
      unfold Profile.rebuilt at hp
      rw [Bool.and_eq_true, Bool.and_eq_true] at hp
      simp [measured, Option.filter, hp.1.1] at hnone
    have hcleaned : ∃ m, measured serverGain ((some p).bind cleanElevationProfile) = some m := by
      rw [← Option.isSome_iff_exists, Option.isSome_iff_ne_none, ne_eq, measured_none_iff]
      rintro hany
      obtain ⟨q, hq, hqempty⟩ := (Option.any_eq_true _ _).mp hany
      rw [cleaned_not_empty hq] at hqempty
      cases hqempty
    obtain ⟨m, hm⟩ := hcleaned
    rw [if_pos rfl, Option.any_some, hempty]
    have hkept : ∃ kept, remeasured serverGain ((some p).bind cleanElevationProfile)
        (true && byApp) given = some kept := by
      unfold remeasured
      rw [hm]
      split
      · exact ⟨_, rfl⟩
      · exact ⟨_, rfl⟩
    obtain ⟨kept, hkept⟩ := hkept
    have hplausible : ∃ figures, plausibleFigures serverGain ((some p).bind cleanElevationProfile) kept =
        some figures := by
      unfold plausibleFigures
      rw [hm]
      split
      · exact ⟨_, rfl⟩
      · exact ⟨_, rfl⟩
    obtain ⟨figures, hplausible⟩ := hplausible
    rw [hkept, Option.bind_some, hplausible]
    simp
  | false =>
    rw [if_neg Bool.false_ne_true, Bool.false_and]
    show ((some given).bind _) = none ↔ _
    rw [Option.bind_some, Option.map_eq_none_iff, plausible_none_iff]

def givenFigures (pre : String) (act : Obj) : Figures :=
  { gain := (act.get (pre ++ "total_elevation_gain")).getD .null
    high := (act.get (pre ++ "elev_high")).getD .null
    low := (act.get (pre ++ "elev_low")).getD .null }

/-- A figure is to be measured, every figure being a number or null, from a profile without samples. -/
def unmeasurable (pre : String) (act : Obj) : Bool :=
  let given := givenFigures pre act
  (isReading given.gain && isReading given.high && isReading given.low) && given.bad &&
    (profileAt act (pre ++ "elevation_profile")).any fun p => p.2.isEmpty

theorem repairFigures_none_iff {pre : String} {byApp : Bool} {act : Obj} :
    repairFigures serverGain pre byApp act = none ↔ unmeasurable pre act = true := by
  have hrepair : repairElevations serverGain
      ((profileAt act (pre ++ "elevation_profile")).map (·.2)) (givenFigures pre act) byApp = none ↔
        (givenFigures pre act).bad = true ∧
          ((profileAt act (pre ++ "elevation_profile")).map (·.2)).any Profile.isEmpty = true :=
    repairElevations_none_iff
  have hany : ((profileAt act (pre ++ "elevation_profile")).map (·.2)).any Profile.isEmpty =
      (profileAt act (pre ++ "elevation_profile")).any fun p => p.2.isEmpty := by
    cases profileAt act (pre ++ "elevation_profile") <;> rfl
  rw [hany] at hrepair
  change (if (!(isReading (givenFigures pre act).gain && isReading (givenFigures pre act).high &&
      isReading (givenFigures pre act).low)) = true then some act else
    (repairElevations serverGain ((profileAt act (pre ++ "elevation_profile")).map (·.2))
      (givenFigures pre act) byApp).bind _) = none ↔
    (((isReading (givenFigures pre act).gain && isReading (givenFigures pre act).high &&
      isReading (givenFigures pre act).low) && (givenFigures pre act).bad) &&
      (profileAt act (pre ++ "elevation_profile")).any fun p => p.2.isEmpty) = true
  generalize (isReading (givenFigures pre act).gain && isReading (givenFigures pre act).high &&
      isReading (givenFigures pre act).low) = readings
  cases readings with
  | false => simp
  | true =>
    rw [Bool.not_true, if_neg Bool.false_ne_true, Bool.true_and, Bool.and_eq_true, ← hrepair]
    cases repairElevations serverGain _ (givenFigures pre act) byApp with
    | none => simp
    | some found =>
      obtain ⟨rebuilt, figures⟩ := found
      simp

/-! ## 3. Documents -/

theorem get_writeOver {o : Obj} {key other : String} (h : key ≠ other) (v : Json) :
    (writeOver o key v).get other = o.get other := by
  unfold writeOver
  split
  · rw [Obj.get_set, if_neg h]
  · rfl

/-- What `_repair_figures` writes, under one prefix. -/
def repairedKeys (pre : String) : List String :=
  [pre ++ "elevation_profile", pre ++ "total_elevation_gain", pre ++ "elev_high", pre ++ "elev_low",
    pre ++ "elapsed_time"]

theorem repairFigures_get {pre : String} {byApp : Bool} {act act' : Obj}
    (h : repairFigures serverGain pre byApp act = some act') {key : String}
    (hkey : key ∉ repairedKeys pre) : act'.get key = act.get key := by
  simp only [repairedKeys, List.mem_cons, List.not_mem_nil, or_false, not_or] at hkey
  obtain ⟨hprofile, hgain, hhigh, hlow, helapsed⟩ := hkey
  unfold repairFigures at h
  dsimp only at h
  split at h
  · rw [Option.some.inj h]
  · obtain ⟨⟨rebuilt, figures⟩, -, hwritten⟩ := Option.bind_eq_some_iff.mp h
    obtain rfl := Option.some.inj hwritten
    have hfigures : ∀ o : Obj, (writeOver (writeOver (writeOver o (pre ++ "total_elevation_gain")
        figures.gain) (pre ++ "elev_high") figures.high) (pre ++ "elev_low") figures.low).get key =
          o.get key := by
      intro o
      rw [get_writeOver (Ne.symm hlow), get_writeOver (Ne.symm hhigh), get_writeOver (Ne.symm hgain)]
    split
    · rw [Obj.get_set, if_neg (Ne.symm helapsed), hfigures]
      split
      · rw [Obj.get_set, if_neg (Ne.symm hprofile)]
      · rfl
    · rw [hfigures]
      split
      · rw [Obj.get_set, if_neg (Ne.symm hprofile)]
      · rfl

theorem unmeasurable_snapshot {byApp : Bool} {act act' : Obj}
    (h : repairFigures serverGain "" byApp act = some act') :
    unmeasurable "original_" act' = unmeasurable "original_" act := by
  have hprofile : act'.get ("original_" ++ "elevation_profile") =
      act.get ("original_" ++ "elevation_profile") := repairFigures_get h (by decide)
  have hgain : act'.get ("original_" ++ "total_elevation_gain") =
      act.get ("original_" ++ "total_elevation_gain") := repairFigures_get h (by decide)
  have hhigh : act'.get ("original_" ++ "elev_high") = act.get ("original_" ++ "elev_high") :=
    repairFigures_get h (by decide)
  have hlow : act'.get ("original_" ++ "elev_low") = act.get ("original_" ++ "elev_low") :=
    repairFigures_get h (by decide)
  unfold unmeasurable givenFigures profileAt
  rw [hprofile, hgain, hhigh, hlow]

/-- An activity that no repair returns for, by its live figures or by those of its snapshot. -/
def isUnmeasurable : Json → Bool
  | .obj act => unmeasurable "" act || unmeasurable "original_" act
  | _ => false

theorem normaliseActivity_none_iff {activities : List Json} {act : Json} :
    normaliseActivity serverGain activities act = none ↔ isUnmeasurable act = true := by
  cases act with
  | obj act =>
    show ((repairFigures serverGain "" _ act).bind fun act =>
      (repairFigures serverGain "original_" _ act).bind fun act => some (Json.obj act)) = none ↔
        (unmeasurable "" act || unmeasurable "original_" act) = true
    rw [Bool.or_eq_true, ← @repairFigures_none_iff "" (appMeasured activities _ act)]
    cases hlive : repairFigures serverGain "" (appMeasured activities (activities.length + 1) act) act with
    | none => simp
    | some act' =>
      rw [Option.bind_some, ← unmeasurable_snapshot hlive,
        ← @repairFigures_none_iff "original_" (appMeasured activities (activities.length + 1) act)]
      cases repairFigures serverGain "original_" _ act' <;> simp
  | _ => exact ⟨nofun, nofun⟩

theorem mapM_none_iff {α β : Type} {f : α → Option β} {xs : List α} :
    xs.mapM f = none ↔ ∃ x ∈ xs, f x = none := by
  induction xs with
  | nil => simp
  | cons x xs ih =>
    rw [List.mapM_cons]
    simp only [List.mem_cons, exists_eq_or_imp]
    cases hx : f x with
    | none => simp
    | some y =>
      rw [← ih]
      cases xs.mapM f <;> simp

def holdsUnmeasurable (document : Obj) : Bool :=
  match document.get "activities" with
  | some (.list activities) => activities.any isUnmeasurable
  | _ => false

theorem normalise_none_iff {py : Python} {document : Obj} :
    normalise py serverGain document = none ↔ holdsUnmeasurable document = true := by
  have hkept : (normaliseStyle (normaliseDays py document)).get "activities" = document.get "activities" :=
    (normaliseStyle_get (by decide)).trans (normaliseDays_get (by decide))
  unfold normalise holdsUnmeasurable
  dsimp only
  rw [hkept]
  cases document.get "activities" with
  | none => exact ⟨nofun, nofun⟩
  | some v =>
    cases v with
    | list activities =>
      have hone : activities.mapM (normaliseActivity serverGain activities) = none ↔
          activities.any isUnmeasurable = true := by
        rw [mapM_none_iff, List.any_eq_true]
        exact exists_congr fun act => and_congr_right fun _ => normaliseActivity_none_iff
      dsimp only
      rw [← hone]
      cases activities.mapM (normaliseActivity serverGain activities) <;> simp
    | _ => exact ⟨nofun, nofun⟩

/-- A document that is not refused first, and holds an unmeasurable activity. -/
def Crashing (py : Python) (document : Obj) : Prop :=
  badValue py false document = none ∧ holdsUnmeasurable document = true

theorem check_crash_iff {py : Python} {document : Obj} :
    check py serverGain document = .error .crash ↔ Crashing py document := by
  unfold Crashing check
  rw [← @normalise_none_iff py]
  cases badValue py false document with
  | some found => simp
  | none =>
    cases normalise py serverGain document with
    | none => simp
    | some normal =>
      dsimp only
      split <;> simp

/-! ## 4. Files -/

/-- A call gives its result, or refuses the file. -/
def Handled {α : Type} (result : Except Raised α) : Prop :=
  (∃ a, result = .ok a) ∨ ∃ message, result = .error (.invalidProjectFile message)

theorem handled_iff {α : Type} {result : Except Raised α} : Handled result ↔ result ≠ .error .crash := by
  unfold Handled
  rcases result with (_ | _) | _ <;> simp

theorem fromDict_crash_iff {py : Python} {now : Clock} {document : Obj} :
    fromDict py serverGain now (.obj document) = .error .crash ↔
      (document.get "items").isSome = true ∧ check py serverGain document = .error .crash := by
  unfold fromDict
  dsimp only
  split
  case isTrue hnone =>
    rw [Option.isNone_iff_eq_none] at hnone
    simp [hnone]
  case isFalse hsome =>
    rw [Option.isNone_iff_eq_none, ← ne_eq, ← Option.isSome_iff_ne_none] at hsome
    rw [and_iff_right hsome]
    cases hcheck : check py serverGain document with
    | error raised => simp
    | ok checked =>
      -- what was checked is read
      obtain ⟨hnormal, hfault⟩ := check_ok hcheck
      obtain ⟨p, -, -, hread, -⟩ := readTrip_sound now hfault (drawable_of_normalise hnormal)
      simp [hread]

/-- **Which files are read or refused**: every value that is no trip, and every document but one that
    holds an unmeasurable activity; and for which documents the check returns. -/
theorem fromDict_returns_iff (py : Python) (now : Clock) :
    (∀ document, Handled (check py serverGain document) ↔ ¬ Crashing py document) ∧
      ∀ v, Handled (fromDict py serverGain now v) ↔
        ∀ document, v = .obj document → (Obj.get document "items").isSome = true →
          ¬ Crashing py document := by
  refine ⟨fun document => handled_iff.trans (not_congr check_crash_iff), fun v => ?_⟩
  rw [handled_iff]
  cases v with
  | obj document =>
    rw [ne_eq, fromDict_crash_iff, check_crash_iff, not_and]
    exact ⟨fun h d hd => Json.obj.inj hd ▸ h, fun h => h document rfl⟩
  | _ =>
    -- no trip: refused
    refine iff_of_true nofun fun document h => ?_
    cases h

/-- An activity of a profile without samples, and a highest point that is no elevation. -/
def emptyProfile : Obj :=
  [(.valid "items", .list []), (.valid "activities", .list [.obj [ (.valid "elevation_profile",
        .obj [(.valid "distances_km", .list []), (.valid "elevations_m", .list [])]),
      (.valid "elev_high", .int 30000)]])]

def epoch : Instant :=
  ⟨{ year := 1970, month := 1, day := 1, hour := 0, minute := 0, second := 0, microsecond := 0,
     offset := none }, by decide⟩

theorem emptyProfile_crashes :
    (¬ ∀ (py : Python) (now : Clock) (v : Json), Handled (fromDict py serverGain now v)) ∧
      ¬ ∀ (py : Python) (document : Obj), Handled (check py serverGain document) := by
  have hbad : (badValue plainPython false emptyProfile).isNone = true := by decide +kernel
  have hholds : holdsUnmeasurable emptyProfile = true := by decide +kernel
  have hcheck : check plainPython serverGain emptyProfile = .error .crash :=
    check_crash_iff.mpr ⟨Option.isNone_iff_eq_none.mp hbad, hholds⟩
  constructor
  · intro h
    have hread : fromDict plainPython serverGain (fun _ => (epoch, epoch)) (.obj emptyProfile) =
        .error .crash := fromDict_crash_iff.mpr ⟨rfl, hcheck⟩
    exact handled_iff.mp (h _ _ _) hread
  · intro h
    exact handled_iff.mp (h _ _) hcheck

end TraxJourney.Transfer
