/-
  File:      Transfer/Normalise.lean
  Subject:   A trip document brought into the format (`normalise`, `check` in
             `src/project/traxj_schema.py`; the repairs of `src/models/track_edit.py`).

  * **`check_accepted`** -- what is accepted is accepted again, and nothing in it changes.

  `elevation_gain` is a parameter: a number, or nothing where it raises. A dictionary of answers
  already found is left out of `appMeasured`, the answers being the same without it.
-/
import TraxJourney.Transfer.TripSchema

namespace TraxJourney.Transfer

open Lib Schema

/-! ## 1. Readings and profiles -/

def finiteOrNone : Json → Option Number
  | .num n => if n.exact.isSome then some n else none
  | _ => none

def plausibleElevation : Json → Option Number
  | .num n => if n.within elevationMinM elevationMaxM then some n else none
  | _ => none

/-- `_reading`. -/
def isReading (v : Json) : Bool := v.isNull || isNumber v

/-- `(distances_km, elevations_m)`. -/
structure Profile where
  distancesKm : List Json
  elevationsM : List Json

/-- `profile_needs_repair`. -/
def Profile.needsRepair (p : Profile) : Bool :=
  !(p.distancesKm.all (fun d => (finiteOrNone d).isSome) &&
    p.elevationsM.all fun e => (plausibleElevation e).isSome)

/-- `e0 + frac * (e1 - e0)`, for the part `frac` of the way from `d0` to `d1`. -/
def between (d d0 d1 e0 e1 : Number) : Number :=
  let span := d1.sub d0
  let frac := if span.isZero then .float .zero else (d.sub d0).div span
  e0.add (frac.mul (e1.sub e0))

/-- The elevation at an index: the one read there, else the line between the readings on both sides
    of it, else the nearest reading. -/
def filledAt (distances : List Number) (elevations : List (Option Number)) (i : ℕ) : Number :=
  let zero : Number := .float .zero
  let distance := fun j => distances.getD j zero
  let reading := fun j => (elevations[j]?.join).getD zero
  let known := (List.range elevations.length).filter fun j => (elevations[j]?.join).isSome
  if i ∈ known then reading i
  else match (known.filter (· < i)).getLast?, (known.filter (i < ·)).head? with
    | some a, some b => between (distance i) (distance a) (distance b) (reading a) (reading b)
    | some a, none => reading a
    | none, some b => reading b
    | none, none => zero

/-- `interpolate_elevation_gaps`, where some elevation is known. -/
def interpolateElevationGaps (distances : List Number) (elevations : List (Option Number)) : List Number :=
  (List.range elevations.length).map (filledAt distances elevations)

def cleanElevationProfile (p : Profile) : Option Profile :=
  let samples := (p.distancesKm.zip p.elevationsM).filterMap fun s =>
    (finiteOrNone s.1).map fun d => (d, plausibleElevation s.2)
  let distances := samples.map (·.1)
  let elevations := samples.map (·.2)
  if samples.length < 2 ∨ elevations.all (·.isNone) = true then none
  else some
    { distancesKm := distances.map .num
      elevationsM := (interpolateElevationGaps distances elevations).map .num }

/-! ## 2. An activity's figures -/

/-- `elevation_gain(elevs, dists)`; `none` where it raises. -/
abbrev GainOf := List Number → List Number → Option Number

structure Figures where
  gain : Json
  high : Json
  low : Json

/-- `measured()`; `none` where it raises, as the maximum of no elevations does. -/
def measured (elevationGain : GainOf) (profile : Option Profile) : Option Figures :=
  match profile.filter fun p => !p.needsRepair with
  | none => some { gain := .num (.float .zero), high := .null, low := .null }
  | some p => do
      let elevs := p.elevationsM.filterMap plausibleElevation
      let gain ← elevationGain elevs (p.distancesKm.filterMap finiteOrNone)
      let high ← Number.maximum elevs
      let low ← Number.minimum elevs
      some { gain := .num (.float gain.toDouble), high := .num high, low := .num low }

def badGain (v : Json) : Bool := !v.isNull && !numberWithin 0 gainMaxM v

def badElevation (v : Json) : Bool := !v.isNull && (plausibleElevation v).isNone

/-- The profile is rebuilt: it needs repair, and holds nothing but numbers and nulls. -/
def Profile.rebuilt (p : Profile) : Bool :=
  p.needsRepair && p.distancesKm.all isReading && p.elevationsM.all isReading

/-- Measured anew, where the app measured them from the profile before it was rebuilt. -/
def remeasured (elevationGain : GainOf) (profile : Option Profile) (anew : Bool) (given : Figures) :
    Option Figures :=
  if anew then
    (measured elevationGain profile).map fun m =>
      { m with gain := if given.gain.isNull then .null else m.gain }
  else some given

/-- What is not plausible, measured from the profile. -/
def plausibleFigures (elevationGain : GainOf) (profile : Option Profile) (given : Figures) : Option Figures :=
  if badGain given.gain || badElevation given.high || badElevation given.low then
    (measured elevationGain profile).map fun m =>
      { gain := if badGain given.gain then m.gain else given.gain
        high := if badElevation given.high then m.high else given.high
        low := if badElevation given.low then m.low else given.low }
  else some given

/-- `repair_elevations`: the profile where it was rebuilt, and the figures. -/
def repairElevations (elevationGain : GainOf) (profile : Option Profile) (given : Figures)
    (appMeasured : Bool) : Option (Option (Option Profile) × Figures) :=
  let repaired := profile.any Profile.rebuilt
  let profile := if repaired then profile.bind cleanElevationProfile else profile
  (remeasured elevationGain profile (repaired && appMeasured) given).bind fun kept =>
    (plausibleFigures elevationGain profile kept).map fun figures =>
      (if repaired then some profile else none, figures)

/-- What stands for an elapsed time that is no measurement. -/
def elapsedFrom : Json → Json
  | .num m => if m.within 0 durationMaxS then .int m.truncate else .int 0
  | _ => .int 0

def repairElapsed (elapsed moving : Json) : Json :=
  match elapsed with
  | .num n => if n.exact.all fun q => decide ((durationMaxS : ℚ) < q) then elapsedFrom moving else elapsed
  | _ => elapsed

/-- `by_id`, then `_app_measured`: along the pieces, to the first that has a source. More steps than
    activities are a loop. -/
def appMeasured (activities : List Json) : ℕ → Obj → Bool
  | 0, _ => false
  | fuel + 1, act =>
    match act.get "source" with
    | some (.text t) => decide (t = .valid "gpx")
    | some .null | none =>
      match act.get "split_parent_id" with
      | some (.num (.int parent)) =>
        let named := activities.reverse.findSome? fun a =>
          match a with
          | .obj o =>
            match Obj.get o "id" with
            | some (.num (.int x)) => if x = parent then some o else none
            | _ => none
          | _ => none
        named.any (appMeasured activities fuel)
      | _ => false
    | some _ => false

/-- The profile that an activity holds under a key, and the object it stands in. -/
def profileAt (act : Obj) (key : String) : Option (Obj × Profile) :=
  match act.get key with
  | some (.obj ep) =>
    match Obj.get ep "distances_km", Obj.get ep "elevations_m" with
    | some (.list ds), some (.list es) => some (ep, { distancesKm := ds, elevationsM := es })
    | _, _ => none
  | _ => none

/-- An entry written where there is one. -/
def writeOver (o : Obj) (key : String) (v : Json) : Obj := if (o.get key).isSome then o.set key v else o

/-- `{**ep, "distances_km": …, "elevations_m": …}`, or null. -/
def profileJson (ep : Obj) : Option Profile → Json
  | none => .null
  | some p => .obj ((ep.set "distances_km" (.list p.distancesKm)).set "elevations_m" (.list p.elevationsM))

/-- `_repair_figures`; `pre` is empty, or `original_` for the snapshot. -/
def repairFigures (elevationGain : GainOf) (pre : String) (byApp : Bool) (act : Obj) : Option Obj :=
  let profile := profileAt act (pre ++ "elevation_profile")
  let given : Figures :=
    { gain := (act.get (pre ++ "total_elevation_gain")).getD .null
      high := (act.get (pre ++ "elev_high")).getD .null
      low := (act.get (pre ++ "elev_low")).getD .null }
  if !(isReading given.gain && isReading given.high && isReading given.low) then some act
  else do
    let (rebuilt, figures) ← repairElevations elevationGain (profile.map (·.2)) given byApp
    let act := match profile, rebuilt with
      | some (ep, _), some p => act.set (pre ++ "elevation_profile") (profileJson ep p)
      | _, _ => act
    let act := writeOver act (pre ++ "total_elevation_gain") figures.gain
    let act := writeOver act (pre ++ "elev_high") figures.high
    let act := writeOver act (pre ++ "elev_low") figures.low
    some (match act.get (pre ++ "elapsed_time") with
      | some elapsed => act.set (pre ++ "elapsed_time")
          (repairElapsed elapsed ((act.get (pre ++ "moving_time")).getD .null))
      | none => act)

/-! ## 3. Days and colours -/

def asText (py : Python) : Json → Json
  | .bool true => .str "true"
  | .bool false => .str "false"
  | .num (.int n) => .str (toString n)
  | .num (.float d) => if d.exact.isSome then .str (py.floatText d) else .num (.float d)
  | .list _ => .null
  | .obj _ => .null
  | v => v

def textNote (py : Python) (day : Obj) (key : String) : Obj :=
  match day.get key with
  | some v => if v.isNull || isText v then day else day.set key (asText py v)
  | none => day

def textTags (py : Python) (day : Obj) : Obj :=
  match day.get "tags" with
  | some (.list tags) => day.set "tags" (.list (tags.filterMap fun t =>
    if isText t then some t else if (asText py t).isNull then none else some (asText py t)))
  | some (.num (.float d)) => if d.exact.isSome then day.set "tags" .null else day
  | some .null | none => day
  | some _ => day.set "tags" .null

def dayText : List String := ["difficulty", "sleeping", "weather", "journal"]

/-- One day of `_normalise_days`. -/
def normaliseDay (py : Python) : Json → Json
  | .obj day => .obj (textTags py (dayText.foldl (textNote py) day))
  | v => v

def normaliseDays (py : Python) (document : Obj) : Obj :=
  match document.get "day_meta" with
  | some (.obj days) => document.set "day_meta" (.obj (days.map fun e => (e.1, normaliseDay py e.2)))
  | _ => document

/-- `#[0-9A-Fa-f]{6}`. -/
def isColour : Text → Bool
  | .valid s =>
    match s.toList with
    | '#' :: digits => decide (digits.length = 6) && digits.all fun c => isHex c || ('A' ≤ c && c ≤ 'F')
    | _ => false
  | .surrogate _ => false

def trackWidthMax : ℤ := 50

/-- A width that the client can draw, or one that is not finite. -/
def widthFits (n : Number) : Bool := n.exact.all fun q => decide (0 < q ∧ q ≤ (trackWidthMax : ℚ))

def colourKeys : List String := ["track_color", "track_secondary_color", "elevation_chart_color"]

/-- A value that the client can draw. -/
def drawable (key : String) : Json → Bool
  | .text t => !decide (key ∈ colourKeys) || isColour t
  | .num n => decide (key ≠ "track_width") || widthFits n
  | _ => true

/-- A style that cannot be drawn becomes its default. -/
def normaliseKey (document : Obj) (key : String) : Obj :=
  match document.get key with
  | some v => if drawable key v then document else document.set key .null
  | none => document

def normaliseStyle (document : Obj) : Obj := (colourKeys ++ ["track_width"]).foldl normaliseKey document

/-! ## 4. Normalising and checking -/

/-- One activity of `normalise`: the live figures, then the snapshot. -/
def normaliseActivity (elevationGain : GainOf) (activities : List Json) : Json → Option Json
  | .obj act => do
      let byApp := appMeasured activities (activities.length + 1) act
      let act ← repairFigures elevationGain "" byApp act
      let act ← repairFigures elevationGain "original_" byApp act
      some (.obj act)
  | v => some v

/-- `normalise`; `none` where it raises. -/
def normalise (py : Python) (elevationGain : GainOf) (document : Obj) : Option Obj :=
  let document := normaliseStyle (normaliseDays py document)
  match document.get "activities" with
  | some (.list activities) => do
      let activities ← activities.mapM (normaliseActivity elevationGain activities)
      some (document.set "activities" (.list activities))
  | _ => some document

inductive Raised where
  | invalidProjectFile (message : String)
  | crash

/-- `check`, raising what it finds: the document as it then is. -/
def check (py : Python) (elevationGain : GainOf) (document : Obj) : Except Raised Obj :=
  match badValue py false document with
  | some found => .error (.invalidProjectFile found)
  | none =>
    match normalise py elevationGain document with
    | none => .error .crash
    | some normal =>
      match fault py normal with
      | some found => .error (.invalidProjectFile found)
      | none => .ok normal

/-! ## 5. What has no fault needs no repair -/

def Within (lo hi : ℤ) (v : Json) : Prop := v.isNull = true ∨ numberWithin lo hi v = true

variable {lo hi : ℤ} {v : Json}

theorem within_of_bounded (h : (bounded lo hi).Accepts v) : Within lo hi v :=
  .inr (accepts_bounded.mp h)

theorem within_of_optional (h : (bounded lo hi).optional.Accepts v) : Within lo hi v :=
  (accepts_optional.mp h).imp_right accepts_bounded.mp

theorem within_getD {o : Obj} {key : String} (h : ∀ v, o.get key = some v → Within lo hi v) :
    Within lo hi ((o.get key).getD .null) := by
  cases hv : o.get key with
  | none => exact .inl rfl
  | some v => exact h v hv

theorem plausible_isSome :
    (plausibleElevation v).isSome = numberWithin elevationMinM elevationMaxM v := by
  cases v with
  | num n =>
    show (if n.within elevationMinM elevationMaxM then some n else none).isSome =
      n.within elevationMinM elevationMaxM
    cases n.within elevationMinM elevationMaxM <;> rfl
  | _ => rfl

theorem finite_of_within (h : numberWithin lo hi v = true) :
    (finiteOrNone v).isSome = true := by
  cases v with
  | num n =>
    obtain ⟨q, hq, -⟩ := (Option.any_eq_true _ _).mp h
    rw [finiteOrNone, hq]
    rfl
  | _ => cases h

theorem badGain_of_within (h : Within 0 gainMaxM v) : badGain v = false := by
  unfold badGain
  rcases h with h | h
  · rw [h]; rfl
  · rw [h]; exact Bool.and_false _

theorem badElevation_of_within (h : Within elevationMinM elevationMaxM v) :
    badElevation v = false := by
  unfold badElevation
  rcases h with h | h
  · rw [h]; rfl
  · rw [← Option.not_isSome, plausible_isSome, h]; exact Bool.and_false _

theorem numbersFault_none {xs : List Json} (h : numbersFault lo hi (.list xs) = none) :
    ∀ x ∈ xs, numberWithin lo hi x = true := by
  unfold numbersFault at h
  dsimp only at h
  by_cases hnumbers : (!xs.all isNumber) = true
  · rw [if_pos hnumbers] at h
    cases h
  · by_cases hall : (!xs.all (numberWithin lo hi)) = true
    · rw [if_neg hnumbers, if_pos hall] at h
      cases h
    · rw [Bool.not_eq_true', Bool.not_eq_false, List.all_eq_true] at hall
      exact hall

theorem needsRepair_of_accepted {ep : Obj} {p : Profile} (h : elevationProfile.Accepts (.obj ep))
    (hds : Obj.get ep "distances_km" = some (.list p.distancesKm))
    (hes : Obj.get ep "elevations_m" = some (.list p.elevationsM)) : p.needsRepair = false := by
  obtain ⟨o, ho, hall⟩ := accepts_model.mp h
  cases ho
  have hd := (hall ⟨"distances_km", distances, true⟩ (by simp)).accepts hds
  have he := (hall ⟨"elevations_m", elevations, true⟩ (by simp)).accepts hes
  have hdistances := numbersFault_none (accepts_after.mp hd).2
  have helevations := numbersFault_none (accepts_after.mp he).2
  unfold Profile.needsRepair
  rw [Bool.not_eq_false', Bool.and_eq_true, List.all_eq_true, List.all_eq_true]
  exact ⟨fun d hd => finite_of_within (hdistances d hd),
    fun e he => plausible_isSome.trans (helevations e he)⟩

theorem profileAt_some {act ep : Obj} {key : String} {p : Profile} (h : profileAt act key = some (ep, p)) :
    act.get key = some (.obj ep) ∧ Obj.get ep "distances_km" = some (.list p.distancesKm) ∧
      Obj.get ep "elevations_m" = some (.list p.elevationsM) := by
  unfold profileAt at h
  split at h
  · rename_i ep' hget
    split at h
    · rename_i ds es hds hes
      cases h
      exact ⟨hget, hds, hes⟩
    · cases h
  · cases h

theorem repairElapsed_within {elapsed moving : Json} (h : Within 0 durationMaxS elapsed) :
    repairElapsed elapsed moving = elapsed := by
  cases elapsed with
  | num n =>
    rcases h with h | h
    · cases h
    · obtain ⟨q, hq, hbounds⟩ := (Option.any_eq_true _ _).mp h
      obtain ⟨-, hle⟩ := of_decide_eq_true hbounds
      have hnot : ¬ (n.exact.all fun q => decide ((durationMaxS : ℚ) < q)) = true := by
        rw [hq]
        simpa using hle
      rw [repairElapsed, if_neg hnot]
  | _ => rfl

theorem writeOver_getD (o : Obj) (key : String) : writeOver o key ((o.get key).getD .null) = o := by
  unfold writeOver
  cases h : o.get key with
  | none => rfl
  | some v => exact Obj.set_get h

variable {elevationGain : GainOf}

theorem repairFigures_within {pre : String} {byApp : Bool} {act : Obj}
    (hprofile : ∀ ep p, profileAt act (pre ++ "elevation_profile") = some (ep, p) → p.needsRepair = false)
    (hgain : ∀ v, act.get (pre ++ "total_elevation_gain") = some v → Within 0 gainMaxM v)
    (hhigh : ∀ v, act.get (pre ++ "elev_high") = some v → Within elevationMinM elevationMaxM v)
    (hlow : ∀ v, act.get (pre ++ "elev_low") = some v → Within elevationMinM elevationMaxM v)
    (helapsed : ∀ v, act.get (pre ++ "elapsed_time") = some v → Within 0 durationMaxS v) :
    repairFigures elevationGain pre byApp act = some act := by
  have hrepair : repairElevations elevationGain ((profileAt act (pre ++ "elevation_profile")).map (·.2))
      { gain := (act.get (pre ++ "total_elevation_gain")).getD .null
        high := (act.get (pre ++ "elev_high")).getD .null
        low := (act.get (pre ++ "elev_low")).getD .null } byApp =
      some (none,
        { gain := (act.get (pre ++ "total_elevation_gain")).getD .null
          high := (act.get (pre ++ "elev_high")).getD .null
          low := (act.get (pre ++ "elev_low")).getD .null }) := by
    have hnot : ((profileAt act (pre ++ "elevation_profile")).map (·.2)).any Profile.rebuilt =
        false := by
      cases hat : profileAt act (pre ++ "elevation_profile") with
      | none => rfl
      | some q =>
        obtain ⟨ep, p⟩ := q
        show (p.needsRepair && _ && _) = false
        rw [hprofile ep p hat]
        rfl
    unfold repairElevations remeasured plausibleFigures
    simp only [hnot, Bool.false_and, Bool.false_eq_true, if_false, Option.bind_some,
      badGain_of_within (within_getD hgain), badElevation_of_within (within_getD hhigh),
      badElevation_of_within (within_getD hlow), Bool.or_self, Option.map_some]
  unfold repairFigures
  dsimp only
  split
  · rfl
  · rw [hrepair]
    simp only [Option.bind_eq_bind, Option.bind_some]
    have hkept : (match profileAt act (pre ++ "elevation_profile"), (none : Option (Option Profile)) with
        | some (ep, _), some p => act.set (pre ++ "elevation_profile") (profileJson ep p)
        | _, _ => act) = act := by
      cases profileAt act (pre ++ "elevation_profile") <;> rfl
    rw [hkept, writeOver_getD, writeOver_getD, writeOver_getD]
    cases hv : act.get (pre ++ "elapsed_time") with
    | none => rfl
    | some elapsed =>
      show some (act.set _ (repairElapsed elapsed _)) = some act
      rw [repairElapsed_within (helapsed elapsed hv), Obj.set_get hv]

theorem accepts_get {members : List Member} {o : Obj} {name : String} {s : Schema}
    (h : ∀ m ∈ members, MemberOk o m) (hm : (⟨name, s, false⟩ : Member) ∈ members) :
    ∀ v, o.get name = some v → s.Accepts v :=
  fun _ hv => (h _ hm).accepts hv

variable {py : Python}

theorem normaliseActivity_accepted {activities : List Json} {act : Obj}
    (h : ∀ m ∈ activityMembers py, MemberOk act m) :
    normaliseActivity elevationGain activities (.obj act) = some (.obj act) := by
  have hprofile : ∀ key, (⟨key, elevationProfile.optional, false⟩ : Member) ∈ activityMembers py →
      ∀ ep p, profileAt act key = some (ep, p) → p.needsRepair = false := by
    intro key hm ep p hat
    obtain ⟨hget, hds, hes⟩ := profileAt_some hat
    rcases accepts_optional.mp (accepts_get h hm _ hget) with hnull | haccepts
    · cases hnull
    · exact needsRepair_of_accepted haccepts hds hes
  have hrequired : ∀ {name : String} {lo hi : ℤ}, (⟨name, bounded lo hi, false⟩ : Member) ∈ activityMembers py →
      ∀ v, act.get name = some v → Within lo hi v := fun hm v hv => within_of_bounded (accepts_get h hm v hv)
  have hoptional : ∀ {name : String} {lo hi : ℤ},
      (⟨name, (bounded lo hi).optional, false⟩ : Member) ∈ activityMembers py →
        ∀ v, act.get name = some v → Within lo hi v := fun hm v hv => within_of_optional (accepts_get h hm v hv)
  have hlive : ∀ byApp, repairFigures elevationGain "" byApp act = some act := fun byApp =>
    repairFigures_within (hprofile _ (by simp [activityMembers])) (hrequired (by simp [activityMembers, gain]))
      (hoptional (by simp [activityMembers, elevation])) (hoptional (by simp [activityMembers, elevation]))
      (hrequired (by simp [activityMembers, duration]))
  have hsnapshot : ∀ byApp, repairFigures elevationGain "original_" byApp act = some act := fun byApp =>
    repairFigures_within (hprofile _ (by simp [activityMembers])) (hoptional (by simp [activityMembers, gain]))
      (hoptional (by simp [activityMembers, elevation])) (hoptional (by simp [activityMembers, elevation]))
      (hoptional (by simp [activityMembers, duration]))
  show ((repairFigures elevationGain "" _ act).bind fun act =>
    (repairFigures elevationGain "original_" _ act).bind fun act => some (Json.obj act)) = _
  rw [hlive, Option.bind_some, hsnapshot, Option.bind_some]

theorem textNote_accepted {day : Obj} {key : String}
    (h : ∀ v, day.get key = some v → text.optional.Accepts v) : textNote py day key = day := by
  unfold textNote
  cases hv : day.get key with
  | none => rfl
  | some v =>
    have htext : v.isNull || isText v := by
      rw [Bool.or_eq_true]
      exact (accepts_optional.mp (h v hv)).imp_right accepts_only.mp
    exact if_pos htext

theorem textTags_accepted {day : Obj} (h : ∀ v, day.get "tags" = some v → text.listOf.optional.Accepts v) :
    textTags py day = day := by
  unfold textTags
  cases hv : day.get "tags" with
  | none => rfl
  | some v =>
    rcases accepts_optional.mp (h v hv) with hnull | haccepts
    · cases v with
      | null => rfl
      | _ => cases hnull
    · obtain ⟨tags, rfl, hall⟩ := accepts_listOf.mp haccepts
      have hkept : (tags.filterMap fun t => if isText t then some t
          else if (asText py t).isNull then none else some (asText py t)) = tags := by
        refine (List.filterMap_congr fun t ht => ?_).trans List.filterMap_some
        exact if_pos (accepts_only.mp (hall t ht))
      show day.set "tags" (.list (tags.filterMap _)) = day
      rw [hkept, Obj.set_get hv]

theorem normaliseDay_accepted {day : Json} (h : (model dayMetaMembers).Accepts day) :
    normaliseDay py day = day := by
  obtain ⟨o, rfl, hall⟩ := accepts_model.mp h
  have hnote : ∀ key ∈ dayText, textNote py o key = o := by
    intro key hkey
    refine textNote_accepted (accepts_get hall ?_)
    simp only [dayText, List.mem_cons, List.not_mem_nil, or_false] at hkey
    rcases hkey with rfl | rfl | rfl | rfl <;> simp [dayMetaMembers]
  have hnotes : dayText.foldl (textNote py) o = o := by
    simp only [dayText, List.foldl_cons, List.foldl_nil]
    rw [hnote _ (by decide), hnote _ (by decide), hnote _ (by decide), hnote _ (by decide)]
  show Json.obj (textTags py (dayText.foldl (textNote py) o)) = _
  rw [hnotes, textTags_accepted (accepts_get hall (by simp [dayMetaMembers]))]

def Drawable (document : Obj) : Prop :=
  ∀ key ∈ colourKeys ++ ["track_width"], ∀ v, document.get key = some v → drawable key v = true

variable {document : Obj}

theorem normaliseStyle_drawable (h : Drawable document) :
    normaliseStyle document = document := by
  have hkey : ∀ key ∈ colourKeys ++ ["track_width"], normaliseKey document key = document := by
    intro key hkey
    unfold normaliseKey
    cases hv : document.get key with
    | none => rfl
    | some v => exact if_pos (h key hkey v hv)
  unfold normaliseStyle
  generalize colourKeys ++ ["track_width"] = keys at hkey
  induction keys with
  | nil => rfl
  | cons key keys ih =>
    rw [List.foldl_cons, hkey key List.mem_cons_self]
    exact ih fun k hk => hkey k (List.mem_cons_of_mem _ hk)

theorem mapM_same {α : Type} {f : α → Option α} {xs : List α} (h : ∀ x ∈ xs, f x = some x) :
    xs.mapM f = some xs := by
  induction xs with
  | nil => rfl
  | cons x xs ih =>
    rw [List.mapM_cons, h x List.mem_cons_self, ih fun y hy => h y (List.mem_cons_of_mem _ hy)]
    rfl

theorem normalise_of_fault_none (hfault : fault py document = none) (hdraw : Drawable document) :
    normalise py elevationGain document = some document := by
  obtain ⟨-, hall, -⟩ := fault_none_iff.mp hfault
  have hdays : normaliseDays py document = document := by
    unfold normaliseDays
    split
    · rename_i days hv
      have haccepts : (dictOf (model dayMetaMembers)).optional.Accepts (.obj days) :=
        accepts_get hall (by simp [tripMembers]) _ hv
      obtain ⟨entries, he, hmodel⟩ :=
        accepts_dictOf.mp ((accepts_optional.mp haccepts).resolve_left fun h => by cases h)
      cases he
      have hsame : (days.map fun e => (e.1, normaliseDay py e.2)) = days := by
        refine (List.map_congr_left fun e he => ?_).trans (List.map_id days)
        rw [normaliseDay_accepted (hmodel e he)]
        rfl
      rw [hsame, Obj.set_get hv]
    · rfl
  unfold normalise
  dsimp only
  rw [hdays, normaliseStyle_drawable hdraw]
  split
  · rename_i activities hv
    have haccepts : ((model (activityMembers py)).listOf).Accepts (.list activities) :=
      accepts_get hall (by simp [tripMembers]) _ hv
    obtain ⟨xs, hxs, hmodel⟩ := accepts_listOf.mp haccepts
    cases hxs
    have hsame : activities.mapM (normaliseActivity elevationGain activities) = some activities := by
      have hone : ∀ act ∈ activities, normaliseActivity elevationGain activities act = some act := by
        intro act hact
        obtain ⟨o, rfl, ho⟩ := accepts_model.mp (hmodel act hact)
        exact normaliseActivity_accepted ho
      exact mapM_same hone
    rw [hsame]
    show some (document.set "activities" (.list activities)) = _
    rw [Obj.set_get hv]
  · rfl

/-! ## 6. What is accepted is accepted again -/

/-- What stands under one key is drawable. -/
def DrawableAt (document : Obj) (key : String) : Prop :=
  ∀ v, document.get key = some v → drawable key v = true

theorem drawable_null (key : String) : drawable key .null = true := rfl

theorem normaliseKey_drawable (document : Obj) (key : String) :
    DrawableAt (normaliseKey document key) key := by
  unfold normaliseKey
  cases hv : document.get key with
  | none => exact fun v h => by cases hv.symm.trans h
  | some w =>
    dsimp only
    split
    case isTrue hdraw => exact fun v h => Option.some.inj (hv.symm.trans h) ▸ hdraw
    case isFalse =>
      intro v h
      rw [Obj.get_set, if_pos rfl] at h
      exact Option.some.inj h ▸ drawable_null key

theorem normaliseKey_keeps {other : String} (h : DrawableAt document other) (key : String) :
    DrawableAt (normaliseKey document key) other := by
  by_cases hkey : key = other
  · exact hkey ▸ normaliseKey_drawable document key
  · unfold normaliseKey
    split
    · split
      · exact h
      · intro v hv
        rw [Obj.get_set, if_neg hkey] at hv
        exact h v hv
    · exact h

theorem foldl_normaliseKey_keeps {other : String} (h : DrawableAt document other) (keys : List String) :
    DrawableAt (keys.foldl normaliseKey document) other := by
  induction keys generalizing document with
  | nil => exact h
  | cons key keys ih => exact ih (normaliseKey_keeps h key)

theorem drawable_normaliseStyle (document : Obj) : Drawable (normaliseStyle document) := by
  unfold Drawable normaliseStyle
  generalize colourKeys ++ ["track_width"] = keys
  induction keys generalizing document with
  | nil => exact fun key hkey => absurd hkey List.not_mem_nil
  | cons first keys ih =>
    intro key hkey
    rcases List.mem_cons.mp hkey with rfl | hrest
    · exact foldl_normaliseKey_keeps (normaliseKey_drawable document key) keys
    · exact ih _ key hrest

theorem drawable_of_normalise {normal : Obj} (h : normalise py elevationGain document = some normal) :
    Drawable normal := by
  have hstyle := drawable_normaliseStyle (normaliseDays py document)
  unfold normalise at h
  dsimp only at h
  split at h
  · rename_i activities hv
    obtain ⟨repaired, -, hset⟩ := Option.bind_eq_some_iff.mp h
    obtain rfl := Option.some.inj hset
    intro key hkey v hget
    have hne : ¬ "activities" = key := by
      rintro rfl
      exact absurd hkey (by decide)
    rw [Obj.get_set, if_neg hne] at hget
    exact hstyle key hkey v hget
  · exact Option.some.inj h ▸ hstyle

theorem check_ok {normal : Obj} (h : check py elevationGain document = .ok normal) :
    normalise py elevationGain document = some normal ∧ fault py normal = none := by
  unfold check at h
  split at h
  · cases h
  · split at h
    · cases h
    · rename_i normal' hnormal
      split at h
      · cases h
      · rename_i hfault
        cases h
        exact ⟨hnormal, hfault⟩

theorem check_of_fault_none (hfault : fault py document = none) (hdraw : Drawable document) :
    check py elevationGain document = .ok document := by
  obtain ⟨hgood, -⟩ := fault_none_iff.mp hfault
  have hbad : badValue py false document = none := badValue_none_iff.mpr (good_false _ hgood)
  unfold check
  rw [hbad]
  rw [normalise_of_fault_none hfault hdraw]
  dsimp only
  rw [hfault]

theorem check_accepted {normal : Obj} (h : check py elevationGain document = .ok normal) :
    check py elevationGain normal = .ok normal := by
  obtain ⟨hnormal, hfault⟩ := check_ok h
  exact check_of_fault_none hfault (drawable_of_normalise hnormal)

end TraxJourney.Transfer
