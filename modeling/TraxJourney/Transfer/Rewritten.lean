/-
  File:      Transfer/Rewritten.lean
  Subject:   The records of a trip file that is accepted: each is read, and accepted as it is written
             again.

  * **`sound_written`** -- what is written of a record that was read of a sound one is sound.
-/
import TraxJourney.Transfer.ReadBack

namespace TraxJourney.Transfer

open Lib Schema

/-! ## 1. Accepted, and good -/

/-- Accepted by a model, and every value in it good. -/
structure Sound (s : Schema) (v : Json) : Prop where
  accepts : s.Accepts v
  good : good true v = true

/-- The same of an object, by its fields. -/
structure SoundObj (members : List Member) (o : Obj) : Prop where
  ok : ∀ m ∈ members, MemberOk o m
  good : good true (.obj o) = true

variable {members : List Member} {v : Json}

theorem sound_model :
    Sound (model members) v ↔ ∃ o, v = .obj o ∧ SoundObj members o := by
  constructor
  · rintro ⟨haccepts, hgood⟩
    obtain ⟨o, rfl, hok⟩ := accepts_model.mp haccepts
    exact ⟨o, rfl, hok, hgood⟩
  · rintro ⟨o, rfl, hok, hgood⟩
    exact ⟨accepts_model.mpr ⟨o, rfl, hok⟩, hgood⟩

variable {o : Obj} {key : String}

theorem good_get (h : good true (.obj o) = true) (hv : o.get key = some v) : good true v = true :=
  (goodEntries_iff.mp h _ (Obj.mem_of_get hv)).2

variable {s : Schema}

theorem SoundObj.get (h : SoundObj members o) {required : Bool} (hm : (⟨key, s, required⟩ : Member) ∈ members)
    (hv : o.get key = some v) : Sound s v :=
  ⟨(h.ok _ hm).accepts hv, good_get h.good hv⟩

theorem soundObj_nil (h : ∀ m ∈ members, m.required = false) : SoundObj members [] :=
  ⟨fun m hm => MemberOk.of_none rfl (h m hm), rfl⟩

theorem sound_listOf :
    Sound s.listOf v ↔ ∃ xs, v = .list xs ∧ ∀ x ∈ xs, Sound s x := by
  constructor
  · rintro ⟨haccepts, hgood⟩
    obtain ⟨xs, rfl, hall⟩ := accepts_listOf.mp haccepts
    exact ⟨xs, rfl, fun x hx => ⟨hall x hx, goodList_iff.mp hgood x hx⟩⟩
  · rintro ⟨xs, rfl, h⟩
    exact ⟨accepts_listOf.mpr ⟨xs, rfl, fun x hx => (h x hx).accepts⟩,
      goodList_iff.mpr fun x hx => (h x hx).good⟩

theorem sound_optional (h : Sound s.optional v) : v = .null ∨ Sound s v := by
  rcases accepts_optional.mp h.accepts with hnull | haccepts
  · cases v with
    | null => exact .inl rfl
    | _ => cases hnull
  · exact .inr ⟨haccepts, h.good⟩

theorem Sound.toOptional (h : Sound s v) : Sound s.optional v :=
  ⟨accepts_optional.mpr (.inr h.accepts), h.good⟩

theorem sound_null (s : Schema) : Sound s.optional .null := ⟨accepts_optional.mpr (.inl rfl), rfl⟩

/-! ## 2. Layouts -/

/-- What a layout takes by itself is good. -/
def goodLayout (t : Layout) : Prop :=
  ∀ f ∈ t.fields, good true f.missing = true ∧ good true f.otherwise = true

instance (t : Layout) : Decidable (goodLayout t) := inferInstanceAs (Decidable (∀ f ∈ t.fields, _ ∧ _))

variable {t : Layout}

theorem good_readEntries (ht : goodLayout t) (h : good true (.obj o) = true) :
    good true (.obj (t.readEntries o)) = true := by
  refine goodEntries_iff.mpr fun e he => ?_
  obtain ⟨f, hf, rfl⟩ := List.mem_map.mp he
  obtain ⟨hmissing, hotherwise⟩ := ht f hf
  have hread : good true ((o.get f.name).getD f.missing) = true := by
    cases hv : o.get f.name with
    | none => exact hmissing
    | some v => exact good_get h hv
  refine ⟨rfl, ?_⟩
  show good true (f.clean _) = true
  unfold Field.clean
  split
  · exact hread
  · exact hotherwise

/-- The fields of a model under names that a layout does not have. -/
def beside (t : Layout) (members : List Member) : List Member :=
  members.filter fun m => decide (m.name ∉ t.fields.map (·.name))

theorem sound_written (hsuits : t.Suits members) (ht : goodLayout t) {rest : Obj} (h : SoundObj members o)
    (hrest : SoundObj (beside t members) rest) :
    Sound (model members) (.obj ((Record.read t o).entries ++ rest)) where
  accepts := accepts_written hsuits h.ok fun m hm hname =>
    hrest.ok m (List.mem_filter.mpr ⟨hm, decide_eq_true hname⟩)
  good := by
    refine goodEntries_iff.mpr fun e he => ?_
    rcases List.mem_append.mp he with hread | hbeside
    · exact goodEntries_iff.mp (good_readEntries ht h.good) e hread
    · exact goodEntries_iff.mp hrest.good e hbeside

theorem sound_entries (hsuits : t.Suits members) (ht : goodLayout t) (hall : beside t members = [])
    (h : SoundObj members o) :
    Sound (model members) (.obj (Record.read t o).entries) := by
  have hrest : SoundObj (beside t members) [] := ⟨by rw [hall]; simp, rfl⟩
  have hwritten := sound_written hsuits ht h hrest
  rwa [List.append_nil] at hwritten

variable {data : Obj}

theorem readNested_sound (h : ∀ v, data.get key = some v → Sound (model members) v)
    (hoptional : ∀ m ∈ members, m.required = false) :
    ∃ o, readNested t data key = some (Record.read t o) ∧ SoundObj members o := by
  unfold readNested
  cases hv : data.get key with
  | none => exact ⟨[], rfl, soundObj_nil hoptional⟩
  | some v =>
    obtain ⟨o, rfl, ho⟩ := sound_model.mp (h v hv)
    exact ⟨o, rfl, ho⟩

theorem mapM_sound {α β : Type} {f : α → Option β} {Q : β → Prop} {xs : List α}
    (h : ∀ x ∈ xs, ∃ y, f x = some y ∧ Q y) :
    ∃ ys, xs.mapM f = some ys ∧ List.Forall₂ (fun x y => f x = some y) xs ys ∧ ∀ y ∈ ys, Q y := by
  induction xs with
  | nil => exact ⟨[], rfl, .nil, fun _ hy => absurd hy List.not_mem_nil⟩
  | cons x xs ih =>
    obtain ⟨y, hy, hQ⟩ := h x List.mem_cons_self
    obtain ⟨ys, hys, hall, hQs⟩ := ih fun z hz => h z (List.mem_cons_of_mem _ hz)
    refine ⟨y :: ys, ?_, .cons hy hall, List.forall_mem_cons.mpr ⟨hQ, hQs⟩⟩
    rw [List.mapM_cons, hy, hys]
    rfl

/-! ## 3. Activities -/

theorem sound_idJson (id : Option ActivityId) : Sound int.optional (idJson id) := by
  cases id with
  | none => exact sound_null int
  | some n =>
    refine ⟨rfl, ?_⟩
    show (if isInt64 n.val then none else some _ : Option String).isNone = true
    rw [n.property]
    rfl

theorem activityIdOrNone_sound (h : Sound int.optional v) :
    ∃ id, activityIdOrNone v = some id ∧ v = idJson id := by
  rcases sound_optional h with rfl | ⟨hint, hgood⟩
  · exact ⟨none, rfl, rfl⟩
  · cases v with
    | num n =>
      cases n with
      | int n =>
        have hn : isInt64 n = true := by
          by_contra hn
          change (if isInt64 n then none else some _ : Option String).isNone = true at hgood
          rw [if_neg hn] at hgood
          cases hgood
        exact ⟨some ⟨n, hn⟩, dif_pos hn, rfl⟩
      | float d => cases hint
    | _ => cases hint

theorem sound_timeText (py : Python) (t : Instant) : Sound (dateTime py) (.str (timeText t)) := by
  refine ⟨accepts_after.mpr ⟨rfl, if_pos (.inr ?_)⟩, rfl⟩
  rw [readTime_timeText]
  rfl

variable {py : Python}

theorem readStart_sound {now : Instant} (h : ∀ v, data.get key = some v → Sound (dateTime py) v) :
    ∃ t, readStart py now data key = some t := by
  unfold readStart
  cases hv : data.get key with
  | none => exact ⟨now, rfl⟩
  | some v =>
    obtain ⟨htext, hfault⟩ := accepts_after.mp (h v hv).accepts
    cases v with
    | text t =>
      cases t with
      | valid s =>
        show ∃ t, (if s = "" then some now else py.readTime s) = some t
        by_cases hs : s = ""
        · exact ⟨now, if_pos hs⟩
        · rw [if_neg hs]
          by_cases hread : s = "" ∨ (py.readTime s).isSome = true
          · exact Option.isSome_iff_exists.mp (hread.resolve_left hs)
          · rw [dateTimeFault, if_neg hread] at hfault
            cases hfault
      | surrogate codes => cases hfault
    | _ => cases htext

theorem readTrack_sound (h : ∀ v, data.get key = some v → Sound elevationProfile.optional v) :
    ∃ track, readTrack data key = some track ∧ Sound elevationProfile.optional (trackJson track) := by
  have hnone : Sound elevationProfile.optional (trackJson none) := sound_null _
  unfold readTrack
  cases hv : data.get key with
  | none => exact ⟨none, rfl, hnone⟩
  | some v =>
    rcases sound_optional (h v hv) with rfl | hsound
    · exact ⟨none, rfl, hnone⟩
    · obtain ⟨ep, rfl, hok, hgood⟩ := sound_model.mp hsound
      have hentry : ∀ key s, (⟨key, s, true⟩ : Member) ∈
          [(⟨"distances_km", distances, true⟩ : Member), ⟨"elevations_m", elevations, true⟩] →
          ∃ v, Obj.get ep key = some v ∧ Sound s v := by
        intro key s hm
        cases hv : Obj.get ep key with
        | none =>
          have hmember := hok _ hm
          unfold MemberOk memberFault at hmember
          rw [hv] at hmember
          cases hmember
        | some v => exact ⟨v, rfl, (SoundObj.mk hok hgood).get hm hv⟩
      obtain ⟨ds, hds, hdsound⟩ := hentry "distances_km" distances (by simp)
      obtain ⟨es, hes, hesound⟩ := hentry "elevations_m" elevations (by simp)
      refine ⟨some (ds, es), ?_, Sound.toOptional (sound_model.mpr ⟨_, rfl, ?_, ?_⟩)⟩
      · cases ep with
        | nil => cases hds
        | cons e rest =>
          rw [Option.getD_some]
          dsimp only
          rw [hds, hes]
      · simp only [List.forall_mem_cons, List.not_mem_nil, false_imp_iff, implies_true, and_true]
        exact ⟨MemberOk.of_some rfl hdsound.accepts, MemberOk.of_some rfl hesound.accepts⟩
      · refine goodEntries_iff.mpr ?_
        simp only [List.forall_mem_cons, List.not_mem_nil, false_imp_iff, implies_true, and_true]
        exact ⟨⟨rfl, hdsound.good⟩, rfl, hesound.good⟩

theorem sound_stravaId {n : ActivityId} (h : 0 < n.val) : Sound stravaId.optional (idJson (some n)) := by
  refine ⟨accepts_optional.mpr (.inr (accepts_after.mpr ⟨rfl, ?_⟩)), (sound_idJson (some n)).good⟩
  exact if_pos h

theorem stravaIdOf_sound (hid : ∀ v, data.get "id" = some v → Sound int.optional v)
    (h : ∀ v, data.get "strava_id" = some v → Sound stravaId.optional v) :
    ∃ id, stravaIdOf data = some id ∧ Sound stravaId.optional (idJson id) := by
  unfold stravaIdOf
  cases hv : data.get "strava_id" with
  | some v =>
    have hsound := h v hv
    have hint : Sound int.optional v := by
      rcases sound_optional hsound with rfl | hpositive
      · exact sound_null int
      · exact Sound.toOptional ⟨(accepts_after.mp hpositive.accepts).1, hpositive.good⟩
    obtain ⟨id, hread, rfl⟩ := activityIdOrNone_sound hint
    exact ⟨id, hread, hsound⟩
  | none =>
    have hnull : Sound int.optional ((data.get "id").getD .null) := by
      cases hv : data.get "id" with
      | none => exact sound_null int
      | some v => exact hid v hv
    obtain ⟨id, hread, -⟩ := activityIdOrNone_sound hnull
    rw [hread]
    cases id with
    | none => exact ⟨none, rfl, sound_null _⟩
    | some n =>
      by_cases hstrava : 0 < n.val ∧ isStravaSource ((data.get "source").getD .null) = true
      · exact ⟨some n, congrArg some (if_pos hstrava), sound_stravaId hstrava.1⟩
      · exact ⟨none, congrArg some (if_neg hstrava), sound_null _⟩

theorem beside_activity (py : Python) : beside activityFields (activityMembers py) = [
    ⟨"id", int.optional, false⟩, ⟨"start_date", dateTime py, false⟩,
    ⟨"start_date_local", dateTime py, false⟩, ⟨"has_heartrate", bool, false⟩,
    ⟨"average_heartrate", heartRate.optional, false⟩, ⟨"max_heartrate", heartRate.optional, false⟩,
    ⟨"heartrate_opt_out", bool, false⟩, ⟨"display_hide_heartrate_option", bool, false⟩,
    ⟨"map", map, false⟩, ⟨"elevation_profile", elevationProfile.optional, false⟩,
    ⟨"strava_id", stravaId.optional, false⟩,
    ⟨"original_elevation_profile", elevationProfile.optional, false⟩] := by
  rfl

variable {raw : Json}

theorem activity_sound (py : Python) (now : Instant × Instant) (h : Sound (model (activityMembers py)) raw) :
    ∃ a, fromStravaApi py now raw = some a ∧ Sound (model (activityMembers py)) (.obj a.toTraxjDict) := by
  obtain ⟨data, rfl, hdata⟩ := sound_model.mp h
  have hget : ∀ {key : String} {s : Schema}, (⟨key, s, false⟩ : Member) ∈ activityMembers py →
      ∀ v, Obj.get data key = some v → Sound s v := fun hm _ hv => hdata.get hm hv
  have hid : ∀ v, Obj.get data "id" = some v → Sound int.optional v := hget (by simp [activityMembers])
  have hmap : ∀ v, Obj.get data "map" = some v → Sound Transfer.map v := hget (by simp [activityMembers])
  have hidNull : Sound int.optional ((Obj.get data "id").getD .null) := by
    cases hv : Obj.get data "id" with
    | none => exact sound_null int
    | some v => exact hid v hv
  obtain ⟨id, hidRead, -⟩ := activityIdOrNone_sound hidNull
  obtain ⟨start, hstart⟩ : ∃ t, readStart py now.1 data "start_date" = some t :=
    readStart_sound (hget (by simp [activityMembers]))
  obtain ⟨startLocal, hlocal⟩ : ∃ t, readStart py now.2 data "start_date_local" = some t :=
    readStart_sound (hget (by simp [activityMembers]))
  obtain ⟨summary, hsummary, hsummaryObj⟩ := readNested_sound (t := mapFields) hmap (by simp)
  obtain ⟨track, htrack, htrackSound⟩ : ∃ track, readTrack data "elevation_profile" = some track ∧
      Sound elevationProfile.optional (trackJson track) :=
    readTrack_sound (hget (by simp [activityMembers]))
  obtain ⟨stravaId, hstrava, hstravaSound⟩ := stravaIdOf_sound hid (hget (by simp [activityMembers]))
  obtain ⟨original, horiginal, horiginalSound⟩ :
      ∃ track, readTrack data "original_elevation_profile" = some track ∧
        Sound elevationProfile.optional (trackJson track) :=
    readTrack_sound (hget (by simp [activityMembers]))
  have hmapSound : Sound Transfer.map (.obj (Record.read mapFields summary).entries) :=
    sound_entries (by decide) (by decide) rfl hsummaryObj
  refine ⟨{ id := id, fields := Record.read activityFields data, startDate := start,
            startDateLocal := startLocal, map := Record.read mapFields summary,
            elevationProfile := track, stravaId := stravaId, originalElevationProfile := original },
    ?_, ?_⟩
  · unfold fromStravaApi
    dsimp only
    rw [hidRead, hstart, hlocal, hsummary, htrack, hstrava, horiginal]
    rfl
  · refine sound_written (of_decide_eq_true (by rfl)) (by decide +kernel) hdata ⟨?_, ?_⟩
    · rw [beside_activity]
      simp only [List.forall_mem_cons, List.not_mem_nil, false_imp_iff, implies_true, and_true]
      exact ⟨.of_some rfl (sound_idJson id).accepts, .of_some rfl (sound_timeText py start).accepts,
        .of_some rfl (sound_timeText py startLocal).accepts, .of_none rfl rfl, .of_none rfl rfl,
        .of_none rfl rfl, .of_none rfl rfl, .of_none rfl rfl, .of_some rfl hmapSound.accepts,
        .of_some rfl htrackSound.accepts, .of_some rfl hstravaSound.accepts,
        .of_some rfl horiginalSound.accepts⟩
    · refine goodEntries_iff.mpr ?_
      simp only [List.forall_mem_cons, List.not_mem_nil, false_imp_iff, implies_true, and_true]
      exact ⟨⟨rfl, (sound_idJson id).good⟩, ⟨rfl, rfl⟩, ⟨rfl, rfl⟩, ⟨rfl, hmapSound.good⟩,
        ⟨rfl, htrackSound.good⟩, ⟨rfl, hstravaSound.good⟩, rfl, horiginalSound.good⟩

/-! ## 4. Items -/

/-- An item that the model of its kind accepts, every value in it good. -/
structure SoundItem (py : Python) (v : Json) : Prop where
  ok : ItemOk py v
  good : good true v = true

theorem sound_item {kind : String} {content : Schema}
    (hschema : itemSchema py [(.valid "item_type", .str kind), (.valid key, v)] =
      model (itemMembers key content)) (hkey : key ≠ "item_type")
    (hv : Sound content v) : SoundItem py (item kind key v) where
  ok := by
    have hget : Obj.get [(.valid "item_type", .str kind), (.valid key, v)] key = some v := by
      have hne : ¬ Text.valid "item_type" = .valid key := fun h => hkey (Text.valid.inj h).symm
      rw [Obj.get_cons, if_neg hne, Obj.get_cons, if_pos rfl]
    refine ⟨_, rfl, ?_⟩
    rw [hschema]
    refine accepts_model.mpr ⟨_, rfl, ?_⟩
    simp only [itemMembers, List.forall_mem_cons, List.not_mem_nil, false_imp_iff, implies_true, and_true]
    exact ⟨.of_some rfl (accepts_optional.mpr (.inr rfl)), .of_some hget hv.accepts⟩
  good := by
    refine goodEntries_iff.mpr ?_
    simp only [List.forall_mem_cons, List.not_mem_nil, false_imp_iff, implies_true, and_true]
    exact ⟨⟨rfl, rfl⟩, rfl, hv.good⟩

theorem segment_sound (h : SoundObj (segmentMembers py) data) :
    ∃ s, Segment.fromDict data = some s ∧ Sound (model (segmentMembers py)) (.obj s.toDict) := by
  have hget : ∀ {key : String}, (⟨key, model endpointMembers, false⟩ : Member) ∈ segmentMembers py →
      ∃ o, readNested endpointFields data key = some (Record.read endpointFields o) ∧
        SoundObj endpointMembers o := fun hm =>
    readNested_sound (fun _ hv => h.get hm hv) (by simp [endpointMembers])
  have hend : ∀ {o}, SoundObj endpointMembers o →
      Sound (model endpointMembers) (.obj (Record.read endpointFields o).entries) := fun ho =>
    sound_entries (by decide) (by decide) rfl ho
  obtain ⟨start, hstart, hstartObj⟩ : ∃ o, readNested endpointFields data "start" = _ ∧ _ :=
    hget (by simp [segmentMembers])
  obtain ⟨stop, hstop, hstopObj⟩ : ∃ o, readNested endpointFields data "end" = _ ∧ _ :=
    hget (by simp [segmentMembers])
  refine ⟨{ fields := Record.read segmentFields data, start := Record.read endpointFields start,
            stop := Record.read endpointFields stop }, ?_, ?_⟩
  · unfold Segment.fromDict
    rw [hstart, hstop]
    rfl
  · refine sound_written (of_decide_eq_true (by rfl)) (by decide) h ⟨?_, ?_⟩
    · rw [show beside segmentFields (segmentMembers py) =
        [⟨"start", model endpointMembers, false⟩, ⟨"end", model endpointMembers, false⟩] by rfl]
      simp only [List.forall_mem_cons, List.not_mem_nil, false_imp_iff, implies_true, and_true]
      exact ⟨.of_some rfl (hend hstartObj).accepts, .of_some rfl (hend hstopObj).accepts⟩
    · refine goodEntries_iff.mpr ?_
      simp only [List.forall_mem_cons, List.not_mem_nil, false_imp_iff, implies_true, and_true]
      exact ⟨⟨rfl, (hend hstartObj).good⟩, rfl, (hend hstopObj).good⟩

theorem memory_sound (h : SoundObj memoryMembers o) :
    Sound (model memoryMembers) (.obj ((Record.read memoryFields o).entries ++ unread)) := by
  refine sound_written (by decide) (by decide) h ⟨?_, rfl⟩
  rw [show beside memoryFields memoryMembers = [⟨"photo_refs", any, false⟩,
    ⟨"comment_count", any, false⟩, ⟨"like_count", any, false⟩] by rfl]
  simp only [List.forall_mem_cons, List.not_mem_nil, false_imp_iff, implies_true, and_true]
  exact ⟨.of_none rfl rfl, .of_some rfl (accepts_any _), .of_some rfl (accepts_any _)⟩

theorem item_sound (h : SoundItem py raw) :
    ∃ i, deserialiseItem raw = some i ∧ SoundItem py (serialiseItem i) := by
  obtain ⟨⟨entries, rfl, haccepts⟩, hgood⟩ := h
  have hnested : ∀ {t : Layout} {members : List Member} {key : String},
      (model (itemMembers key (model members))).Accepts (.obj entries) →
      (∀ m ∈ members, m.required = false) →
      ∃ o, readNested t entries key = some (Record.read t o) ∧ SoundObj members o := by
    intro t members key haccepts hoptional
    obtain ⟨_, he, hok⟩ := accepts_model.mp haccepts
    cases he
    exact readNested_sound (fun v hv => (SoundObj.mk hok hgood).get
      (List.mem_cons_of_mem _ List.mem_cons_self) hv) hoptional
  unfold itemSchema at haccepts
  unfold deserialiseItem
  dsimp only
  split at haccepts
  case h_1 hkind =>
    obtain ⟨_, he, hok⟩ := accepts_model.mp haccepts
    cases he
    rw [hkind]
    refine ⟨_, rfl, sound_item rfl (by decide) ?_⟩
    cases hv : Obj.get entries "activity_id" with
    | none => exact sound_null int
    | some v => exact (SoundObj.mk hok hgood).get (List.mem_cons_of_mem _ List.mem_cons_self) hv
  case h_2 hkind =>
    obtain ⟨o, hread, ho⟩ := hnested (t := memoryFields) haccepts (by simp [memoryMembers])
    rw [hkind, hread]
    exact ⟨_, rfl, sound_item rfl (by decide) (memory_sound ho)⟩
  case h_3 hkind =>
    obtain ⟨o, hread, ho⟩ := hnested (t := journalFields) haccepts (by simp [journalMembers])
    rw [hkind, hread]
    exact ⟨_, rfl, sound_item rfl (by decide) (sound_entries (by decide) (by decide) rfl ho)⟩
  case h_4 hkind =>
    obtain ⟨o, hread, ho⟩ := hnested (t := encounterFields) haccepts (by simp [encounterMembers])
    rw [hkind, hread]
    exact ⟨_, rfl, sound_item rfl (by decide) (sound_entries (by decide) (by decide) rfl ho)⟩
  case h_5 hactivity hmemory hjournal hencounter =>
    obtain ⟨_, he, hok⟩ := accepts_model.mp haccepts
    cases he
    have hobj : SoundObj (itemMembers "segment" (model (segmentMembers py))) entries := ⟨hok, hgood⟩
    have htext : ∀ v, Obj.get entries "item_type" = some v → text.optional.Accepts v := fun v hv =>
      (hobj.get List.mem_cons_self hv).accepts
    split
    case h_1 hkind => exact absurd hkind hactivity
    case h_2 hkind => exact absurd hkind hmemory
    case h_3 hkind => exact absurd hkind hjournal
    case h_4 hkind => exact absurd hkind hencounter
    case h_5 xs hkind => cases htext _ hkind
    case h_6 o hkind => cases htext _ hkind
    case h_7 =>
      cases hv : Obj.get entries "segment" with
      | none =>
        have hempty : SoundObj (segmentMembers py) [] := soundObj_nil (by simp [segmentMembers])
        obtain ⟨s, hread, hsound⟩ := segment_sound hempty
        exact ⟨.segment s, congrArg (Option.map _) hread, sound_item rfl (by decide) hsound⟩
      | some v =>
        obtain ⟨o, rfl, ho⟩ := sound_model.mp (hobj.get (List.mem_cons_of_mem _ List.mem_cons_self) hv)
        obtain ⟨s, hread, hsound⟩ := segment_sound ho
        exact ⟨.segment s, congrArg (Option.map _) hread, sound_item rfl (by decide) hsound⟩

/-! ## 5. Counters and days -/

theorem exact_of_good {d : Double} (h : good true (.num (.float d)) = true) : d.exact.isSome = true := by
  change (if true && d.exact.isNone then some _ else none : Option String).isNone = true at h
  by_contra hnone
  rw [Bool.not_eq_true, Option.isSome_eq_false_iff] at hnone
  rw [hnone, Bool.and_self, if_pos rfl] at h
  cases h

theorem sound_float {d : Double} (h : d.exact.isSome = true) : Sound float (.num (.float d)) := by
  refine ⟨rfl, ?_⟩
  show (if true && d.exact.isNone then some _ else none : Option String).isNone = true
  obtain ⟨q, hq⟩ := Option.isSome_iff_exists.mp h
  rw [hq]
  rfl

theorem toFloat_sound (h : Sound float v) : ∃ d, toFloat v = some d ∧ d.exact.isSome = true := by
  cases v with
  | num n =>
    cases n with
    | int n =>
      have hint : Sound int (.num (.int n)) := ⟨rfl, h.good⟩
      obtain ⟨id, hid, -⟩ := activityIdOrNone_sound hint.toOptional
      have hn : isInt64 n = true := by
        by_contra hn
        rw [activityIdOrNone, dif_neg hn] at hid
        cases hid
      have hfinite : (Double.ofInt n).exact.isSome = true := by
        refine Double.exact_ofInt ?_
        unfold isInt64 at hn
        rw [Bool.and_eq_true, decide_eq_true_iff, decide_eq_true_iff] at hn
        rw [abs_le]
        omega
      exact ⟨.ofInt n, if_pos hfinite, hfinite⟩
    | float d => exact ⟨d, rfl, exact_of_good h.good⟩
  | _ => cases h.accepts

structure SoundCount (c : Count) : Prop where
  name : Sound text c.name
  number : c.number.exact.isSome = true

theorem readCount_sound {name : Json} (hname : Obj.get o "name" = some name) (htext : Sound text name)
    (hnumber : Sound float ((Obj.get o key).getD (.int 0))) :
    ∃ c, readCount key (.obj o) = some c ∧ SoundCount c := by
  obtain ⟨d, hd, hfinite⟩ := toFloat_sound hnumber
  refine ⟨{ name := name, number := d }, ?_, htext, hfinite⟩
  unfold readCount
  dsimp only
  rw [hname, hd]
  rfl

theorem good_count {c : Count} (h : SoundCount c) : good true (c.json key) = true := by
  refine goodEntries_iff.mpr ?_
  simp only [List.forall_mem_cons, List.not_mem_nil, false_imp_iff, implies_true, and_true]
  exact ⟨⟨rfl, h.name.good⟩, rfl, (sound_float h.number).good⟩

theorem counter_sound (h : Sound (model counterMembers) raw) :
    ∃ c, readCount "start" raw = some c ∧ SoundCount c := by
  obtain ⟨o, rfl, ho⟩ := sound_model.mp h
  cases hname : Obj.get o "name" with
  | none =>
    have hmember := ho.ok _ List.mem_cons_self
    unfold MemberOk memberFault at hmember
    rw [hname] at hmember
    cases hmember
  | some name =>
    refine readCount_sound hname (ho.get List.mem_cons_self hname) ?_
    cases hv : Obj.get o "start" with
    | none => exact ⟨rfl, rfl⟩
    | some v => exact ho.get (List.mem_cons_of_mem _ List.mem_cons_self) hv

theorem sound_counter {c : Count} (h : SoundCount c) : Sound (model counterMembers) (c.json "start") := by
  refine sound_model.mpr ⟨_, rfl, ?_, good_count h⟩
  simp only [counterMembers, List.forall_mem_cons, List.not_mem_nil, false_imp_iff, implies_true, and_true]
  exact ⟨.of_some rfl h.name.accepts, .of_some rfl (sound_float h.number).accepts⟩

def dayCounts : Schema := any.after dayCountsFault

theorem sound_key {t : Text} (h : keyFault (.name t) = none) : Sound text (.text t) := by
  cases t with
  | valid s => exact ⟨rfl, rfl⟩
  | surrogate codes => cases h

theorem dayCounters_sound (h : Sound dayCounts raw) :
    ∃ counters, dayCountersFromJson raw = some counters ∧ ∀ c ∈ counters, SoundCount c := by
  have hfault : dayCountsFault raw = none := (accepts_after.mp h.accepts).2
  cases raw with
  | obj entries =>
    by_cases hall : entries.all (fun e => isNumber e.2) = true
    · have hone : ∀ e ∈ entries, ∃ c, (toFloat e.2).map
          (fun number => ({ name := .text e.1, number := number } : Count)) = some c ∧
            SoundCount c := by
        intro e he
        obtain ⟨hkey, hgood⟩ := goodEntries_iff.mp h.good e he
        obtain ⟨d, hd, hfinite⟩ := toFloat_sound ⟨accepts_only.mpr (List.all_eq_true.mp hall e he), hgood⟩
        exact ⟨_, congrArg (Option.map _) hd, sound_key hkey, hfinite⟩
      obtain ⟨cs, hcs, -, hsound⟩ := mapM_sound hone
      exact ⟨cs, hcs, hsound⟩
    · rw [dayCountsFault, if_neg hall] at hfault
      cases hfault
  | list entries =>
    by_cases hall : entries.all isDayCount = true
    · have hone : ∀ e ∈ entries.filter isNamed, ∃ c, readCount "value" e = some c ∧ SoundCount c := by
        intro e he
        have hmem := List.mem_of_mem_filter he
        have hcount := List.all_eq_true.mp hall e hmem
        have hgood := goodList_iff.mp h.good e hmem
        cases e with
        | obj o =>
          change ((Obj.get o "name").any isText && isNumber _) = true at hcount
          rw [Bool.and_eq_true, Option.any_eq_true] at hcount
          obtain ⟨⟨name, hname, htext⟩, hnumber⟩ := hcount
          refine readCount_sound hname ⟨accepts_only.mpr htext, good_get hgood hname⟩
            ⟨accepts_only.mpr hnumber, ?_⟩
          cases hv : Obj.get o "value" with
          | none => rfl
          | some v => exact good_get hgood hv
        | _ => cases hcount
      obtain ⟨cs, hcs, -, hsound⟩ := mapM_sound hone
      exact ⟨cs, hcs, hsound⟩
    · rw [dayCountsFault, if_neg hall] at hfault
      cases hfault
  | _ => exact ⟨[], rfl, fun _ hc => absurd hc List.not_mem_nil⟩

theorem sound_dayCounters {counters : List Count} (h : ∀ c ∈ counters, SoundCount c) :
    Sound dayCounts (dayCountersToJson counters) := by
  refine ⟨accepts_after.mpr ⟨rfl, if_pos ?_⟩, goodList_iff.mpr ?_⟩
  · refine List.all_eq_true.mpr fun v hv => ?_
    obtain ⟨c, hc, rfl⟩ := List.mem_map.mp hv
    show (isText c.name && true) = true
    rw [Bool.and_true]
    exact accepts_only.mp (h c hc).name.accepts
  · intro v hv
    obtain ⟨c, hc, rfl⟩ := List.mem_map.mp hv
    exact good_count (h c hc)

theorem sound_withoutNulls (hsuits : t.Suits members) (ht : goodLayout t)
    (hoptional : ∀ m ∈ members, m.required = false) {rest : Obj} (h : SoundObj members o)
    (hrest : SoundObj (beside t members) rest) (hnone : ∀ f ∈ t.fields, rest.get f.name = none) :
    Sound (model members) (.obj ((Record.read t o).entries.withoutNulls ++ rest)) := by
  obtain ⟨_, he, hwritten⟩ := sound_model.mp (sound_written hsuits ht h hrest)
  cases he
  refine sound_model.mpr ⟨_, rfl, fun m hm => ?_, ?_⟩
  · have hok := hwritten.ok m hm
    have hget := Obj.get_withoutNulls (Record.read t o).nodup m.name
    unfold MemberOk memberFault at hok ⊢
    rw [Obj.get_append] at hok ⊢
    by_cases hfield : m.name ∈ t.fields.map (·.name)
    · obtain ⟨f, hf, hfm⟩ := List.mem_map.mp hfield
      rw [← hfm, hnone f hf, Option.or_none] at hok ⊢
      rw [hfm] at hok ⊢
      rw [hget]
      cases hv : (Record.read t o).entries.get m.name with
      | none => rwa [hv] at hok
      | some v =>
        cases hnull : v.isNull with
        | true => simp [Option.filter, hnull, hoptional m hm]
        | false =>
          rw [hv] at hok
          simpa [Option.filter, hnull] using hok
    · have hread : (Record.read t o).entries.get m.name = none := by
        have hbeside := Record.get_beside hfield (Record.read t o) []
        rwa [List.append_nil] at hbeside
      rw [hget, hread]
      rwa [hread] at hok
  · refine goodEntries_iff.mpr fun e he => goodEntries_iff.mp hwritten.good e ?_
    rcases List.mem_append.mp he with hfield | hbeside
    · exact List.mem_append_left _ (List.mem_of_mem_filter hfield)
    · exact List.mem_append_right _ hbeside

/-- **A day that is accepted is read**, and is accepted as it is then written. -/
theorem day_sound (h : Sound (model dayMetaMembers) raw) :
    ∃ d, readDay raw = some d ∧ Sound (model dayMetaMembers) d.json := by
  obtain ⟨o, rfl, ho⟩ := sound_model.mp h
  have hraw : Sound dayCounts ((Obj.get o "counters").getD .null) := by
    cases hv : Obj.get o "counters" with
    | none => exact ⟨rfl, rfl⟩
    | some v =>
      have hm : (⟨"counters", dayCounts, false⟩ : Member) ∈ dayMetaMembers := by
        simp [dayMetaMembers, dayCounts]
      exact ho.get hm hv
  obtain ⟨counters, hread, hcounters⟩ := dayCounters_sound hraw
  refine ⟨{ fields := Record.read dayMetaFields o, counters := counters }, ?_, ?_⟩
  · unfold readDay
    dsimp only
    rw [hread]
    rfl
  · have hbeside : beside dayMetaFields dayMetaMembers = [⟨"counters", dayCounts, false⟩] := by rfl
    have hoptional : ∀ m ∈ dayMetaMembers, m.required = false := by simp [dayMetaMembers]
    have hwritten : ∀ rest : Obj, SoundObj [⟨"counters", dayCounts, false⟩] rest →
        (∀ f ∈ dayMetaFields.fields, rest.get f.name = none) →
        Sound (model dayMetaMembers) (.obj ((Record.read dayMetaFields o).entries.withoutNulls ++ rest)) :=
      fun rest hrest => sound_withoutNulls (by decide) (by decide) hoptional ho (hbeside ▸ hrest)
    unfold DayMeta.json
    split
    · exact hwritten [] ⟨by simp [MemberOk, memberFault], rfl⟩ fun _ _ => rfl
    · refine hwritten _ ⟨?_, ?_⟩ (by simp [dayMetaFields, plain, Obj.get_cons])
      · rw [List.forall_mem_singleton]
        exact .of_some rfl (sound_dayCounters hcounters).accepts
      · refine goodEntries_iff.mpr ?_
        rw [List.forall_mem_singleton]
        exact ⟨rfl, (sound_dayCounters hcounters).good⟩

end TraxJourney.Transfer
