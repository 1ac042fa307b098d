/-
  File:      Imports/Once.lean
  Subject:   A trip holds a recorded track once: what the two GPX imports keep of it, over any
             number of requests and any interleaving of their statements.

  * **`tracks_held_once`** -- in every run whose saves meet it no two activities of the trip share a
    fingerprint, and every request adds all of its new tracks or none;
  * **`held_once_fails_twice`** -- two uploads of one file, both checked before either is saved.
-/
import TraxJourney.Imports.System

namespace TraxJourney.Imports

open Lib

variable {db db' : Db} {l l' : Local} {a : Act}

/-! ## 1. Ids -/

theorem allocateActivityId_valid {used : ℤ → Bool} {strava : Bool} {draws : List ℕ} {id : ℤ}
    (h : allocateActivityId used strava draws = some id) : isActivityId id = true := by
  obtain ⟨n, -, hn⟩ := List.mem_map.mp (List.mem_of_find?_eq_some h)
  have hlt : n % 2 ^ 53 < 2 ^ 53 := Nat.mod_lt _ (by decide)
  unfold isActivityId
  rw [Bool.and_eq_true, decide_eq_true_iff, decide_eq_true_iff, ← hn]
  split <;> omega

/-- The tracks have ids that may be stored, each its own. -/
def Ready (ts : List Track) : Prop := (∀ t ∈ ts, isActivityId t.id = true) ∧ (ts.map Track.id).Nodup

variable {ts : List Track}

theorem allocateAll_ready {used : ℤ → Bool} {ps : List Prepared} {draws : List (List ℕ)} {allocated : List ℤ}
    (h : allocateAll used ps draws allocated = some ts) :
    Ready ts ∧ ∀ t ∈ ts, t.id ∉ allocated := by
  induction draws generalizing ps allocated ts with
  | nil =>
    cases ps with
    | nil => cases h; exact ⟨⟨by simp, List.nodup_nil⟩, by simp⟩
    | cons p ps => cases h
  | cons d draws ih =>
    cases ps with
    | nil => cases h; exact ⟨⟨by simp, List.nodup_nil⟩, by simp⟩
    | cons p ps =>
      simp only [allocateAll] at h
      split at h
      · cases h
      · rename_i id hid
        split at h
        · exact ih h
        · rename_i hfresh
          obtain ⟨ts', hts', he⟩ := Option.map_eq_some_iff.mp h
          subst he
          obtain ⟨⟨hval, hnodup⟩, hout⟩ := ih hts'
          refine ⟨⟨?_, ?_⟩, ?_⟩
          · rw [List.forall_mem_cons]
            exact ⟨allocateActivityId_valid hid, hval⟩
          · rw [List.map_cons, List.nodup_cons]
            refine ⟨fun hin => ?_, hnodup⟩
            obtain ⟨t, ht, e⟩ := List.mem_map.mp hin
            exact hout t ht (e ▸ List.mem_cons_self)
          · rw [List.forall_mem_cons]
            exact ⟨hfresh, fun t ht hin => hout t ht (List.mem_cons_of_mem _ hin)⟩

variable {new : List Track}

theorem Ready.sublist (h : Ready ts) (hs : new.Sublist ts) : Ready new :=
  ⟨fun t ht => h.1 t (hs.subset ht), h.2.sublist (hs.map _)⟩

variable {t : Track}

theorem Track.activity_own (h : isActivityId t.id = true) : t.activity.Own := ⟨rfl, h⟩

/-! ## 2. Sorting -/

/-- **The invariant of `_sort`**: new and remaining tracks are in the order of the file, every track
    is accounted for, and no two new ones have the same fingerprint. -/
structure Sorting.Ok (ts : List Track) (st : Sorting) : Prop where
  order : (st.new ++ st.todo).Sublist ts
  counted : st.new.length + st.skipped.length + st.todo.length = ts.length
  imported : st.imported = st.new.map fun t => (t.id, t.prepared.name)
  seen : ∀ t ∈ st.new, (st.seen.lookup (.fingerprint t.fingerprint)).isSome
  unseen : st.asked = true → ∀ t rest, st.todo = t :: rest →
    st.seen.lookup (.fingerprint t.fingerprint) = none
  nodup : (st.new.map Track.fingerprint).Nodup

theorem Sorting.Ok.start (ts : List Track) : Sorting.Ok ts (.start ts) where
  order := List.Sublist.refl _
  counted := by simp [Sorting.start]
  imported := rfl
  seen _ h := nomatch h
  unseen h := nomatch h
  nodup := List.nodup_nil

/-- What the queries found while the trip was as it is in `db`: no new track in it. -/
structure Sorting.Fresh (db : Db) (st : Sorting) : Prop where
  new : ∀ t ∈ st.new, existingByFingerprint db t.fingerprint = none
  head : st.asked = true → ∀ t rest, st.todo = t :: rest → existingByFingerprint db t.fingerprint = none

variable {st : Sorting} {rest : List Track}

theorem Sorting.Ok.skip {e : ℤ × String} (h : st.Ok ts)
    (htodo : st.todo = t :: rest) : (st.skip t rest e).Ok ts where
  order := (((List.sublist_cons_self t rest).append_left st.new)).trans (htodo ▸ h.order)
  counted := by
    have := h.counted
    rw [htodo, List.length_cons] at this
    simp only [Sorting.skip, List.length_append, List.length_singleton]
    omega
  imported := h.imported
  seen := h.seen
  unseen hc := nomatch hc
  nodup := h.nodup

theorem lookup_take {f : Option String} :
    ((st.take t rest).seen.lookup (.fingerprint f)) =
      if f = t.fingerprint then some (t.id, t.prepared.name)
      else st.seen.lookup (.fingerprint f) := by
  have hskip : (t.prepared.carriedIdentity.elim ([] : List (Key × (ℤ × String)))
      fun i => [(.identity i, (t.id, t.prepared.name))]).lookup (.fingerprint f) = none := by
    cases t.prepared.carriedIdentity with
    | none => rfl
    | some i => rfl
  simp only [Sorting.take, List.lookup_append, hskip, Option.none_or, List.lookup_cons]
  by_cases hf : f = t.fingerprint
  · simp [hf]
  · have hne : (Key.fingerprint f == Key.fingerprint t.fingerprint) = false :=
      beq_false_of_ne fun e => hf (Key.fingerprint.inj e)
    simp [hne, hf]

theorem Sorting.Ok.take (h : st.Ok ts) (htodo : st.todo = t :: rest) (hasked : st.asked = true) :
    (st.take t rest).Ok ts where
  order := by
    have := h.order
    rw [htodo] at this
    simpa [Sorting.take] using this
  counted := by
    have := h.counted
    rw [htodo, List.length_cons] at this
    simp only [Sorting.take, List.length_append, List.length_singleton]
    omega
  imported := by simp [Sorting.take, h.imported]
  seen t' ht' := by
    rw [lookup_take]
    split
    · rfl
    · rename_i hne
      rcases List.mem_append.mp ht' with ht' | ht'
      · exact h.seen t' ht'
      · exact absurd (congrArg Track.fingerprint (List.mem_singleton.mp ht')) hne
  unseen hc := nomatch hc
  nodup := by
    simp only [Sorting.take, List.map_append, List.map_singleton]
    rw [List.nodup_append]
    refine ⟨h.nodup, List.nodup_singleton _, fun f hf f' hf' => ?_⟩
    rw [List.mem_singleton] at hf'
    subst hf'
    rintro rfl
    obtain ⟨t', ht', e⟩ := List.mem_map.mp hf
    have hsome := h.seen t' ht'
    rw [e, h.unseen hasked t rest htodo] at hsome
    cases hsome

theorem Sorting.next_ok {st' : Sorting} (h : st.Ok ts) (hn : st.next db = some st') :
    st'.Ok ts ∧ (st.Fresh db → st'.Fresh db) := by
  unfold Sorting.next at hn
  split at hn
  · cases hn
  · rename_i t rest htodo
    have hskip : ∀ e, (st.skip t rest e).Ok ts ∧ (st.Fresh db → (st.skip t rest e).Fresh db) :=
      fun e => ⟨h.skip htodo, fun hf => ⟨hf.new, fun hc => nomatch hc⟩⟩
    split at hn
    · rename_i hasked
      split at hn
      · cases hn
        exact hskip _
      · cases hn
        refine ⟨h.take htodo hasked, fun hf => ⟨fun t' ht' => ?_, fun hc => nomatch hc⟩⟩
        rcases List.mem_append.mp ht' with ht' | ht'
        · exact hf.new t' ht'
        · rw [List.mem_singleton.mp ht']
          exact hf.head hasked t rest htodo
    · split at hn
      · cases hn
        exact hskip _
      · rename_i hearlier
        split at hn
        · cases hn
          exact hskip _
        · rename_i hnone
          cases hn
          have hun : st.seen.lookup (.fingerprint t.fingerprint) = none :=
            (Option.or_eq_none_iff.mp hearlier).1
          have hhead : ∀ t' rest', st.todo = t' :: rest' → t' = t := by
            intro t' rest' he
            rw [htodo] at he
            exact (List.cons.inj he).1.symm
          refine ⟨⟨h.order, h.counted, h.imported, h.seen, fun _ t' rest' he => ?_, h.nodup⟩,
            fun hf => ⟨hf.new, fun _ t' rest' he => ?_⟩⟩
          · rw [hhead t' rest' he]
            exact hun
          · rw [hhead t' rest' he]
            exact hnone

/-! ## 3. What a request knows -/

theorem existingByFingerprint_congr (h : db'.tripRows = db.tripRows) (fp : Option String) :
    existingByFingerprint db' fp = existingByFingerprint db fp := by
  cases fp with
  | none => rfl
  | some f =>
    show existingImport db' f = existingImport db f
    rw [existingImport, existingImport, h]

/-- What a load of the trip is good for, while the lock stands at the version it read. -/
def Current (db : Db) (v : ℕ) (P : Prop) : Prop := v ≤ db.lockVersion ∧ (v = db.lockVersion → P)

theorem Current.later {v : ℕ} {P P' : Prop} (h : Current db v P) (hl : db.Later db')
    (hP : db'.items = db.items → db'.tripRows = db.tripRows → P → P') : Current db' v P' := by
  refine ⟨Nat.le_trans h.1 hl.le, fun he => ?_⟩
  obtain ⟨hv, hi, ht⟩ := hl.same h.1 he
  exact hP hi ht (h.2 hv)

theorem Project.LoadedFrom.congr {p : Project} (h : p.LoadedFrom db) (hi : db'.items = db.items) :
    p.LoadedFrom db' :=
  ⟨h.items.trans hi.symm, fun a ha => hi ▸ h.held a ha⟩

theorem Sorting.Fresh.congr (h : st.Fresh db) (ht : db'.tripRows = db.tripRows) :
    st.Fresh db' where
  new t hm := (existingByFingerprint_congr ht _).trans (h.new t hm)
  head hasked t rest htodo := (existingByFingerprint_congr ht _).trans (h.head hasked t rest htodo)

/-- The mutation was made of the trip as it is. -/
def Mutated (db : Db) (p : Project) (new : List Track) : Prop :=
  ∃ (p₀ : Project) (standIn : List ℤ → ℤ), p₀.LoadedFrom db ∧ p = p₀.addActivities (new.map Track.activity) standIn

/-- The tracks about to be saved: with ids, no two with the same fingerprint. -/
structure Adds (new : List Track) : Prop where
  ready : Ready new
  nodup : (new.map Track.fingerprint).Nodup

/-- **What a request knows.** -/
def Holds : Local → Db → Prop
  | .presort ts _, _ => Ready ts
  | .attempt job _, _ => Ready job.all
  | .rowRead job _ v, db => Ready job.all ∧ Current db v True
  | .itemsRead job _ v items, db => Ready job.all ∧ Current db v (items = db.items)
  | .loaded job _ p, db => Ready job.all ∧ Current db p.lockVersion (p.LoadedFrom db)
  | .sorting ts _ p st, db => Ready ts ∧ st.Ok ts ∧ Current db p.lockVersion (p.LoadedFrom db ∧ st.Fresh db)
  | .mutated (.gpx t) _ p new _, db =>
    Ready [t] ∧ new = [t] ∧ Adds new ∧ Current db p.lockVersion (Mutated db p new)
  | .mutated (.tracks ts) _ p new _, db =>
    Ready ts ∧ Adds new ∧ Current db p.lockVersion (Mutated db p new ∧
      ∀ t ∈ new, existingByFingerprint db t.fingerprint = none)
  | _, _ => True

theorem holds_free (h : l.Free) : Holds l db := by
  cases l with
  | checking p asked => trivial
  | allocateOne p => trivial
  | allocateAll ps => trivial
  | done o => trivial
  | _ => cases h

theorem holds_other (h : Holds l db) (hl : db.Later db') : Holds l db' := by
  cases l with
  | rowRead job left v => exact ⟨h.1, h.2.later hl fun _ _ hP => hP⟩
  | itemsRead job left v items => exact ⟨h.1, h.2.later hl fun hi _ hP => hP.trans hi.symm⟩
  | loaded job left p => exact ⟨h.1, h.2.later hl fun hi _ hP => hP.congr hi⟩
  | sorting ts left p st => exact ⟨h.1, h.2.1, h.2.2.later hl fun hi ht hP => ⟨hP.1.congr hi, hP.2.congr ht⟩⟩
  | mutated job left p new skipped =>
    have hm : db'.items = db.items → Mutated db p new → Mutated db' p new := by
      rintro hi ⟨p₀, standIn, hload, he⟩
      exact ⟨p₀, standIn, hload.congr hi, he⟩
    cases job with
    | gpx t => exact ⟨h.1, h.2.1, h.2.2.1, h.2.2.2.later hl fun hi _ hP => hm hi hP⟩
    | tracks ts =>
      refine ⟨h.1, h.2.1, h.2.2.later hl fun hi ht hP => ⟨hm hi hP.1, fun t hmem => ?_⟩⟩
      exact (existingByFingerprint_congr ht _).trans (hP.2 t hmem)
  | _ => exact h

theorem loadedFrom_read (db : Db) (v : ℕ) (items : List ℤ) (h : items = db.items) :
    (⟨v, loadActivities db items, items⟩ : Project).LoadedFrom db where
  items := h
  held a ha := by
    obtain ⟨r, hr, rfl⟩ := List.mem_map.mp ha
    rw [← h]
    exact of_decide_eq_true (List.mem_filter.mp hr).2

theorem addActivities_lockVersion (p : Project) (standIn : List ℤ → ℤ) (h : Ready new) :
    (p.addActivities (new.map Track.activity) standIn).lockVersion = p.lockVersion := by
  refine (p.addActivities_own standIn ?_ ?_).1
  · intro a ha
    obtain ⟨t, ht, rfl⟩ := List.mem_map.mp ha
    exact Track.activity_own (h.1 t ht)
  · rw [List.map_map]
    exact h.2

theorem holds_own (h : Holds l db) (hs : Step l a db l' db') : Holds l' db' := by
  cases hs with
  | free hf => exact holds_free hf
  | gpxId ht => exact (allocateAll_ready ht).1
  | trackIds ht => exact (allocateAll_ready ht).1
  | presort hn => exact h
  | presorted hne => exact h
  | readRow => exact ⟨h, Nat.le_refl _, fun _ => trivial⟩
  | readItems => exact ⟨h.1, h.2.1, fun _ => rfl⟩
  | readActivities => exact ⟨h.1, h.2.1, fun hv => loadedFrom_read db _ _ (h.2.2 hv)⟩
  | @addGpx t left p standIn _ =>
    have hlock : (p.addActivities [t.activity] standIn).lockVersion = p.lockVersion :=
      addActivities_lockVersion _ _ h.1
    refine ⟨h.1, rfl, ⟨h.1, List.nodup_singleton _⟩, ?_⟩
    rw [hlock]
    exact ⟨h.2.1, fun hv => ⟨p, standIn, h.2.2 hv, rfl⟩⟩
  | @sortAgain ts _ _ _ =>
    refine ⟨h.1, .start ts, h.2.1, fun hv => ⟨h.2.2 hv, ⟨?_, fun hc => nomatch hc⟩⟩⟩
    intro t ht
    cases ht
  | sort hn =>
    obtain ⟨hok, hfresh⟩ := Sorting.next_ok h.2.1 hn
    exact ⟨h.1, hok, h.2.2.1, fun hv => ⟨(h.2.2.2 hv).1, hfresh (h.2.2.2 hv).2⟩⟩
  | @addTracks ts left p st standIn _ hdone =>
    have hsub : st.new.Sublist ts := (List.sublist_append_left _ _).trans h.2.1.order
    have hready : Ready st.new := h.1.sublist hsub
    have hlock := addActivities_lockVersion p standIn hready
    refine ⟨h.1, ⟨hready, h.2.1.nodup⟩, ?_⟩
    rw [hlock]
    exact ⟨h.2.2.1, fun hv => ⟨⟨p, standIn, (h.2.2.2 hv).1, rfl⟩, (h.2.2.2 hv).2.new⟩⟩
  | saved hs => trivial
  | @retry job _ _ _ _ _ _ he =>
    cases job with
    | gpx t => exact h.1
    | tracks ts => exact h.1
  | otherSave keep => trivial
  | otherTrip hout ht => trivial

/-! ## 4. Every run -/

/-- The rows that a request has added to the trip. -/
def Local.added : Local → List Row
  | .done (.saved _ _ added) => added
  | _ => []

/-- A request has added one row for each of its new tracks, or none. -/
def Local.Whole : Local → Prop
  | .done (.saved new _ added) => added = [] ∨ ∃ acts, acts.Perm (new.map Track.activity) ∧
        List.Forall₂ (fun a r => r = newRow a r.id) acts added
  | _ => True

variable {ι : Type} [DecidableEq ι] {w w' : Clients ι Local Db}

/-- A save that the lock admits finds the fingerprint of its `import-gpx` on no imported activity of
    the trip, and the random ids of its `import-gpx-tracks` on none of its activities. -/
def FindsNoCopy (w : Clients ι Local Db) (l : ι × Act) : Prop :=
  match w.locals l.1, l.2 with
  | .mutated (.gpx t) _ p _ _, .save _ => p.lockVersion = w.store.lockVersion →
      t.fingerprint.isSome → ∀ r ∈ w.store.tripRows, r.imported ≠ t.fingerprint
  | .mutated (.tracks _) _ p new _, .save _ => p.lockVersion = w.store.lockVersion →
      ∀ t ∈ new, t.id ∉ w.store.items
  | _, _ => True

omit [DecidableEq ι] in
instance (w : Clients ι Local Db) (l : ι × Act) : Decidable (FindsNoCopy w l) := by
  unfold FindsNoCopy
  split <;> infer_instance

theorem Db.Once.mono (h : db.Once) (hsub : ∀ r ∈ db'.tripRows, r ∈ db.tripRows) : db'.Once :=
  fun r hr r' hr' => h r (hsub r hr) r' (hsub r' hr')

theorem saved_rows {p : Project} {draws : ℤ → List ℕ} (hr : Ready new)
    (hc : Current db p.lockVersion (Mutated db p new)) (hs : saveProject db p draws = .ok db') :
    ∃ kept, db'.tripRows = kept ++ db.added db' ∧ (∀ r ∈ kept, r ∈ db.tripRows) ∧
      List.Forall₂ (fun a r => r = newRow a r.id)
        ((byStart (new.map Track.activity)).filter fun a => a.id ∉ db.items) (db.added db') := by
  obtain ⟨p₀, standIn, hload, rfl⟩ := hc.2 (saveProject_ok hs).1.symm
  have hown : ∀ a ∈ new.map Track.activity, a.Own := by
    intro a ha
    obtain ⟨t, ht, rfl⟩ := List.mem_map.mp ha
    exact Track.activity_own (hr.1 t ht)
  have hnodup : ((new.map Track.activity).map (·.id)).Nodup := by
    rw [List.map_map]
    exact hr.2
  obtain ⟨kept, created, htrip, hkept, hfresh, hrows⟩ := saveProject_added hload hown hnodup hs
  rw [Db.added_eq htrip hkept hfresh]
  exact ⟨kept, htrip, hkept, hrows⟩

theorem mem_newActivities {a : Activity} (h : a ∈ byStart (new.map Track.activity)) :
    ∃ t ∈ new, a = t.activity := by
  obtain ⟨t, ht, rfl⟩ := List.mem_map.mp ((byStart_perm _).mem_iff.mp h)
  exact ⟨t, ht, rfl⟩

theorem newActivities_all {items : List ℤ} (h : ∀ t ∈ new, t.id ∉ items) :
    (byStart (new.map Track.activity)).filter (fun a => a.id ∉ items) =
      byStart (new.map Track.activity) := by
  refine List.filter_eq_self.mpr fun a ha => decide_eq_true ?_
  obtain ⟨t, ht, rfl⟩ := mem_newActivities ha
  exact h t ht

theorem newActivities_held {items : List ℤ} (h : ∀ t ∈ new, t.id ∈ items) :
    (byStart (new.map Track.activity)).filter (fun a => a.id ∉ items) = [] := by
  refine List.filter_eq_nil_iff.mpr fun a ha hout => ?_
  obtain ⟨t, ht, rfl⟩ := mem_newActivities ha
  exact of_decide_eq_true hout (h t ht)

theorem newActivities_nodup {p : Activity → Bool} (h : (new.map Track.fingerprint).Nodup) :
    (((byStart (new.map Track.activity)).filter p).map (·.sourceId)).Nodup := by
  refine List.Nodup.sublist (List.filter_sublist.map _) ?_
  rw [((byStart_perm _).map _).nodup_iff, List.map_map]
  exact h

omit [DecidableEq ι] in
theorem saved_once {job : Job} {left : ℕ} {p : Project} {skipped : List Skipped} {draws : ℤ → List ℕ} {i : ι}
    (hl : w.locals i = .mutated job left p new skipped)
    (hold : Holds (.mutated job left p new skipped) w.store) (hc : FindsNoCopy w (i, .save draws))
    (honce : w.store.Once) (hs : saveProject w.store p draws = .ok db') :
    db'.Once ∧ (Local.done (.saved new skipped (w.store.added db'))).Whole := by
  have hv : p.lockVersion = w.store.lockVersion := (saveProject_ok hs).1.symm
  simp only [FindsNoCopy, hl] at hc
  cases job with
  | gpx t =>
    obtain ⟨-, rfl, hadds, hcur⟩ := hold
    obtain ⟨kept, htrip, hkept, hrows⟩ := saved_rows hadds.ready hcur hs
    have hcopy := hc hv
    refine ⟨honce.added htrip hkept hrows ?_ (newActivities_nodup hadds.nodup) ?_, ?_⟩
    · intro a ha
      obtain ⟨t', -, rfl⟩ := mem_newActivities (List.mem_of_mem_filter ha)
      rfl
    · intro a ha hsome
      obtain ⟨t', ht', rfl⟩ := mem_newActivities (List.mem_of_mem_filter ha)
      obtain rfl := List.mem_singleton.mp ht'
      exact hcopy hsome
    · -- one track: the trip held its id and nothing is added, or it did not
      by_cases hid : t.id ∈ w.store.items
      · rw [newActivities_held fun t' ht' => List.mem_singleton.mp ht' ▸ hid] at hrows
        exact .inl (List.forall₂_nil_left_iff.mp hrows)
      · rw [newActivities_all fun t' ht' => List.mem_singleton.mp ht' ▸ hid] at hrows
        exact .inr ⟨_, byStart_perm _, hrows⟩
  | tracks ts =>
    obtain ⟨-, hadds, hcur⟩ := hold
    obtain ⟨kept, htrip, hkept, hrows⟩ := saved_rows hadds.ready ⟨hcur.1, fun he => (hcur.2 he).1⟩ hs
    have hfresh := (hcur.2 hv).2
    refine ⟨honce.added htrip hkept hrows ?_ (newActivities_nodup hadds.nodup) ?_, ?_⟩
    · intro a ha
      obtain ⟨t', -, rfl⟩ := mem_newActivities (List.mem_of_mem_filter ha)
      rfl
    · intro a ha hsome r hr he
      obtain ⟨t', ht', rfl⟩ := mem_newActivities (List.mem_of_mem_filter ha)
      refine existingByFingerprint_none (hfresh t' ht') hr hsome ?_
      rw [Row.imported] at he
      split at he
      · exact he
      · rw [← he] at hsome
        cases hsome
    · rw [newActivities_all (hc hv)] at hrows
      exact .inr ⟨_, byStart_perm _, hrows⟩

theorem whole_free (h : l.Free) : l.Whole := by
  cases l with
  | done o =>
    cases o with
    | saved new skipped added => cases h
    | _ => trivial
  | _ => trivial

omit [DecidableEq ι] in
theorem once_kept : Kept (ι := ι) step FindsNoCopy Db.Once fun l db => Holds l db ∧ l.Whole where
  own w i a l' db' honce hall hc hf := by
    have hs := step_cases hf
    have hhold : Holds l' db' := holds_own (hall i).1 hs
    generalize hl : w.locals i = l at hs
    generalize hst : w.store = db at hs
    cases hs with
    | free h => exact ⟨hst ▸ honce, hhold, whole_free h⟩
    | @saved job left p new skipped draws _ _ h =>
      subst hst
      have hold := (hall i).1
      rw [hl] at hold
      obtain ⟨h1, h2⟩ := saved_once hl hold hc honce h
      exact ⟨h1, hhold, h2⟩
    | otherSave keep =>
      subst hst
      refine ⟨honce.mono fun r hr => ?_, hhold, trivial⟩
      obtain ⟨hin, hitem⟩ := Db.mem_tripRows.mp hr
      exact Db.mem_tripRows.mpr ⟨hin, (List.mem_filter.mp hitem).1⟩
    | otherTrip hout h =>
      subst hst
      exact ⟨honce.mono fun r hr => tripRows_insert hout h ▸ hr, hhold, trivial⟩
    | _ => exact ⟨hst ▸ honce, hhold, trivial⟩
  other w i a l' db' j _ _ hall _ hf := ⟨holds_other (hall j).1 (step_later hf), (hall j).2⟩

/-- What the trip holds was there, or a request added it. -/
def Accounted (db₀ : Db) (w : Clients ι Local Db) : Prop :=
  ∀ r ∈ w.store.tripRows, r ∈ db₀.tripRows ∨ ∃ i, r ∈ (w.locals i).added

theorem step_added (h : step l a db = some (l', db')) : l.added = [] := by
  cases l with
  | done o => cases a <;> cases h
  | _ => rfl

theorem accounted_step {db₀ : Db} {k : ι × Act} (hall : ∀ i, Holds (w.locals i) w.store)
    (h : Accounted db₀ w) (hs : Clients.step step w k = some w') : Accounted db₀ w' := by
  obtain ⟨i, a⟩ := k
  obtain ⟨l', db', hf, rfl⟩ := Clients.step_cases hs
  -- a row of the trip was there, or the client that took the step has just added it
  have hrow : ∀ r ∈ db'.tripRows, r ∈ w.store.tripRows ∨ r ∈ l'.added := by
    have hhold := hall i
    have hstep := step_cases hf
    generalize hl : w.locals i = l at hstep hhold
    generalize w.store = db at hstep hhold
    intro r hr
    cases hstep with
    | @saved job left p new skipped draws _ _ hok =>
      obtain ⟨kept, htrip, hkept, -⟩ : ∃ kept, db'.tripRows = kept ++ db.added db' ∧
          (∀ r ∈ kept, r ∈ db.tripRows) ∧ _ := by
        cases job with
        | gpx t => exact saved_rows hhold.2.2.1.ready hhold.2.2.2 hok
        | tracks ts =>
          have hcur := hhold.2.2
          exact saved_rows hhold.2.1.ready ⟨hcur.1, fun he => (hcur.2 he).1⟩ hok
      rw [htrip] at hr
      exact (List.mem_append.mp hr).imp (hkept r) id
    | otherSave keep =>
      obtain ⟨hin, hitem⟩ := Db.mem_tripRows.mp hr
      exact .inl (Db.mem_tripRows.mpr ⟨hin, (List.mem_filter.mp hitem).1⟩)
    | otherTrip hout ht => exact .inl (tripRows_insert hout ht ▸ hr)
    | _ => exact .inl hr
  intro r hr
  rcases hrow r hr with hold | hnew
  · rcases h r hold with h0 | ⟨j, hj⟩
    · exact .inl h0
    · refine .inr ⟨j, ?_⟩
      have hne : j ≠ i := by
        rintro rfl
        rw [step_added hf] at hj
        cases hj
      simpa only [Function.update_of_ne hne] using hj
  · refine .inr ⟨i, ?_⟩
    simpa only [Function.update_self] using hnew

/-- **A trip holds a recorded track once**, in every run whose saves find no copy: no two of its activities
    share a fingerprint that both took from an import, every request adds all of its new tracks or none, and
    nothing else comes into the trip. -/
theorem tracks_held_once {db₀ : Db} {tr : List (ι × Act)} (honce : db₀.Once)
    (h : Run (Meeting (Steps (Clients.step step)) FindsNoCopy) (start db₀) tr w) :
    w.store.Once ∧ (∀ i, (w.locals i).Whole) ∧ Accounted db₀ w := by
  have hstart : ∀ i : ι, Holds ((start db₀ : Clients ι Local Db).locals i) db₀ ∧
      ((start db₀ : Clients ι Local Db).locals i).Whole := fun _ => ⟨trivial, trivial⟩
  have hrun := h.invariant
    (I := fun w => (w.store.Once ∧ ∀ i, Holds (w.locals i) w.store ∧ (w.locals i).Whole) ∧
      Accounted db₀ w)
    ⟨⟨honce, hstart⟩, fun r hr => .inl hr⟩
    fun v k v' hv hs => ⟨once_kept.step hv.1.1 hv.1.2 hs.2 hs.1,
      accounted_step (fun i => (hv.1.2 i).1) hv.2 hs.1⟩
  exact ⟨hrun.1.1, fun i => (hrun.1.2 i).2, hrun.2⟩

/-! ## 5. One file, sent twice -/

def emptyTrip : Db := ⟨0, [], Table.empty⟩

/-- A morning's ride, recorded once. -/
def morningRide : Prepared := ⟨0, none, "Morning ride", 0, some "c4a9"⟩

def eveningWalk : Prepared := ⟨1, none, "Evening walk", 9, some "77f0"⟩

/-- The statements of one attempt, up to the save of a project that needs no new draw. -/
def attemptOf (i : ℕ) : List (ℕ × Act) :=
  [(i, .readRow), (i, .readItems), (i, .readActivities), (i, .mutate fun _ => 1)]

/-- `import-gpx` of the ride, checked and saved while a request for all the tracks of the file is
    about to save: that one's lock is old, it loads again and finds the ride. -/
def overlapping : List (ℕ × Act) :=
  ([(1, .importTracks [morningRide, eveningWalk]), (1, .allocate [[21], [22]]), (1, .query),
   (1, .query), (1, .query), (1, .query), (1, .query), (1, .readRow), (1, .readItems),
   (1, .readActivities), (1, .query), (1, .query), (1, .query), (1, .query), (1, .query),
   (1, .mutate fun _ => 1), (0, .importGpx morningRide), (0, .query), (0, .query),
   (0, .allocate [[11]])] : List (ℕ × Act)) ++ attemptOf 0 ++
  ([(0, .save fun _ => []), (1, .save fun _ => []), (1, .readRow), (1, .readItems),
   (1, .readActivities), (1, .query), (1, .query), (1, .query), (1, .query),
   (1, .mutate fun _ => 1), (1, .save fun _ => [])] : List (ℕ × Act))

theorem tracks_held_once_overlapping : ∃ w : Clients ℕ Local Db,
    exec (Clients.step step) (start emptyTrip) overlapping = some w ∧
    w.store.items = [-11, -22] ∧ w.store.Once := by
  have hmeet : AllMeet (Clients.step step) FindsNoCopy (start emptyTrip) overlapping := by decide
  have hend : (exec (Clients.step step) (start emptyTrip) overlapping).map
      (fun w : Clients ℕ Local Db => w.store.items) = some [-11, -22] := by decide
  obtain ⟨w, hw, hitems⟩ := Option.map_eq_some_iff.mp hend
  exact ⟨w, hw, hitems, (tracks_held_once (by decide) (run_of_allMeet hw hmeet)).1⟩

/-- The ride uploaded twice at once, as by two taps: each request looks before the other saves. -/
def twice : List (ℕ × Act) :=
  ([(0, .importGpx morningRide), (1, .importGpx morningRide), (0, .query), (1, .query), (0, .query),
   (1, .query), (0, .allocate [[11]]), (1, .allocate [[21]])] : List (ℕ × Act)) ++
  attemptOf 0 ++ ([(0, .save fun _ => [])] : List (ℕ × Act)) ++ attemptOf 1 ++
  ([(1, .save fun _ => [])] : List (ℕ × Act))

theorem held_once_fails_twice : ∃ w : Clients ℕ Local Db,
    Run (Steps (Clients.step step)) (start emptyTrip) twice w ∧ ¬ w.store.Once ∧
    w.store.tripRows.map (fun r => (r.id, r.source, r.sourceId)) =
      [(-11, some "gpx", some "c4a9"), (-21, some "gpx", some "c4a9")] := by
  have hend : (exec (Clients.step step) (start emptyTrip) twice).map
      (fun w : Clients ℕ Local Db => (decide w.store.Once,
        w.store.tripRows.map fun r => (r.id, r.source, r.sourceId))) =
      some (false, [(-11, some "gpx", some "c4a9"), (-21, some "gpx", some "c4a9")]) := by decide
  obtain ⟨w, hw, he⟩ := Option.map_eq_some_iff.mp hend
  obtain ⟨hnot, hrows⟩ := Prod.mk.inj he
  exact ⟨w, run_iff_exec.mpr hw, of_decide_eq_false hnot, hrows⟩

end TraxJourney.Imports
