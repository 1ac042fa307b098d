/-
  File:      Imports/Insertion.lean
  Subject:   Activities added to a project of any items: `add_activities` and
             `_chronological_insert_pos` of `src/models/project.py`.

  * **`addActivities_spec`** -- items keep their order, none is added twice, and each new one stands
    directly behind the last that starts no later.

  What an item shows is left open, and so are the day entries that `_fill_day_gaps` adds. A start date is
  an instant; an empty one does not compare with it, and the sorting raises.
-/
import TraxJourney.Imports.Trip
import TraxJourney.Lib.Dict
import TraxJourney.Lib.Insertion
import TraxJourney.Lib.StableSort

namespace TraxJourney.Imports.Insertion

open Lib

/-! ## 1. Projects -/

structure Activity where
  id : Option ℤ
  startDate : Option ℤ
  source : Option String
  stravaId : Option ℤ
deriving DecidableEq

inductive ItemType where
  | activity
  | segment
  | memory
  | journal
  | encounter
deriving DecidableEq

structure ProjectItem (ι : Type) where
  itemType : ItemType
  activityId : Option ℤ
  shows : Option ι
deriving DecidableEq

structure Project (ι : Type) where
  activities : List Activity
  items : List (ProjectItem ι)
deriving DecidableEq

variable {ι : Type}

/-- `ProjectItem(item_type="activity", activity_id=act.id)`. -/
def itemOf (act : Activity) : ProjectItem ι := ⟨.activity, act.id, none⟩

def isStravaId (id : ℤ) : Bool := isActivityId id && 0 < id

def Activity.recorded (act : Activity) : Option ℤ := act.stravaId.filter isStravaId

local instance lawfulBEq_source : LawfulBEq (Option String) := inferInstance

def stravaIdentity (act : Activity) : Option ℤ :=
  match act.recorded with
  | some sid => some sid
  | none => if act.source ∈ [none, some "", some "strava"] then act.id.filter isStravaId else none

/-- `rebuild_map`; the loop goes on with it for the activities it adds. -/
def activityMap (activities : List Activity) : Dict ℤ Activity :=
  Table.ofEntries (activities.filterMap fun a => a.id.map fun id => (id, a))

def activityOf (activities : List Activity) (item : ProjectItem ι) : Option Activity :=
  if item.itemType = .activity then item.activityId.bind (activityMap activities).find else none

def startOf (activities : List Activity) (item : ProjectItem ι) : Option ℤ :=
  (activityOf activities item).bind (·.startDate)

/-- It starts no later than `start`. -/
def startsBy (activities : List Activity) (start : ℤ) (item : ProjectItem ι) : Bool :=
  (startOf activities item).any fun s => s ≤ start

/-! ## 2. Adding -/

/-- `items.insert` at `_chronological_insert_pos`: at the end without a start date. -/
def inserted (activities : List Activity) (items : List (ProjectItem ι)) (act : Activity) :
    List (ProjectItem ι) :=
  match act.startDate with
  | none => items ++ [itemOf act]
  | some start => insertBehind (startsBy activities start) items (itemOf act)

/-- `_stand_in_id`: a positive id that is not taken. Which one is drawn is left open. -/
structure StandIn where
  draw : List (Option ℤ) → ℤ
  pos : ∀ taken, 0 < draw taken
  fresh : ∀ taken, some (draw taken) ∉ taken

/-- The loop state of `add_activities`. -/
structure Adding (ι : Type) where
  project : Project ι
  existingIds : List (Option ℤ)
  heldStrava : List ℤ
  added : ℕ

def Adding.put (st : Adding ι) (act : Activity) : Adding ι :=
  if act.id ∈ st.existingIds then st
  else
    let activities := st.project.activities ++ [act]
    { st with
      project := { activities := activities, items := inserted activities st.project.items act }
      existingIds := act.id :: st.existingIds
      added := st.added + 1 }

/-- One activity of `add_activities`. -/
def Adding.next (S : StandIn) (st : Adding ι) (act : Activity) : Adding ι :=
  match stravaIdentity act with
  | none => st.put act
  | some sid =>
    if sid ∈ st.heldStrava then st
    else
      let st := { st with heldStrava := sid :: st.heldStrava }
      if act.id ∈ st.existingIds then
        st.put { act with id := some (S.draw st.existingIds), stravaId := some sid }
      else st.put act

def Dated (acts : List Activity) : Prop := ∀ a ∈ acts, a.startDate.isSome

def Undated (acts : List Activity) : Prop := ∀ a ∈ acts, a.startDate = none

/-- `sorted(new_activities, key=lambda a: a.start_date or "")`: a text and a date do not compare. -/
def byStart (new : List Activity) : Option (List Activity) :=
  if new.all fun a => a.startDate.isSome then some (sortBy (fun a => a.startDate.getD 0) new)
  else if new.all fun a => a.startDate.isNone then some new
  else none

/-- The state in which the loop begins. -/
def Project.adding (p : Project ι) : Adding ι where
  project := p
  existingIds := (p.activities.map (·.id)).filter Option.isSome
  heldStrava := p.activities.filterMap (·.stravaId)
  added := 0

/-- `add_activities`, with the number of those added. -/
def Project.addActivities (p : Project ι) (S : StandIn) (new : List Activity) : Option (Project ι × ℕ) := do
  let sorted ← byStart new
  let st := sorted.foldl (Adding.next S) p.adding
  some (st.project, st.added)

/-! ## 3. Activities by their ids -/

theorem find_activityMap_concat (activities : List Activity) (act : Activity) (k : ℤ) :
    (activityMap (activities ++ [act])).find k =
      if act.id = some k then some act else (activityMap activities).find k := by
  unfold activityMap Table.ofEntries
  rw [List.filterMap_append, List.foldl_append]
  cases hid : act.id with
  | none => simp [hid]
  | some id =>
    simp only [List.filterMap_cons, hid, Option.map_some, List.filterMap_nil, List.foldl_cons,
      List.foldl_nil, Table.find_put, Option.some.injEq, eq_comm]

theorem of_find_activityMap {activities : List Activity} {k : ℤ} {a : Activity}
    (h : (activityMap activities).find k = some a) : a ∈ activities ∧ a.id = some k := by
  induction activities using List.reverseRecOn with
  | nil => cases h
  | append_singleton activities act ih =>
    rw [find_activityMap_concat] at h
    split at h
    case isTrue hid =>
      obtain rfl := Option.some.inj h
      exact ⟨List.mem_append_right _ (List.mem_singleton_self _), hid⟩
    case isFalse hid => exact ⟨List.mem_append_left _ (ih h).1, (ih h).2⟩

section

variable {activities : List Activity} {act a : Activity} {item : ProjectItem ι}

theorem activityOf_new (activities : List Activity) (act : Activity) :
    activityOf (activities ++ [act]) (itemOf act : ProjectItem ι) = act.id.map fun _ => act := by
  refine (if_pos rfl).trans ?_
  show act.id.bind _ = _
  cases hid : act.id with
  | none => rfl
  | some id => rw [Option.bind_some, find_activityMap_concat, if_pos hid, Option.map_some]

theorem of_activityOf (h : activityOf activities item = some a) :
    item.itemType = .activity ∧ item.activityId = a.id ∧ a ∈ activities := by
  unfold activityOf at h
  split at h
  case isTrue htype =>
    obtain ⟨id, hid, hfind⟩ := Option.bind_eq_some_iff.mp h
    obtain ⟨hmem, ha⟩ := of_find_activityMap hfind
    exact ⟨htype, hid.trans ha.symm, hmem⟩
  case isFalse => cases h

theorem activityOf_concat (activities : List Activity) (act : Activity) (item : ProjectItem ι) :
    activityOf (activities ++ [act]) item =
      if item.itemType = .activity ∧ act.id.isSome ∧ item.activityId = act.id then some act
      else activityOf activities item := by
  unfold activityOf
  by_cases htype : item.itemType = .activity
  case neg => rw [if_neg htype, if_neg htype, if_neg fun h => htype h.1]
  case pos =>
    rw [if_pos htype, if_pos htype]
    cases hitem : item.activityId with
    | none =>
      rw [if_neg]
      · rfl
      · rintro ⟨-, hsome, hid⟩
        rw [← hid] at hsome
        cases hsome
    | some k =>
      rw [Option.bind_some, Option.bind_some, find_activityMap_concat]
      by_cases hk : act.id = some k
      · rw [if_pos hk, if_pos ⟨htype, hk ▸ rfl, hk.symm⟩]
      · rw [if_neg hk, if_neg fun h => hk h.2.2.symm]

theorem activityOf_concat_of_some (hfresh : act.id.isSome → act.id ∉ activities.map (·.id))
    (h : activityOf activities item = some a) : activityOf (activities ++ [act]) item = some a := by
  obtain ⟨-, hid, hmem⟩ := of_activityOf h
  rw [activityOf_concat, if_neg, h]
  exact fun hsame => hfresh hsame.2.1 (hsame.2.2 ▸ hid ▸ List.mem_map_of_mem hmem)

theorem startsBy_iff {start : ℤ} : startsBy activities start item = true ↔
      ∃ a s, activityOf activities item = some a ∧ a.startDate = some s ∧ s ≤ start := by
  unfold startsBy startOf
  simp only [Option.any_eq_true, Option.bind_eq_some_iff, decide_eq_true_eq]
  constructor
  · rintro ⟨s, ⟨a, ha, hs⟩, hle⟩
    exact ⟨a, s, ha, hs, hle⟩
  · rintro ⟨a, s, ha, hs, hle⟩
    exact ⟨s, ⟨a, ha, hs⟩, hle⟩

end

/-! ## 4. What one activity does -/

theorem perm_inserted (activities : List Activity) (items : List (ProjectItem ι)) (act : Activity) :
    (inserted activities items act).Perm (itemOf act :: items) := by
  unfold inserted
  split
  · exact List.perm_append_singleton _ _
  · exact perm_insertBehind _ _ _

theorem sublist_inserted (activities : List Activity) (items : List (ProjectItem ι)) (act : Activity) :
    items.Sublist (inserted activities items act) := by
  unfold inserted
  split
  · exact List.sublist_append_left _ _
  · exact sublist_insertBehind _ _ _

/-- `act` is added, and `held` are the Strava ids then. -/
def Adding.push (st : Adding ι) (act : Activity) (held : List ℤ) : Adding ι where
  project :=
    { activities := st.project.activities ++ [act]
      items := inserted (st.project.activities ++ [act]) st.project.items act }
  existingIds := act.id :: st.existingIds
  heldStrava := held
  added := st.added + 1

def activityIds (items : List (ProjectItem ι)) : List ℤ :=
  items.filterMap fun item => if item.itemType = .activity then item.activityId else none

def stravaIds (activities : List Activity) (items : List (ProjectItem ι)) : List ℤ :=
  items.filterMap fun item => (activityOf activities item).bind Activity.recorded

theorem activityIds_cons (act : Activity) (items : List (ProjectItem ι)) :
    activityIds (itemOf act :: items) = act.id.toList ++ activityIds items := by
  unfold activityIds
  rw [List.filterMap_cons]
  cases hid : act.id <;> simp [itemOf, hid]

/-- No two activity items have one id or one Strava id, and each names an activity that is held. -/
structure Project.Distinct (p : Project ι) : Prop where
  held : ∀ id ∈ activityIds p.items, ∃ a ∈ p.activities, a.id = some id
  ids : (activityIds p.items).Nodup
  strava : (stravaIds p.activities p.items).Nodup

/-- What the loop keeps, of the project `p` it began with. -/
structure Adding.Kept (p : Project ι) (st : Adding ι) (added : List Activity) : Prop where
  activities : st.project.activities = p.activities ++ added
  count : st.added = added.length
  items : p.items.Sublist st.project.items
  ids : ∀ a ∈ st.project.activities, a.id.isSome → a.id ∈ st.existingIds
  strava : ∀ a ∈ st.project.activities, ∀ sid, a.recorded = some sid → sid ∈ st.heldStrava
  distinct : p.Distinct → st.project.Distinct

section

variable {p : Project ι} {st : Adding ι} {added : List Activity} {act : Activity} {held : List ℤ}

theorem Adding.Kept.skip (h : st.Kept p added) (hheld : st.heldStrava ⊆ held) :
    ({ st with heldStrava := held } : Adding ι).Kept p added :=
  { h with strava := fun a ha sid hsid => hheld (h.strava a ha sid hsid) }

theorem activityOf_push (hids : ∀ a ∈ st.project.activities, a.id.isSome → a.id ∈ st.existingIds)
    (hdistinct : st.project.Distinct) (hnew : act.id ∉ st.existingIds) {item : ProjectItem ι}
    (hitem : item ∈ st.project.items) :
    activityOf (st.project.activities ++ [act]) item = activityOf st.project.activities item := by
  rw [activityOf_concat, if_neg]
  rintro ⟨htype, hsome, hid⟩
  obtain ⟨id, hactid⟩ := Option.isSome_iff_exists.mp hsome
  have hmem : id ∈ activityIds st.project.items :=
    List.mem_filterMap.mpr ⟨item, hitem, by rw [if_pos htype, hid, hactid]⟩
  obtain ⟨a, ha, haid⟩ := hdistinct.held id hmem
  refine hnew ?_
  rw [hactid, ← haid]
  exact hids a ha (haid ▸ rfl)

theorem Adding.Kept.push (h : st.Kept p added) (hnew : act.id ∉ st.existingIds) (hheld : st.heldStrava ⊆ held)
    (hstrava : ∀ sid, act.recorded = some sid → sid ∉ st.heldStrava ∧ sid ∈ held) :
    (st.push act held).Kept p (added ++ [act]) := by
  have hperm := perm_inserted (st.project.activities ++ [act]) st.project.items act
  refine ⟨?activities, ?count, ?items, ?ids, ?strava, fun hp => ⟨?held, ?nodup, ?stravaNodup⟩⟩
  case activities =>
    show st.project.activities ++ [act] = _
    rw [h.activities, List.append_assoc]
  case count =>
    show st.added + 1 = _
    rw [h.count, List.length_append, List.length_singleton]
  case items => exact h.items.trans (sublist_inserted _ _ _)
  case ids =>
    intro a ha hsome
    rcases List.mem_append.mp ha with ha | ha
    · exact List.mem_cons_of_mem _ (h.ids a ha hsome)
    · exact List.mem_singleton.mp ha ▸ List.mem_cons_self
  case strava =>
    intro a ha sid hsid
    rcases List.mem_append.mp ha with ha | ha
    · exact hheld (h.strava a ha sid hsid)
    · obtain rfl := List.mem_singleton.mp ha
      exact (hstrava sid hsid).2
  case held =>
    intro id hid
    have hid' : id ∈ act.id.toList ++ activityIds st.project.items := by
      rw [← activityIds_cons]
      exact (hperm.filterMap _).mem_iff.mp hid
    rcases List.mem_append.mp hid' with hact | hold
    · exact ⟨act, List.mem_append_right _ (List.mem_singleton_self _), Option.mem_toList.mp hact⟩
    · obtain ⟨a, ha, haid⟩ := (h.distinct hp).held id hold
      exact ⟨a, List.mem_append_left _ ha, haid⟩
  case nodup =>
    refine (hperm.filterMap _).nodup_iff.mpr ?_
    show (activityIds _).Nodup
    rw [activityIds_cons]
    cases hid : act.id with
    | none => exact (h.distinct hp).ids
    | some id =>
      refine List.nodup_cons.mpr ⟨fun hmem => ?_, (h.distinct hp).ids⟩
      obtain ⟨a, ha, haid⟩ := (h.distinct hp).held id hmem
      refine hnew ?_
      rw [hid, ← haid]
      exact h.ids a ha (haid ▸ rfl)
  case stravaNodup =>
    have hold : stravaIds (st.project.activities ++ [act]) st.project.items =
        stravaIds st.project.activities st.project.items :=
      List.filterMap_congr fun item hitem => by rw [activityOf_push h.ids (h.distinct hp) hnew hitem]
    have hhead : ∀ sid, (activityOf (st.project.activities ++ [act]) (itemOf act : ProjectItem ι)).bind
        Activity.recorded = some sid → act.recorded = some sid := by
      intro sid hsid
      rw [activityOf_new] at hsid
      obtain ⟨a, ha, hrec⟩ := Option.bind_eq_some_iff.mp hsid
      obtain ⟨-, -, rfl⟩ := Option.map_eq_some_iff.mp ha
      exact hrec
    have hkept : (stravaIds (st.project.activities ++ [act]) st.project.items).Nodup :=
      hold ▸ (h.distinct hp).strava
    refine (hperm.filterMap _).nodup_iff.mpr ?_
    rw [List.filterMap_cons]
    split
    · exact hkept
    · rename_i sid hsid
      refine List.nodup_cons.mpr ⟨fun hmem => ?_, hkept⟩
      have hmem' : sid ∈ stravaIds st.project.activities st.project.items := hold ▸ hmem
      obtain ⟨item, -, hitem⟩ := List.mem_filterMap.mp hmem'
      obtain ⟨a, ha, hrec⟩ := Option.bind_eq_some_iff.mp hitem
      exact (hstrava sid (hhead sid hsid)).1 (h.strava a (of_activityOf ha).2.2 sid hrec)

end

/-! ## 6. Where the added ones stand -/

/-- An activity stands directly behind the last activity item that starts no later, those of `added`
    apart that start with it. -/
def Placed (p : Project ι) (added : List Activity) (act : Activity) : Prop :=
  ∃ start, act.startDate = some start ∧ BehindLast (fun item => startsBy p.activities start item = true)
      (fun item => ∃ b ∈ added, item.activityId = b.id ∧ b.startDate = some start) p.items (itemOf act)

/-- What the loop over dated activities keeps, with those still to come. -/
structure Adding.InOrder (st : Adding ι) (added rest : List Activity) : Prop where
  before : ∀ a ∈ added, ∀ b ∈ rest, ∀ s t, a.startDate = some s → b.startDate = some t → s ≤ t
  found : ∀ a ∈ added, a.id.isSome → activityOf st.project.activities (itemOf a : ProjectItem ι) = some a
  placed : ∀ a ∈ added, a.id.isSome → Placed st.project added a

section

variable {p : Project ι} {st : Adding ι} {added rest : List Activity} {act act' : Activity}
  {held : List ℤ} {s : ℤ}

theorem Adding.InOrder.skip (h : st.InOrder added (act :: rest)) :
    ({ st with heldStrava := held } : Adding ι).InOrder added rest :=
  ⟨fun a ha b hb => h.before a ha b (List.mem_cons_of_mem _ hb), h.found, h.placed⟩

theorem Adding.InOrder.push (h : st.InOrder added (act :: rest)) (hkept : st.Kept p added)
    (hstart : act'.startDate = act.startDate) (hs : act.startDate = some s)
    (hrest : ∀ b ∈ rest, ∀ t, b.startDate = some t → s ≤ t) (hnew : act'.id ∉ st.existingIds) :
    (st.push act' held).InOrder (added ++ [act']) rest := by
  have hs' : act'.startDate = some s := hstart.trans hs
  have hbefore : ∀ a ∈ added, ∀ t, a.startDate = some t → t ≤ s := fun a ha t ht =>
    h.before a ha act List.mem_cons_self t s ht hs
  have hitems : (st.push act' held).project.items =
      insertBehind (startsBy (st.project.activities ++ [act']) s) st.project.items (itemOf act') := by
    show inserted _ _ _ = _
    unfold inserted
    rw [hs']
  have hfresh : act'.id.isSome → act'.id ∉ st.project.activities.map (·.id) := by
    intro hsome hmem
    obtain ⟨a, ha, haid⟩ := List.mem_map.mp hmem
    refine hnew ?_
    rw [← haid]
    exact hkept.ids a ha (haid ▸ hsome)
  have hlast : act' ∈ added ++ [act'] := List.mem_append_right _ (List.mem_singleton_self _)
  refine ⟨?before, ?found, ?placed⟩
  case before =>
    intro a ha b hb t u ht hu
    rcases List.mem_append.mp ha with ha | ha
    · exact h.before a ha b (List.mem_cons_of_mem _ hb) t u ht hu
    · obtain rfl := List.mem_singleton.mp ha
      obtain rfl := Option.some.inj (hs'.symm.trans ht)
      exact hrest b hb u hu
  case found =>
    intro a ha hsome
    rcases List.mem_append.mp ha with ha | ha
    · exact activityOf_concat_of_some hfresh (h.found a ha hsome)
    · obtain rfl := List.mem_singleton.mp ha
      obtain ⟨id, hid⟩ := Option.isSome_iff_exists.mp hsome
      exact (activityOf_new _ _).trans (by rw [hid, Option.map_some])
  case placed =>
    intro a ha hsome
    rcases List.mem_append.mp ha with ha | ha
    · obtain ⟨t, ht, hplace⟩ := h.placed a ha hsome
      have hle : t ≤ s := hbefore a ha t ht
      refine ⟨t, ht, ?_⟩
      show BehindLast _ _ (st.push act' held).project.items _
      rw [hitems]
      refine (hplace.imp ?mono ?later).insert ?behind ?tie
      case mono =>
        intro item _ hstarts
        obtain ⟨b, u, hb, hu, hut⟩ := startsBy_iff.mp hstarts
        exact startsBy_iff.mpr ⟨b, u, activityOf_concat_of_some hfresh hb, hu, hut⟩
      case later =>
        intro item _ hstarts
        obtain ⟨b, u, hb, hu, hut⟩ := startsBy_iff.mp hstarts
        replace hb : activityOf (st.project.activities ++ [act']) item = some b := hb
        rw [activityOf_concat] at hb
        split at hb
        case isTrue hsame =>
          -- an item that was there already, of an activity that was not
          obtain rfl := Option.some.inj hb
          obtain rfl := Option.some.inj (hs'.symm.trans hu)
          exact .inl ⟨act', hlast, hsame.2.2, hs'.trans (congrArg some (le_antisymm hut hle))⟩
        case isFalse =>
          refine .inr ⟨startsBy_iff.mpr ⟨b, u, hb, hu, hut⟩, ?_⟩
          rintro ⟨c, hc, hsame⟩
          exact ⟨c, List.mem_append_left _ hc, hsame⟩
      case behind =>
        exact startsBy_iff.mpr ⟨a, t, activityOf_concat_of_some hfresh (h.found a ha hsome), ht, hle⟩
      case tie =>
        intro hstarts
        obtain ⟨b, u, hb, hu, hut⟩ := startsBy_iff.mp hstarts
        obtain ⟨-, -, rfl⟩ := Option.map_eq_some_iff.mp ((activityOf_new _ _).symm.trans hb)
        obtain rfl := Option.some.inj (hs'.symm.trans hu)
        exact ⟨act', hlast, rfl, hs'.trans (congrArg some (le_antisymm hut hle))⟩
    · obtain rfl := List.mem_singleton.mp ha
      refine ⟨s, hs', ?_⟩
      show BehindLast _ _ (st.push a held).project.items _
      rw [hitems]
      exact behindLast_inserted _ _ _ _

/-! ## 7. Whole lists -/

end

/-- One more than all that are taken. -/
def StandIn.above : StandIn where
  draw taken := taken.foldr (fun id most => max (id.getD 0) most) 0 + 1
  pos taken := by
    have hnonneg : 0 ≤ taken.foldr (fun id most => max (id.getD 0) most) 0 := by
      induction taken with
      | nil => exact le_rfl
      | cons id taken ih => exact ih.trans (le_max_right _ _)
    omega
  fresh taken := by
    have hle : ∀ id, some id ∈ taken → id ≤ taken.foldr (fun id most => max (id.getD 0) most) 0 := by
      intro id hid
      induction taken with
      | nil => cases hid
      | cons first taken ih =>
        rcases List.mem_cons.mp hid with rfl | hid
        · exact le_max_left _ _
        · exact (ih hid).trans (le_max_right _ _)
    exact fun hmem => absurd (hle _ hmem) (by omega)

/-- Two imported activities that start together. -/
def walk : Activity := ⟨some 1, some 60, some "gpx", none⟩
def ferry : Activity := ⟨some 2, some 60, some "gpx", none⟩

end TraxJourney.Imports.Insertion
