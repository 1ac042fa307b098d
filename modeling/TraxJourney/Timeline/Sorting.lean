/-
  File:      Timeline/Sorting.lean
  Subject:   Sorting a project by date: `sort_items` from `src/api/project_items.py`.

  * **`segments_follow_iff`** -- when every segment that leaves from a dated activity stands after
    one of that end point: the code takes the key of the last such activity, and nothing else;
  * **`sortItems_perm_and_idempotent`** -- the items are the same, and where the list is resortable a
    second sorting changes nothing.

  Of an item only what its key reads is here, and what tells it from others. Coordinates are exact.
-/
import TraxJourney.Lib.Dict
import TraxJourney.Lib.Doubles
import TraxJourney.Lib.IsoDate
import TraxJourney.Lib.StableSort
import Mathlib.Data.Rat.Floor

namespace TraxJourney.Timeline.Sorting

open Lib

/-! ## 1. Items -/

/-- A latitude and a longitude. -/
abbrev Point := ℚ × ℚ

/-- `(round(lat, 4), round(lon, 4))`. -/
def rounded (p : Point) : Point :=
  ((roundHalfEven (p.1 * 10000) : ℚ) / 10000, (roundHalfEven (p.2 * 10000) : ℚ) / 10000)

/-- The key of an item without a date. -/
def FALLBACK : String := "9999-12-31T23:59:59"

/-- `start_date.isoformat()`. The last second of the year 9999 without a zone stands for no date, so
    that it is none. -/
structure Start where
  text : String
  nonempty : text ≠ ""
  real : text ≠ FALLBACK
deriving DecidableEq

theorem Start.ext_text {s t : Start} (h : s.text = t.text) : s = t := by
  cases s; cases t; cases h; rfl

structure Activity where
  startDate : Option Start
  endLatlng : Option Point
deriving DecidableEq

/-- What an item holds: for an activity, what `_activity_map` has for its id. -/
inductive Content where
  | activity (act : Option Activity)
  | memory (date time : Option String)
  | journal (date time : Option String)
  | encounter (date time : Option String)
  | segment (start : Option Point) (date : Option String)
deriving DecidableEq

structure Item (ι : Type*) where
  uid : ι
  content : Content
deriving DecidableEq

variable {ι : Type*} {items : List (Item ι)} {item : Item ι} {p : Point} {d : Start}

/-! ## 2. Keys -/

/-- A text is false when it is empty. -/
def truthy (s : Option String) : Option String := s.filter fun s => decide (s ≠ "")

/-- The end point of a dated activity, rounded, and its start. -/
def Content.arrival : Content → Option (Point × Start)
  | .activity (some ⟨some start, some endLatlng⟩) => some (rounded endLatlng, start)
  | _ => none

def actEndToDate (items : List (Item ι)) : Lib.Dict Point Start :=
  items.foldl (fun dates item => (item.content.arrival.map dates.put).getD dates) .empty

/-- `f"{d}T{t}"`, for a memory, a journal or an encounter. -/
def stampKey (date time : Option String) : String :=
  match truthy date with
  | some d => d ++ "T" ++ (truthy time).getD "00:00"
  | none => FALLBACK

/-- The date of a segment, or the last key before it if that is of the same day or there is none. -/
def segmentKey (date : Option String) (lastDate : String) : String :=
  match truthy date with
  | some d =>
    let predDay := if lastDate ≠ FALLBACK then some (leading 10 lastDate) else none
    if predDay = some d then lastDate else d ++ "T00:00:01"
  | none => lastDate

def Content.leavesFrom : Content → Option Point
  | .segment start _ => start.map rounded
  | _ => none

def activityKey (act : Activity) : String := (act.startDate.map Start.text).getD FALLBACK

/-- The key of an item, with the last key before it that is not `FALLBACK`. -/
def Content.key (dates : Lib.Dict Point Start) (lastDate : String) : Content → String
  | .activity act => (act.map activityKey).getD FALLBACK
  | .memory date time => stampKey date time
  | .journal date time => stampKey date time
  | .encounter date time => stampKey date time
  | .segment start date =>
    let key := (((start.map rounded).bind dates.find).map Start.text).getD FALLBACK
    if key = FALLBACK then segmentKey date lastDate else key

/-- `last_date` after an item of this key. -/
def carry (lastDate key : String) : String := if key ≠ FALLBACK then key else lastDate

/-- The first pass. -/
def keys (dates : Lib.Dict Point Start) (lastDate : String) : List (Item ι) → List String
  | [] => []
  | item :: rest =>
    let key := item.content.key dates lastDate
    key :: keys dates (carry lastDate key) rest

def keyed (items : List (Item ι)) : List (String × Item ι) :=
  (keys (actEndToDate items) FALLBACK items).zip items

/-- `_sort`. -/
def sortItems (items : List (Item ι)) : List (Item ι) := (sortBy Prod.fst (keyed items)).map Prod.snd

/-! ## 3. Places in the list and in the sorted list -/

theorem length_keys (dates : Lib.Dict Point Start) (last : String) (items : List (Item ι)) :
    (keys dates last items).length = items.length := by
  induction items generalizing last with
  | nil => rfl
  | cons item rest ih => exact congrArg Nat.succ (ih _)

theorem map_snd_keyed (items : List (Item ι)) : (keyed items).map Prod.snd = items :=
  List.map_snd_zip (length_keys _ _ _).ge

theorem perm_sortItems (items : List (Item ι)) : (sortItems items).Perm items := by
  have hperm := (perm_sortBy Prod.fst (keyed items)).map Prod.snd
  rwa [map_snd_keyed] at hperm

/-- `last_date` behind some items with their keys. -/
def lastDate (before : List (String × Item ι)) (last : String) : String :=
  before.foldl (fun last e => carry last e.1) last

variable {dates : Lib.Dict Point Start} {before after : List (String × Item ι)} {e : String × Item ι}

theorem key_of_split {last : String} (h : (keys dates last items).zip items = before ++ e :: after) :
    e.1 = e.2.content.key dates (lastDate before last) := by
  induction items generalizing last before with
  | nil => cases before <;> cases h
  | cons item rest ih =>
    unfold keys at h
    rw [List.zip_cons_cons] at h
    cases before with
    | nil =>
      obtain ⟨rfl, -⟩ := List.cons.inj h
      rfl
    | cons b before =>
      obtain ⟨rfl, htail⟩ := List.cons.inj h
      have hkey := ih htail
      exact hkey

theorem key_of_keyed (h : keyed items = before ++ e :: after) :
    e.1 = e.2.content.key (actEndToDate items) (lastDate before FALLBACK) :=
  key_of_split h

theorem mem_keyed (h : e ∈ keyed items) :
    ∃ before after, keyed items = before ++ e :: after ∧
      e.1 = e.2.content.key (actEndToDate items) (lastDate before FALLBACK) := by
  obtain ⟨before, after, hsplit⟩ := List.append_of_mem h
  exact ⟨before, after, hsplit, key_of_keyed hsplit⟩

theorem items_of_keyed (h : keyed items = before ++ e :: after) :
    items = before.map Prod.snd ++ e.2 :: after.map Prod.snd := by
  have hall := map_snd_keyed items
  rw [h, List.map_append, List.map_cons] at hall
  exact hall.symm

theorem keyed_of_items {before after : List (Item ι)} (h : items = before ++ item :: after) :
    ∃ before' key after', keyed items = before' ++ (key, item) :: after' ∧ before'.map Prod.snd = before := by
  obtain ⟨before', rest, hsplit, hbefore, hrest⟩ := List.map_eq_append_iff.mp ((map_snd_keyed items).trans h)
  obtain ⟨e, after', rfl, rfl, -⟩ := List.map_eq_cons_iff.mp hrest
  exact ⟨before', e.1, after', hsplit, hbefore⟩

theorem places_of_sortItems {before after : List (Item ι)} (h : sortItems items = before ++ item :: after) :
    ∃ key before₁ before₂, SamePlace Prod.fst (keyed items) before₁ (key, item) before₂ ∧
      before₂.map Prod.snd = before := by
  obtain ⟨before₂, rest, hsplit, hbefore, hrest⟩ := List.map_eq_append_iff.mp h
  obtain ⟨e, after', rfl, rfl, -⟩ := List.map_eq_cons_iff.mp hrest
  obtain ⟨before₁, hplace⟩ := sortBy_places hsplit
  exact ⟨e.1, before₁, before₂, hplace, hbefore⟩

/-! ## 4. Segments and the activities they leave from -/

/-- When a dated activity with this end point starts. -/
def Content.startAt (p : Point) (content : Content) : Option Start :=
  content.arrival.bind fun arrival => if arrival.1 = p then some arrival.2 else none

/-- The starts of the dated activities with an end point, in the order of the items. -/
def startsAt (items : List (Item ι)) (p : Point) : List Start :=
  items.filterMap fun item => item.content.startAt p

theorem find_actEndToDate (items : List (Item ι)) (p : Point) :
    (actEndToDate items).find p = (startsAt items p).getLast? := by
  induction items using List.reverseRecOn with
  | nil => rfl
  | append_singleton items item ih =>
    have hstarts : startsAt (items ++ [item]) p = startsAt items p ++ (item.content.startAt p).toList := by
      unfold startsAt
      rw [List.filterMap_append]
      cases hstart : item.content.startAt p <;> simp [hstart]
    unfold actEndToDate at ih ⊢
    rw [hstarts, List.foldl_append, List.foldl_cons, List.foldl_nil]
    unfold Content.startAt
    cases item.content.arrival with
    | none => simpa using ih
    | some arrival =>
      rw [Option.map_some, Option.getD_some, Table.find_put]
      by_cases hp : arrival.1 = p
      · rw [if_pos hp.symm, Option.bind_some, if_pos hp, Option.toList_some, List.getLast?_concat]
      · rw [if_neg fun h => hp h.symm, Option.bind_some, if_neg hp, ih]
        simp

def EndsAt (p : Point) (item : Item ι) (act : Activity) : Prop :=
  item.content = .activity (some act) ∧ act.endLatlng.map rounded = some p

theorem key_of_endsAt {act : Activity} (h : EndsAt p e.2 act) (hmem : e ∈ keyed items) :
    e.1 = activityKey act := by
  obtain ⟨before, after, -, hkey⟩ := mem_keyed hmem
  rw [h.1] at hkey
  exact hkey

theorem key_of_departure {content : Content} (last : String) (hleaves : content.leavesFrom = some p)
    (hfind : dates.find p = some d) :
    content.key dates last = d.text := by
  cases content with
  | segment start date =>
    have hstart : start.map rounded = some p := hleaves
    simp only [Content.key, hstart, Option.bind_some, hfind, Option.map_some, Option.getD_some]
    exact if_neg d.real
  | activity act => cases hleaves
  | memory date time => cases hleaves
  | journal date time => cases hleaves
  | encounter date time => cases hleaves

theorem mem_before_iff {act : Activity} (h : EndsAt p item act) (hsub : ∀ e ∈ before, e ∈ keyed items) :
    (activityKey act, item) ∈ before ↔ item ∈ before.map Prod.snd := by
  constructor
  · exact fun hmem => List.mem_map_of_mem hmem
  · intro hmem
    obtain ⟨e, he, rfl⟩ := List.mem_map.mp hmem
    rw [← key_of_endsAt h (hsub e he)]
    exact he

/-- **A segment stands after an activity that it leaves from** wherever there is an activity with
    that end point of a lesser key than the last dated one, or of the same key and before the segment
    already. -/
theorem segments_follow_iff (items : List (Item ι)) :
    (∀ before seg after p, sortItems items = before ++ seg :: after →
      seg.content.leavesFrom = some p → startsAt items p ≠ [] → ∃ item ∈ before, ∃ act, EndsAt p item act) ↔
    ∀ before seg after p d, items = before ++ seg :: after →
      seg.content.leavesFrom = some p → (startsAt items p).getLast? = some d →
        ∃ item ∈ items, ∃ act, EndsAt p item act ∧
          (activityKey act < d.text ∨ activityKey act = d.text ∧ item ∈ before) := by
  have hplace : ∀ {before₁ before₂ seg key p d item act},
      SamePlace Prod.fst (keyed items) before₁ (key, seg) before₂ → seg.content.leavesFrom = some p →
      (startsAt items p).getLast? = some d → EndsAt p item act →
        (item ∈ before₂.map Prod.snd ↔ item ∈ items ∧ activityKey act < d.text ∨
          activityKey act = d.text ∧ item ∈ before₁.map Prod.snd) := by
    intro before₁ before₂ seg key p d item act hplace hleaves hlast hends
    obtain ⟨after₁, hsplit⟩ := hplace.split
    obtain ⟨after₂, hsorted⟩ := hplace.sorted
    have hkey : key = d.text := (key_of_keyed hsplit).trans
      (key_of_departure _ hleaves ((find_actEndToDate items p).trans hlast))
    have hfirst : ∀ e ∈ before₁, e ∈ keyed items := fun e he => hsplit ▸ List.mem_append_left _ he
    have hsecond : ∀ e ∈ before₂, e ∈ keyed items := fun e he =>
      (perm_sortBy Prod.fst (keyed items)).mem_iff.mp (hsorted ▸ List.mem_append_left _ he)
    have hall := mem_before_iff hends fun e (he : e ∈ keyed items) => he
    rw [map_snd_keyed] at hall
    rw [← mem_before_iff hends hsecond, hplace.mem_iff, hall, mem_before_iff hends hfirst, hkey]
  constructor
  · intro hfollow before seg after p d hsplit hleaves hlast
    obtain ⟨before₁, key, after₁, hkeyed, rfl⟩ := keyed_of_items hsplit
    obtain ⟨before₂, hsame⟩ := places_sortBy Prod.fst hkeyed
    obtain ⟨after₂, hsorted⟩ := hsame.sorted
    have hsorted' : sortItems items = before₂.map Prod.snd ++ seg :: after₂.map Prod.snd := by
      unfold sortItems
      rw [hsorted, List.map_append, List.map_cons]
    have hsome : startsAt items p ≠ [] := fun hnil => by rw [hnil] at hlast; cases hlast
    obtain ⟨item, hbefore, act, hends⟩ := hfollow _ seg _ p hsorted' hleaves hsome
    rcases (hplace hsame hleaves hlast hends).mp hbefore with ⟨hmem, hlt⟩ | ⟨heq, hmem⟩
    · exact ⟨item, hmem, act, hends, .inl hlt⟩
    · have hitem : item ∈ items := by
        rw [hsplit]
        exact List.mem_append_left _ hmem
      exact ⟨item, hitem, act, hends, .inr ⟨heq, hmem⟩⟩
  · intro hearlier before seg after p hsorted hleaves hsome
    obtain ⟨key, before₁, before₂, hsame, rfl⟩ := places_of_sortItems hsorted
    obtain ⟨after₁, hkeyed⟩ := hsame.split
    obtain ⟨d, hlast⟩ : ∃ d, (startsAt items p).getLast? = some d := ⟨_, List.getLast?_eq_some_getLast hsome⟩
    obtain ⟨item, hmem, act, hends, hkey⟩ := hearlier _ seg _ p d (items_of_keyed hkeyed) hleaves hlast
    refine ⟨item, (hplace hsame hleaves hlast hends).mpr ?_, act, hends⟩
    exact hkey.imp_left fun hlt => ⟨hmem, hlt⟩

def secondOfMay : Start := ⟨"2024-05-02T09:00:00+00:00", by decide, by decide⟩

/-- A segment that leaves from an activity and stands before it stays there: the keys are the same. -/
theorem segment_stays_before : ¬ ∀ (items : List (Item ℕ)) (before after : List (Item ℕ))
    (seg : Item ℕ) (p : Point), sortItems items = before ++ seg :: after →
      seg.content.leavesFrom = some p → startsAt items p ≠ [] →
        ∃ item ∈ before, ∃ act, EndsAt p item act := by
  intro hall
  have hsorted : sortItems [⟨1, .segment (some (47, 8)) none⟩,
      ⟨2, .activity (some ⟨some secondOfMay, some (47, 8)⟩)⟩] =
      [] ++ ⟨1, .segment (some (47, 8)) none⟩ ::
        [⟨2, .activity (some ⟨some secondOfMay, some (47, 8)⟩)⟩] := by decide +kernel
  obtain ⟨item, hmem, -⟩ := hall _ [] _ _ (47, 8) hsorted (by decide +kernel) (by decide +kernel)
  exact absurd hmem List.not_mem_nil

/-! ## 5. Lists that are not changed by a second sorting -/

def Content.isSegment : Content → Bool
  | .segment _ _ => true
  | _ => false

/-- The start of the activity that a segment takes its key from. -/
def Content.matched (dates : Lib.Dict Point Start) (content : Content) : Option Start :=
  content.leavesFrom.bind dates.find

/-- An item without a date of its own, and for a segment without an activity to take one from. -/
def Undated (items : List (Item ι)) (item : Item ι) : Prop :=
  item.content.key (actEndToDate items) FALLBACK = FALLBACK

structure Resortable (items : List (Item ι)) : Prop where
  /-- Of the activities that a segment leaves from, the last in the list starts last. -/
  latest : ∀ seg ∈ items, ∀ p d, seg.content.leavesFrom = some p →
    (startsAt items p).getLast? = some d → ∀ start ∈ startsAt items p, start.text ≤ d.text
  /-- An undated segment with nothing dated before it, but something undated that is no segment, has
      nothing dated behind it. -/
  leading : ∀ before seg after, items = before ++ seg :: after → seg.content.isSegment = true →
    Undated items seg → (∀ item ∈ before, Undated items item) →
      (∃ item ∈ before, item.content.isSegment = false) → ∀ item ∈ after, Undated items item
  /-- The date of a segment that takes no other is ten characters. -/
  dates : ∀ seg ∈ items, ∀ start date d, seg.content = .segment start date →
    seg.content.matched (actEndToDate items) = none → truthy date = some d → d.length = 10

/-! ## 6. What a key is -/

section Keys

variable {dates : Lib.Dict Point Start} {content : Content} {date : Option String} {last : String}

theorem key_cases (dates : Lib.Dict Point Start) (content : Content) :
    (∃ key, (∀ last, content.key dates last = key) ∧ (content.isSegment = true → key ≠ FALLBACK)) ∨
    ∃ start date, content = .segment start date ∧ content.matched dates = none ∧
      ∀ last, content.key dates last = segmentKey date last := by
  cases content with
  | activity act => exact .inl ⟨_, fun _ => rfl, fun h => by cases h⟩
  | memory date time => exact .inl ⟨_, fun _ => rfl, fun h => by cases h⟩
  | journal date time => exact .inl ⟨_, fun _ => rfl, fun h => by cases h⟩
  | encounter date time => exact .inl ⟨_, fun _ => rfl, fun h => by cases h⟩
  | segment start date =>
    cases hfind : (start.map rounded).bind dates.find with
    | none =>
      refine .inr ⟨start, date, rfl, hfind, fun last => ?_⟩
      simp only [Content.key, hfind, Option.map_none, Option.getD_none, if_true]
    | some d =>
      refine .inl ⟨d.text, fun last => ?_, fun _ => d.real⟩
      simp only [Content.key, hfind, Option.map_some, Option.getD_some]
      exact if_neg d.real

theorem segmentKey_undated (h : truthy date = none) : segmentKey date last = last := by
  unfold segmentKey
  rw [h]

theorem segmentKey_dated {d : String} (h : truthy date = some d) (hten : d.length = 10) (last : String) :
    leading 10 (segmentKey date last) = d ∧ segmentKey date last ≠ FALLBACK ∧
      (segmentKey date last = last ∨ segmentKey date last = d ++ "T00:00:01") := by
  have hday : leading 10 (d ++ "T00:00:01") = d := leading_append hten
  have hreal : d ++ "T00:00:01" ≠ FALLBACK := by
    intro heq
    have hd : d = leading 10 FALLBACK := by rw [← heq, hday]
    rw [hd] at heq
    exact absurd heq (by decide)
  unfold segmentKey
  simp only [h]
  by_cases hlast : last = FALLBACK
  · rw [if_neg (not_not.mpr hlast), if_neg (by simp)]
    exact ⟨hday, hreal, .inr rfl⟩
  · rw [if_pos hlast]
    by_cases hsame : leading 10 last = d
    · rw [if_pos (congrArg some hsame)]
      exact ⟨hsame, hlast, .inl rfl⟩
    · rw [if_neg fun h => hsame (Option.some.inj h)]
      exact ⟨hday, hreal, .inr rfl⟩

theorem segmentKey_same {d : String} (h : truthy date = some d) (hlast : last ≠ FALLBACK)
    (hday : leading 10 last = d) : segmentKey date last = last := by
  unfold segmentKey
  simp only [h, if_pos hlast, hday, if_true]

end Keys

/-! ## 7. The last key before a place -/

section LastDate

variable {before after : List (String × Item ι)} {e : String × Item ι} {last : String}

theorem lastDate_append (before after : List (String × Item ι)) (last : String) :
    lastDate (before ++ after) last = lastDate after (lastDate before last) :=
  List.foldl_append

theorem lastDate_mem (before : List (String × Item ι)) (last : String) :
    lastDate before last = last ∨ ∃ e ∈ before, e.1 = lastDate before last := by
  induction before using List.reverseRecOn with
  | nil => exact .inl rfl
  | append_singleton before e ih =>
    rw [lastDate_append]
    by_cases hkey : e.1 = FALLBACK
    · have hcarry : lastDate [e] (lastDate before last) = lastDate before last := if_neg (not_not.mpr hkey)
      rw [hcarry]
      exact ih.imp_right fun ⟨f, hf, heq⟩ => ⟨f, List.mem_append_left _ hf, heq⟩
    · have hcarry : lastDate [e] (lastDate before last) = e.1 := if_pos hkey
      rw [hcarry]
      exact .inr ⟨e, by simp, rfl⟩

theorem lastDate_eq_fallback : lastDate before FALLBACK = FALLBACK ↔ ∀ e ∈ before, e.1 = FALLBACK := by
  induction before using List.reverseRecOn with
  | nil => simp [lastDate]
  | append_singleton before e ih =>
    rw [lastDate_append, List.forall_mem_append, ← ih, List.forall_mem_singleton]
    by_cases hkey : e.1 = FALLBACK
    · have hcarry : lastDate [e] (lastDate before FALLBACK) = lastDate before FALLBACK :=
        if_neg (not_not.mpr hkey)
      rw [hcarry, and_iff_left hkey]
    · have hcarry : lastDate [e] (lastDate before FALLBACK) = e.1 := if_pos hkey
      rw [hcarry]
      exact iff_of_false hkey fun h => hkey h.2

theorem undated_of_fallback (h : keyed items = before ++ e :: after) (he : e.1 = FALLBACK)
    (hbefore : ∀ f ∈ before, f.1 = FALLBACK) : Undated items e.2 := by
  have hkey := key_of_keyed h
  rw [lastDate_eq_fallback.mpr hbefore, he] at hkey
  exact hkey.symm

theorem keyed_of_undated (h : ∀ item ∈ items, Undated items item) : ∀ e ∈ keyed items, e.1 = FALLBACK := by
  have hall : ∀ rest : List (Item ι), (∀ item ∈ rest, Undated items item) →
      ∀ key ∈ keys (actEndToDate items) FALLBACK rest, key = FALLBACK := by
    intro rest hrest
    induction rest with
    | nil => intro key hkey; cases hkey
    | cons item rest ih =>
      have hitem : item.content.key (actEndToDate items) FALLBACK = FALLBACK := hrest item List.mem_cons_self
      intro key hkey
      unfold keys at hkey
      rw [hitem] at hkey
      rcases List.mem_cons.mp hkey with rfl | hkey
      · rfl
      · exact ih (fun item hmem => hrest item (List.mem_cons_of_mem _ hmem)) key hkey
  exact fun e he => hall items h e.1 (List.of_mem_zip he).1

end LastDate

/-! ## 8. The second pass -/

section Again

variable {before done rest : List (String × Item ι)} {last high top key : String}

theorem le_last_of_sorted (hlast : (startsAt (sortItems items) p).getLast? = some d) :
    ∀ start ∈ startsAt (sortItems items) p, start.text ≤ d.text := by
  have hstarts : startsAt (sortItems items) p =
      (sortBy Prod.fst (keyed items)).filterMap fun e => e.2.content.startAt p := by
    unfold startsAt sortItems
    rw [List.filterMap_map]
    rfl
  have hkey : ∀ e ∈ sortBy Prod.fst (keyed items), ∀ start, e.2.content.startAt p = some start →
      e.1 = start.text := by
    intro e he start hstart
    obtain ⟨before, after, -, hkey⟩ := mem_keyed ((perm_sortBy _ _).mem_iff.mp he)
    rw [hkey]
    obtain ⟨arrival, harrival, hif⟩ := Option.bind_eq_some_iff.mp hstart
    obtain ⟨-, heq⟩ := Option.ite_none_right_eq_some.mp hif
    unfold Content.arrival at harrival
    split at harrival
    · rename_i hcontent
      obtain rfl := Option.some.inj harrival
      rw [hcontent, ← Option.some.inj heq]
      rfl
    · cases harrival
  have hpairs : (startsAt (sortItems items) p).Pairwise fun a b => a.text ≤ b.text := by
    rw [hstarts, List.pairwise_filterMap]
    refine List.Pairwise.imp_of_mem (fun {a b} ha hb hab => ?_) (pairwise_sortBy Prod.fst (keyed items))
    intro start hstart start' hstart'
    rwa [hkey a ha start hstart, hkey b hb start' hstart'] at hab
  obtain ⟨front, hfront⟩ := List.getLast?_eq_some_iff.mp hlast
  rw [hfront] at hpairs ⊢
  intro start hmem
  rcases List.mem_append.mp hmem with hmem | hmem
  · exact (List.pairwise_append.mp hpairs).2.2 start hmem d (List.mem_singleton.mpr rfl)
  · rw [List.mem_singleton.mp hmem]

theorem find_resorted (h : Resortable items) (hitem : item ∈ items)
    (hleaves : item.content.leavesFrom = some p) :
    (actEndToDate (sortItems items)).find p = (actEndToDate items).find p := by
  have hperm : (startsAt (sortItems items) p).Perm (startsAt items p) := (perm_sortItems items).filterMap _
  rw [find_actEndToDate, find_actEndToDate]
  cases hlast : (startsAt items p).getLast? with
  | none =>
    rw [List.getLast?_eq_none_iff.mp hlast] at hperm
    rw [hperm.eq_nil]
    rfl
  | some d =>
    have hmem : d ∈ startsAt (sortItems items) p := hperm.mem_iff.mpr (List.mem_of_getLast? hlast)
    have hnonempty : startsAt (sortItems items) p ≠ [] := List.ne_nil_of_mem hmem
    have hlast' := List.getLast?_eq_some_getLast hnonempty
    have hle := h.latest item hitem p d hleaves hlast _ (hperm.mem_iff.mp (List.getLast_mem hnonempty))
    have hge := le_last_of_sorted hlast' d hmem
    rw [hlast', Start.ext_text (le_antisymm hle hge)]

theorem key_resorted (h : Resortable items) (hitem : item ∈ items) (last : String) :
    item.content.key (actEndToDate (sortItems items)) last = item.content.key (actEndToDate items) last := by
  cases hcontent : item.content with
  | segment start date =>
    have hfind : (start.map rounded).bind (actEndToDate (sortItems items)).find =
        (start.map rounded).bind (actEndToDate items).find := by
      cases hstart : start.map rounded with
      | none => rfl
      | some p => exact find_resorted h hitem (by rw [hcontent]; exact hstart)
    simp only [Content.key, hfind]
  | activity act => rfl
  | memory date time => rfl
  | journal date time => rfl
  | encounter date time => rfl

theorem keys_congr {dates' : Lib.Dict Point Start} {rest : List (Item ι)}
    (h : ∀ item ∈ rest, ∀ last, item.content.key dates last = item.content.key dates' last) (last : String) :
    keys dates last rest = keys dates' last rest := by
  induction rest generalizing last with
  | nil => rfl
  | cons item rest ih =>
    have hrest := ih fun i hi => h i (List.mem_cons_of_mem _ hi)
    simp only [keys, h item List.mem_cons_self, hrest]

/-- What holds of a second pass that has gone over `done`, whose last item had the key `high` at
    first and has `top` now. -/
structure Resorted (done : List (String × Item ι)) (last high top : String) : Prop where
  reached : ∀ e ∈ done, e.1 ≤ high
  attained : (done = [] ∧ high = "") ∨ ∃ e ∈ done, e.1 = high
  le : top ≤ high
  day : high ≠ FALLBACK → top ≠ FALLBACK ∧ leading 10 top = leading 10 high
  carried : done ≠ [] → top ≠ FALLBACK → last = top
  behind : last = FALLBACK ∨ last ≤ top
  keyedBefore : last ≠ FALLBACK → ∃ e ∈ done, e.1 ≠ FALLBACK
  cut : top = FALLBACK → last = FALLBACK ∨ ∃ e ∈ done, e.1 = FALLBACK ∧ e.2.content.isSegment = false

theorem resorted_nil : Resorted ([] : List (String × Item ι)) FALLBACK "" "" where
  reached := fun e he => by cases he
  attained := .inl ⟨rfl, rfl⟩
  le := le_rfl
  day := fun _ => ⟨by decide, rfl⟩
  carried := fun h => absurd rfl h
  behind := .inl rfl
  keyedBefore := fun h => absurd rfl h
  cut := fun h => absurd h (by decide)

variable {first : String}

theorem Resorted.high_le (h : Resorted done last high top)
    (hplace : SamePlace Prod.fst (keyed items) before (first, item) done) : high ≤ first := by
  rcases h.attained with ⟨-, rfl⟩ | ⟨e, he, rfl⟩
  · exact String.le_iff_toList_le.mpr (not_lt.mp (List.not_lt_nil _))
  · exact hplace.le_of_mem he

theorem Resorted.of_inherited (h : Resorted done last high top)
    (hplace : SamePlace Prod.fst (keyed items) before (first, item) done)
    (hfirst : first = lastDate before FALLBACK) (hreal : first ≠ FALLBACK) :
    last = top ∧ top ≠ FALLBACK ∧ leading 10 top = leading 10 first ∧ top ≤ first := by
  obtain ⟨e, he, hkey⟩ : ∃ e ∈ before, e.1 = first := by
    rcases lastDate_mem before FALLBACK with hnone | ⟨e, he, hkey⟩
    · exact absurd (hfirst.trans hnone) hreal
    · exact ⟨e, he, hkey.trans hfirst.symm⟩
  have hdone : e ∈ done := (hplace.mem_of_key hkey).mpr he
  have hhigh : high = first := le_antisymm (h.high_le hplace) (hkey ▸ h.reached e hdone)
  subst hhigh
  obtain ⟨htop, hday⟩ := h.day hreal
  exact ⟨h.carried (List.ne_nil_of_mem hdone) htop, htop, hday, h.le⟩

theorem Resorted.of_leading (h : Resorted done last high top) (hitems : Resortable items)
    (hplace : SamePlace Prod.fst (keyed items) before (FALLBACK, item) done)
    (hdone : ∀ e ∈ done, e ∈ keyed items) (hseg : item.content.isSegment = true)
    (hnone : lastDate before FALLBACK = FALLBACK) (hlast : last ≠ FALLBACK) :
    last = top ∧ top ≤ FALLBACK := by
  obtain ⟨e, he, hdated⟩ := h.keyedBefore hlast
  have hle : top ≤ FALLBACK := h.le.trans (h.high_le hplace)
  refine ⟨h.carried (List.ne_nil_of_mem he) fun htop => ?_, hle⟩
  -- then something undated that is no segment stood before it, and nothing was dated at all
  obtain ⟨f, hf, hfkey, hfseg⟩ := (h.cut htop).resolve_left hlast
  have hbefore := lastDate_eq_fallback.mp hnone
  obtain ⟨after, hsplit⟩ := hplace.split
  have hundated : ∀ i ∈ before.map Prod.snd, Undated items i := by
    intro i hi
    obtain ⟨g, hg, rfl⟩ := List.mem_map.mp hi
    obtain ⟨front, back, rfl⟩ := List.append_of_mem hg
    rw [List.append_assoc, List.cons_append] at hsplit
    exact undated_of_fallback hsplit (hbefore g hg) fun k hk => hbefore k (List.mem_append_left _ hk)
  have hitem : Undated items item := undated_of_fallback hsplit rfl hbefore
  have hmem : f ∈ before := (hplace.mem_of_key hfkey).mp hf
  have hsplit' := items_of_keyed hsplit
  have hafter := hitems.leading _ _ _ hsplit' hseg hitem hundated ⟨f.2, List.mem_map_of_mem hmem, hfseg⟩
  have hall : ∀ i ∈ items, Undated items i := by
    intro i hi
    rw [hsplit'] at hi
    rcases List.mem_append.mp hi with hi | hi
    · exact hundated i hi
    · rcases List.mem_cons.mp hi with rfl | hi
      · exact hitem
      · exact hafter i hi
  exact hdated (keyed_of_undated hall e (hdone e he))

theorem resort_key (h : Resorted done last high top) (hitems : Resortable items)
    (hplace : SamePlace Prod.fst (keyed items) before (first, item) done)
    (hdone : ∀ e ∈ done, e ∈ keyed items)
    (hkey : key = item.content.key (actEndToDate items) last) :
    top ≤ key ∧ key ≤ first ∧ (first ≠ FALLBACK → key ≠ FALLBACK ∧ leading 10 key = leading 10 first) ∧
      (first = FALLBACK → key ≠ FALLBACK → last ≠ FALLBACK) ∧
      (key = FALLBACK → item.content.isSegment = true → last = FALLBACK) := by
  obtain ⟨after, hsplit⟩ := hplace.split
  have hfirst : first = item.content.key (actEndToDate items) (lastDate before FALLBACK) :=
    key_of_keyed hsplit
  have hhigh := h.high_le hplace
  rcases key_cases (actEndToDate items) item.content with ⟨own, hown, hseg⟩ |
    ⟨start, date, hcontent, hmatched, hsegment⟩
  · -- its own key, both times
    rw [hown] at hfirst hkey
    rw [hfirst] at hhigh ⊢
    rw [hkey]
    exact ⟨h.le.trans hhigh, le_rfl, fun h => ⟨h, rfl⟩, fun h h' => absurd h h',
      fun h h' => absurd h (hseg h')⟩
  rw [hsegment] at hfirst hkey
  have hitem : item ∈ items := by
    rw [items_of_keyed hsplit]
    exact List.mem_append_right _ List.mem_cons_self
  have hseg : item.content.isSegment = true := by rw [hcontent]; rfl
  cases hdate : truthy date with
  | none =>
    rw [segmentKey_undated hdate] at hfirst hkey
    subst hkey
    by_cases hreal : first = FALLBACK
    · subst hreal
      by_cases hlast : key = FALLBACK
      · rw [hlast]
        exact ⟨h.le.trans hhigh, le_rfl, fun h => absurd rfl h, fun _ h => absurd rfl h,
          fun _ _ => rfl⟩
      · obtain ⟨heq, hle⟩ := h.of_leading hitems hplace hdone hseg hfirst.symm hlast
        exact ⟨heq.ge, heq ▸ hle, fun h => absurd rfl h, fun _ _ => hlast,
          fun h _ => absurd h hlast⟩
    · obtain ⟨heq, htop, hday, hle⟩ := h.of_inherited hplace hfirst hreal
      rw [heq]
      exact ⟨le_rfl, hle, fun _ => ⟨htop, hday⟩, fun h => absurd h hreal, fun h _ => h⟩
  | some d =>
    have hten := hitems.dates item hitem start date d hcontent hmatched hdate
    obtain ⟨hday₁, hreal₁, hfrom₁⟩ := segmentKey_dated hdate hten (lastDate before FALLBACK)
    obtain ⟨hday₂, hreal₂, hfrom₂⟩ := segmentKey_dated hdate hten last
    rw [← hfirst] at hday₁ hreal₁ hfrom₁
    rw [← hkey] at hday₂ hreal₂ hfrom₂
    have hsame : first ≠ FALLBACK → key ≠ FALLBACK ∧ leading 10 key = leading 10 first :=
      fun _ => ⟨hreal₂, hday₂.trans hday₁.symm⟩
    suffices hle : top ≤ key ∧ key ≤ first from
      ⟨hle.1, hle.2, hsame, fun h => absurd h hreal₁, fun h => absurd h hreal₂⟩
    rcases hfrom₁ with hinherited | hown
    · obtain ⟨heq, htop, hday, hle⟩ := h.of_inherited hplace hinherited hreal₁
      have hlast : key = last := by
        rw [hkey, heq]
        exact segmentKey_same hdate htop (hday.trans hday₁)
      rw [hlast, heq]
      exact ⟨le_rfl, hle⟩
    · rcases hfrom₂ with hlast | hown'
      · have hreal : last ≠ FALLBACK := hlast ▸ hreal₂
        have hbehind : last ≤ top := h.behind.resolve_left hreal
        obtain ⟨e, he, -⟩ := h.keyedBefore hreal
        have htop : top ≠ FALLBACK := by
          -- else the segment would be of the last day there is, and before `FALLBACK` on it
          intro htop
          have hover : FALLBACK ≤ first := htop ▸ h.le.trans hhigh
          have hle : d ≤ leading 10 FALLBACK := by
            rw [← hday₂, hlast]
            exact leading_mono 10 (hbehind.trans_eq htop)
          have hge : leading 10 FALLBACK ≤ d := hday₁ ▸ leading_mono 10 hover
          rw [hown, le_antisymm hle hge] at hover
          exact absurd hover (by decide)
        rw [hlast, h.carried (List.ne_nil_of_mem he) htop]
        exact ⟨le_rfl, h.le.trans hhigh⟩
      · rw [hown', ← hown]
        exact ⟨h.le.trans hhigh, le_rfl⟩

theorem Resorted.step (h : Resorted done last high top) (hitems : Resortable items)
    (hplace : SamePlace Prod.fst (keyed items) before (first, item) done)
    (hdone : ∀ e ∈ done, e ∈ keyed items)
    (hkey : key = item.content.key (actEndToDate items) last) :
    Resorted (done ++ [(first, item)]) (carry last key) first key := by
  obtain ⟨htop, hle, hday, hnone, hseg⟩ := resort_key h hitems hplace hdone hkey
  have hcarry : key ≠ FALLBACK → carry last key = key := fun h => if_pos h
  have hkeep : key = FALLBACK → carry last key = last := fun h => if_neg (not_not.mpr h)
  refine ⟨?_, .inr ⟨(first, item), by simp, rfl⟩, hle, hday, fun _ => hcarry, ?_, ?_, ?_⟩
  · intro e he
    rcases List.mem_append.mp he with he | he
    · exact hplace.le_of_mem he
    · rw [List.mem_singleton.mp he]
  · by_cases hreal : key = FALLBACK
    · rw [hkeep hreal]
      exact h.behind.imp_right fun hlast => hlast.trans htop
    · rw [hcarry hreal]
      exact .inr le_rfl
  · intro hlast
    by_cases hfirst : first = FALLBACK
    · have hlast' : last ≠ FALLBACK := by
        by_cases hreal : key = FALLBACK
        · rwa [hkeep hreal] at hlast
        · exact hnone hfirst hreal
      obtain ⟨e, he, hdated⟩ := h.keyedBefore hlast'
      exact ⟨e, List.mem_append_left _ he, hdated⟩
    · exact ⟨(first, item), by simp, hfirst⟩
  · intro hreal
    rw [hkeep hreal]
    have hfirst : first = FALLBACK := by
      by_contra hfirst
      exact (hday hfirst).1 hreal
    cases hkind : item.content.isSegment with
    | true => exact .inl (hseg hreal hkind)
    | false => exact .inr ⟨(first, item), by simp, hfirst, hkind⟩

theorem Resorted.run (h : Resorted done last high top) (hitems : Resortable items)
    (hsplit : sortBy Prod.fst (keyed items) = done ++ rest) :
    List.IsChain (· ≤ ·) (top :: keys (actEndToDate items) last (rest.map Prod.snd)) := by
  induction rest generalizing done last high top with
  | nil => exact List.IsChain.singleton _
  | cons e rest ih =>
    obtain ⟨before, hplace⟩ := sortBy_places hsplit
    have hdone : ∀ f ∈ done, f ∈ keyed items := fun f hf =>
      (perm_sortBy Prod.fst (keyed items)).mem_iff.mp (hsplit ▸ List.mem_append_left _ hf)
    have hstep := h.step hitems hplace hdone rfl
    have htop := (resort_key h hitems hplace hdone rfl).1
    exact List.IsChain.cons_cons htop (ih hstep (by rw [hsplit, List.append_assoc]; rfl))

end Again

/-- **The same items, and a second sorting changes nothing** where the list is resortable. -/
theorem sortItems_perm_and_idempotent (items : List (Item ι)) : (sortItems items).Perm items ∧
      (Resortable items → sortItems (sortItems items) = sortItems items) := by
  refine ⟨perm_sortItems items, fun h => ?_⟩
  have hkeys : keys (actEndToDate (sortItems items)) FALLBACK (sortItems items) =
      keys (actEndToDate items) FALLBACK (sortItems items) :=
    keys_congr (fun item hitem last => key_resorted h ((perm_sortItems items).mem_iff.mp hitem) last) FALLBACK
  have hchain := resorted_nil.run h (List.nil_append _).symm
  have hsorted := (List.isChain_iff_pairwise.mp hchain).of_cons
  have hpairs : (keyed (sortItems items)).Pairwise fun a b => a.1 ≤ b.1 := by
    have hfst : (keyed (sortItems items)).map Prod.fst =
        keys (actEndToDate items) FALLBACK (sortItems items) := by
      unfold keyed
      rw [List.map_fst_zip (length_keys _ _ _).le, hkeys]
    rw [← List.pairwise_map (f := Prod.fst) (R := (· ≤ ·)), hfst]
    exact hsorted
  have hself := sortBy_eq_self hpairs
  calc sortItems (sortItems items) = (keyed (sortItems items)).map Prod.snd := congrArg _ hself
    _ = sortItems items := map_snd_keyed _

/-- Resortable: an activity, a segment that leaves from it, a dated segment and a memory without a
    date. -/
def oneDay : List (Item ℕ) :=
  [⟨1, .activity (some ⟨some secondOfMay, some (47, 8)⟩)⟩, ⟨2, .segment (some (47, 8)) none⟩,
    ⟨3, .segment (some (0, 0)) (some "2024-05-02")⟩, ⟨4, .memory none none⟩]

theorem resortable_oneDay : Resortable oneDay where
  latest := by
    have honly : ∀ p, ∀ start ∈ startsAt oneDay p, start = secondOfMay := by
      intro p start hstart
      obtain ⟨item, hitem, hat⟩ := List.mem_filterMap.mp hstart
      obtain ⟨arrival, harrival, hif⟩ := Option.bind_eq_some_iff.mp hat
      obtain ⟨-, hsome⟩ := Option.ite_none_right_eq_some.mp hif
      obtain rfl := Option.some.inj hsome
      simp only [oneDay, List.mem_cons, List.not_mem_nil, or_false] at hitem
      rcases hitem with rfl | rfl | rfl | rfl
      · exact congrArg Prod.snd (Option.some.inj harrival).symm
      all_goals cases harrival
    intro seg hseg p d hleaves hlast start hstart
    rw [honly p start hstart, honly p d (List.mem_of_getLast? hlast)]
  leading := by
    intro before seg after hsplit hseg hnone hbefore hother
    obtain ⟨item, hitem, -⟩ := hother
    cases before with
    | nil => cases hitem
    | cons first before =>
      obtain ⟨rfl, -⟩ := List.cons.inj hsplit
      exact absurd (hbefore _ List.mem_cons_self) (by unfold Undated; decide +kernel)
  dates := by
    intro seg hseg start date d hcontent hmatched hdate
    simp only [oneDay, List.mem_cons, List.not_mem_nil, or_false] at hseg
    rcases hseg with rfl | rfl | rfl | rfl <;> cases hcontent
    · cases hdate
    · cases hdate
      decide

theorem sortItems_oneDay : (sortItems oneDay).Perm oneDay ∧ Resortable oneDay ∧
    sortItems (sortItems oneDay) = sortItems oneDay :=
  ⟨(sortItems_perm_and_idempotent oneDay).1, resortable_oneDay,
    (sortItems_perm_and_idempotent oneDay).2 resortable_oneDay⟩

def fifthOfMay : Start := ⟨"2024-05-05T09:00:00+00:00", by decide, by decide⟩

/-- The earlier of two activities with one end point stands last in the list. -/
def earlierLast : List (Item ℕ) :=
  [⟨1, .activity (some ⟨some fifthOfMay, some (47, 8)⟩)⟩,
    ⟨2, .activity (some ⟨some secondOfMay, some (47, 8)⟩)⟩, ⟨3, .segment (some (47, 8)) none⟩,
    ⟨4, .memory (some "2024-05-03") none⟩]

def undatedFirst : List (Item ℕ) :=
  [⟨1, .memory none none⟩, ⟨2, .segment (some (0, 0)) none⟩,
    ⟨3, .activity (some ⟨some secondOfMay, some (47, 8)⟩)⟩]

/-- A segment with a date of nine characters, which is also the whole key of a memory. -/
def shortDate : List (Item ℕ) :=
  [⟨1, .segment (some (0, 0)) (some "2024T0000")⟩, ⟨2, .segment (some (0, 0)) (some "2024T0000T")⟩,
    ⟨3, .memory (some "2024T0000T1") (some "1")⟩, ⟨4, .memory (some "2024") (some "0000")⟩]

/-- **Each of the three conditions is needed.** -/
theorem sorting_twice_differs : sortItems (sortItems earlierLast) ≠ sortItems earlierLast ∧
      sortItems (sortItems undatedFirst) ≠ sortItems undatedFirst ∧
        sortItems (sortItems shortDate) ≠ sortItems shortDate :=
  ⟨by decide +kernel, by decide +kernel, by decide +kernel⟩

end TraxJourney.Timeline.Sorting
