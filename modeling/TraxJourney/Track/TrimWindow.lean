/-
  File:      Track/TrimWindow.lean
  Subject:   The track editor's points and the window it trims them to: `TrackEditorController` of
             `track_editor_controller.dart` over `TrackEditModel` of `track_edit_model.dart`.

  * **`edits_keep_iff`** -- the calls of a run keep what they promise if and only if every `trimFrom` finds
    the window in step; `edits_keep_fails` -- it is not after a point was added or removed.
-/
import Mathlib.Algebra.Order.Group.Int
import Mathlib.Data.List.Basic
import TraxJourney.Lib.Runs

namespace TraxJourney.Track

open Lib

/-! ## 1. The list -/

/-- `EditPoint`. -/
structure EditPoint (K : Type*) where
  lat : K
  lng : K
  elev : Option K
deriving DecidableEq

inductive EditError where
  /-- `RangeError`: an index or a range past the points. -/
  | range
  /-- `ArgumentError` of `clamp`: its bounds are the wrong way round. -/
  | bounds

/-- `TrackEditModel`, by its points. -/
abbrev TrackEditModel (K : Type*) := List (EditPoint K)

namespace TrackEditModel

variable {K : Type*} (points : TrackEditModel K)

/-- `trim`: both ends are kept. -/
def trim (start stop : ℤ) : Except EditError (TrackEditModel K) :=
  if start < 0 ∨ points.length ≤ stop ∨ stop < start then .error .range
  else .ok ((points.take (stop + 1).toNat).drop start.toNat)

/-- `addPointAfter`; -1 is before the first one. -/
def addPointAfter (index : ℤ) (point : EditPoint K) : Except EditError (TrackEditModel K) :=
  if index < -1 ∨ points.length ≤ index then .error .range
  else .ok (points.insertIdx (index + 1).toNat point)

def removePoint (index : ℤ) : Except EditError (TrackEditModel K) :=
  if index < 0 ∨ points.length ≤ index then .error .range else .ok (points.eraseIdx index.toNat)

/-- `movePoint`: the elevation stays. -/
def movePoint (index : ℤ) (lat lng : K) : Except EditError (TrackEditModel K) :=
  if index < 0 ∨ points.length ≤ index then .error .range
  else .ok (points.modify index.toNat fun old => ⟨lat, lng, old.elev⟩)

end TrackEditModel

/-! ## 2. The controller -/

structure TrackEditorController (K : Type*) where
  model : TrackEditModel K
  selectedIndex : Option ℤ
  trimStart : ℤ
  trimEnd : ℤ

def clamp (x lower upper : ℤ) : Except EditError ℤ :=
  if upper < lower then .error .bounds else .ok (max lower (min x upper))

namespace TrackEditorController

variable {K : Type*}

/-- What a call leaves, and with what error where it throws. -/
abbrev Outcome (K : Type*) := TrackEditorController K × Option EditError

def load (points : TrackEditModel K) : TrackEditorController K :=
  ⟨points, none, 0, if 0 < points.length then points.length - 1 else 0⟩

variable (c : TrackEditorController K)

def selectVertex (index : Option ℤ) : Outcome K := ({ c with selectedIndex := index }, none)

def setTrimStart (index : ℤ) : Outcome K :=
  match clamp index 0 c.trimEnd with
  | .error e => (c, some e)
  | .ok start => ({ c with trimStart := start }, none)

def setTrimEnd (index : ℤ) : Outcome K :=
  match clamp index c.trimStart (c.model.length - 1) with
  | .error e => (c, some e)
  | .ok stop => ({ c with trimEnd := stop }, none)

def applyTrim : Outcome K :=
  match c.model.trim c.trimStart c.trimEnd with
  | .error e => (c, some e)
  | .ok kept => (⟨kept, none, 0, kept.length - 1⟩, none)

/-- One call after the other, unless the first throws. -/
def Outcome.next (o : Outcome K) (f : TrackEditorController K → Outcome K) : Outcome K :=
  match o.2 with
  | some e => (o.1, some e)
  | none => f o.1

def trimFrom (index : ℤ) : Outcome K := Outcome.next (c.setTrimStart index) applyTrim

def trimTo (index : ℤ) : Outcome K := Outcome.next (c.setTrimEnd index) applyTrim

/-- A change of the list alone. -/
def edited : Except EditError (TrackEditModel K) → Outcome K
  | .error e => (c, some e)
  | .ok points => ({ c with model := points }, none)

def addPointAfter (index : ℤ) (point : EditPoint K) : Outcome K :=
  c.edited (c.model.addPointAfter index point)

/-- `removeSelected`, of the selection where no index is given. -/
def removeSelected (index : Option ℤ) : Outcome K :=
  match index.or c.selectedIndex with
  | none => (c, none)
  | some i => Outcome.next (c.edited (c.model.removePoint i)) fun c => ({ c with selectedIndex := none }, none)

def moveVertex (index : ℤ) (lat lng : K) : Outcome K := c.edited (c.model.movePoint index lat lng)

end TrackEditorController

/-! ## 3. Calls -/

/-- A call of the controller. -/
inductive Edit (K : Type*) where
  | selectVertex (index : Option ℤ)
  | addPointAfter (index : ℤ) (point : EditPoint K)
  | removeSelected (index : Option ℤ)
  | moveVertex (index : ℤ) (lat lng : K)
  | trimFrom (index : ℤ)
  | trimTo (index : ℤ)

section Calls

variable {K : Type*}

open TrackEditorController

def Edit.run (c : TrackEditorController K) : Edit K → Outcome K
  | .selectVertex index => c.selectVertex index
  | .addPointAfter index point => c.addPointAfter index point
  | .removeSelected index => c.removeSelected index
  | .moveVertex index lat lng => c.moveVertex index lat lng
  | .trimFrom index => c.trimFrom index
  | .trimTo index => c.trimTo index

/-- The index of a point of the track. -/
def TrackEditorController.Inside (c : TrackEditorController K) (i : ℤ) : Prop := 0 ≤ i ∧ i < c.model.length

/-- The call's indices are inside the track. -/
def Edit.Valid (c : TrackEditorController K) : Edit K → Prop
  | .selectVertex index => ∀ i ∈ index, c.Inside i
  | .addPointAfter index _ => -1 ≤ index ∧ index < c.model.length
  | .removeSelected index => ∀ i ∈ index, c.Inside i
  | .moveVertex index _ _ => c.Inside index
  | .trimFrom index => c.Inside index
  | .trimTo index => c.Inside index

/-- The call does not throw, and a trim leaves exactly the points that it says. -/
def Edit.Keeps (c : TrackEditorController K) (e : Edit K) : Prop :=
  (e.run c).2 = none ∧ (∀ i, e = .trimFrom i → (e.run c).1.model = c.model.drop i.toNat) ∧
    ∀ i, e = .trimTo i → (e.run c).1.model = c.model.take (i.toNat + 1)

/-- The state that a call leaves, whether it throws or not. -/
def after (c : TrackEditorController K) (e : Edit K) : Option (TrackEditorController K) := some (e.run c).1

/-- The window ends where the points do; or else it ends before, but at a point like the last one, and that
    is to be kept alone. -/
def TrackEditorController.InStep (c : TrackEditorController K) (i : ℤ) : Prop :=
  c.trimEnd = c.model.length - 1 ∨
    i = c.model.length - 1 ∧ c.trimEnd < i ∧ c.model[c.trimEnd.toNat]? = c.model[i.toNat]?

/-- A trim from a point finds the window in step. -/
def Edit.Meets (c : TrackEditorController K) : Edit K → Prop
  | .trimFrom i => c.InStep i
  | _ => True

/-! ## 4. One call -/

/-- What is so after every call that does not throw. -/
structure Sound (c : TrackEditorController K) : Prop where
  start : c.trimStart = 0
  stop : 0 ≤ c.trimEnd
  selected : ∀ i ∈ c.selectedIndex, c.Inside i

theorem load_sound (points : TrackEditModel K) : Sound (load points) where
  start := rfl
  stop := by
    unfold load
    dsimp only
    split <;> omega
  selected _ h := by cases h

theorem clamp_of_le {x lower upper : ℤ} (h : lower ≤ upper) :
    clamp x lower upper = .ok (max lower (min x upper)) := if_neg (not_lt.mpr h)

theorem trim_of_inside (points : TrackEditModel K) {start stop : ℤ} (hstart : 0 ≤ start)
    (hle : start ≤ stop) (hstop : stop < points.length) :
    TrackEditModel.trim points start stop = .ok ((points.take (stop + 1).toNat).drop start.toNat) :=
  if_neg (by omega)

variable {c : TrackEditorController K}

variable {i : ℤ}

theorem trimFrom_cases (h : Sound c) (hi : c.Inside i) :
    (c.model.length ≤ c.trimEnd ∧ (c.trimFrom i).2 = some .range) ∨
      c.trimEnd < c.model.length ∧ c.trimFrom i =
        (⟨(c.model.take (c.trimEnd + 1).toNat).drop (min i c.trimEnd).toNat, none, 0,
          ((c.model.take (c.trimEnd + 1).toNat).drop (min i c.trimEnd).toNat).length - 1⟩, none) := by
  obtain ⟨hlow, hhigh⟩ := hi
  have hstop := h.stop
  have hset : c.setTrimStart i = ({ c with trimStart := min i c.trimEnd }, none) := by
    unfold TrackEditorController.setTrimStart
    rw [clamp_of_le h.stop, max_eq_right (by omega)]
  unfold TrackEditorController.trimFrom
  rw [hset]
  change (_ ∧ (applyTrim _).2 = _) ∨ _ ∧ applyTrim _ = _
  unfold TrackEditorController.applyTrim
  dsimp only
  rcases lt_or_ge c.trimEnd c.model.length with hlt | hge
  · refine .inr ⟨hlt, ?_⟩
    rw [trim_of_inside _ (by omega) (by omega) hlt]
  · refine .inl ⟨hge, ?_⟩
    rw [TrackEditModel.trim, if_pos (by omega)]

theorem trimTo_eq (h : Sound c) (hi : c.Inside i) : c.trimTo i =
    (⟨c.model.take (i + 1).toNat, none, 0, (c.model.take (i + 1).toNat).length - 1⟩, none) := by
  obtain ⟨hlow, hhigh⟩ := hi
  have hset : c.setTrimEnd i = ({ c with trimEnd := i }, none) := by
    unfold TrackEditorController.setTrimEnd
    rw [h.start, clamp_of_le (by omega), min_eq_left (by omega), max_eq_right hlow]
  unfold TrackEditorController.trimTo
  rw [hset]
  change applyTrim _ = _
  unfold TrackEditorController.applyTrim
  rw [h.start, trim_of_inside _ le_rfl hlow hhigh]
  rfl

theorem trimFrom_keeps_iff (h : Sound c) (hi : c.Inside i) :
    ((c.trimFrom i).2 = none ∧ (c.trimFrom i).1.model = c.model.drop i.toNat) ↔ c.InStep i := by
  obtain ⟨hlow, hhigh⟩ := hi
  have hstop := h.stop
  rcases trimFrom_cases h ⟨hlow, hhigh⟩ with ⟨hpast, hthrows⟩ | ⟨hlt, heq⟩
  · rw [hthrows]
    constructor
    · rintro ⟨hnone, -⟩
      cases hnone
    · rintro (hsame | ⟨-, hless, -⟩) <;> omega
  · rw [heq]
    constructor
    · rintro ⟨-, hpoints⟩
      have hlength := congrArg List.length hpoints
      rw [List.length_drop, List.length_take, List.length_drop] at hlength
      by_cases hsame : c.trimEnd = c.model.length - 1
      · exact .inl hsame
      · -- the last point alone, of a window that ends before it
        have hlast : i = c.model.length - 1 ∧ c.trimEnd < i := by omega
        refine .inr ⟨hlast.1, hlast.2, ?_⟩
        have hhead := congrArg (fun l : TrackEditModel K => l[0]?) hpoints
        rw [List.getElem?_drop, List.getElem?_drop, List.getElem?_take_of_lt (by omega)] at hhead
        rwa [min_eq_right (by omega), Nat.add_zero, Nat.add_zero] at hhead
    · rintro (hsame | ⟨hlast, hless, hequal⟩)
      · rw [min_eq_left (by omega), List.take_of_length_le (by omega)]
        exact ⟨rfl, rfl⟩
      · refine ⟨rfl, ?_⟩
        rw [min_eq_right (by omega)]
        refine List.ext_getElem? fun n => ?_
        rw [List.getElem?_drop, List.getElem?_drop]
        cases n with
        | zero => rwa [List.getElem?_take_of_lt (by omega)]
        | succ n =>
          rw [List.getElem?_eq_none (by rw [List.length_take]; omega), List.getElem?_eq_none (by omega)]

theorem addPointAfter_eq (point : EditPoint K) (hlow : -1 ≤ i) (hhigh : i < c.model.length) :
    c.addPointAfter i point = ({ c with model := c.model.insertIdx (i + 1).toNat point }, none) := by
  unfold TrackEditorController.addPointAfter TrackEditModel.addPointAfter
  rw [if_neg (by omega)]
  rfl

theorem moveVertex_eq (hi : c.Inside i) (lat lng : K) : c.moveVertex i lat lng =
    ({ c with model := c.model.modify i.toNat fun old => ⟨lat, lng, old.elev⟩ }, none) := by
  obtain ⟨hlow, hhigh⟩ := hi
  unfold TrackEditorController.moveVertex TrackEditModel.movePoint
  rw [if_neg (by omega)]
  rfl

theorem removeSelected_cases (h : Sound c) {index : Option ℤ} (hindex : ∀ i ∈ index, c.Inside i) :
    (c.selectedIndex = none ∧ c.removeSelected index = (c, none)) ∨ ∃ i, c.Inside i ∧
      c.removeSelected index = ({ c with model := c.model.eraseIdx i.toNat, selectedIndex := none }, none) := by
  have hremove : ∀ i, c.Inside i → c.edited (c.model.removePoint i) =
      ({ c with model := c.model.eraseIdx i.toNat }, none) := fun i hi => by
    obtain ⟨hlow, hhigh⟩ := hi
    unfold TrackEditModel.removePoint
    rw [if_neg (by omega)]
    rfl
  unfold TrackEditorController.removeSelected
  cases index with
  | some i =>
    refine .inr ⟨i, hindex i rfl, ?_⟩
    rw [Option.some_or]
    dsimp only
    rw [hremove i (hindex i rfl)]
    rfl
  | none =>
    rw [Option.none_or]
    cases hselected : c.selectedIndex with
    | none => exact .inl ⟨rfl, rfl⟩
    | some i =>
      have hi := h.selected i hselected
      refine .inr ⟨i, hi, ?_⟩
      dsimp only
      rw [hremove i hi]
      rfl

theorem keeps_iff (h : Sound c) {e : Edit K} (he : e.Valid c) : e.Keeps c ↔ e.Meets c := by
  cases e with
  | selectVertex index => exact ⟨fun _ => trivial, fun _ => ⟨rfl, nofun, nofun⟩⟩
  | addPointAfter i point =>
    refine ⟨fun _ => trivial, fun _ => ⟨?_, nofun, nofun⟩⟩
    rw [Edit.run, addPointAfter_eq point he.1 he.2]
  | removeSelected index =>
    refine ⟨fun _ => trivial, fun _ => ⟨?_, nofun, nofun⟩⟩
    rw [Edit.run]
    rcases removeSelected_cases h he with ⟨-, heq⟩ | ⟨i, -, heq⟩ <;> rw [heq]
  | moveVertex i lat lng =>
    refine ⟨fun _ => trivial, fun _ => ⟨?_, nofun, nofun⟩⟩
    rw [Edit.run, moveVertex_eq he]
  | trimFrom i =>
    refine Iff.trans ⟨?_, ?_⟩ (trimFrom_keeps_iff h he)
    · rintro ⟨hnone, hpoints, -⟩
      exact ⟨hnone, hpoints i rfl⟩
    · rintro ⟨hnone, hpoints⟩
      exact ⟨hnone, fun j hj => by cases hj; exact hpoints, nofun⟩
  | trimTo i =>
    refine ⟨fun _ => trivial, fun _ => ?_⟩
    have hrun : (Edit.trimTo i).run c = _ := trimTo_eq h he
    refine ⟨by rw [hrun], nofun, fun j hj => ?_⟩
    cases hj
    rw [hrun]
    have hlow := he.1
    exact congrArg (c.model.take ·) (by omega)

theorem Sound.of_trimmed {points : TrackEditModel K} (h : points ≠ []) :
    Sound (⟨points, none, 0, points.length - 1⟩ : TrackEditorController K) where
  start := rfl
  stop := by
    have hpos := List.length_pos_iff.mpr h
    dsimp only
    omega
  selected _ hi := by cases hi

theorem Sound.run (h : Sound c) {e : Edit K} (he : e.Valid c) (hkeeps : e.Keeps c) : Sound (e.run c).1 := by
  cases e with
  | selectVertex index => exact ⟨h.start, h.stop, he⟩
  | addPointAfter i point =>
    rw [Edit.run, addPointAfter_eq point he.1 he.2]
    refine ⟨h.start, h.stop, fun j hj => ?_⟩
    obtain ⟨hlow, hhigh⟩ := h.selected j hj
    refine ⟨hlow, ?_⟩
    rw [List.length_insertIdx]
    split <;> omega
  | removeSelected index =>
    rw [Edit.run]
    rcases removeSelected_cases h he with ⟨-, heq⟩ | ⟨i, -, heq⟩
    · rwa [heq]
    · rw [heq]
      exact ⟨h.start, h.stop, fun j hj => by cases hj⟩
  | moveVertex i lat lng =>
    rw [Edit.run, moveVertex_eq he]
    refine ⟨h.start, h.stop, fun j hj => ?_⟩
    obtain ⟨hlow, hhigh⟩ := h.selected j hj
    exact ⟨hlow, by dsimp only; rwa [List.length_modify]⟩
  | trimFrom i =>
    obtain ⟨hlow, hhigh⟩ := he
    have hstop := h.stop
    rcases trimFrom_cases h ⟨hlow, hhigh⟩ with ⟨-, hthrows⟩ | ⟨hlt, heq⟩
    · have hnone := hkeeps.1
      rw [Edit.run, hthrows] at hnone
      cases hnone
    · rw [Edit.run, heq]
      refine .of_trimmed (List.ne_nil_of_length_pos ?_)
      rw [List.length_drop, List.length_take]
      omega
  | trimTo i =>
    obtain ⟨hlow, hhigh⟩ := he
    rw [Edit.run, trimTo_eq h ⟨hlow, hhigh⟩]
    refine .of_trimmed (List.ne_nil_of_length_pos ?_)
    rw [List.length_take]
    omega

/-! ## 5. Runs -/

/-- **The calls of a run keep what they promise if and only if every trim from a point finds the window in
    step with the points.** -/
theorem edits_keep_iff {points : TrackEditModel K} {edits : List (Edit K)}
    (hvalid : AllMeet after (fun c e => e.Valid c) (load points) edits) :
    AllMeet after (fun c e => e.Keeps c) (load points) edits ↔
      AllMeet after (fun c e => e.Meets c) (load points) edits := by
  have hrun : ∀ (c : TrackEditorController K) (edits : List (Edit K)), Sound c →
      AllMeet after (fun c e => e.Valid c) c edits →
      (AllMeet after (fun c e => e.Keeps c) c edits ↔ AllMeet after (fun c e => e.Meets c) c edits) := by
    intro c edits hc hedits
    induction edits generalizing c with
    | nil => exact Iff.rfl
    | cons e edits ih =>
      obtain ⟨he, hrest⟩ := hedits _ rfl
      have hiff := keeps_iff hc he
      constructor
      · rintro hall
        obtain ⟨hkeeps, hall⟩ := hall _ rfl
        exact .cons rfl (hiff.mp hkeeps) ((ih _ (hc.run he hkeeps) hrest).mp hall)
      · rintro hall
        obtain ⟨hmeets, hall⟩ := hall _ rfl
        have hkeeps := hiff.mpr hmeets
        exact .cons rfl hkeeps ((ih _ (hc.run he hkeeps) hrest).mpr hall)
  exact hrun _ edits (load_sound points) hvalid

instance (e : Edit K) : Decidable (e.Valid c) := by
  cases e <;> unfold Edit.Valid TrackEditorController.Inside <;> infer_instance

end Calls

open TrackEditorController

def threePoints : TrackEditModel ℤ := [⟨0, 0, none⟩, ⟨0, 1, none⟩, ⟨0, 2, none⟩]

/-- Up to the last of four points, and then from the second one. -/
theorem edits_keep_iff_three : AllMeet after (fun c e => e.Valid c) (load threePoints)
        [.addPointAfter 0 ⟨5, 5, none⟩, .trimTo 3, .trimFrom 1] ∧
      AllMeet after (fun c e => e.Keeps c) (load threePoints)
        [.addPointAfter 0 ⟨5, 5, none⟩, .trimTo 3, .trimFrom 1] :=
  ⟨by decide, (edits_keep_iff (by decide)).mpr (.cons rfl trivial (.cons rfl trivial
    (.cons rfl (.inl rfl) trivial)))⟩

/-- **Out of step**: after a point was removed a trim from the first one throws, and after one was added it
    drops the last one. -/
theorem edits_keep_fails :
    AllMeet after (fun c e => e.Valid c) (load threePoints) [.removeSelected (some 0), .trimFrom 0] ∧
      ¬ AllMeet after (fun c e => e.Keeps c) (load threePoints) [.removeSelected (some 0), .trimFrom 0] ∧
      AllMeet after (fun c e => e.Valid c) (load threePoints)
        [.addPointAfter 0 ⟨5, 5, none⟩, .trimFrom 0] ∧
      ¬ AllMeet after (fun c e => e.Keeps c) (load threePoints)
        [.addPointAfter 0 ⟨5, 5, none⟩, .trimFrom 0] := by
  refine ⟨by decide, fun hall => ?_, by decide, fun hall => ?_⟩
  · obtain ⟨-, hrest⟩ := hall _ rfl
    obtain ⟨⟨hnone, -⟩, -⟩ := hrest _ rfl
    exact absurd hnone (by decide)
  · obtain ⟨-, hrest⟩ := hall _ rfl
    obtain ⟨⟨-, hpoints, -⟩, -⟩ := hrest _ rfl
    exact absurd (hpoints 0 rfl) (by decide)

end TraxJourney.Track
