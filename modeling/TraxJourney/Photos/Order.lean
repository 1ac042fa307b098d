/-
  File:      Photos/Order.lean
  Subject:   The order of a memory's photos (`api/photo_order.py`), and the writes under the photo lock
             that keep it (`_write_memory_photo`, `delete_photo`, `replace_photo`,
             `_clear_memory_photos` in `api/memories.py`).

  * `loadState`, `dumpState` -- the state, read of its column and written to it;
    **`loadState_dumpState`** -- what was written is read back.

  A column holds the document that its text is of; nothing stands for NULL and for a text that is not
  JSON. The list of photos holds texts.
-/
import TraxJourney.Lib.Dict
import TraxJourney.Lib.JsonText
import TraxJourney.Lib.Ranked

namespace TraxJourney.Photos

open Lib

/-! ## 1. The state of an order -/

/-- `_SHA256_HEX`. -/
def isHash (s : String) : Bool :=
  decide (s.length = 64) && s.toList.all fun c => c.isDigit || ('a' ≤ c && c ≤ 'f')

abbrev Hash := { s : String // isHash s = true }

structure OrderState where
  epoch : ℤ
  ranks : Dict Text ℤ
  hashes : Dict Text Hash

def OrderState.empty : OrderState := { epoch := 0, ranks := .empty, hashes := .empty }

/-- `_is_int`. -/
def readInt : Json → Option ℤ
  | .num (.int n) => some n
  | _ => none

/-- `_is_hash`. -/
def readHash : Json → Option Hash
  | .text (.valid s) => if h : isHash s = true then some ⟨s, h⟩ else none
  | _ => none

/-- The entries of a field that can be read, one by one. -/
def readEntries {ν : Type} (read : Json → Option ν) : Option Json → Dict Text ν
  | some (.obj entries) => Table.ofEntries (entries.filterMap fun e => (read e.2).map fun v => (e.1, v))
  | _ => .empty

def loadState : Option Json → OrderState
  | some (.obj data) =>
    { epoch := ((Obj.get data "epoch").bind readInt).getD 0
      ranks := readEntries readInt (Obj.get data "ranks")
      hashes := readEntries readHash (Obj.get data "hashes") }
  | _ => .empty

/-- A dictionary written with its keys sorted. -/
def sortedEntries {ν : Type} (json : ν → Json) (d : Dict Text ν) : Json :=
  .obj ((d.rows.mergeSort fun e f => notAfter e.1.codes f.1.codes).map
    fun e => (e.1, json e.2))

def dumpState (s : OrderState) : Json :=
  .obj [(.valid "epoch", .int s.epoch), (.valid "hashes", sortedEntries (fun h => .str h.val) s.hashes),
    (.valid "ranks", sortedEntries .int s.ranks)]

structure OrderState.Same (s t : OrderState) : Prop where
  epoch : s.epoch = t.epoch
  ranks : s.ranks.Same t.ranks
  hashes : s.hashes.Same t.hashes

theorem readEntries_sortedEntries {ν : Type} {read : Json → Option ν} {json : ν → Json}
    (hback : ∀ v, read (json v) = some v) (d : Dict Text ν) :
    (readEntries read (some (sortedEntries json d))).Same d := by
  have hread : ((d.rows.mergeSort fun e f => notAfter e.1.codes f.1.codes).map
      fun e => (e.1, json e.2)).filterMap (fun e => (read e.2).map fun v => (e.1, v)) =
        d.rows.mergeSort fun e f => notAfter e.1.codes f.1.codes := by
    rw [List.filterMap_map]
    refine (List.filterMap_congr fun e _ => ?_).trans List.filterMap_some
    rw [Function.comp_apply, hback]
    rfl
  show (Table.ofEntries _).Same d
  rw [hread]
  exact Table.ofEntries_rows (List.mergeSort_perm _ _)

theorem loadState_dumpState (s : OrderState) : (loadState (some (dumpState s))).Same s := by
  have hint : ∀ n : ℤ, readInt (.int n) = some n := fun _ => rfl
  have hhash : ∀ h : Hash, readHash (.str h.val) = some h := fun h => dif_pos h.property
  exact ⟨rfl, readEntries_sortedEntries hint s.ranks, readEntries_sortedEntries hhash s.hashes⟩

/-! ## 2. The pure functions -/

/-- `place`; nothing where the photo is already placed. -/
def place (photos : List Text) (state : OrderState) (uuid : Text) (rank : Option ℤ)
    (contentHash : Option Hash) : Option (List Text × OrderState) :=
  if uuid ∈ photos then none
  else
    let newPhotos := match rank with
      | none => photos ++ [uuid]
      | some rank =>
        -- before the first that has no rank, or a greater one
        let isBefore := fun existing => (state.ranks.find existing).any fun r => decide (r ≤ rank)
        photos.takeWhile isBefore ++ uuid :: photos.dropWhile isBefore
    some (newPhotos, { state with
        ranks := state.ranks.store uuid rank
        hashes := state.hashes.store uuid contentHash })

def remove (photos : List Text) (state : OrderState) (uuid : Text) : List Text × OrderState :=
  (photos.filter fun p => p ≠ uuid,
    { state with ranks := state.ranks.erase uuid, hashes := state.hashes.erase uuid })

def replace (photos : List Text) (state : OrderState) (old new : Text) : Option (List Text × OrderState) :=
  if old ∉ photos then none
  else some (photos.set (photos.idxOf old) new, { state with
      ranks := (state.ranks.erase old).store new (state.ranks.find old)
      hashes := (state.hashes.erase old).store new (state.hashes.find old) })

def clear (state : OrderState) : OrderState := { epoch := state.epoch + 1, ranks := .empty, hashes := .empty }

def hasHash (state : OrderState) (photos : List Text) (contentHash : Hash) : Bool :=
  photos.any fun uuid => decide (state.hashes.find uuid = some contentHash)

/-! ## 3. A memory's photos -/

/-- `photos_json` and `photo_order_json` of a memory. -/
structure Memory where
  photos : List Text
  photoOrderJson : Option Json

def Memory.state (m : Memory) : OrderState := loadState m.photoOrderJson

/-- `[p for p in photos if p]`. -/
def Memory.listed (m : Memory) : List Text := m.photos.filter fun p => p ≠ .valid ""

/-- What `_write_memory_photo` is called with. -/
structure Placement where
  uuid : Text
  order : Option ℤ
  epoch : Option ℤ
  contentHash : Option Hash

/-- `_write_memory_photo`, of a memory that is there; `place` raises for a photo in the list. -/
def writeMemoryPhoto (m : Memory) (p : Placement) : Memory × Bool :=
  if p.epoch.any (fun epoch => m.state.epoch ≠ epoch) ||
      p.contentHash.any (hasHash m.state m.listed) then (m, false)
  else match place m.listed m.state p.uuid p.order p.contentHash with
    | none => (m, false)
    | some (photos, state) => ({ photos := photos, photoOrderJson := some (dumpState state) }, true)

/-- `delete_photo`; 404 for a photo that is not in the list. -/
def deletePhoto (m : Memory) (uuid : Text) : Memory :=
  if uuid ∉ m.photos then m
  else
    let (photos, state) := remove m.photos m.state uuid
    { photos := photos, photoOrderJson := some (dumpState state) }

/-- `replace_photo`; 404 for a photo that is not in the list. -/
def replacePhoto (m : Memory) (old new : Text) : Memory × Bool :=
  match replace m.listed m.state old new with
  | none => (m, false)
  | some (photos, state) => ({ photos := photos, photoOrderJson := some (dumpState state) }, true)

def clearMemoryPhotos (m : Memory) : Memory :=
  { photos := [], photoOrderJson := some (dumpState (clear m.state)) }

/-! ## 4. Ranks -/

/-- A rank, above all others where there is none. -/
def rankOf : Option ℤ → WithTop ℤ
  | none => ⊤
  | some r => (r : WithTop ℤ)

def OrderState.rank (s : OrderState) (p : Text) : WithTop ℤ := rankOf (s.ranks.find p)

theorem rankOf_inj {r s : Option ℤ} (h : rankOf r = rankOf s) : r = s := by
  cases r <;> cases s <;> simp_all [rankOf]

/-- **A placement is an insertion by rank.** -/
theorem place_eq {photos : List Text} {state : OrderState} {uuid : Text} (h : uuid ∉ photos)
    (rank : Option ℤ) (contentHash : Option Hash) :
    place photos state uuid rank contentHash = some (insertRanked state.rank (rankOf rank) uuid photos,
        { state with
          ranks := state.ranks.store uuid rank
          hashes := state.hashes.store uuid contentHash }) := by
  unfold place
  rw [if_neg h]
  cases rank with
  | none =>
    have hall : ∀ p ∈ photos, decide (state.rank p ≤ rankOf none) = true := fun p _ => decide_eq_true le_top
    have hend : insertRanked state.rank (rankOf none) uuid photos = photos ++ [uuid] := by
      unfold insertRanked
      rw [List.takeWhile_eq_self_iff.mpr hall, List.dropWhile_eq_nil_iff.mpr hall]
    rw [hend]
  | some rank =>
    have hsame : (fun existing => (state.ranks.find existing).any fun r => decide (r ≤ rank)) =
        fun existing => decide (state.rank existing ≤ rankOf (some rank)) := by
      funext existing
      unfold OrderState.rank
      cases state.ranks.find existing with
      | none => simp [rankOf]
      | some r => simp [rankOf]
    dsimp only
    rw [hsame]
    rfl

theorem set_idxOf {photos : List Text} (h : photos.Nodup) {old new : Text} (hold : old ∈ photos) :
    photos.set (photos.idxOf old) new = photos.map fun p => if p = old then new else p := by
  induction photos with
  | nil => cases hold
  | cons p photos ih =>
    rw [List.nodup_cons] at h
    by_cases hp : p = old
    · subst hp
      have hrest : photos.map (fun q => if q = p then new else q) = photos := by
        refine (List.map_congr_left fun q hq => ?_).trans (List.map_id photos)
        exact if_neg fun heq : q = p => h.1 (heq ▸ hq)
      rw [List.idxOf_cons_self, List.set_cons_zero, List.map_cons, if_pos rfl, hrest]
    · rw [List.idxOf_cons_ne _ hp, List.set_cons_succ, List.map_cons, if_neg hp,
        ih h.2 ((List.mem_cons.mp hold).resolve_left (Ne.symm hp))]

end TraxJourney.Photos
