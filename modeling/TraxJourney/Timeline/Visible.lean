/-
  File:      Timeline/Visible.lean
  Subject:   Operations at an index into the items that the caller sees: `journal_visible_positions`,
             `journal_visible_row_positions`, `translate_insert_after` and `row_position_for_index`
             from `api/project_access.py`, `delete_item` and `reorder_items` from
             `api/project_items.py`, the insert of `api/segments.py`, and `remove_item` and
             `move_item` from `src/models/project.py`.

  * **`index_ops_visible`** -- each endpoint changes what the caller sees as the operation on that
    list alone does, and leaves the hidden items as they are, in their order.
-/
import TraxJourney.Lib.VisibleIndex
import TraxJourney.Timeline.Items

namespace TraxJourney.Timeline

open Lib

/-! ## 1. What the caller sees -/

section Caller

variable (author : ℕ → Option ℤ) (callerId ownerId : ℤ)

/-- `author` is `item.journal.user_info_id`, by the id of the entry. -/
def visibleTo (item : ProjectItem) : Bool :=
  match item.itemType, item.journal with
  | .journal, some j => (author j).getD ownerId == callerId
  | _, _ => true

def journalVisiblePositions (items : List ProjectItem) : List ℕ :=
  positionsFrom (visibleTo author callerId ownerId) 0 items

/-- `journals` are the journal rows that were read, each with its author. -/
def rowVisibleTo (journals : ℕ → Option (Option ℤ)) (r : ItemRow) : Bool :=
  match r.values.itemType, r.values.journalId with
  | .journal, some j => ((journals j).map (·.getD ownerId)).getD ownerId == callerId
  | _, _ => true

def journalVisibleRowPositions (journals : ℕ → Option (Option ℤ)) (rows : List ItemRow) : List ℕ :=
  positionsFrom (rowVisibleTo callerId ownerId journals) 0 rows

/-! ## 2. The endpoints -/

def translateInsertAfter (visiblePositions : List ℕ) (insertAfterIndex : Option ℤ) (total : ℕ) :
    ℕ :=
  match insertAfterIndex with
  | none => total
  | some index =>
    if visiblePositions.length ≤ index then total
    else if index < 0 then 0
    else match visiblePositions[index.toNat]? with
      | some position => position + 1
      | none => total

def removeItem (items : List ProjectItem) (index : ℤ) : List ProjectItem :=
  if 0 ≤ index ∧ index < items.length then items.eraseIdx index.toNat else items

def moveItem (items : List ProjectItem) (fromIndex toIndex : ℤ) : List ProjectItem :=
  if fromIndex = toIndex ∨ ¬ (0 ≤ fromIndex ∧ fromIndex < items.length) then items
  else moveIdx items fromIndex.toNat (max 0 (min ((items.length : ℤ) - 1) toIndex)).toNat

/-- `none` is "Index out of range". -/
def deleteItem (items : List ProjectItem) (index : ℤ) : Option (List ProjectItem) :=
  let visible := journalVisiblePositions author callerId ownerId items
  if index < 0 ∨ visible.length ≤ index then none
  else (visible[index.toNat]?).map fun realIndex : ℕ => removeItem items realIndex

def reorderItems (items : List ProjectItem) (fromIndex toIndex : ℤ) : List ProjectItem :=
  let visible := journalVisiblePositions author callerId ownerId items
  if 0 ≤ fromIndex ∧ fromIndex < visible.length then
    let toIndex := max 0 (min ((visible.length : ℤ) - 1) toIndex)
    match visible[fromIndex.toNat]?, visible[toIndex.toNat]? with
    | some i, some j => moveItem items i j
    | _, _ => items
  else items

def insertItem (items : List ProjectItem) (insertAfterIndex : Option ℤ) (item : ProjectItem) :
    List ProjectItem :=
  let visible := journalVisiblePositions author callerId ownerId items
  items.insertIdx (translateInsertAfter visible insertAfterIndex items.length) item

end Caller

/-! ## 3. The same operations on a list alone -/

section Alone

variable {α : Type*}

def deleteAt (l : List α) (index : ℤ) : Option (List α) :=
  if 0 ≤ index ∧ index < l.length then some (l.eraseIdx index.toNat) else none

/-- The target is clamped into the list. -/
def reorder (l : List α) (fromIndex toIndex : ℤ) : List α :=
  if 0 ≤ fromIndex ∧ fromIndex < l.length then
    moveIdx l fromIndex.toNat (max 0 (min ((l.length : ℤ) - 1) toIndex)).toNat
  else l

/-- At the end without an index or past the last one, in front before the first. -/
def insertAfter (l : List α) (index : Option ℤ) (x : α) : List α :=
  match index with
  | none => l ++ [x]
  | some index =>
    if l.length ≤ index then l ++ [x]
    else if index < 0 then x :: l
    else l.insertIdx (index.toNat + 1) x

end Alone

/-! ## 4. Each endpoint is its operation, seen by the caller -/

variable {author : ℕ → Option ℤ} {callerId ownerId : ℤ} {items items' : List ProjectItem}

theorem visible_length : (journalVisiblePositions author callerId ownerId items).length =
    (items.filter (visibleTo author callerId ownerId)).length := length_positionsFrom

theorem visible_get {i : ℕ} (h : i < (items.filter (visibleTo author callerId ownerId)).length) :
    ∃ k, (journalVisiblePositions author callerId ownerId items)[i]? = some k ∧ k < items.length := by
  have hlt : i < (journalVisiblePositions author callerId ownerId items).length := by rwa [visible_length]
  obtain ⟨k, hk⟩ : ∃ k, (journalVisiblePositions author callerId ownerId items)[i]? = some k :=
    ⟨_, List.getElem?_eq_getElem hlt⟩
  obtain ⟨a, x, b, hcut, -, hpos, -⟩ := split_at hk
  refine ⟨k, hk, ?_⟩
  rw [hcut, List.length_append, List.length_cons]
  omega

theorem deleteItem_visible (index : ℤ) : (deleteItem author callerId ownerId items index).map
        (fun l => l.filter (visibleTo author callerId ownerId)) =
      deleteAt (items.filter (visibleTo author callerId ownerId)) index := by
  unfold deleteItem deleteAt
  dsimp only
  rw [visible_length]
  by_cases hin : 0 ≤ index ∧ index < (items.filter (visibleTo author callerId ownerId)).length
  · have hout : ¬ (index < 0 ∨
        ((items.filter (visibleTo author callerId ownerId)).length : ℤ) ≤ index) := by omega
    have hi : index.toNat < (items.filter (visibleTo author callerId ownerId)).length := by omega
    obtain ⟨k, hk, hlt⟩ := visible_get hi
    have hreal : 0 ≤ (k : ℤ) ∧ (k : ℤ) < items.length := by omega
    rw [if_neg hout, if_pos hin, hk, Option.map_some, Option.map_some, removeItem, if_pos hreal,
      Int.toNat_natCast, (filter_eraseIdx hk).1]
  · have hout : index < 0 ∨
        ((items.filter (visibleTo author callerId ownerId)).length : ℤ) ≤ index := by omega
    rw [if_pos hout, if_neg hin, Option.map_none]

theorem deleteItem_hidden {index : ℤ} (h : deleteItem author callerId ownerId items index = some items') :
    items'.filter (fun x => !visibleTo author callerId ownerId x) =
      items.filter fun x => !visibleTo author callerId ownerId x := by
  unfold deleteItem at h
  dsimp only at h
  split at h
  · cases h
  · obtain ⟨k, hk, rfl⟩ := Option.map_eq_some_iff.mp h
    unfold removeItem
    split
    · rw [Int.toNat_natCast]
      exact (filter_eraseIdx hk).2
    · rfl

theorem moveItem_visible {i j k m : ℕ} (hk : (journalVisiblePositions author callerId ownerId
      items)[i]? = some k) (hm : (journalVisiblePositions author callerId ownerId items)[j]? = some m)
    (hklt : k < items.length) (hmlt : m < items.length) :
    (moveItem items k m).filter (visibleTo author callerId ownerId) =
        moveIdx (items.filter (visibleTo author callerId ownerId)) i j ∧
      (moveItem items k m).filter (fun x => !visibleTo author callerId ownerId x) =
        items.filter fun x => !visibleTo author callerId ownerId x := by
  by_cases hij : i = j
  · -- nothing moves, neither here nor there
    subst hij
    obtain rfl : k = m := Option.some.inj (hk.symm.trans hm)
    obtain ⟨a, x, b, hcut, hx, -, hlen⟩ := split_at hk
    rw [moveItem, if_pos (.inl rfl)]
    refine ⟨?_, rfl⟩
    rw [hcut, List.filter_append, List.filter_cons_of_pos hx, ← hlen, moveIdx_self]
  · have hkm : k ≠ m := by
      rintro rfl
      obtain ⟨a, x, b, hcut, -, hpos, hlen⟩ := split_at hk
      obtain ⟨a', x', b', hcut', -, hpos', hlen'⟩ := split_at hm
      have hsame : a.length = a'.length := by omega
      obtain ⟨rfl, -⟩ := List.append_inj (hcut.symm.trans hcut') hsame
      exact hij (hlen.symm.trans hlen')
    have hmove : ¬ ((k : ℤ) = m ∨ ¬ (0 ≤ (k : ℤ) ∧ (k : ℤ) < items.length)) := by omega
    have hclamp : (max 0 (min ((items.length : ℤ) - 1) (m : ℤ))).toNat = m := by omega
    rw [moveItem, if_neg hmove, hclamp, Int.toNat_natCast]
    exact filter_moveIdx hk hm hij

theorem reorderItems_visible (fromIndex toIndex : ℤ) :
    (reorderItems author callerId ownerId items fromIndex toIndex).filter
        (visibleTo author callerId ownerId) =
        reorder (items.filter (visibleTo author callerId ownerId)) fromIndex toIndex ∧
      (reorderItems author callerId ownerId items fromIndex toIndex).filter
        (fun x => !visibleTo author callerId ownerId x) =
        items.filter fun x => !visibleTo author callerId ownerId x := by
  unfold reorderItems reorder
  dsimp only
  rw [visible_length]
  split
  · rename_i hin
    generalize hto : (max 0 (min (((items.filter (visibleTo author callerId ownerId)).length : ℤ) - 1)
      toIndex)).toNat = j
    have hi : fromIndex.toNat < (items.filter (visibleTo author callerId ownerId)).length := by omega
    have hj : j < (items.filter (visibleTo author callerId ownerId)).length := by omega
    obtain ⟨k, hk, hklt⟩ := visible_get hi
    obtain ⟨m, hm, hmlt⟩ := visible_get hj
    rw [hk, hm]
    exact moveItem_visible hk hm hklt hmlt
  · exact ⟨rfl, rfl⟩

theorem insert_translated {α : Type*} {p : α → Bool} {l : List α} (insertAfterIndex : Option ℤ)
    {new : α} (hnew : p new = true) :
    (l.insertIdx (translateInsertAfter (positionsFrom p 0 l) insertAfterIndex l.length) new).filter
        p = insertAfter (l.filter p) insertAfterIndex new ∧
      (l.insertIdx (translateInsertAfter (positionsFrom p 0 l) insertAfterIndex l.length)
        new).filter (fun x => !p x) = l.filter fun x => !p x := by
  have hend : (l.insertIdx l.length new).filter p = l.filter p ++ [new] ∧
      (l.insertIdx l.length new).filter (fun x => !p x) = l.filter fun x => !p x := by
    rw [List.insertIdx_length_self]
    simp [hnew]
  unfold translateInsertAfter insertAfter
  cases insertAfterIndex with
  | none => exact hend
  | some index =>
    dsimp only
    rw [length_positionsFrom]
    split
    · exact hend
    · split
      · rw [List.insertIdx_zero]
        simp [hnew]
      · rename_i hlt hneg
        have hi : index.toNat < (positionsFrom p 0 l).length := by
          rw [length_positionsFrom]
          omega
        obtain ⟨k, hk⟩ : ∃ k, (positionsFrom p 0 l)[index.toNat]? = some k := ⟨_, List.getElem?_eq_getElem hi⟩
        rw [hk]
        exact filter_insertIdx hk hnew

theorem translated_le {α : Type*} {p : α → Bool} {l : List α} (insertAfterIndex : Option ℤ) :
    translateInsertAfter (positionsFrom p 0 l) insertAfterIndex l.length ≤ l.length := by
  unfold translateInsertAfter
  cases insertAfterIndex with
  | none => exact Nat.le_refl _
  | some index =>
    dsimp only
    split
    · exact Nat.le_refl _
    · split
      · exact Nat.zero_le _
      · split
        · rename_i k hk
          obtain ⟨a, x, b, rfl, -, hpos, -⟩ := split_at hk
          rw [List.length_append, List.length_cons]
          omega
        · exact Nat.le_refl _

theorem insertItem_visible (insertAfterIndex : Option ℤ) {item : ProjectItem}
    (hitem : visibleTo author callerId ownerId item = true) :
    (insertItem author callerId ownerId items insertAfterIndex item).filter
        (visibleTo author callerId ownerId) =
        insertAfter (items.filter (visibleTo author callerId ownerId)) insertAfterIndex item ∧
      (insertItem author callerId ownerId items insertAfterIndex item).filter
        (fun x => !visibleTo author callerId ownerId x) =
        items.filter fun x => !visibleTo author callerId ownerId x :=
  insert_translated insertAfterIndex hitem

/-- **Index operations act on the list that the caller sees**: deleting, moving and inserting at
    an index change it as the operation on it alone does, and every hidden item stays, in the same
    order. -/
theorem index_ops_visible (author : ℕ → Option ℤ) (callerId ownerId : ℤ) (items : List ProjectItem) :
    (∀ index, (deleteItem author callerId ownerId items index).map
          (fun l => l.filter (visibleTo author callerId ownerId)) =
          deleteAt (items.filter (visibleTo author callerId ownerId)) index ∧
        ∀ items', deleteItem author callerId ownerId items index = some items' →
          items'.filter (fun x => !visibleTo author callerId ownerId x) =
            items.filter fun x => !visibleTo author callerId ownerId x) ∧
      (∀ fromIndex toIndex, (reorderItems author callerId ownerId items fromIndex toIndex).filter
            (visibleTo author callerId ownerId) =
            reorder (items.filter (visibleTo author callerId ownerId)) fromIndex toIndex ∧
          (reorderItems author callerId ownerId items fromIndex toIndex).filter
            (fun x => !visibleTo author callerId ownerId x) =
            items.filter fun x => !visibleTo author callerId ownerId x) ∧
      ∀ insertAfterIndex item, visibleTo author callerId ownerId item = true →
        (insertItem author callerId ownerId items insertAfterIndex item).filter
            (visibleTo author callerId ownerId) =
            insertAfter (items.filter (visibleTo author callerId ownerId)) insertAfterIndex item ∧
          (insertItem author callerId ownerId items insertAfterIndex item).filter
            (fun x => !visibleTo author callerId ownerId x) =
            items.filter fun x => !visibleTo author callerId ownerId x :=
  ⟨fun index => ⟨deleteItem_visible index, fun _ h => deleteItem_hidden h⟩,
    reorderItems_visible, fun insertAfterIndex _ hitem => insertItem_visible insertAfterIndex hitem⟩

/-- A trip of user 1 that user 2 edits: its journal entries 10 and 12 are user 1's, 11 is user 2's. -/
def mixedItems : List ProjectItem :=
  [{ itemType := .journal, journal := some 10 }, { itemType := .activity, activityId := some 1 },
    { itemType := .journal, journal := some 12 }, { itemType := .journal, journal := some 11 },
    { itemType := .activity, activityId := some 2 }]

/-- User 2 writes a second entry after the first item they see. -/
theorem index_ops_visible_mixed :
    let author := fun j => if j = 11 ∨ j = 13 then some 2 else none
    let entry : ProjectItem := { itemType := .journal, journal := some 13 }
    insertItem author 2 1 mixedItems (some 0) entry = mixedItems.take 2 ++ entry :: mixedItems.drop 2 ∧
      (insertItem author 2 1 mixedItems (some 0) entry).filter (visibleTo author 2 1) =
        insertAfter (mixedItems.filter (visibleTo author 2 1)) (some 0) entry :=
  ⟨by decide, ((index_ops_visible _ 2 1 mixedItems).2.2 (some 0) _ (by decide)).1⟩

/-! ## 5. Inserting among the rows -/

/-- The `position` that a row needs to land at a list index. -/
def rowPositionForIndex (rows : List ItemRow) (index : ℕ) : ℤ :=
  match rows[index]? with
  | some r => r.values.position
  | none =>
    match rows.getLast? with
    | some r => r.values.position + 1
    | none => 0

/-- A row at or after the position makes room. -/
def ItemRow.shifted (position : ℤ) (r : ItemRow) : ItemRow :=
  if position ≤ r.values.position then
    { r with values := { r.values with position := r.values.position + 1 } }
  else r

/-- The rows after an insert at a list index; `new` is the row at its position. -/
def insertRow (rows : List ItemRow) (index : ℕ) (new : ℤ → ItemRow) : List ItemRow :=
  let position := rowPositionForIndex rows index
  rows.map (·.shifted position) ++ [new position]

variable {rows : List ItemRow} {r r' : ItemRow} {position : ℤ}

theorem shifted_position : (r.shifted position).values.position =
    if position ≤ r.values.position then r.values.position + 1 else r.values.position := by
  unfold ItemRow.shifted
  split
  · rfl
  · rfl

theorem sort_perm {stored : List ItemRow}
    (hs : rows.Pairwise fun r r' => r.values.position < r'.values.position)
    (hperm : stored.Perm rows) : stored.insertionSort ItemRow.Before = rows := by
  have htotal : Std.Total ItemRow.Before := ⟨fun r r' => Int.le_total _ _⟩
  have htrans : IsTrans ItemRow ItemRow.Before := ⟨fun _ _ _ => Int.le_trans⟩
  have hsorted : (stored.insertionSort ItemRow.Before).Pairwise ItemRow.Before :=
    List.pairwise_insertionSort _ _
  refine List.Perm.eq_of_pairwise ?_ hsorted (hs.imp fun hlt => Int.le_of_lt hlt)
    ((List.perm_insertionSort _ _).trans hperm)
  intro a b ha hb hab hba
  have hpos : a.values.position = b.values.position := Int.le_antisymm hab hba
  have ha' : a ∈ rows := hperm.mem_iff.mp ((List.perm_insertionSort _ _).mem_iff.mp ha)
  have hnodup : (rows.map fun r => r.values.position).Nodup :=
    List.pairwise_map.mpr (hs.imp fun hlt => Int.ne_of_lt hlt)
  exact List.inj_on_of_nodup_map hnodup ha' hb hpos

theorem rowPosition_parts {a b : List ItemRow}
    (hs : (a ++ b).Pairwise fun r r' => r.values.position < r'.values.position) :
    (∀ r ∈ a, r.values.position < rowPositionForIndex (a ++ b) a.length) ∧
      ∀ r ∈ b, rowPositionForIndex (a ++ b) a.length ≤ r.values.position := by
  obtain ⟨hsa, hsb, hab⟩ := List.pairwise_append.mp hs
  cases b with
  | nil =>
    refine ⟨fun r hr => ?_, fun r hr => absurd hr List.not_mem_nil⟩
    have hget : (a ++ [])[a.length]? = none := by simp
    rw [rowPositionForIndex, hget]
    rw [List.append_nil]
    -- the row lies at or below the last one
    obtain ⟨front, last, rfl⟩ : ∃ front last, a = front ++ [last] := by
      rcases List.eq_nil_or_concat a with rfl | ⟨front, last, rfl⟩
      · cases hr
      · exact ⟨front, last, List.concat_eq_append⟩
    rw [List.getLast?_concat]
    dsimp only
    rcases List.mem_append.mp hr with hfront | hlast
    · have hlt := (List.pairwise_append.mp hsa).2.2 r hfront last (List.mem_singleton_self last)
      omega
    · rw [List.mem_singleton.mp hlast]
      omega
  | cons first b =>
    have hget : (a ++ first :: b)[a.length]? = some first := by simp
    rw [rowPositionForIndex, hget]
    refine ⟨fun r hr => hab r hr first List.mem_cons_self, fun r hr => ?_⟩
    rcases List.mem_cons.mp hr with rfl | hr
    · exact Int.le_refl _
    · exact Int.le_of_lt ((List.pairwise_cons.mp hsb).1 r hr)

theorem insertRow_order {index : ℕ} {new : ℤ → ItemRow}
    (hs : rows.Pairwise fun r r' => r.values.position < r'.values.position)
    (hindex : index ≤ rows.length) (hnew : ∀ position, (new position).values.position = position) :
    (insertRow rows index new).insertionSort ItemRow.Before =
      (rows.map (·.shifted (rowPositionForIndex rows index))).insertIdx index
        (new (rowPositionForIndex rows index)) := by
  obtain ⟨a, b, rfl, rfl⟩ : ∃ a b, rows = a ++ b ∧ index = a.length :=
    ⟨rows.take index, rows.drop index, (List.take_append_drop index rows).symm, by simp [hindex]⟩
  obtain ⟨hbelow, habove⟩ := rowPosition_parts hs
  obtain ⟨hsa, hsb, hab⟩ := List.pairwise_append.mp hs
  unfold insertRow
  dsimp only
  generalize rowPositionForIndex (a ++ b) a.length = position at *
  have hlow : ∀ r ∈ a, (r.shifted position).values.position = r.values.position := by
    intro r hr
    rw [shifted_position, if_neg (Int.not_le.mpr (hbelow r hr))]
  have hhigh : ∀ r ∈ b, (r.shifted position).values.position = r.values.position + 1 := by
    intro r hr
    rw [shifted_position, if_pos (habove r hr)]
  have hlen : a.length = (a.map (·.shifted position)).length := (List.length_map _).symm
  rw [List.map_append, hlen, insertIdx_middle]
  refine sort_perm (List.pairwise_append.mpr ⟨?_, List.pairwise_cons.mpr ⟨?_, ?_⟩, ?_⟩) ?_
  · rw [List.pairwise_map]
    refine hsa.imp_of_mem fun {r r'} hr hr' hlt => ?_
    rw [hlow r hr, hlow r' hr']
    exact hlt
  · intro r' hr'
    obtain ⟨r, hr, rfl⟩ := List.mem_map.mp hr'
    have hle := habove r hr
    rw [hnew, hhigh r hr]
    omega
  · rw [List.pairwise_map]
    refine hsb.imp_of_mem fun {r r'} hr hr' hlt => ?_
    rw [hhigh r hr, hhigh r' hr']
    omega
  · intro r hr r' hr'
    obtain ⟨r, hra, rfl⟩ := List.mem_map.mp hr
    have hlt := hbelow r hra
    rw [hlow r hra]
    rcases List.mem_cons.mp hr' with rfl | hr'
    · rw [hnew]
      exact hlt
    · obtain ⟨r', hrb, rfl⟩ := List.mem_map.mp hr'
      have hle := habove r' hrb
      rw [hhigh r' hrb]
      omega
  · rw [List.append_assoc]
    exact List.Perm.append_left _ (List.perm_append_singleton _ _)

end TraxJourney.Timeline
