/-
  File:      Days/Exportable.lean
  Subject:   Day notes that a trip file may hold: what the check of a patch says of the map that the
             patch writes (`_check_written_day_notes` and `_merge_day_meta_preserve_counters` in
             `api/projects.py`, `day_meta_fault` in `src/project/traxj_schema.py`).

  * **`accepted_notes_exportable`** -- what an accepted patch stores beside notes that the file may
    hold.
-/
import TraxJourney.Days.Notes

namespace TraxJourney.Days

open Lib Transfer Schema

/-! ## 1. Values written alike -/

variable {floats : Bool}

mutual

theorem good_of_same : ∀ (v : Json) {w : Json}, v.dumps = w.dumps → good floats v = true →
    good floats w = true
  | .null, w, h, hv => by rwa [eq_of_same h (by simp) (by simp)]
  | .bool b, w, h, hv => by rwa [eq_of_same h (by simp) (by simp)]
  | .num n, w, h, hv => by rwa [eq_of_same h (by simp) (by simp)]
  | .text t, w, h, hv => by rwa [eq_of_same h (by simp) (by simp)]
  | .list xs, w, h, hv => by
      obtain ⟨ys, rfl⟩ := list_of_same h
      refine goodList_iff.mpr fun y hy => ?_
      obtain ⟨x, hx, hdumps⟩ := List.mem_map.mp (same_list h ▸ List.mem_map_of_mem hy)
      exact good_of_same_list xs (goodList_iff.mp hv) x hx hdumps
  | .obj es, w, h, hv => by
      obtain ⟨fs, rfl⟩ := obj_of_same h
      refine goodEntries_iff.mpr fun e he => ?_
      obtain ⟨v, hv', hdumps⟩ := same_obj h.symm he
      exact ⟨(goodEntries_iff.mp hv _ hv').1, good_of_same_entries es (goodEntries_iff.mp hv) _ hv' hdumps⟩

theorem good_of_same_list : ∀ xs : List Json, (∀ x ∈ xs, good floats x = true) →
    ∀ x ∈ xs, ∀ {w : Json}, x.dumps = w.dumps → good floats w = true
  | [], _, _, h, _, _ => nomatch h
  | x :: xs, hgood, y, hy, w, h => by
      rw [List.forall_mem_cons] at hgood
      rcases List.mem_cons.mp hy with hhead | hrest
      · exact good_of_same x (hhead ▸ h) hgood.1
      · exact good_of_same_list xs hgood.2 y hrest h

theorem good_of_same_entries : ∀ es : List (Text × Json),
    (∀ e ∈ es, keyFault (.name e.1) = none ∧ good floats e.2 = true) →
    ∀ e ∈ es, ∀ {w : Json}, e.2.dumps = w.dumps → good floats w = true
  | [], _, _, h, _, _ => nomatch h
  | (k, v) :: es, hgood, e, he, w, h => by
      rw [List.forall_mem_cons] at hgood
      rcases List.mem_cons.mp he with rfl | hrest
      · exact good_of_same v h hgood.1.2
      · exact good_of_same_entries es hgood.2 e hrest h

end

variable {v w : Json}

theorem isText_of_same (h : v.dumps = w.dumps) (hv : isText v = true) : w = v := by
  cases v with
  | text t => exact eq_of_same h (by simp) (by simp)
  | _ => cases hv

theorem isNumber_of_same (h : v.dumps = w.dumps) (hv : isNumber v = true) : w = v := by
  cases v with
  | num n => exact eq_of_same h (by simp) (by simp)
  | _ => cases hv

theorem isNull_of_same (h : v.dumps = w.dumps) (hv : v.isNull = true) : w = v := by
  cases v with
  | null => exact eq_of_same h (by simp) (by simp)
  | _ => cases hv

theorem get_of_same {es fs : Obj} (h : (Json.obj es).dumps = (Json.obj fs).dumps) {key : String}
    (hv : Obj.get es key = some v) : ∃ w, Obj.get fs key = some w ∧ v.dumps = w.dumps := by
  have hget := same_get h key
  rw [hv, Option.map_some] at hget
  obtain ⟨w, hw, hdumps⟩ := Option.map_eq_some_iff.mp hget.symm
  exact ⟨w, hw, hdumps.symm⟩

theorem get_none_of_same {es fs : Obj} (h : (Json.obj es).dumps = (Json.obj fs).dumps) {key : String}
    (hnone : Obj.get es key = none) : Obj.get fs key = none := by
  have hget := same_get h key
  rw [hnone] at hget
  exact Option.map_eq_none_iff.mp hget.symm

theorem isDayCount_of_same (h : v.dumps = w.dumps) (hv : isDayCount v = true) :
    isDayCount w = true := by
  cases v with
  | obj es =>
    obtain ⟨fs, rfl⟩ := obj_of_same h
    unfold isDayCount at hv ⊢
    rw [Bool.and_eq_true] at hv ⊢
    obtain ⟨hname, hnumber⟩ := hv
    constructor
    · obtain ⟨name, hget, htext⟩ := (Option.any_eq_true _ _).mp hname
      obtain ⟨name', hget', hdumps⟩ := get_of_same h hget
      rw [hget', isText_of_same hdumps htext]
      exact htext
    · cases hget : Obj.get es "value" with
      | none =>
        rw [get_none_of_same h hget]
        rfl
      | some n =>
        obtain ⟨n', hget', hdumps⟩ := get_of_same h hget
        rw [hget, Option.getD_some] at hnumber
        rw [hget', Option.getD_some, isNumber_of_same hdumps hnumber]
        exact hnumber
  | _ => cases hv

theorem dayCountsFault_of_same (h : v.dumps = w.dumps) (hv : dayCountsFault v = none) :
    dayCountsFault w = none := by
  cases v with
  | null => rwa [eq_of_same h (by simp) (by simp)]
  | obj es =>
    obtain ⟨fs, rfl⟩ := obj_of_same h
    have hall : es.all (fun e => isNumber e.2) = true := by
      by_contra hno
      simp [dayCountsFault, hno] at hv
    have hall' : fs.all (fun e => isNumber e.2) = true := by
      refine List.all_eq_true.mpr fun e he => ?_
      obtain ⟨n, hn, hdumps⟩ := same_obj h.symm he
      have hnumber := List.all_eq_true.mp hall _ hn
      rw [isNumber_of_same hdumps hnumber]
      exact hnumber
    exact if_pos hall'
  | list xs =>
    obtain ⟨ys, rfl⟩ := list_of_same h
    have hall : xs.all isDayCount = true := by
      by_contra hno
      simp [dayCountsFault, hno] at hv
    have hall' : ys.all isDayCount = true := by
      refine List.all_eq_true.mpr fun y hy => ?_
      obtain ⟨x, hx, hdumps⟩ := List.mem_map.mp (same_list h ▸ List.mem_map_of_mem hy)
      exact isDayCount_of_same hdumps (List.all_eq_true.mp hall x hx)
    exact if_pos hall'
  | _ => cases hv

theorem optional_of_same {s : Schema} (h : v.dumps = w.dumps) (hs : s.Accepts v → s.Accepts w)
    (hv : s.optional.Accepts v) : s.optional.Accepts w := by
  rw [accepts_optional] at hv ⊢
  refine hv.imp (fun hnull => ?_) hs
  rw [isNull_of_same h hnull]
  exact hnull

theorem text_of_same (h : v.dumps = w.dumps) (hv : text.Accepts v) : text.Accepts w := by
  rw [isText_of_same h (accepts_only.mp hv)]
  exact hv

theorem accepts_of_same {m : Member} (hm : m ∈ dayMetaMembers) (h : v.dumps = w.dumps)
    (hv : m.schema.Accepts v) : m.schema.Accepts w := by
  have htext : text.optional.Accepts v → text.optional.Accepts w := optional_of_same h (text_of_same h)
  have htags : text.listOf.optional.Accepts v → text.listOf.optional.Accepts w := by
    refine optional_of_same h fun hlist => ?_
    obtain ⟨xs, rfl, hall⟩ := accepts_listOf.mp hlist
    obtain ⟨ys, rfl⟩ := list_of_same h
    refine accepts_listOf.mpr ⟨ys, rfl, fun y hy => ?_⟩
    obtain ⟨x, hx, hdumps⟩ := List.mem_map.mp (same_list h ▸ List.mem_map_of_mem hy)
    exact text_of_same hdumps (hall x hx)
  have hcounters : (any.after dayCountsFault).Accepts v → (any.after dayCountsFault).Accepts w := by
    rw [accepts_after, accepts_after]
    exact fun hc => ⟨accepts_any w, dayCountsFault_of_same h hc.2⟩
  simp only [dayMetaMembers, List.mem_cons, List.not_mem_nil, or_false] at hm
  rcases hm with rfl | rfl | rfl | rfl | rfl | rfl
  · exact htext hv
  · exact htext hv
  · exact htext hv
  · exact htext hv
  · exact htags hv
  · exact hcounters hv

/-! ## 2. A day -/

/-- A day's fields that a trip file may hold. -/
structure Exportable (fields : Obj) : Prop where
  good : ∀ e ∈ fields, keyFault (.name e.1) = none ∧ Transfer.good true e.2 = true
  members : ∀ m ∈ dayMetaMembers, MemberOk fields m

theorem dayMetaFault_none_iff {py : Python} {dayMeta : Obj} : dayMetaFault py dayMeta = none ↔
    ∀ e ∈ dayMeta, keyFault (.name e.1) = none ∧ ∃ fields, e.2 = .obj fields ∧ Exportable fields := by
  have hwrapped : badValue py true [(.valid "day_meta", .obj dayMeta)] = none ↔
      ∀ e ∈ dayMeta, keyFault (.name e.1) = none ∧ Transfer.good true e.2 = true := by
    rw [badValue_none_iff, Transfer.good, goodEntries_iff, List.forall_mem_singleton, Transfer.good,
      goodEntries_iff]
    exact and_iff_right rfl
  have hdays : (Schema.dictOf (Schema.model dayMetaMembers)).fault (.obj dayMeta) = none ↔
      ∀ e ∈ dayMeta, ∃ fields, e.2 = .obj fields ∧ ∀ m ∈ dayMetaMembers, MemberOk fields m := by
    constructor
    · intro h
      obtain ⟨entries, heq, hall⟩ := accepts_dictOf.mp h
      cases heq
      exact fun e he => accepts_model.mp (hall e he)
    · exact fun h => accepts_dictOf.mpr ⟨dayMeta, rfl, fun e he => accepts_model.mpr (h e he)⟩
  have hboth : dayMetaFault py dayMeta = none ↔
      (∀ e ∈ dayMeta, keyFault (.name e.1) = none ∧ Transfer.good true e.2 = true) ∧
      ∀ e ∈ dayMeta, ∃ fields, e.2 = .obj fields ∧ ∀ m ∈ dayMetaMembers, MemberOk fields m := by
    rw [← hwrapped, ← hdays]
    unfold dayMetaFault
    cases badValue py true [(.valid "day_meta", .obj dayMeta)] with
    | some found => simp
    | none => simp
  rw [hboth]
  constructor
  · rintro ⟨hgood, hmodel⟩ e he
    obtain ⟨fields, hfields, hmembers⟩ := hmodel e he
    obtain ⟨hkey, hvalue⟩ := hgood e he
    rw [hfields, Transfer.good, goodEntries_iff] at hvalue
    exact ⟨hkey, fields, hfields, hvalue, hmembers⟩
  · intro h
    constructor
    · intro e he
      obtain ⟨hkey, fields, hfields, hexport⟩ := h e he
      rw [hfields, Transfer.good, goodEntries_iff]
      exact ⟨hkey, hexport.good⟩
    · intro e he
      obtain ⟨-, fields, hfields, hexport⟩ := h e he
      exact ⟨fields, hfields, hexport.members⟩

theorem not_required : ∀ m ∈ dayMetaMembers, m.required = false := by decide

theorem exportable_nil : Exportable [] where
  good := fun _ h => absurd h List.not_mem_nil
  members := fun m hm => MemberOk.of_none (Obj.get_nil _) (not_required m hm)

theorem get_filter {fields : Obj} {keep : Text × Json → Bool} {key : String} (h : Obj.get fields key = some v)
    (hkeep : keep (.valid key, v) = true) :
    Obj.get (fields.filter keep) key = some v := by
  induction fields with
  | nil => cases h
  | cons e fields ih =>
    obtain ⟨k, w⟩ := e
    rw [Obj.get_cons] at h
    by_cases hk : k = .valid key
    · rw [if_pos hk] at h
      obtain rfl := Option.some.inj h
      subst hk
      rw [List.filter_cons, if_pos hkeep, Obj.get_cons, if_pos rfl]
    · rw [if_neg hk] at h
      rw [List.filter_cons]
      split
      · rw [Obj.get_cons, if_neg hk]
        exact ih h
      · exact ih h

theorem stored_of_left {before : Obj} {e : Text × Json} (h : leftAsStored before e = true) :
    ∃ v, before.find? (fun b => decide (b.1 = e.1)) = some (e.1, v) ∧ v.dumps = e.2.dumps := by
  obtain ⟨⟨k, v⟩, hfind, hsame⟩ := (Option.any_eq_true _ _).mp h
  have hkey := List.find?_some hfind
  obtain rfl : k = e.1 := of_decide_eq_true hkey
  exact ⟨v, hfind, of_decide_eq_true hsame⟩

theorem exportable_fields {before fields : Obj} (hbefore : Exportable before)
    (hwritten : Exportable (fields.filter fun field => !leftAsStored before field)) :
    Exportable fields := by
  constructor
  · intro e he
    cases hleft : leftAsStored before e with
    | false => exact hwritten.good e (List.mem_filter.mpr ⟨he, by rw [hleft]; rfl⟩)
    | true =>
      obtain ⟨v, hfind, hdumps⟩ := stored_of_left hleft
      obtain ⟨hkey, hgood⟩ := hbefore.good _ (List.mem_of_find?_eq_some hfind)
      exact ⟨hkey, good_of_same v hdumps hgood⟩
  · intro m hm
    cases hget : Obj.get fields m.name with
    | none => exact MemberOk.of_none hget (not_required m hm)
    | some v =>
      refine MemberOk.of_some hget ?_
      cases hleft : leftAsStored before (.valid m.name, v) with
      | false => exact (hwritten.members m hm).accepts (get_filter hget (by rw [hleft]; rfl))
      | true =>
        obtain ⟨u, hfind, hdumps⟩ := stored_of_left hleft
        have hstored : Obj.get before m.name = some u := by
          unfold Obj.get
          rw [hfind]
          rfl
        exact accepts_of_same hm hdumps ((hbefore.members m hm).accepts hstored)

theorem exportable_withCounters {before fields : Obj} (hbefore : Exportable before)
    (hfields : Exportable fields) :
    ∃ kept, withCounters (.obj before) (.obj fields) = .obj kept ∧ Exportable kept := by
  unfold withCounters
  dsimp only
  cases hcounters : Obj.get before "counters" with
  | none => exact ⟨fields, rfl, hfields⟩
  | some counters =>
    dsimp only
    split
    case isFalse => exact ⟨fields, rfl, hfields⟩
    case isTrue hkept =>
      refine ⟨_, rfl, ⟨fun e he => ?_, fun m hm => ?_⟩⟩
      · rcases List.mem_append.mp he with hold | hnew
        · exact hfields.good e hold
        · rw [List.mem_singleton.mp hnew]
          exact hbefore.good _ (Obj.mem_of_get hcounters)
      · have happend := Obj.get_append fields [(.valid "counters", counters)] m.name
        by_cases hname : m.name = "counters"
        · -- the day had none of its own: the stored ones are read
          have hmissing : Obj.get fields "counters" = none := by
            rw [Bool.and_eq_true] at hkept
            exact Option.isNone_iff_eq_none.mp hkept.2
          rw [hname, hmissing, Obj.get_cons, if_pos rfl] at happend
          exact MemberOk.of_some (hname ▸ happend) ((hbefore.members m hm).accepts (hname ▸ hcounters))
        · have hother : Text.valid "counters" ≠ .valid m.name := fun h => hname (Text.valid.inj h).symm
          rw [Obj.get_cons, if_neg hother, Obj.get_nil, Option.or_none] at happend
          have hmember := hfields.members m hm
          unfold MemberOk memberFault at hmember ⊢
          rw [happend]
          exact hmember

/-! ## 3. The map -/

/-- **What an accepted patch stores has no fault** where the stored notes had none. -/
theorem accepted_notes_exportable (py : Python) (p : DayMetaPatch) (invisible : List Text)
    (column : Option Json) (hstored : dayMetaFault py (storedDayMeta column).rows = none)
    (haccepted : checkWrittenDayNotes py p.days column = none) :
    dayMetaFault py (mergedDayMeta p invisible column).rows = none := by
  rw [dayMetaFault_none_iff] at hstored
  have hwritten := Option.map_eq_none_iff.mp haccepted
  rw [dayMetaFault_none_iff] at hwritten
  refine dayMetaFault_none_iff.mpr fun e he => ?_
  obtain ⟨day, v⟩ := e
  have hfind := Table.find_eq_some.mpr he
  rw [find_merged] at hfind
  unfold DayMetaPatch.day at hfind
  cases hdays : p.days.find day with
  | none =>
    -- a day that the patch does not set is the stored one
    rw [hdays] at hfind
    dsimp only at hfind
    split at hfind
    case isTrue => cases hfind
    case isFalse =>
      have hv := (Option.filter_eq_some_iff.mp hfind).1
      exact hstored _ (Table.find_eq_some.mp hv)
  | some fields =>
    rw [hdays] at hfind
    dsimp only at hfind
    have hset := hwritten _ (List.mem_map_of_mem (Table.find_eq_some.mp hdays))
    obtain ⟨hkey, written, hobj, hexport⟩ := hset
    refine ⟨hkey, ?_⟩
    cases hold : (storedDayMeta column).find day with
    | none =>
      rw [hold] at hfind hobj
      obtain rfl := Option.some.inj hfind
      cases hobj
      exact ⟨fields, rfl, exportable_fields exportable_nil hexport⟩
    | some old =>
      obtain ⟨-, before, rfl, hbefore⟩ := hstored _ (Table.find_eq_some.mp hold)
      rw [hold] at hfind hobj
      cases hobj
      obtain ⟨kept, hkept, hexported⟩ := exportable_withCounters hbefore (exportable_fields hbefore hexport)
      exact ⟨kept, (Option.some.inj hfind).symm.trans hkept, hexported⟩

/-- The notes of one day, with a counter in the form of before. -/
def countedNotes : Option Json := some (.obj [(.valid "2024-07-01",
  .obj [(.valid "journal", .str "Up"), (.valid "counters", .obj [(.valid "km", .int 12)])])])

/-- The journal as it was, and a tag. -/
def tagging : DayMetaPatch where
  callerId := 1
  days := Table.ofEntries [(.valid "2024-07-01",
    [(.valid "journal", .str "Up"), (.valid "tags", .list [.str "hut"])])]
  delete := []

def isCountedAndTagged : Json → Bool
  | .obj day => (Obj.get day "counters").isSome && (Obj.get day "tags").isSome
  | _ => false

/-- The counter stays beside the tag, and the day can be exported. -/
theorem accepted_notes_exportable_tagged :
    ((mergedDayMeta tagging [] countedNotes).find (.valid "2024-07-01")).any isCountedAndTagged = true ∧
    dayMetaFault ⟨fun _ => "", fun _ => none, fun _ => none⟩
      (mergedDayMeta tagging [] countedNotes).rows = none :=
  ⟨by decide +kernel,
    accepted_notes_exportable _ tagging [] countedNotes (by decide +kernel) (by decide +kernel)⟩

end TraxJourney.Days
