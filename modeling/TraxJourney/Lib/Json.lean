/-
  File:      Lib/Json.lean
  Subject:   Documents of a dynamically typed language, as a JSON parser gives them: null, truth
             values, numbers, texts, lists and objects.

  * `Record` -- the fields of a layout, each as the layout reads it; **`Record.read_written`** -- a
    record written beside other entries is read back.
-/
import TraxJourney.Lib.Numbers

namespace TraxJourney.Lib

/-! ## 1. Values -/

/-- A text: of Unicode characters, or holding a surrogate, which no encoding of Unicode has. -/
inductive Text where
  | valid (s : String)
  | surrogate (codes : List ℕ)
deriving DecidableEq

inductive Json where
  | null
  | bool (b : Bool)
  | num (n : Number)
  | text (t : Text)
  | list (xs : List Json)
  | obj (entries : List (Text × Json))

abbrev Obj := List (Text × Json)

namespace Json

def str (s : String) : Json := text (.valid s)
def int (n : ℤ) : Json := num (.int n)

/-- What counts as true where a condition is asked of a value. -/
def truthy : Json → Bool
  | null => false
  | bool b => b
  | num n => !n.isZero
  | text t => !decide (t = .valid "")
  | list xs => !xs.isEmpty
  | obj entries => !entries.isEmpty

def isNull : Json → Bool
  | null => true
  | _ => false

end Json

/-! ## 2. Entries -/

namespace Obj

def get (o : Obj) (key : String) : Option Json := (o.find? fun e => decide (e.1 = .valid key)).map (·.2)

/-- The entry of a key replaced, where there is one, else added. -/
def set (o : Obj) (key : String) (v : Json) : Obj :=
  match o with
  | [] => [(.valid key, v)]
  | e :: rest => if e.1 = .valid key then (e.1, v) :: rest else e :: set rest key v

end Obj

@[simp] theorem Obj.get_nil (key : String) : Obj.get [] key = none := rfl

theorem Obj.get_cons (k : Text) (v : Json) (o : Obj) (key : String) :
    Obj.get ((k, v) :: o) key = if k = .valid key then some v else o.get key := by
  unfold Obj.get
  rw [List.find?_cons]
  by_cases h : k = .valid key <;> simp [h]

theorem Obj.get_append (o rest : Obj) (key : String) :
    Obj.get (o ++ rest) key = (o.get key).or (rest.get key) := by
  unfold Obj.get
  rw [List.find?_append]
  cases o.find? fun e => decide (e.1 = .valid key) <;> rfl

theorem Obj.mem_of_get {o : Obj} {key : String} {v : Json} (h : o.get key = some v) :
    (.valid key, v) ∈ o := by
  obtain ⟨⟨k, w⟩, he, rfl⟩ := Option.map_eq_some_iff.mp h
  have hkey := List.find?_some he
  obtain rfl : k = .valid key := of_decide_eq_true hkey
  exact List.mem_of_find?_eq_some he

theorem Obj.set_get {o : Obj} {key : String} {v : Json} (h : o.get key = some v) : o.set key v = o := by
  induction o with
  | nil => cases h
  | cons e rest ih =>
    obtain ⟨k, w⟩ := e
    rw [Obj.get_cons] at h
    unfold Obj.set
    split
    case isTrue hk =>
      rw [if_pos hk] at h
      rw [Option.some.inj h]
    case isFalse hk =>
      rw [if_neg hk] at h
      rw [ih h]

theorem Obj.get_set (o : Obj) (key other : String) (v : Json) :
    (o.set key v).get other = if key = other then some v else o.get other := by
  have hvalid : Text.valid key = .valid other ↔ key = other := by simp
  induction o with
  | nil => rw [Obj.set, Obj.get_cons, Obj.get_nil]; simp only [hvalid]
  | cons e rest ih =>
    obtain ⟨k, w⟩ := e
    rw [Obj.set]
    by_cases hk : k = .valid key
    · rw [if_pos hk, Obj.get_cons, Obj.get_cons]
      subst hk
      simp only [hvalid]
      split <;> rfl
    · rw [if_neg hk, Obj.get_cons, Obj.get_cons, ih]
      by_cases hko : k = .valid other
      · have hne : ¬ key = other := fun h => hk (h ▸ hko)
        rw [if_pos hko, if_pos hko, if_neg hne]
      · rw [if_neg hko, if_neg hko]

def Obj.withoutNulls (o : Obj) : Obj := o.filter fun e => !e.2.isNull

theorem Obj.get_withoutNulls {o : Obj} (h : (o.map (·.1)).Nodup) (key : String) :
    o.withoutNulls.get key = (o.get key).filter fun v => !v.isNull := by
  induction o with
  | nil => rfl
  | cons e rest ih =>
    obtain ⟨k, v⟩ := e
    rw [List.map_cons, List.nodup_cons] at h
    have hrest := ih h.2
    unfold Obj.withoutNulls at hrest ⊢
    rw [Obj.get_cons, List.filter_cons]
    by_cases hk : k = .valid key
    · -- the only entry of its key: what follows has none
      have hnone : Obj.get rest key = none := by
        by_contra hsome
        obtain ⟨w, hw⟩ := Option.ne_none_iff_exists'.mp hsome
        exact h.1 (List.mem_map.mpr ⟨_, Obj.mem_of_get hw, hk.symm⟩)
      rw [if_pos hk]
      cases hnull : v.isNull with
      | true =>
        rw [hnone] at hrest
        simpa [hnull, Option.filter] using hrest
      | false => simp [Obj.get_cons, hk, hnull, Option.filter]
    · rw [if_neg hk, ← hrest]
      split
      · rw [Obj.get_cons, if_neg hk]
      · rfl

/-! ## 3. Layouts -/

structure Field where
  name : String
  /-- taken where there is no entry -/
  missing : Json := .null
  /-- what is kept as it stands -/
  keep : Json → Bool := fun _ => true
  /-- taken in place of what is not kept -/
  otherwise : Json := missing

namespace Field

def clean (f : Field) (v : Json) : Json := if f.keep v then v else f.otherwise

def read (f : Field) (o : Obj) : Json := f.clean ((o.get f.name).getD f.missing)

theorem clean_clean (f : Field) (v : Json) : f.clean (f.clean v) = f.clean v := by
  unfold clean
  by_cases h : f.keep v = true
  · simp [h]
  · simp [h]

end Field

/-- The fields of one kind of record, each under a name of its own. -/
structure Layout where
  fields : List Field
  nodup : (fields.map (·.name)).Nodup

namespace Layout

def readEntries (t : Layout) (o : Obj) : Obj := t.fields.map fun f => (.valid f.name, f.read o)

theorem get_map {fields : List Field} (hnodup : (fields.map (·.name)).Nodup) (value : Field → Json)
    {f : Field} (hf : f ∈ fields) :
    Obj.get (fields.map fun f => (.valid f.name, value f)) f.name = some (value f) := by
  induction fields with
  | nil => cases hf
  | cons g rest ih =>
    rw [List.map_cons, Obj.get_cons]
    rw [List.map_cons, List.nodup_cons] at hnodup
    rcases List.mem_cons.mp hf with rfl | hrest
    · rw [if_pos rfl]
    · have hne : ¬ Text.valid g.name = .valid f.name := fun h =>
        hnodup.1 (Text.valid.inj h ▸ List.mem_map_of_mem hrest)
      rw [if_neg hne]
      exact ih hnodup.2 hrest

theorem get_readEntries {t : Layout} {f : Field} (hf : f ∈ t.fields) (o rest : Obj) :
    Obj.get (t.readEntries o ++ rest) f.name = some (f.read o) := by
  rw [Obj.get_append, readEntries, get_map t.nodup _ hf]
  rfl

theorem get_beside {t : Layout} {key : String} (hkey : key ∉ t.fields.map (·.name)) (o rest : Obj) :
    Obj.get (t.readEntries o ++ rest) key = rest.get key := by
  have hnone : Obj.get (t.readEntries o) key = none := by
    unfold Obj.get readEntries
    rw [Option.map_eq_none_iff, List.find?_eq_none]
    rintro _ he h
    obtain ⟨f, hf, rfl⟩ := List.mem_map.mp he
    exact hkey (Text.valid.inj (of_decide_eq_true h) ▸ List.mem_map_of_mem hf)
  rw [Obj.get_append, hnone]
  rfl

theorem readEntries_append (t : Layout) (o rest : Obj) :
    t.readEntries (t.readEntries o ++ rest) = t.readEntries o := by
  refine List.map_congr_left fun f hf => ?_
  show (Text.valid f.name, f.clean _) = _
  rw [get_readEntries hf, Option.getD_some]
  exact congrArg _ (f.clean_clean _)

end Layout

structure Record (t : Layout) where
  entries : Obj
  fixed : t.readEntries entries = entries

namespace Record

variable {t : Layout}

@[ext] theorem ext {r s : Record t} (h : r.entries = s.entries) : r = s := by
  cases r
  cases s
  cases h
  rfl

def read (t : Layout) (o : Obj) : Record t where
  entries := t.readEntries o
  fixed := by
    have h := t.readEntries_append o []
    rwa [List.append_nil] at h

theorem read_written (r : Record t) (rest : Obj) : read t (r.entries ++ rest) = r := by
  have h : t.readEntries (r.entries ++ rest) = r.entries := by rw [← r.fixed, t.readEntries_append, r.fixed]
  exact ext h

theorem nodup (r : Record t) : (r.entries.map (·.1)).Nodup := by
  rw [← r.fixed, Layout.readEntries, List.map_map]
  have hnames : (t.fields.map fun f => Text.valid f.name) = (t.fields.map (·.name)).map .valid := by
    rw [List.map_map]
    rfl
  exact (hnames ▸ t.nodup.map fun _ _ h => Text.valid.inj h :)

theorem get_beside {key : String} (hkey : key ∉ t.fields.map (·.name)) (r : Record t) (rest : Obj) :
    Obj.get (r.entries ++ rest) key = rest.get key := by
  rw [← r.fixed]
  exact t.get_beside hkey r.entries rest

/-- **A record is read back** where its nulls are not written, if null is what its fields take for a
    missing entry. -/
theorem read_withoutNulls (hmissing : ∀ f ∈ t.fields, f.missing = .null) (r : Record t) {rest : Obj}
    (hrest : ∀ f ∈ t.fields, rest.get f.name = none) : read t (r.entries.withoutNulls ++ rest) = r := by
  refine ext (Eq.trans ?_ r.fixed)
  refine List.map_congr_left fun f hf => ?_
  have hget : r.entries.get f.name = some (f.read r.entries) := by
    have h := t.get_readEntries hf r.entries []
    rwa [List.append_nil, r.fixed] at h
  have hread : (Obj.get (r.entries.withoutNulls ++ rest) f.name).getD f.missing =
      (r.entries.get f.name).getD f.missing := by
    rw [Obj.get_append, hrest f hf, Option.or_none, Obj.get_withoutNulls r.nodup, hget, hmissing f hf]
    cases hnull : (f.read r.entries).isNull with
    | false => simp [Option.filter, hnull]
    | true =>
      cases hv : f.read r.entries with
      | null => rfl
      | _ => rw [hv] at hnull; cases hnull
  show (Text.valid f.name, f.clean _) = (Text.valid f.name, f.clean _)
  rw [hread]

end Record

end TraxJourney.Lib
