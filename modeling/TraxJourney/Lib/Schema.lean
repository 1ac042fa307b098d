/-
  File:      Lib/Schema.lean
  Subject:   Declared models of documents, checked strictly: a value of another type is refused and
             never converted, an entry that no model names is ignored.

  * `Layout.Suits` -- a layout takes nothing by itself that a model refuses;
    **`accepts_written`** -- a record read of what a model accepts is accepted again.
-/
import TraxJourney.Lib.Json

namespace TraxJourney.Lib

/-! ## 1. Models -/

/-- One step into a document. -/
inductive Part where
  | index (n : ℕ)
  | name (t : Text)
deriving DecidableEq

structure Fault where
  path : List Part
  message : String
deriving DecidableEq

def Fault.under (part : Part) (f : Fault) : Fault := { f with path := part :: f.path }

structure Schema where
  /-- every field name, the nested ones included -/
  names : List String
  fault : Json → Option Fault

/-- One field of a model. -/
structure Member where
  name : String
  schema : Schema
  required : Bool := false

namespace Schema

/-- Nothing is wrong with the value. -/
def Accepts (s : Schema) (v : Json) : Prop := s.fault v = none

instance (s : Schema) (v : Json) : Decidable (s.Accepts v) := inferInstanceAs (Decidable (_ = _))

def fails (text : String) : Option Fault := some { path := [], message := text }

/-- A type without parts: the values it has, and what is said of another. -/
def only (has : Json → Bool) (text : String) : Schema where
  names := []
  fault v := if has v then none else fails text

def any : Schema := only (fun _ => true) ""

def isText : Json → Bool
  | .text _ => true
  | _ => false

def isInt : Json → Bool
  | .num (.int _) => true
  | _ => false

def isBool : Json → Bool
  | .bool _ => true
  | _ => false

/-- `type(v) in (int, float)`. -/
def isNumber : Json → Bool
  | .num _ => true
  | _ => false

def text : Schema := only isText "is not text"
def int : Schema := only isInt "is not a whole number"
def bool : Schema := only isBool "is not true or false"
def float : Schema := only isNumber "is not a number"

/-- Accepted by `s`, and by a check of its own after that. -/
def after (s : Schema) (check : Json → Option String) : Schema where
  names := s.names
  fault v := (s.fault v).or ((check v).bind fails)

def numberWithin (lo hi : ℤ) : Json → Bool
  | .num n => n.within lo hi
  | _ => false

def bounded (lo hi : ℤ) : Schema :=
  float.after fun v => if numberWithin lo hi v then none else some "is out of range"

/-- An integer above a bound. -/
def above (lo : ℤ) : Schema :=
  int.after fun
    | .num (.int n) => if lo < n then none else some "is out of range"
    | _ => none

def optional (s : Schema) : Schema where
  names := s.names
  fault v := if v.isNull then none else s.fault v

def firstFault {α : Type} (parts : List (Part × α)) (fault : α → Option Fault) : Option Fault :=
  parts.findSome? fun p => (fault p.2).map (.under p.1)

def listOf (s : Schema) : Schema where
  names := s.names
  fault
    | .list xs => firstFault (xs.zipIdx.map fun x => (.index x.2, x.1)) s.fault
    | _ => fails "is not a list"

def dictOf (s : Schema) : Schema where
  names := s.names
  fault
    | .obj entries => firstFault (entries.map fun e => (.name e.1, e.2)) s.fault
    | _ => fails "is not an object"

/-- What is wrong with one field of an object. -/
def memberFault (o : Obj) (m : Member) : Option Fault :=
  match o.get m.name with
  | none => if m.required then fails "is missing" else none
  | some v => m.schema.fault v

def model (members : List Member) : Schema where
  names := members.flatMap fun m => m.name :: m.schema.names
  fault
    | .obj entries => firstFault (members.map fun m => (.name (.valid m.name), m)) (memberFault entries)
    | _ => fails "is not an object"

/-! ## 2. What is accepted -/

variable {v : Json}

theorem accepts_only {has : Json → Bool} {text : String} :
    (only has text).Accepts v ↔ has v = true := by
  unfold Accepts only fails
  by_cases h : has v = true <;> simp [h]

theorem accepts_any (v : Json) : any.Accepts v := rfl

variable {s : Schema}

theorem accepts_after {check : Json → Option String} :
    (s.after check).Accepts v ↔ s.Accepts v ∧ check v = none := by
  unfold Accepts after fails
  rw [Option.or_eq_none_iff]
  refine and_congr_right fun _ => ?_
  cases check v <;> simp

theorem accepts_bounded {lo hi : ℤ} : (bounded lo hi).Accepts v ↔ numberWithin lo hi v = true := by
  unfold bounded float
  rw [accepts_after, accepts_only]
  constructor
  · rintro ⟨-, h⟩
    by_cases hv : numberWithin lo hi v = true
    · exact hv
    · rw [if_neg hv] at h
      cases h
  · intro h
    refine ⟨?_, if_pos h⟩
    cases v with
    | num n => rfl
    | _ => cases h

theorem accepts_optional : s.optional.Accepts v ↔ v.isNull = true ∨ s.Accepts v := by
  unfold Accepts optional
  by_cases h : v.isNull = true <;> simp [h]

theorem firstFault_none {α : Type} {parts : List (Part × α)} {fault : α → Option Fault} :
    firstFault parts fault = none ↔ ∀ p ∈ parts, fault p.2 = none := by
  simp [firstFault, List.findSome?_eq_none_iff]

theorem accepts_listOf :
    s.listOf.Accepts v ↔ ∃ xs, v = .list xs ∧ ∀ x ∈ xs, s.Accepts x := by
  constructor
  · intro h
    cases v with
    | list xs =>
      refine ⟨xs, rfl, fun x hx => ?_⟩
      obtain ⟨i, hi, rfl⟩ := List.getElem_of_mem hx
      refine firstFault_none.mp h (.index i, xs[i]) (List.mem_map.mpr ⟨(xs[i], i), ?_, rfl⟩)
      exact List.mem_zipIdx_iff_getElem?.mpr (List.getElem?_eq_getElem hi)
    | _ => cases h
  · rintro ⟨xs, rfl, h⟩
    refine firstFault_none.mpr fun p hp => ?_
    obtain ⟨x, hx, rfl⟩ := List.mem_map.mp hp
    exact h _ (List.fst_mem_of_mem_zipIdx hx)

theorem accepts_dictOf :
    s.dictOf.Accepts v ↔ ∃ entries, v = .obj entries ∧ ∀ e ∈ entries, s.Accepts e.2 := by
  constructor
  · intro h
    cases v with
    | obj entries =>
      exact ⟨entries, rfl, fun e he => firstFault_none.mp h (.name e.1, e.2) (List.mem_map_of_mem he)⟩
    | _ => cases h
  · rintro ⟨entries, rfl, h⟩
    refine firstFault_none.mpr fun p hp => ?_
    obtain ⟨e, he, rfl⟩ := List.mem_map.mp hp
    exact h e he

/-- One field is as its model wants it. -/
def MemberOk (o : Obj) (m : Member) : Prop := memberFault o m = none

theorem accepts_model {members : List Member} :
    (model members).Accepts v ↔ ∃ o, v = .obj o ∧ ∀ m ∈ members, MemberOk o m := by
  constructor
  · intro h
    cases v with
    | obj entries =>
      exact ⟨entries, rfl, fun m hm =>
        firstFault_none.mp h (.name (.valid m.name), m) (List.mem_map_of_mem hm)⟩
    | _ => cases h
  · rintro ⟨entries, rfl, h⟩
    refine firstFault_none.mpr fun p hp => ?_
    obtain ⟨m, hm, rfl⟩ := List.mem_map.mp hp
    exact h m hm

variable {m : Member}

theorem MemberOk.accepts {o : Obj} (h : MemberOk o m) (hv : o.get m.name = some v) : m.schema.Accepts v := by
  unfold MemberOk memberFault at h
  rw [hv] at h
  exact h

theorem MemberOk.of_some {o : Obj} (hv : o.get m.name = some v) (h : m.schema.Accepts v) : MemberOk o m := by
  unfold MemberOk memberFault
  rw [hv]
  exact h

theorem MemberOk.of_none {o : Obj} (hv : o.get m.name = none) (h : m.required = false) : MemberOk o m := by
  unfold MemberOk memberFault
  rw [hv, h]
  rfl

end Schema

/-! ## 3. Records -/

/-- A layout takes nothing by itself that a model refuses. -/
def Layout.Suits (t : Layout) (members : List Member) : Prop :=
  ∀ f ∈ t.fields, ∀ m ∈ members, m.name = f.name → m.schema.Accepts f.missing ∧ m.schema.Accepts f.otherwise

instance (t : Layout) (members : List Member) : Decidable (t.Suits members) :=
  inferInstanceAs (Decidable (∀ f ∈ t.fields, ∀ m ∈ members, _ → _ ∧ _))

theorem Layout.Suits.accepts {t : Layout} {members : List Member} (h : t.Suits members) {o : Obj}
    {f : Field} (hf : f ∈ t.fields) {m : Member} (hm : m ∈ members) (hname : m.name = f.name)
    (hok : Schema.MemberOk o m) : m.schema.Accepts (f.read o) := by
  obtain ⟨hmissing, hotherwise⟩ := h f hf m hm hname
  have hread : m.schema.Accepts ((o.get f.name).getD f.missing) := by
    cases hv : o.get f.name with
    | none => exact hmissing
    | some v => exact hok.accepts (hname ▸ hv)
  unfold Field.read Field.clean
  split
  · exact hread
  · exact hotherwise

theorem Schema.accepts_written {t : Layout} {members : List Member} (h : t.Suits members) {o rest : Obj}
    (hok : ∀ m ∈ members, MemberOk o m)
    (hrest : ∀ m ∈ members, m.name ∉ t.fields.map (·.name) → MemberOk rest m) :
    (model members).Accepts (.obj ((Record.read t o).entries ++ rest)) := by
  refine accepts_model.mpr ⟨_, rfl, fun m hm => ?_⟩
  by_cases hname : m.name ∈ t.fields.map (·.name)
  · obtain ⟨f, hf, hfm⟩ := List.mem_map.mp hname
    refine MemberOk.of_some ?_ (h.accepts hf hm hfm.symm (hok m hm))
    rw [← hfm]
    exact Layout.get_readEntries hf o rest
  · have hbeside := Layout.get_beside hname o rest
    have hmember := hrest m hm hname
    unfold MemberOk memberFault at hmember ⊢
    rw [show (Record.read t o).entries = t.readEntries o from rfl, hbeside]
    exact hmember

end TraxJourney.Lib
