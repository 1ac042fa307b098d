/-
  File:      Lib/SqlText.lean
  Subject:   Conditions of SQL over nullable texts: three-valued logic and the functions of strings, as
             SQLite documents them.

  * **`instr_pos`**, **`instr_zero`** -- where a character stands first, and that it stands nowhere.
-/
import Mathlib.Data.List.Basic

namespace TraxJourney.Lib

/-! ## 1. Truth -/

/-- The truth of a condition; `none` is unknown. -/
abbrev Truth := Option Bool

namespace Truth

/-- `AND`: false where one is false, else unknown where one is unknown. -/
def and : Truth → Truth → Truth
  | some false, _ => some false
  | _, some false => some false
  | some true, b => b
  | none, _ => none

/-- `AND` of several conditions. -/
def all (conditions : List Truth) : Truth := conditions.foldr and (some true)

def not (a : Truth) : Truth := a.map (!·)

theorem all_map_some (conditions : List Bool) : all (conditions.map some) = some (conditions.all id) := by
  induction conditions with
  | nil => rfl
  | cons c rest ih =>
    rw [List.map_cons, all, List.foldr_cons, ← all, ih, List.all_cons]
    cases c <;> cases rest.all id <;> rfl

end Truth

/-! ## 2. Texts -/

/-- `substr(text, at)`: from a position on, the first being 1. -/
def substrFrom (text : Option (List Char)) (start : Option ℕ) : Option (List Char) :=
  text.bind fun cs => start.map fun n => cs.drop (n - 1)

/-- `substr(text, at, length)`. -/
def substr (text : Option (List Char)) (start length : ℕ) : Option (List Char) :=
  text.map fun cs => (cs.drop (start - 1)).take length

/-- `instr(text, c)`: the position of the first `c`, or 0. -/
def instr (text : Option (List Char)) (c : Char) : Option ℕ :=
  text.map fun cs => if c ∈ cs then cs.idxOf c + 1 else 0

theorem instr_zero {cs : List Char} {c : Char} (h : c ∉ cs) : instr (some cs) c = some 0 := by
  rw [instr, Option.map_some, if_neg h]

theorem instr_pos {before after : List Char} {c : Char} (h : c ∉ before) :
    instr (some (before ++ c :: after)) c = some (before.length + 1) := by
  rw [instr, Option.map_some, if_pos (List.mem_append_right _ List.mem_cons_self),
    List.idxOf_append_of_notMem h, List.idxOf_cons_self, Nat.add_zero]

end TraxJourney.Lib
