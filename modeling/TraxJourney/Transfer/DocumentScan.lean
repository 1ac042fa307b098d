/-
  File:      Transfer/DocumentScan.lean
  Subject:   `_bad_value` (`src/project/traxj_schema.py`), which walks a document over a stack of iterators
             and a stack of keys, beside the recursive walk.

  * **`scan_depthFirst`** -- the loop returns what the recursive walk returns.
-/
import TraxJourney.Lib.Runs
import TraxJourney.Transfer.TripSchema

namespace TraxJourney.Transfer

open Lib Schema

/-! ## 1. The recursive walk -/

mutual

/-- The first fault below a value, its entries in order: the key, the scalar, what the container holds. -/
def firstBad (floats : Bool) (path : List Part) : Json → Option Fault
  | .list xs => firstBadItem floats path 0 xs
  | .obj entries => firstBadEntry floats path entries
  | _ => none

def firstBadItem (floats : Bool) (path : List Part) : ℕ → List Json → Option Fault
  | _, [] => none
  | n, x :: xs =>
    ((valueFault floats x).map (⟨path ++ [.index n], ·⟩)).or
      ((firstBad floats (path ++ [.index n]) x).or (firstBadItem floats path (n + 1) xs))

def firstBadEntry (floats : Bool) (path : List Part) : List (Text × Json) → Option Fault
  | [] => none
  | (key, v) :: rest =>
    ((keyFault (.name key)).map (⟨path, ·⟩)).or
      (((valueFault floats v).map (⟨path ++ [.name key], ·⟩)).or
        ((firstBad floats (path ++ [.name key]) v).or (firstBadEntry floats path rest)))

end

def pairBad (floats : Bool) (path : List Part) (p : Part × Json) : Option Fault :=
  ((keyFault p.1).map (⟨path, ·⟩)).or
    (((valueFault floats p.2).map (⟨path ++ [p.1], ·⟩)).or (firstBad floats (path ++ [p.1]) p.2))

theorem findSome_cons {α β : Type} (f : α → Option β) (a : α) (rest : List α) :
    (a :: rest).findSome? f = (f a).or (rest.findSome? f) := by
  rw [List.findSome?_cons]
  cases f a <;> rfl

theorem firstBadItem_eq (floats : Bool) (path : List Part) (xs : List Json) (n : ℕ) :
    firstBadItem floats path n xs = ((xs.zipIdx n).map fun x => (Part.index x.2, x.1)).findSome? (pairBad floats path) := by
  induction xs generalizing n with
  | nil => rfl
  | cons x xs ih =>
    rw [firstBadItem, ih, List.zipIdx_cons, List.map_cons, findSome_cons, pairBad, Option.or_assoc, Option.or_assoc]
    rfl

theorem firstBad_eq (floats : Bool) (path : List Part) (v : Json) :
    firstBad floats path v = (pairs v).findSome? (pairBad floats path) := by
  cases v with
  | list xs => exact firstBadItem_eq floats path xs 0
  | obj entries =>
    rw [firstBad, pairs]
    induction entries with
    | nil => rfl
    | cons e rest ih =>
      obtain ⟨key, v⟩ := e
      rw [firstBadEntry, ih, List.map_cons, findSome_cons, pairBad, Option.or_assoc, Option.or_assoc]
  | _ => rfl

/-! ## 2. The loop -/

/-- The iterators of the open levels and the keys they were entered by, the innermost first. -/
structure Walk where
  stack : List (List (Part × Json))
  keys : List Part

/-- One turn of the loop of `_bad_value`: what it returns, or what it goes on with. -/
def Walk.turn (floats : Bool) : Walk → Option Fault ⊕ Walk
  | ⟨[], _⟩ => .inl none
  | ⟨[] :: stack, keys⟩ => .inr ⟨stack, keys.tail⟩
  | ⟨((key, value) :: rest) :: stack, keys⟩ =>
    match keyFault key, valueFault floats value with
    | some message, _ => .inl (some ⟨keys.reverse, message⟩)
    | none, some message => .inl (some ⟨keys.reverse ++ [key], message⟩)
    | none, none =>
      if isContainer value then .inr ⟨pairs value :: rest :: stack, key :: keys⟩ else .inr ⟨rest :: stack, keys⟩

theorem scan_succ (floats : Bool) (fuel : ℕ) (w : Walk) : scan floats (fuel + 1) w.stack w.keys =
    match w.turn floats with
    | .inl found => found
    | .inr w' => scan floats fuel w'.stack w'.keys := by
  obtain ⟨stack, keys⟩ := w
  match stack with
  | [] => rfl
  | [] :: stack => rfl
  | ((key, value) :: rest) :: stack =>
    rw [scan, Walk.turn]
    cases keyFault key with
    | some message => rfl
    | none =>
      cases valueFault floats value with
      | some message => rfl
      | none => cases isContainer value <;> rfl

/-- The first fault ahead: in what the innermost level has left, then in what the levels around it have. -/
def ahead (floats : Bool) : List (List (Part × Json)) → List Part → Option Fault
  | [], _ => none
  | level :: stack, keys => (level.findSome? (pairBad floats keys.reverse)).or (ahead floats stack keys.tail)

/-- The stacks are in step: a key for each level but the document's own. -/
def Walk.InStep (w : Walk) : Prop := w.stack.length = w.keys.length + 1 ∨ w.stack = [] ∧ w.keys = []

theorem Walk.turn_spec (floats : Bool) (w : Walk) :
    match w.turn floats with
    | .inl found => ahead floats w.stack w.keys = found
    | .inr w' => ahead floats w'.stack w'.keys = ahead floats w.stack w.keys ∧ turns w'.stack < turns w.stack ∧
        (w.InStep → w'.InStep) := by
  obtain ⟨stack, keys⟩ := w
  match stack with
  | [] => rfl
  | [] :: stack =>
    refine ⟨rfl, ?_, ?_⟩
    · show turns stack < _
      rw [turns_cons, List.map_nil, List.sum_nil]
      omega
    · rintro (hlength | ⟨hnil, -⟩)
      · cases keys with
        | nil => exact .inr ⟨List.length_eq_zero_iff.mp (by simpa using hlength), rfl⟩
        | cons key keys => exact .inl (by simpa using hlength)
      · cases hnil
  | ((key, value) :: rest) :: stack =>
    have hahead : ahead floats (((key, value) :: rest) :: stack) keys =
        (pairBad floats keys.reverse (key, value)).or (ahead floats (rest :: stack) keys) := by
      rw [ahead, findSome_cons, Option.or_assoc, ← ahead]
    have hlevel : turns (((key, value) :: rest) :: stack) = weight value + turns (rest :: stack) := by
      rw [turns_cons, turns_cons, List.map_cons, List.sum_cons]
      dsimp only
      omega
    unfold Walk.turn
    dsimp only
    rw [hahead, hlevel, pairBad]
    cases keyFault key with
    | some message => rfl
    | none =>
      cases valueFault floats value with
      | some message => rfl
      | none =>
        rw [Option.map_none, Option.map_none, Option.none_or, Option.none_or, firstBad_eq]
        dsimp only
        split
        case h_1 found heq => split at heq <;> cases heq
        case h_2 w' heq =>
          split at heq
          case isTrue hcontainer =>
            obtain rfl := Sum.inr.inj heq
            refine ⟨?_, ?_, ?_⟩
            · rw [ahead, List.reverse_cons]
              rfl
            · rw [turns_cons, weight_container hcontainer]
              omega
            · rintro (hlength | ⟨hnil, -⟩)
              · exact .inl (by simpa using hlength)
              · cases hnil
          case isFalse hscalar =>
            obtain rfl := Sum.inr.inj heq
            have hnone : pairs value = [] := by
              cases value with
              | obj entries => exact absurd rfl hscalar
              | list xs => exact absurd rfl hscalar
              | _ => rfl
            have hpos := weight_pos value
            refine ⟨?_, ?_, ?_⟩
            · rw [hnone]
              rfl
            · show turns (rest :: stack) < _
              omega
            · rintro (hlength | ⟨hnil, -⟩)
              · exact .inl hlength
              · cases hnil

theorem scan_eq_ahead {floats : Bool} {fuel : ℕ} (w : Walk) (hfuel : turns w.stack ≤ fuel) :
    scan floats fuel w.stack w.keys = ahead floats w.stack w.keys := by
  induction fuel generalizing w with
  | zero =>
    obtain ⟨stack, keys⟩ := w
    cases stack with
    | nil => rfl
    | cons level stack =>
      rw [turns_cons] at hfuel
      omega
  | succ fuel ih =>
    have hturn := w.turn_spec floats
    rw [scan_succ]
    cases heq : w.turn floats with
    | inl found =>
      rw [heq] at hturn
      exact hturn.symm
    | inr w' =>
      rw [heq] at hturn
      exact (ih w' (by omega)).trans hturn.1

/-- The loop going on. -/
def Walk.next (floats : Bool) (w : Walk) (_ : Unit) : Option Walk := (w.turn floats).getRight?

theorem Walk.inStep {floats : Bool} {w w' : Walk} {tr : List Unit} (h : Run (Steps (Walk.next floats)) w tr w')
    (hw : w.InStep) : tr.length + turns w'.stack ≤ turns w.stack ∧ w'.InStep := by
  refine h.trace_invariant (I := fun tr w' => tr.length + turns w'.stack ≤ turns w.stack ∧ w'.InStep)
    ⟨by simp, hw⟩ fun tr u _ v _ hu hstep => ?_
  have hturn := u.turn_spec floats
  have heq : u.turn floats = .inr v := Sum.getRight?_eq_some_iff.mp hstep
  rw [heq] at hturn
  obtain ⟨-, hlt, hkeep⟩ := hturn
  refine ⟨?_, hkeep hu.2⟩
  rw [List.length_append, List.length_singleton]
  omega

/-! ## 3. The two walks -/

/-- **The loop and the recursive walk return the same.** -/
theorem scan_depthFirst (py : Python) (floats : Bool) {document : Json} (h : isContainer document = true) :
    scan floats (2 + weight document) [pairs document] [] = firstBad floats [] document ∧
    (∀ entries, document = .obj entries → badValue py floats entries =
      (firstBad floats [] document).map fun f => whereIs py f.path ++ " " ++ f.message) ∧
    ∀ tr w, Run (Steps (Walk.next floats)) ⟨[pairs document], []⟩ tr w →
      tr.length < 2 + weight document ∧ w.InStep := by
  have hturns : turns [pairs document] < weight document := by
    have hnil : turns [] = 0 := rfl
    rw [turns_cons, weight_container h, hnil]
    omega
  have hscan : scan floats (2 + weight document) [pairs document] [] = firstBad floats [] document := by
    have hfuel : turns [pairs document] ≤ 2 + weight document := by omega
    rw [firstBad_eq]
    exact (scan_eq_ahead ⟨[pairs document], []⟩ hfuel).trans Option.or_none
  refine ⟨hscan, ?_, fun tr w hrun => ?_⟩
  · rintro entries rfl
    rw [badValue, hscan]
  · obtain ⟨hlength, hstep⟩ := Walk.inStep hrun (.inl rfl)
    have hlength : tr.length + turns w.stack ≤ turns [pairs document] := hlength
    exact ⟨by omega, hstep⟩

def surrogateInList : Json := .obj [(.valid "items", .list [.null, .obj [], .text (.surrogate [55296])])]

/-- The theorem at a lone surrogate in a list, which is found. -/
theorem scan_depthFirst_nested :
    (firstBad true [] surrogateInList).map (·.path) = some [.name (.valid "items"), .index 2] ∧
    scan true (2 + weight surrogateInList) [pairs surrogateInList] [] = firstBad true [] surrogateInList :=
  ⟨by decide, (scan_depthFirst ⟨fun _ => "", fun _ => none, fun _ => none⟩ true rfl).1⟩

end TraxJourney.Transfer
