/-
  File:      Activity/PlaintextColumn.lean
  Subject:   `_holds_plaintext` (`src/project/repo_core.py`): the condition in SQL that a column holds text
             which is no envelope, beside `is_encrypted_envelope`.

  * **`holdsPlaintext_iff`** -- a row is selected just where the column holds readable text.
-/
import TraxJourney.Activity.Row
import TraxJourney.Lib.SqlText

namespace TraxJourney.Activity

open Lib

/-- The condition `envelope` of `_holds_plaintext`. -/
def envelopeCondition (col : Option (List Char)) : Truth :=
  let rest := substrFrom col (some 4)
  let secondDot := instr rest '.'
  .all [(substr col 1 3).map (· == ['v', '1', '.']), secondDot.map fun n => decide (0 < n),
    (instr (substrFrom col (secondDot.map (4 + ·))) '.').map (· == 0)]

def holdsPlaintext (value : Option String) : Truth :=
  let col := value.map (·.toList)
  .all [some col.isSome, col.map fun cs => !cs.isEmpty, (envelopeCondition col).not]

theorem isEncryptedEnvelope_some (text : String) : isEncryptedEnvelope (some text) =
    match splitDots text.toList with
    | [version, _, _] => version == ['v', '1']
    | _ => false := rfl

theorem take_three {before after : List Char} (h : '.' ∉ before) :
    ((before ++ '.' :: after).take 3 == ['v', '1', '.']) = (before == ['v', '1']) := by
  match before, h with
  | [], _ => rfl
  | [a], _ => simp
  | [a, b], _ => simp
  | a :: b :: c :: rest, h =>
    have hc : c ≠ '.' := fun hc => h (by simp [hc])
    simp [hc]

theorem envelopeCondition_some {cs : List Char} {second third : ℕ} (hsecond : instr (some (cs.drop 3)) '.' = some second)
    (hthird : instr (some (cs.drop (3 + second))) '.' = some third) :
    envelopeCondition (some cs) = some ((cs.take 3 == ['v', '1', '.']) && (decide (0 < second) && (third == 0))) := by
  have hrest : substrFrom (some cs) (some 4) = some (cs.drop 3) := rfl
  have hlast : substrFrom (some cs) (some (4 + second)) = some (cs.drop (3 + second)) := by
    show some (cs.drop (4 + second - 1)) = _
    rw [show 4 + second - 1 = 3 + second by omega]
  unfold envelopeCondition
  dsimp only
  rw [hrest, hsecond, Option.map_some, Option.map_some, hlast, hthird]
  exact (Truth.all_map_some [cs.take 3 == ['v', '1', '.'], decide (0 < second), third == 0]).trans
    (by rw [List.all_cons, List.all_cons, List.all_cons, List.all_nil, Bool.and_true]; rfl)

theorem envelope_eq (text : String) :
    envelopeCondition (some text.toList) = some (isEncryptedEnvelope (some text)) := by
  rw [isEncryptedEnvelope_some]
  generalize text.toList = cs
  obtain ⟨second, hsecond⟩ : ∃ n, instr (some (cs.drop 3)) '.' = some n := ⟨_, rfl⟩
  obtain ⟨third, hthird⟩ : ∃ n, instr (some (cs.drop (3 + second))) '.' = some n := ⟨_, rfl⟩
  rw [envelopeCondition_some hsecond hthird]
  congr 1
  by_cases hdot : '.' ∈ cs
  case neg =>
    have htake : (cs.take 3 == ['v', '1', '.']) = false :=
      beq_false_of_ne fun heq => hdot <| List.mem_of_mem_take (i := 3) <| by
        rw [heq]
        decide
    rw [htake, splitDots_of_not_mem hdot, Bool.false_and]
  case pos =>
    obtain ⟨version, rest, rfl, hversion⟩ := List.eq_append_cons_of_mem hdot
    rw [take_three hversion, splitDots_append hversion]
    by_cases hv : version = ['v', '1']
    case neg =>
      rw [beq_false_of_ne hv, Bool.false_and]
      split <;> first | rfl | skip
      rename_i heq
      rw [← (List.cons.inj heq).1, beq_false_of_ne hv]
    case pos =>
      subst hv
      have hdrop : ∀ n, (['v', '1'] ++ '.' :: rest).drop (3 + n) = rest.drop n := fun n => by
        rw [← List.drop_drop]
        rfl
      rw [hdrop 0, List.drop_zero] at hsecond
      rw [hdrop] at hthird
      by_cases hdot' : '.' ∈ rest
      case neg =>
        obtain rfl := Option.some.inj ((instr_zero hdot').symm.trans hsecond)
        rw [splitDots_of_not_mem hdot']
        rfl
      case pos =>
        obtain ⟨key, ciphertext, rfl, hkey⟩ := List.eq_append_cons_of_mem hdot'
        obtain rfl := Option.some.inj ((instr_pos hkey).symm.trans hsecond)
        rw [List.drop_append, List.drop_eq_nil_of_le (Nat.le_succ _), Nat.add_sub_cancel_left] at hthird
        rw [splitDots_append hkey]
        by_cases hdot'' : '.' ∈ ciphertext
        case neg =>
          obtain rfl := Option.some.inj ((instr_zero hdot'').symm.trans hthird)
          rw [splitDots_of_not_mem hdot'', decide_eq_true (Nat.succ_pos _)]
          rfl
        case pos =>
          obtain ⟨before, after, rfl, hbefore⟩ := List.eq_append_cons_of_mem hdot''
          obtain rfl := Option.some.inj ((instr_pos hbefore).symm.trans hthird)
          rw [splitDots_append hbefore, Bool.and_comm]
          obtain ⟨part, parts, hparts⟩ := List.exists_cons_of_ne_nil (splitDots_ne_nil after)
          rw [hparts]
          rfl

/-- **The two tests of an envelope agree.** -/
theorem holdsPlaintext_iff (value : Option String) :
    (holdsPlaintext value = some true ↔
      ∃ text, value = some text ∧ text ≠ "" ∧ isEncryptedEnvelope (some text) = false) ∧
    (holdsPlaintext value = some true ↔ isPlain value = true) := by
  have hselects : holdsPlaintext value = some true ↔ isPlain value = true := by
    cases value with
    | none => decide
    | some text =>
      have hempty : text.toList.isEmpty = (some text == some "") := by
        rw [Bool.eq_iff_iff, List.isEmpty_iff, beq_iff_eq, Option.some.injEq, String.toList_eq_nil_iff]
      unfold holdsPlaintext
      dsimp only
      rw [Option.map_some, envelope_eq, Option.map_some, hempty]
      have hall := Truth.all_map_some [true, !(some text == some ""), !isEncryptedEnvelope (some text)]
      refine (Eq.congr_left hall).trans ?_
      rw [Option.some.injEq, isPlain, List.all_cons, List.all_cons, List.all_cons, List.all_nil, Bool.and_true,
        Bool.and_assoc]
      rfl
  refine ⟨hselects.trans ?_, hselects⟩
  cases value with
  | none =>
    refine ⟨fun h => absurd h (by decide), ?_⟩
    rintro ⟨_, h, _⟩
    cases h
  | some text =>
    rw [isPlain, Option.isSome_some, Bool.true_and, Bool.and_eq_true, bne_iff_ne, Bool.not_eq_true']
    constructor
    · rintro ⟨hne, henvelope⟩
      exact ⟨text, rfl, fun h => hne (congrArg some h), henvelope⟩
    · rintro ⟨_, heq, hne, henvelope⟩
      obtain rfl := Option.some.inj heq
      exact ⟨fun h => hne (Option.some.inj h), henvelope⟩

end TraxJourney.Activity
