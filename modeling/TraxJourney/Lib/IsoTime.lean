/-
  File:      Lib/IsoTime.lean
  Subject:   Points in time as ISO 8601 text, to the microsecond and with an offset from UTC or
             without one.

  * **`readIso_isoformat`** -- what is written is read back.
-/
import Mathlib.Data.List.Basic
import Mathlib.Algebra.Group.Nat.Defs

namespace TraxJourney.Lib

/-! ## 1. Replacing -/

/-- The occurrences of `old` replaced, from left to right; `skip` characters are still those of the
    one replaced last. -/
def replaceFrom (old new : List Char) : ℕ → List Char → List Char
  | _, [] => []
  | 0, c :: cs =>
    if old.isPrefixOf (c :: cs) then new ++ replaceFrom old new (old.length - 1) cs
    else c :: replaceFrom old new 0 cs
  | skip + 1, _ :: cs => replaceFrom old new skip cs

/-- `text.replace(old, new)`, for an `old` that is not empty. -/
def replaceAll (old new text : List Char) : List Char := replaceFrom old new 0 text

theorem replaceAll_cons (z : Char) (new : List Char) (c : Char) (cs : List Char) :
    replaceAll [z] new (c :: cs) =
      if c = z then new ++ replaceAll [z] new cs else c :: replaceAll [z] new cs := by
  unfold replaceAll
  rw [replaceFrom]
  by_cases h : c = z
  · simp [h]
  · have hne : ¬ z = c := fun hzc => h hzc.symm
    simp [h, hne]

theorem replaceAll_back {old : List Char} {z : Char} (hold : old ≠ []) {text : List Char}
    (hz : z ∉ text) : replaceAll [z] old (replaceAll old [z] text) = text := by
  have hback : ∀ (skip : ℕ) (cs : List Char), z ∉ cs →
      replaceAll [z] old (replaceFrom old [z] skip cs) = cs.drop skip := by
    intro skip cs
    induction cs generalizing skip with
    | nil => intro _; simp [replaceFrom, replaceAll]
    | cons c cs ih =>
      intro hcs
      have hc : ¬ c = z := fun h => hcs (h ▸ List.mem_cons_self)
      have hrest : z ∉ cs := fun h => hcs (List.mem_cons_of_mem _ h)
      cases skip with
      | succ skip =>
        rw [replaceFrom, List.drop_succ_cons]
        exact ih skip hrest
      | zero =>
        rw [replaceFrom, List.drop_zero]
        split
        case isTrue hprefix =>
          -- an occurrence: the rest of it is skipped
          obtain ⟨tail, htail⟩ := List.isPrefixOf_iff_prefix.mp hprefix
          obtain ⟨o, os, rfl⟩ := List.exists_cons_of_ne_nil hold
          obtain ⟨rfl, hrestIs⟩ := List.cons.inj htail
          change os ++ tail = cs at hrestIs
          rw [List.singleton_append, replaceAll_cons, if_pos rfl, ih _ hrest, ← hrestIs,
            List.length_cons, Nat.add_sub_cancel, List.drop_left, List.cons_append]
        case isFalse => rw [replaceAll_cons, if_neg hc, ih 0 hrest, List.drop_zero]
  exact hback 0 text hz

/-! ## 2. Digits -/

def digitChar (n : ℕ) : Char := Char.ofNat (48 + n % 10)

def digitValue (c : Char) : Option ℕ := if 48 ≤ c.toNat ∧ c.toNat < 58 then some (c.toNat - 48) else none

/-- The lowest `w` decimal digits of a number, highest first. -/
def digits : ℕ → ℕ → List Char
  | 0, _ => []
  | w + 1, n => digits w (n / 10) ++ [digitChar n]

theorem length_digits (w n : ℕ) : (digits w n).length = w := by
  induction w generalizing n with
  | zero => rfl
  | succ w ih => rw [digits, List.length_append, ih, List.length_singleton]

/-- A number of exactly `w` digits, and what follows it. -/
def readDigits : ℕ → ℕ → List Char → Option (ℕ × List Char)
  | 0, n, cs => some (n, cs)
  | _ + 1, _, [] => none
  | w + 1, n, c :: cs => (digitValue c).bind fun d => readDigits w (10 * n + d) cs

theorem digitValue_digitChar (n : ℕ) : digitValue (digitChar n) = some (n % 10) := by
  have hlt : n % 10 < 10 := Nat.mod_lt _ (by decide)
  unfold digitChar
  generalize n % 10 = d at hlt
  revert hlt d
  decide

theorem readDigits_append (w v n m : ℕ) (cs : List Char) :
    readDigits (w + v) m (digits w n ++ cs) = readDigits v (m * 10 ^ w + n % 10 ^ w) cs := by
  induction w generalizing v n m cs with
  | zero => simp [digits, Nat.mod_one]
  | succ w ih =>
    have hsum : w + 1 + v = w + (v + 1) := by omega
    have hvalue : 10 * (m * 10 ^ w + n / 10 % 10 ^ w) + n % 10 = m * 10 ^ (w + 1) + n % 10 ^ (w + 1) := by
      have hmod : n % 10 ^ (w + 1) = n % 10 + 10 * (n / 10 % 10 ^ w) := by
        rw [Nat.pow_succ, Nat.mul_comm, Nat.mod_mul]
      have hpow : m * 10 ^ (w + 1) = 10 * (m * 10 ^ w) := by rw [Nat.pow_succ, ← Nat.mul_assoc, Nat.mul_comm]
      rw [hmod, hpow]
      omega
    rw [digits, List.append_assoc, hsum, ih, List.singleton_append, readDigits,
      digitValue_digitChar, Option.bind_some, hvalue]

theorem readDigits_digits {w n : ℕ} (h : n < 10 ^ w) (cs : List Char) :
    readDigits w 0 (digits w n ++ cs) = some (n, cs) := by
  have happend := readDigits_append w 0 n 0 cs
  rw [Nat.add_zero, Nat.zero_mul, Nat.zero_add, Nat.mod_eq_of_lt h] at happend
  exact happend

theorem digitChar_ne {c : Char} (h : digitValue c = none) (n : ℕ) : digitChar n ≠ c := by
  rintro rfl
  rw [digitValue_digitChar] at h
  cases h

theorem not_mem_digits {c : Char} (h : digitValue c = none) (w n : ℕ) : c ∉ digits w n := by
  induction w generalizing n with
  | zero => exact List.not_mem_nil
  | succ w ih =>
    intro hc
    rcases List.mem_append.mp hc with hc | hc
    · exact ih (n / 10) hc
    · exact digitChar_ne h n (List.mem_singleton.mp hc).symm

/-! ## 3. Points in time -/

/-- The parts of a point in time; the offset from UTC, if any, in microseconds. -/
structure Instant.Parts where
  year : ℕ
  month : ℕ
  day : ℕ
  hour : ℕ
  minute : ℕ
  second : ℕ
  microsecond : ℕ
  offset : Option ℤ
deriving DecidableEq

def isLeap (year : ℕ) : Bool := year % 4 == 0 && (year % 100 != 0 || year % 400 == 0)

def daysInMonth (year month : ℕ) : ℕ :=
  if month = 2 then (if isLeap year then 29 else 28)
  else if month ∈ [4, 6, 9, 11] then 30 else 31

def dayMicroseconds : ℕ := 86400000000

/-- A day of the calendar, a time of day, and an offset below 24 hours. -/
def Instant.Parts.valid (p : Instant.Parts) : Bool :=
  decide (1 ≤ p.year ∧ p.year ≤ 9999 ∧ 1 ≤ p.month ∧ p.month ≤ 12 ∧ 1 ≤ p.day ∧
    p.day ≤ daysInMonth p.year p.month ∧ p.hour < 24 ∧ p.minute < 60 ∧ p.second < 60 ∧
    p.microsecond < 1000000) &&
  p.offset.all fun offset => decide (offset.natAbs < dayMicroseconds)

/-- A point in time. -/
def Instant := { p : Instant.Parts // p.valid = true }

instance : DecidableEq Instant := inferInstanceAs (DecidableEq (Subtype _))

/-- `.ffffff`, or nothing. -/
def microText (microsecond : ℕ) : List Char := if microsecond = 0 then [] else '.' :: digits 6 microsecond

/-- `HH:MM[:SS[.ffffff]]` of an offset without its sign. -/
def offsetText (microseconds : ℕ) : List Char :=
  let seconds := microseconds / 1000000
  digits 2 (seconds / 3600) ++ ':' :: digits 2 (seconds / 60 % 60) ++
    if microseconds % 60000000 = 0 then []
    else ':' :: digits 2 (seconds % 60) ++ microText (microseconds % 1000000)

def zoneText : Option ℤ → List Char
  | none => []
  | some offset => (if offset < 0 then '-' else '+') :: offsetText offset.natAbs

def Instant.isoformat (t : Instant) : List Char :=
  digits 4 t.val.year ++ '-' :: (digits 2 t.val.month ++ '-' :: (digits 2 t.val.day ++ 'T' ::
    (digits 2 t.val.hour ++ ':' :: (digits 2 t.val.minute ++ ':' :: (digits 2 t.val.second ++
      (microText t.val.microsecond ++ zoneText t.val.offset))))))

/-- The text after one character. -/
def expect (c : Char) : List Char → Option (List Char)
  | [] => none
  | d :: cs => if d = c then some cs else none

def readMicro : List Char → Option (ℕ × List Char)
  | '.' :: cs => readDigits 6 0 cs
  | cs => some (0, cs)

/-- `HH:MM[:SS[.ffffff]]`, to the end. -/
def readOffset (cs : List Char) : Option ℕ := do
  let (hours, cs) ← readDigits 2 0 cs
  let cs ← expect ':' cs
  let (minutes, cs) ← readDigits 2 0 cs
  let whole := (hours * 60 + minutes) * 60
  if cs = [] then some (whole * 1000000)
  else do
    let cs ← expect ':' cs
    let (seconds, cs) ← readDigits 2 0 cs
    let (microseconds, cs) ← readMicro cs
    if cs = [] then some ((whole + seconds) * 1000000 + microseconds) else none

def readZone : List Char → Option (Option ℤ)
  | [] => some none
  | '+' :: cs => (readOffset cs).map fun (offset : ℕ) => some (offset : ℤ)
  | '-' :: cs => (readOffset cs).map fun (offset : ℕ) => some (-(offset : ℤ))
  | _ => none

/-- A text of the form that `isoformat` writes. -/
def readIso (cs : List Char) : Option Instant := do
  let (year, cs) ← readDigits 4 0 cs
  let cs ← expect '-' cs
  let (month, cs) ← readDigits 2 0 cs
  let cs ← expect '-' cs
  let (day, cs) ← readDigits 2 0 cs
  let cs ← expect 'T' cs
  let (hour, cs) ← readDigits 2 0 cs
  let cs ← expect ':' cs
  let (minute, cs) ← readDigits 2 0 cs
  let cs ← expect ':' cs
  let (second, cs) ← readDigits 2 0 cs
  let (microsecond, cs) ← readMicro cs
  let offset ← readZone cs
  let parts : Instant.Parts :=
    { year := year, month := month, day := day, hour := hour, minute := minute, second := second,
      microsecond := microsecond, offset := offset }
  if h : parts.valid = true then some ⟨parts, h⟩ else none

@[simp] theorem expect_cons (c : Char) (cs : List Char) : expect c (c :: cs) = some cs := by
  simp [expect]

/-- Nothing that follows begins with a point. -/
def NoPoint (cs : List Char) : Prop := ∀ rest, cs ≠ '.' :: rest

theorem readMicro_microText {n : ℕ} (hn : n < 1000000) {cs : List Char} (hcs : NoPoint cs) :
    readMicro (microText n ++ cs) = some (n, cs) := by
  unfold microText
  by_cases h : n = 0
  · rw [if_pos h, List.nil_append, h]
    unfold readMicro
    split
    · rename_i rest
      exact absurd rfl (hcs rest)
    · rfl
  · rw [if_neg h]
    exact readDigits_digits (w := 6) hn cs

theorem readOffset_offsetText {n : ℕ} (hn : n < dayMicroseconds) : readOffset (offsetText n) = some n := by
  unfold dayMicroseconds at hn
  have hhours : n / 1000000 / 3600 < 10 ^ 2 := by omega
  have hminutes : n / 1000000 / 60 % 60 < 10 ^ 2 := by omega
  have hseconds : n / 1000000 % 60 < 10 ^ 2 := by omega
  have hmicro : n % 1000000 < 1000000 := by omega
  unfold offsetText readOffset
  dsimp only
  rw [List.append_assoc, readDigits_digits hhours]
  simp only [Option.bind_eq_bind, Option.bind_some, List.cons_append, expect_cons]
  by_cases h : n % 60000000 = 0
  · rw [if_pos h, readDigits_digits hminutes]
    simp only [Option.bind_some, if_true]
    congr 1
    omega
  · rw [if_neg h, readDigits_digits hminutes]
    simp only [Option.bind_some, List.cons_ne_nil, if_false, expect_cons]
    rw [readDigits_digits hseconds]
    have hread := @readMicro_microText _ hmicro [] nofun
    rw [List.append_nil] at hread
    simp only [Option.bind_some, hread, if_true]
    congr 1
    omega

theorem readZone_zoneText {offset : Option ℤ}
    (h : (offset.all fun o => decide (o.natAbs < dayMicroseconds)) = true) :
    readZone (zoneText offset) = some offset := by
  cases offset with
  | none => rfl
  | some offset =>
    have hlt : offset.natAbs < dayMicroseconds := of_decide_eq_true h
    show readZone ((if offset < 0 then '-' else '+') :: offsetText offset.natAbs) = _
    by_cases hneg : offset < 0
    · rw [if_pos hneg, readZone, readOffset_offsetText hlt, Option.map_some]
      have habs : -(offset.natAbs : ℤ) = offset := by omega
      rw [habs]
    · rw [if_neg hneg, readZone, readOffset_offsetText hlt, Option.map_some]
      have habs : (offset.natAbs : ℤ) = offset := by omega
      rw [habs]

theorem noPoint_zoneText (offset : Option ℤ) : NoPoint (zoneText offset) := by
  intro rest h
  cases offset with
  | none => cases h
  | some offset =>
    have hhead := (List.cons.inj h).1
    split at hhead <;> exact absurd hhead (by decide)

/-- **What is written is read back.** -/
theorem then_some {α β : Type} {x : Option α} {f : α → Option β} {a : α} {b : β} (ha : x = some a) (hb : f a = some b) :
    x.bind f = some b := Option.bind_eq_some_iff.mpr ⟨a, ha, hb⟩

theorem readIso_isoformat (t : Instant) : readIso t.isoformat = some t := by
  obtain ⟨p, hp⟩ := t
  have hvalid := hp
  unfold Instant.Parts.valid at hvalid
  rw [Bool.and_eq_true, decide_eq_true_iff] at hvalid
  obtain ⟨⟨-, hyear, -, hmonth, -, hday, hhour, hminute, hsecond, hmicro⟩, hoffset⟩ := hvalid
  have hdays : daysInMonth p.year p.month ≤ 31 := by
    unfold daysInMonth
    split
    · split <;> decide
    · split <;> decide
  unfold Instant.isoformat readIso
  dsimp only
  refine then_some (readDigits_digits (by omega) _) ?_
  refine then_some (expect_cons '-' _) ?_
  refine then_some (readDigits_digits (by omega) _) ?_
  refine then_some (expect_cons '-' _) ?_
  refine then_some (readDigits_digits (by omega) _) ?_
  refine then_some (expect_cons 'T' _) ?_
  refine then_some (readDigits_digits (by omega) _) ?_
  refine then_some (expect_cons ':' _) ?_
  refine then_some (readDigits_digits (by omega) _) ?_
  refine then_some (expect_cons ':' _) ?_
  refine then_some (readDigits_digits (by omega) _) ?_
  refine then_some (readMicro_microText hmicro (noPoint_zoneText _)) ?_
  refine then_some (readZone_zoneText hoffset) ?_
  exact dif_pos hp

theorem not_mem_isoformat {c : Char} (hdigit : digitValue c = none)
    (h : c ∉ ['-', 'T', ':', '.', '+']) (t : Instant) : c ∉ t.isoformat := by
  have hdigits : ∀ w n, c ∉ digits w n := not_mem_digits hdigit
  simp only [List.mem_cons, List.not_mem_nil, or_false, not_or] at h
  obtain ⟨hminus, hT, hcolon, hpoint, hplus⟩ := h
  have hmicro : ∀ n, c ∉ microText n := by
    intro n
    unfold microText
    split
    · exact List.not_mem_nil
    · simp [hpoint, hdigits]
  have hoffset : ∀ n, c ∉ offsetText n := by
    intro n
    unfold offsetText
    dsimp only
    split
    · simp [hcolon, hdigits]
    · simp [hcolon, hdigits, hmicro]
  have hzone : ∀ o, c ∉ zoneText o := by
    intro o
    cases o with
    | none => exact List.not_mem_nil
    | some o =>
      show c ∉ (if o < 0 then '-' else '+') :: offsetText o.natAbs
      split
      · simp [hminus, hoffset]
      · simp [hplus, hoffset]
  unfold Instant.isoformat
  simp [hminus, hT, hcolon, hdigits, hmicro, hzone]

end TraxJourney.Lib
