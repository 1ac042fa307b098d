/-
  File:      Lib/Numbers.lean
  Subject:   The numbers of a dynamically typed language: integers without bound, and doubles.

  * **`exact_ofInt`** -- an integer of 64 bits has a finite double.
-/
import Mathlib.Data.Rat.Floor
import TraxJourney.Lib.Doubles

namespace TraxJourney.Lib

/-! ## 1. Doubles -/

/-- A double. A zero has a sign as well. -/
inductive Double where
  | finite (negative : Bool) (magnitude : ℚ)
  | infinite (negative : Bool)
  | nan
deriving DecidableEq

namespace Double

def signed (negative : Bool) (magnitude : ℚ) : ℚ := if negative then -magnitude else magnitude

def exact : Double → Option ℚ
  | finite negative magnitude => some (signed negative magnitude)
  | _ => none

/-- The smallest normal number, the smallest number at all and the largest, as integers. -/
def normalScale : ℕ := 2 ^ 1022
def subnormalScale : ℕ := 2 ^ 1074
def limit : ℕ := 2 ^ 1024

/-- The nearest double: 53 bits, fewer below the normal range, an infinity above it. -/
def ofRat (q : ℚ) : Double :=
  let rounded : ℚ :=
    if |q| * normalScale < 1 then roundHalfEven (q * subnormalScale) / subnormalScale
    else toDouble q
  if (limit : ℚ) ≤ |rounded| then infinite (decide (q < 0)) else finite (decide (q < 0)) |rounded|

def ofInt (n : ℤ) : Double := ofRat n

def zero : Double := finite false 0

def isZero : Double → Bool
  | finite _ magnitude => magnitude == 0
  | _ => false

def neg : Double → Double
  | finite negative magnitude => finite (!negative) magnitude
  | infinite negative => infinite (!negative)
  | nan => nan

def add : Double → Double → Double
  | finite s x, finite t y =>
    if signed s x + signed t y = 0 then finite (s && t) 0 else ofRat (signed s x + signed t y)
  | infinite s, infinite t => if s = t then infinite s else nan
  | infinite s, finite _ _ => infinite s
  | finite _ _, infinite t => infinite t
  | _, _ => nan

def mul : Double → Double → Double
  | finite s x, finite t y => if x * y = 0 then finite (xor s t) 0 else ofRat (signed s x * signed t y)
  | infinite s, infinite t => infinite (xor s t)
  | infinite s, finite t y => if y = 0 then nan else infinite (xor s t)
  | finite s x, infinite t => if x = 0 then nan else infinite (xor s t)
  | _, _ => nan

/-- The quotient by a divisor that is not zero. -/
def div : Double → Double → Double
  | finite s x, finite t y => if x = 0 then finite (xor s t) 0 else ofRat (signed s x / signed t y)
  | infinite s, finite t _ => infinite (xor s t)
  | finite s _, infinite t => finite (xor s t) 0
  | _, _ => nan

def abs : Double → Double
  | finite _ magnitude => finite false magnitude
  | infinite _ => infinite false
  | nan => nan

/-- Places of a square root that are kept after the point: enough for the smallest double. -/
def rootPlaces : ℕ := 600

/-- The square root, rounded once: cut off far beyond its last bit, and a bit more where something was
    cut off. Nothing for a negative number. -/
def sqrt : Double → Option Double
  | finite negative magnitude =>
    let value := signed negative magnitude
    if value = 0 then some (finite negative 0)
    else if value < 0 then none
    else
      let scaled := ⌊value * ((4 ^ rootPlaces : ℕ) : ℚ)⌋.toNat
      let root := scaled.sqrt
      let sticky := if ((root * root : ℕ) : ℚ) = value * ((4 ^ rootPlaces : ℕ) : ℚ) then 0 else 1
      some (.ofRat (((root + root + sticky : ℕ) : ℚ) / ((2 ^ (rootPlaces + 1) : ℕ) : ℚ)))
  | infinite false => some (infinite false)
  | infinite true => none
  | nan => some nan

end Double

/-! ## 2. Numbers -/

inductive Number where
  | int (n : ℤ)
  | float (d : Double)
deriving DecidableEq

namespace Number

/-- `float(x)`. -/
def toDouble : Number → Double
  | int n => .ofInt n
  | float d => d

/-- The value, of a number that is finite. -/
def exact : Number → Option ℚ
  | int n => some n
  | float d => d.exact

def isZero : Number → Bool
  | int n => n == 0
  | float d => d.isZero

def add : Number → Number → Number
  | int m, int n => int (m + n)
  | x, y => float (x.toDouble.add y.toDouble)

def sub : Number → Number → Number
  | int m, int n => int (m - n)
  | x, y => float (x.toDouble.add y.toDouble.neg)

def mul : Number → Number → Number
  | int m, int n => int (m * n)
  | x, y => float (x.toDouble.mul y.toDouble)

/-- `x / y`, for a `y` that is not zero. -/
def div : Number → Number → Number
  | int m, int n => float (if m = 0 then .finite (decide (n < 0)) 0 else .ofRat (m / n))
  | x, y => float (x.toDouble.div y.toDouble)

/-- `lo <= x <= hi`; false for NaN. -/
def within (lo hi : ℤ) (x : Number) : Bool := x.exact.any fun q => decide ((lo : ℚ) ≤ q ∧ q ≤ (hi : ℚ))

/-- Where a number lies: below, among or above the finite ones; NaN nowhere. -/
def place : Number → Option (ℤ × ℚ)
  | int n => some (0, n)
  | float (.finite negative magnitude) => some (0, Double.signed negative magnitude)
  | float (.infinite negative) => some (if negative then -1 else 1, 0)
  | float .nan => none

/-- `x < y`. -/
def lt (x y : Number) : Bool :=
  match x.place, y.place with
  | some (i, p), some (j, q) => decide (i < j ∨ i = j ∧ p < q)
  | _, _ => false

/-- `x <= y`. -/
def le (x y : Number) : Bool :=
  match x.place, y.place with
  | some (i, p), some (j, q) => decide (i < j ∨ i = j ∧ p ≤ q)
  | _, _ => false

/-- `x == y`. -/
def same (x y : Number) : Bool :=
  match x.place, y.place with
  | some p, some q => decide (p = q)
  | _, _ => false

/-- `abs(x)`. -/
def abs : Number → Number
  | int n => int |n|
  | float d => float d.abs

/-- `max(xs)`: the first of the greatest. -/
def maximum : List Number → Option Number
  | [] => none
  | x :: xs => some (xs.foldl (fun m y => if m.lt y then y else m) x)

/-- `min(xs)`: the first of the least. -/
def minimum : List Number → Option Number
  | [] => none
  | x :: xs => some (xs.foldl (fun m y => if y.lt m then y else m) x)

/-- `int(x)`, of a finite number: towards zero. -/
def truncate (x : Number) : ℤ :=
  match x.exact with
  | some q => if q < 0 then ⌈q⌉ else ⌊q⌋
  | none => 0

end Number

/-! ## 3. An integer as a double -/

open Double in
theorem Double.exact_ofInt {n : ℤ} (h : |n| ≤ 2 ^ 63) : (Double.ofInt n).exact.isSome = true := by
  have hn : |(n : ℚ)| ≤ 2 ^ 63 := by exact_mod_cast h
  have hfinite : ∀ r : ℚ, |r| ≤ 2 ^ 64 → ∀ q : ℚ, (if (limit : ℚ) ≤ |r| then infinite (decide (q < 0))
        else finite (decide (q < 0)) |r|).exact.isSome = true := by
    intro r hr q
    have hlimit : (2 : ℚ) ^ 64 < (limit : ℚ) := by
      have hnat : 2 ^ 64 < limit := by decide +kernel
      exact_mod_cast hnat
    rw [if_neg (not_le.mpr (lt_of_le_of_lt hr hlimit))]
    rfl
  unfold Double.ofInt Double.ofRat
  dsimp only
  split
  case isTrue hsmall =>
    -- an integer so small is 0
    have hlow : |(n : ℚ)| < 1 := by
      have hone : (1 : ℚ) ≤ (normalScale : ℚ) := by exact_mod_cast Nat.one_le_two_pow
      exact lt_of_le_of_lt (le_mul_of_one_le_right (abs_nonneg _) hone) hsmall
    have hzero : n = 0 := Int.abs_lt_one_iff.mp (by exact_mod_cast hlow)
    subst hzero
    have hround : roundHalfEven (((0 : ℤ) : ℚ) * subnormalScale) = 0 := by
      rw [Int.cast_zero, zero_mul]
      exact roundHalfEven_of_near (by norm_num)
    refine hfinite _ ?_ _
    rw [hround, Int.cast_zero, zero_div, abs_zero]
    norm_num
  case isFalse =>
    have herr := abs_toDouble_sub_le (n : ℚ)
    refine hfinite _ ?_ _
    calc |Lib.toDouble (n : ℚ)| = |(Lib.toDouble (n : ℚ) - n) + n| := by rw [sub_add_cancel]
      _ ≤ |Lib.toDouble (n : ℚ) - n| + |(n : ℚ)| := abs_add_le _ _
      _ ≤ |(n : ℚ)| / 2 ^ 53 + |(n : ℚ)| := add_le_add_left herr _
      _ ≤ |(n : ℚ)| + |(n : ℚ)| := add_le_add_left (div_le_self (abs_nonneg _) (by norm_num)) _
      _ ≤ 2 ^ 63 + 2 ^ 63 := add_le_add hn hn
      _ = 2 ^ 64 := by norm_num

end TraxJourney.Lib
