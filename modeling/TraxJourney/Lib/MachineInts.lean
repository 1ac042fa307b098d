/-
  File:      Lib/MachineInts.lean
  Subject:   The integers of a language that runs in two ways: with words of 64 bits, and with doubles
             and the bit operations of 32 bits.

  * `MachineInts.Exact` -- that small operands are calculated with as integers are;
    **`words_exact`**, **`doubles_exact`** -- both of them do.
-/
import Mathlib.Data.Rat.Floor
import TraxJourney.Lib.Doubles

namespace TraxJourney.Lib

/-- The integers as one way of running calculates with them. -/
structure MachineInts where
  /-- What is kept of a sum, a difference or a product. -/
  wrap : ℤ → ℤ
  /-- `a ~/ b`. -/
  tdiv : ℤ → ℤ → ℤ
  /-- `a & b`. -/
  and : ℤ → ℤ → ℤ
  /-- `a << n`. -/
  shl : ℤ → ℕ → ℤ
  /-- `x.round()` of a double. -/
  round : ℚ → ℤ

namespace MachineInts

/-! ## 1. The two ways -/

/-- Words of 64 bits, with a sign. -/
def words : MachineInts where
  wrap x := (BitVec.ofInt 64 x).toInt
  tdiv a b := (BitVec.ofInt 64 (a.tdiv b)).toInt
  and a b := (BitVec.ofInt 64 a &&& BitVec.ofInt 64 b).toInt
  shl a n := (BitVec.ofInt 64 a <<< n).toInt
  round x := max (-2 ^ 63) (min (roundHalfAway x) (2 ^ 63 - 1))

/-- What a number is without its places behind the point. -/
def truncate (x : ℚ) : ℤ := if 0 ≤ x then ⌊x⌋ else ⌈x⌉

/-- Doubles, whose bit operations are of 32 bits without a sign. -/
def doubles : MachineInts where
  wrap x := truncate (toDouble (x : ℚ))
  tdiv a b := truncate (toDouble ((a : ℚ) / b))
  and a b := (BitVec.ofInt 32 a &&& BitVec.ofInt 32 b).toNat
  shl a n := (BitVec.ofInt 32 a <<< n).toNat
  round := roundHalfAway

/-! ## 2. Small operands -/

/-- Operands below `2 ^ 31` are calculated with as integers are. -/
structure Exact (N : MachineInts) : Prop where
  wrap_eq : ∀ {x : ℤ}, |x| < 2 ^ 31 → N.wrap x = x
  tdiv_eq : ∀ {x : ℕ} (k : ℕ), x < 2 ^ 31 → N.tdiv x (2 ^ k : ℕ) = (x / 2 ^ k : ℕ)
  and_eq : ∀ {x : ℕ} {k : ℕ}, x < 2 ^ 31 → k ≤ 30 → N.and x (2 ^ k - 1 : ℕ) = (x % 2 ^ k : ℕ)
  shl_eq : ∀ {k : ℕ}, k ≤ 30 → N.shl 1 k = (2 ^ k : ℕ)
  round_eq : ∀ {x : ℚ} {k : ℤ}, |k| < 2 ^ 31 → |x - k| < 1 / 2 → N.round x = k

theorem toInt_ofInt_small {x : ℤ} (h : |x| < 2 ^ 31) : (BitVec.ofInt 64 x).toInt = x := by
  have habs := abs_lt.mp h
  rw [BitVec.toInt_ofInt]
  exact Int.bmod_eq_of_le (by norm_num; omega) (by norm_num; omega)

theorem toNat_and_mask {w x k : ℕ} (hx : x < 2 ^ w) (hk : k < w) :
    (BitVec.ofInt w (x : ℤ) &&& BitVec.ofInt w ((2 ^ k - 1 : ℕ) : ℤ)).toNat = x % 2 ^ k := by
  have hmask : 2 ^ k - 1 < 2 ^ w := lt_of_le_of_lt (Nat.sub_le _ _) (Nat.pow_lt_pow_right (by decide) hk)
  rw [BitVec.toNat_and, BitVec.ofInt_natCast, BitVec.ofInt_natCast, BitVec.toNat_ofNat,
    BitVec.toNat_ofNat, Nat.mod_eq_of_lt hx, Nat.mod_eq_of_lt hmask, Nat.and_two_pow_sub_one_eq_mod]

theorem toNat_shl_one {w k : ℕ} (hk : k < w) : (BitVec.ofInt w 1 <<< k).toNat = 2 ^ k := by
  have hone : BitVec.ofInt w 1 = BitVec.ofNat w 1 := BitVec.ofInt_natCast w 1
  rw [hone, BitVec.toNat_shiftLeft, BitVec.toNat_ofNat, Nat.one_mod_two_pow (by omega), Nat.one_shiftLeft,
    Nat.mod_eq_of_lt (Nat.pow_lt_pow_right (by decide) hk)]

theorem toInt_of_toNat {b : BitVec 64} {n : ℕ} (h : b.toNat = n) (hn : n < 2 ^ 31) : b.toInt = n := by
  rw [BitVec.toInt_eq_toNat_of_lt (by omega), h]

theorem words_exact : words.Exact where
  wrap_eq h := toInt_ofInt_small h
  tdiv_eq {x} k hx := by
    have hdiv : ((x : ℤ)).tdiv ((2 ^ k : ℕ) : ℤ) = ((x / 2 ^ k : ℕ) : ℤ) := (Int.ofNat_tdiv _ _).symm
    have hle : x / 2 ^ k ≤ x := Nat.div_le_self _ _
    show (BitVec.ofInt 64 _).toInt = _
    rw [hdiv]
    exact toInt_ofInt_small (by rw [abs_of_nonneg (Int.natCast_nonneg _)]; exact_mod_cast hle.trans_lt hx)
  and_eq {x k} hx hk :=
    toInt_of_toNat (toNat_and_mask (hx.trans (by decide)) (by omega)) ((Nat.mod_le _ _).trans_lt hx)
  shl_eq {k} hk := toInt_of_toNat (toNat_shl_one (by omega)) (Nat.pow_lt_pow_right (by decide) (by omega))
  round_eq {x k} hk hx := by
    have habs := abs_lt.mp hk
    show max (-2 ^ 63) (min (roundHalfAway x) (2 ^ 63 - 1)) = k
    rw [roundHalfAway_of_near hx]
    omega

theorem truncate_int (n : ℤ) : truncate n = n := by
  unfold truncate
  split
  · exact Int.floor_intCast n
  · exact Int.ceil_intCast n

theorem doubles_exact : doubles.Exact where
  wrap_eq {x} h := by
    show truncate (toDouble (x : ℚ)) = x
    rw [toDouble_int (h.trans (by norm_num)), truncate_int]
  tdiv_eq {x} k hx := by
    have hbits : |(x : ℤ)| < 2 ^ 53 := by
      rw [abs_of_nonneg (Int.natCast_nonneg _)]
      exact_mod_cast hx.trans (by norm_num)
    have hexact : toDouble ((x : ℚ) / 2 ^ k) = (x : ℚ) / 2 ^ k := by
      have hdyadic := toDouble_dyadic (K := ℚ) k hbits
      rwa [Int.cast_natCast] at hdyadic
    have hcast : ((x : ℤ) : ℚ) / (((2 ^ k : ℕ) : ℤ) : ℚ) = (x : ℚ) / 2 ^ k := by push_cast; rfl
    have hfloor : ⌊(x : ℚ) / 2 ^ k⌋ = ((x / 2 ^ k : ℕ) : ℤ) := by
      have hdiv := Rat.floor_natCast_div_natCast x (2 ^ k)
      rw [Nat.cast_pow, Nat.cast_ofNat] at hdiv
      rw [hdiv]
      exact_mod_cast rfl
    show truncate (toDouble (((x : ℤ) : ℚ) / (((2 ^ k : ℕ) : ℤ) : ℚ))) = _
    rw [hcast, hexact, truncate, if_pos (by positivity), hfloor]
  and_eq hx hk := congrArg Nat.cast (toNat_and_mask (hx.trans (by decide)) (by omega))
  shl_eq hk := congrArg Nat.cast (toNat_shl_one (by omega))
  round_eq _ hx := roundHalfAway_of_near hx

end MachineInts

end TraxJourney.Lib
