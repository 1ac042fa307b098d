/-
  File:      Lib/Words.lean
  Subject:   Fixed-width words as little-endian bytes, as a packed record keeps them.

  * `ofWords`, `toWords` -- a sequence of words of one width; **`toWords_ofWords`**,
    **`ofWords_toWords`** -- inverse to each other again, whatever follows the words.
-/
import Mathlib.Algebra.Group.Nat.Defs
import Mathlib.Data.List.Basic

namespace TraxJourney.Lib

/-! ## 1. One word -/

/-- The lowest `w` bytes of a number, lowest first. -/
def leBytes : ℕ → ℕ → List UInt8
  | 0, _ => []
  | w + 1, n => UInt8.ofNat n :: leBytes w (n / 256)

/-- The number that bytes stand for. -/
def leNat : List UInt8 → ℕ
  | [] => 0
  | b :: bs => b.toNat + 256 * leNat bs

@[simp] theorem length_leBytes (w n : ℕ) : (leBytes w n).length = w := by
  induction w generalizing n with
  | zero => rfl
  | succ w ih => simp [leBytes, ih]

theorem leNat_lt (bs : List UInt8) : leNat bs < 256 ^ bs.length := by
  induction bs with
  | nil => simp [leNat]
  | cons b bs ih =>
    have hb : b.toNat < 256 := b.toNat_lt
    rw [leNat, List.length_cons, Nat.pow_succ]
    omega

theorem leNat_leBytes {w n : ℕ} (h : n < 256 ^ w) : leNat (leBytes w n) = n := by
  induction w generalizing n with
  | zero =>
    have hn : n = 0 := by simpa using h
    rw [hn]
    rfl
  | succ w ih =>
    have hhigh : n / 256 < 256 ^ w := by
      rw [Nat.div_lt_iff_lt_mul (by decide), ← Nat.pow_succ]
      exact h
    have hlow : (UInt8.ofNat n).toNat = n % 256 := UInt8.toNat_ofNat' ..
    rw [leBytes, leNat, ih hhigh, hlow]
    omega

theorem leBytes_leNat (bs : List UInt8) : leBytes bs.length (leNat bs) = bs := by
  induction bs with
  | nil => rfl
  | cons b bs ih =>
    have hb : b.toNat < 256 := b.toNat_lt
    have hlow : UInt8.ofNat (b.toNat + 256 * leNat bs) = b := by
      apply UInt8.toNat_inj.mp
      have hofNat : (UInt8.ofNat (b.toNat + 256 * leNat bs)).toNat =
          (b.toNat + 256 * leNat bs) % 256 := UInt8.toNat_ofNat' ..
      rw [hofNat]
      omega
    have hhigh : (b.toNat + 256 * leNat bs) / 256 = leNat bs := by omega
    rw [leNat, List.length_cons, leBytes, hlow, hhigh, ih]

/-! ## 2. Words in sequence -/

/-- The bytes of words of `w` bytes. -/
def ofWords (w : ℕ) (ns : List ℕ) : List UInt8 := ns.flatMap (leBytes w)

/-- `count` words of `w` bytes. -/
def toWords (w : ℕ) : ℕ → List UInt8 → List ℕ
  | 0, _ => []
  | count + 1, bs => leNat (bs.take w) :: toWords w count (bs.drop w)

@[simp] theorem length_toWords (w count : ℕ) (bs : List UInt8) : (toWords w count bs).length = count := by
  induction count generalizing bs with
  | zero => rfl
  | succ count ih => simp [toWords, ih]

@[simp] theorem length_ofWords (w : ℕ) (ns : List ℕ) : (ofWords w ns).length = w * ns.length := by
  induction ns with
  | nil => simp [ofWords]
  | cons n ns ih =>
    have hcons : ofWords w (n :: ns) = leBytes w n ++ ofWords w ns := List.flatMap_cons
    rw [hcons, List.length_append, length_leBytes, ih, List.length_cons, Nat.mul_succ, Nat.add_comm]

theorem toWords_ofWords {w : ℕ} {ns : List ℕ} (h : ∀ n ∈ ns, n < 256 ^ w) (rest : List UInt8) :
    toWords w ns.length (ofWords w ns ++ rest) = ns := by
  induction ns with
  | nil => rfl
  | cons n ns ih =>
    have hcons : ofWords w (n :: ns) ++ rest = leBytes w n ++ (ofWords w ns ++ rest) := by
      rw [← List.append_assoc]
      rfl
    have hlen : (leBytes w n).length = w := length_leBytes w n
    rw [List.length_cons, hcons, toWords, List.take_left' hlen, List.drop_left' hlen,
      leNat_leBytes (h n List.mem_cons_self), ih fun m hm => h m (List.mem_cons_of_mem _ hm)]

theorem ofWords_toWords {w count : ℕ} {bs : List UInt8} (h : bs.length = w * count) :
    ofWords w (toWords w count bs) = bs := by
  induction count generalizing bs with
  | zero =>
    have hbs : bs = [] := List.eq_nil_of_length_eq_zero (by simpa using h)
    rw [hbs]
    rfl
  | succ count ih =>
    rw [Nat.mul_succ] at h
    have htake : (bs.take w).length = w := by
      rw [List.length_take]
      omega
    have hdrop : (bs.drop w).length = w * count := by
      rw [List.length_drop]
      omega
    have hcons : ofWords w (leNat (bs.take w) :: toWords w count (bs.drop w)) =
        leBytes w (leNat (bs.take w)) ++ ofWords w (toWords w count (bs.drop w)) :=
      List.flatMap_cons
    have hfirst : leBytes w (leNat (bs.take w)) = bs.take w := by
      have hback := leBytes_leNat (bs.take w)
      rwa [htake] at hback
    rw [toWords, hcons, ih hdrop, hfirst, List.take_append_drop]

theorem toWords_lt {w count : ℕ} {bs : List UInt8} : ∀ n ∈ toWords w count bs, n < 256 ^ w := by
  induction count generalizing bs with
  | zero => exact fun n hn => absurd hn List.not_mem_nil
  | succ count ih =>
    intro n hn
    rw [toWords] at hn
    rcases List.mem_cons.mp hn with rfl | hn
    · have hlt := leNat_lt (bs.take w)
      have hle : (bs.take w).length ≤ w := by
        rw [List.length_take]
        omega
      exact Nat.lt_of_lt_of_le hlt (Nat.pow_le_pow_right (by decide) hle)
    · exact ih n hn

/-! ## 3. Two's complement -/

/-- A number as the word of its two's complement, of `2 * h` values. -/
def toTwos (h : ℕ) (k : ℤ) : ℕ := (k % (2 * h)).toNat

/-- The number that a word stands for. -/
def fromTwos (h n : ℕ) : ℤ := if n < h then n else n - 2 * h

theorem toTwos_lt {h : ℕ} (hpos : 0 < h) (k : ℤ) : toTwos h k < 2 * h := by
  have hlow := Int.emod_nonneg k (b := 2 * h) (by omega)
  have hhigh := Int.emod_lt_of_pos k (b := 2 * h) (by omega)
  unfold toTwos
  omega

theorem fromTwos_toTwos {h : ℕ} {k : ℤ} (hlow : -h ≤ k) (hhigh : k < h) : fromTwos h (toTwos h k) = k := by
  unfold fromTwos toTwos
  rcases Int.lt_or_le k 0 with hneg | hpos
  · have hmod : k % (2 * h) = k + 2 * h := by
      rw [← Int.add_emod_right]
      exact Int.emod_eq_of_lt (by omega) (by omega)
    rw [hmod]
    split <;> omega
  · have hmod : k % (2 * h) = k := Int.emod_eq_of_lt hpos (by omega)
    rw [hmod]
    split <;> omega

theorem toTwos_fromTwos {h n : ℕ} (hn : n < 2 * h) : toTwos h (fromTwos h n) = n := by
  unfold fromTwos toTwos
  split
  case isTrue hlt =>
    rw [Int.emod_eq_of_lt (by omega) (by omega)]
    omega
  case isFalse hge =>
    have hmod : ((n : ℤ) - 2 * h) % (2 * h) = n := by
      rw [← Int.add_emod_right, Int.sub_add_cancel]
      exact Int.emod_eq_of_lt (by omega) (by omega)
    rw [hmod]
    omega

theorem fromTwos_range {h n : ℕ} (hn : n < 2 * h) : -h ≤ fromTwos h n ∧ fromTwos h n < h := by
  unfold fromTwos
  split <;> omega

end TraxJourney.Lib
