/-
  File:      Lib/FloatText.lean
  Subject:   Numbers as text: integers, and doubles as the shortest decimal that stands for them.

  * `strip` -- a text without the blanks at both ends; **`strip_of_read`** -- a decimal text has none.
-/
import Mathlib.Data.List.TakeWhile
import TraxJourney.Lib.IsoTime
import TraxJourney.Lib.Numbers

namespace TraxJourney.Lib

/-! ## 1. Reading -/

/-- Some digits, with the point moved. -/
def decimal (digits : List Char) (exponent : ℤ) : ℚ :=
  (Nat.ofDigitChars 10 digits 0 : ℚ) * ((10 : ℕ) : ℚ) ^ exponent

def readDigitsOnly (cs : List Char) : Option ℕ :=
  if cs ≠ [] ∧ cs.all Char.isDigit = true then some (Nat.ofDigitChars 10 cs 0) else none

/-- What follows the digits of a number, to the end. -/
def readExponent : List Char → Option ℤ
  | [] => some 0
  | 'e' :: '-' :: cs => (readDigitsOnly cs).map fun (n : ℕ) => -(n : ℤ)
  | 'e' :: '+' :: cs => (readDigitsOnly cs).map fun (n : ℕ) => (n : ℤ)
  | 'e' :: cs => (readDigitsOnly cs).map fun (n : ℕ) => (n : ℤ)
  | _ => none

/-- Digits, with a point between them or without one, and an exponent or none. -/
def readUnsigned (cs : List Char) : Option Double :=
  let whole := cs.takeWhile Char.isDigit
  if whole = [] then none
  else
    match cs.dropWhile Char.isDigit with
    | '.' :: rest =>
      let places := rest.takeWhile Char.isDigit
      if places = [] then none
      else (readExponent (rest.dropWhile Char.isDigit)).map fun exponent =>
        .ofRat (decimal (whole ++ places) (exponent - places.length))
    | rest => (readExponent rest).map fun exponent => .ofRat (decimal whole exponent)

/-- `float(text)`, of a plain decimal text. -/
def readDecimal : List Char → Option Double
  | '-' :: cs => (readUnsigned cs).map .neg
  | cs => readUnsigned cs

/-! ## 2. Writing -/

/-- `str(n)`. -/
def intText : ℤ → List Char
  | .ofNat n => Nat.toDigits 10 n
  | .negSucc n => '-' :: Nat.toDigits 10 (n + 1)

/-- An exponent, of two digits or more. -/
def exponentText (exponent : ℤ) : List Char :=
  (if exponent < 0 then '-' else '+') ::
    (if exponent.natAbs < 10 then '0' :: Nat.toDigits 10 exponent.natAbs
      else Nat.toDigits 10 exponent.natAbs)

/-- Digits with the point after so many of them. -/
def placed (digits : List Char) (point : ℤ) : List Char :=
  if point ≤ -4 ∨ 16 < point then
    digits.take 1 ++ (if digits.length ≤ 1 then [] else '.' :: digits.drop 1) ++
      'e' :: exponentText (point - 1)
  else if point ≤ 0 then '0' :: '.' :: (List.replicate (-point).toNat '0' ++ digits)
  else if digits.length ≤ point then
    digits ++ List.replicate (point - digits.length).toNat '0' ++ ['.', '0']
  else digits.take point.toNat ++ '.' :: digits.drop point.toNat

/-- The two texts of so many digits next to a number, the nearer one first. -/
def forms (magnitude : ℚ) (count : ℕ) : List (List Char) :=
  let shift : ℤ := Int.log 10 magnitude + 1 - count
  let scaled := magnitude / ((10 : ℕ) : ℚ) ^ shift
  let near := roundHalfEven scaled
  let other := if (near : ℚ) ≤ scaled then near + 1 else near - 1
  [near, other].map fun k =>
    let digits := Nat.toDigits 10 k.toNat
    placed ((digits.reverse.dropWhile (· = '0')).reverse) (digits.length + shift)

/-- Decimal places that every double ends within. -/
def exactPlaces : ℕ := 1074

/-- All places of a number. -/
def exactForm (magnitude : ℚ) : List Char :=
  let scaled := ⌊magnitude * ((10 ^ exactPlaces : ℕ) : ℚ)⌋.toNat
  Nat.toDigits 10 (scaled / 10 ^ exactPlaces) ++ '.' :: digits exactPlaces (scaled % 10 ^ exactPlaces)

/-- The first text, from one digit to seventeen, that stands for the number. -/
def shortest (magnitude : ℚ) : List Char :=
  if magnitude = 0 then ['0', '.', '0']
  else (((List.range' 1 17).flatMap (forms magnitude)).find? fun text =>
    decide (readUnsigned text = some (.finite false magnitude))).getD (exactForm magnitude)

/-- `repr(x)`. -/
def Double.repr : Double → List Char
  | .finite negative magnitude => if negative then '-' :: shortest magnitude else shortest magnitude
  | .infinite negative => if negative then ['-', 'i', 'n', 'f'] else ['i', 'n', 'f']
  | .nan => ['n', 'a', 'n']

/-- A double of 64 bits: its magnitude is not rounded any more. -/
def Double.Proper : Double → Prop
  | .finite _ magnitude => Double.ofRat magnitude = .finite false magnitude
  | _ => True

instance : (d : Double) → Decidable d.Proper
  | .finite _ magnitude => inferInstanceAs (Decidable (Double.ofRat magnitude = .finite false magnitude))
  | .infinite _ => isTrue trivial
  | .nan => isTrue trivial

/-! ## 3. Read back -/

theorem isDigit_digitChar (n : ℕ) : (digitChar n).isDigit = true := by
  have hlt : n % 10 < 10 := Nat.mod_lt _ (by decide)
  unfold digitChar
  generalize n % 10 = d at hlt
  revert hlt d
  decide

theorem isDigit_digits (w n : ℕ) : ∀ c ∈ digits w n, c.isDigit = true := by
  induction w generalizing n with
  | zero => exact fun c hc => absurd hc List.not_mem_nil
  | succ w ih =>
    intro c hc
    rcases List.mem_append.mp hc with hc | hc
    · exact ih (n / 10) c hc
    · exact List.mem_singleton.mp hc ▸ isDigit_digitChar n

theorem isDigit_toDigits (n : ℕ) : ∀ c ∈ Nat.toDigits 10 n, c.isDigit = true :=
  fun _ hc => Nat.isDigit_of_mem_toDigits (by decide) (by decide) hc

theorem ofDigitChars_digits (w n init : ℕ) :
    Nat.ofDigitChars 10 (digits w n) init = init * 10 ^ w + n % 10 ^ w := by
  have hlast : ∀ n m, Nat.ofDigitChars 10 [digitChar n] m = 10 * m + n % 10 := by
    intro n m
    have hlt : n % 10 < 10 := Nat.mod_lt _ (by decide)
    rw [Nat.ofDigitChars_cons, Nat.ofDigitChars_nil]
    unfold digitChar
    generalize n % 10 = d at hlt
    congr 1
    revert hlt d
    decide
  induction w generalizing n with
  | zero => simp [digits, Nat.mod_one]
  | succ w ih =>
    rw [digits, Nat.ofDigitChars_append, ih, hlast, Nat.pow_succ, Nat.mul_comm (10 ^ w) 10, Nat.mod_mul]
    ring

variable {whole : List Char}

theorem takeWhile_digits (rest : List Char) {mark : Char} (hwhole : ∀ c ∈ whole, c.isDigit = true)
    (hmark : mark.isDigit = false) :
    (whole ++ mark :: rest).takeWhile Char.isDigit = whole ∧
      (whole ++ mark :: rest).dropWhile Char.isDigit = mark :: rest := by
  rw [List.takeWhile_append_of_pos hwhole, List.dropWhile_append_of_pos hwhole,
    List.takeWhile_cons_of_neg (by simp [hmark]), List.append_nil,
    List.dropWhile_cons_of_neg (by simp [hmark])]
  exact ⟨rfl, rfl⟩

theorem takeWhile_all (hwhole : ∀ c ∈ whole, c.isDigit = true) :
    whole.takeWhile Char.isDigit = whole ∧ whole.dropWhile Char.isDigit = [] :=
  ⟨List.takeWhile_eq_self_iff.mpr hwhole, List.dropWhile_eq_nil_iff.mpr hwhole⟩

theorem readUnsigned_whole (hne : whole ≠ []) (hwhole : ∀ c ∈ whole, c.isDigit = true) :
    readUnsigned whole = some (.ofRat (Nat.ofDigitChars 10 whole 0)) := by
  obtain ⟨htake, hdrop⟩ := takeWhile_all hwhole
  unfold readUnsigned
  dsimp only
  rw [htake, hdrop, if_neg hne]
  show some (Double.ofRat (decimal whole 0)) = _
  rw [decimal, zpow_zero, mul_one]

theorem readUnsigned_point {places : List Char} (hne : whole ≠ []) (hplaces : places ≠ [])
    (hwhole : ∀ c ∈ whole, c.isDigit = true) (hdigits : ∀ c ∈ places, c.isDigit = true) :
    readUnsigned (whole ++ '.' :: places) =
      some (.ofRat (decimal (whole ++ places) (-(places.length : ℤ)))) := by
  obtain ⟨htake, hdrop⟩ := takeWhile_digits places hwhole (show '.'.isDigit = false by decide)
  obtain ⟨htake', hdrop'⟩ := takeWhile_all hdigits
  unfold readUnsigned
  dsimp only
  rw [htake, hdrop, if_neg hne]
  show (if places.takeWhile Char.isDigit = [] then none else _) = _
  rw [htake', hdrop', if_neg hplaces]
  show some (Double.ofRat (decimal _ (0 - _))) = _
  rw [zero_sub]

variable {cs : List Char} {d : Double}

theorem readDecimal_unsigned (h : readUnsigned cs = some d) :
    readDecimal cs = some d := by
  unfold readDecimal
  split
  case h_1 cs =>
    have hnone : readUnsigned ('-' :: cs) = none := rfl
    rw [hnone] at h
    cases h
  case h_2 => exact h

theorem zpow_mul_pow {z : ℤ} {p e : ℕ} (h : z + p = e) :
    ((2 : ℕ) : ℚ) ^ z * ((2 ^ p : ℕ) : ℚ) = ((2 ^ e : ℕ) : ℚ) := by
  have hne : ((2 : ℕ) : ℚ) ≠ 0 := by norm_num
  rw [Nat.cast_pow, Nat.cast_pow, ← zpow_natCast, ← zpow_natCast, ← zpow_add₀ hne, h]

theorem le_log_of_scaled {x : ℚ} (hx : 0 < x) {n scale : ℕ} (hscale : scale = 2 ^ n)
    (h : 1 ≤ x * scale) : -(n : ℤ) ≤ Int.log 2 x := by
  subst hscale
  by_contra hlow
  have hsmall := (Int.lt_zpow_iff_log_lt (by decide) hx).mpr (not_le.mp hlow)
  have hone := zpow_mul_pow (show -(n : ℤ) + n = (0 : ℕ) by omega)
  rw [Nat.pow_zero, Nat.cast_one] at hone
  have hlt := mul_lt_mul_of_pos_right hsmall (Nat.cast_pos.mpr (Nat.two_pow_pos n))
  rw [hone] at hlt
  exact not_le.mpr hlt h

variable {magnitude : ℚ}

theorem places_of_proper (h : Double.ofRat magnitude = .finite false magnitude) :
    ∃ scaled : ℕ, magnitude * ((2 ^ exactPlaces : ℕ) : ℚ) = scaled := by
  have hkept : ∀ rounded : ℚ, (if (Double.limit : ℚ) ≤ |rounded| then
      Double.infinite (decide (magnitude < 0)) else .finite (decide (magnitude < 0)) |rounded|) =
        .finite false magnitude → magnitude = |rounded| := by
    intro rounded h
    split at h
    case isTrue => cases h
    case isFalse => exact (Double.finite.inj h).2.symm
  have hplaces : (0 : ℚ) < ((2 ^ exactPlaces : ℕ) : ℚ) := Nat.cast_pos.mpr (Nat.two_pow_pos _)
  unfold Double.ofRat at h
  dsimp only at h
  split at h
  case isTrue =>
    -- below the normal range: a multiple of the smallest number
    have hvalue := hkept _ h
    refine ⟨(roundHalfEven (magnitude * Double.subnormalScale)).natAbs, ?_⟩
    have hscale : (Double.subnormalScale : ℚ) = ((2 ^ exactPlaces : ℕ) : ℚ) := by
      simp only [Double.subnormalScale, exactPlaces]
    rw [hscale] at hvalue ⊢
    rw [Nat.cast_natAbs, Int.cast_abs]
    nth_rewrite 1 [hvalue]
    rw [abs_div, abs_of_pos hplaces, div_mul_cancel₀ _ hplaces.ne']
  case isFalse hnormal =>
    have hvalue := hkept _ h
    have hne : magnitude ≠ 0 := by
      rintro rfl
      rw [abs_zero, zero_mul] at hnormal
      exact hnormal one_pos
    have hlog := le_log_of_scaled (abs_pos.mpr hne) (show Double.normalScale = 2 ^ 1022 from rfl)
      (not_lt.mp hnormal)
    obtain ⟨e, he⟩ := Int.le.dest hlog
    -- the last of its bits stands within the places
    have hlast : lastPlace magnitude * ((2 ^ exactPlaces : ℕ) : ℚ) = ((2 ^ e : ℕ) : ℚ) :=
      zpow_mul_pow (by unfold exactPlaces; omega)
    refine ⟨(roundHalfEven (magnitude / lastPlace magnitude)).natAbs * 2 ^ e, ?_⟩
    have hdouble : toDouble magnitude =
        roundHalfEven (magnitude / lastPlace magnitude) * lastPlace magnitude := if_neg hne
    rw [Nat.cast_mul, Nat.cast_natAbs, Int.cast_abs, ← hlast, ← mul_assoc]
    nth_rewrite 1 [hvalue]
    rw [hdouble, abs_mul, abs_of_pos (lastPlace_pos magnitude)]

theorem readUnsigned_exactForm (h : Double.ofRat magnitude = .finite false magnitude) :
    readUnsigned (exactForm magnitude) = some (.finite false magnitude) := by
  obtain ⟨k, hk⟩ := places_of_proper h
  -- twice as many factors of 10: the places are those of an integer
  have hscaled : magnitude * ((10 ^ exactPlaces : ℕ) : ℚ) = ((k * 5 ^ exactPlaces : ℕ) : ℚ) := by
    have hten : (10 : ℕ) ^ exactPlaces = 2 ^ exactPlaces * 5 ^ exactPlaces := by rw [← Nat.mul_pow]
    rw [hten, Nat.cast_mul, Nat.cast_mul, ← mul_assoc, hk]
  have hfloor : ⌊magnitude * ((10 ^ exactPlaces : ℕ) : ℚ)⌋.toNat = k * 5 ^ exactPlaces := by
    rw [hscaled, Int.floor_natCast, Int.toNat_natCast]
  have hpos : 0 < exactPlaces := by decide
  have hplaces : digits exactPlaces (k * 5 ^ exactPlaces % 10 ^ exactPlaces) ≠ [] := by
    intro hnil
    have hlength := length_digits exactPlaces (k * 5 ^ exactPlaces % 10 ^ exactPlaces)
    rw [hnil, List.length_nil] at hlength
    omega
  unfold exactForm
  dsimp only
  rw [hfloor, readUnsigned_point Nat.toDigits_ne_nil hplaces (isDigit_toDigits _) (isDigit_digits _ _),
    decimal, Nat.ofDigitChars_append, Nat.ofDigitChars_ten_toDigits, ofDigitChars_digits, length_digits,
    Nat.mod_mod, Nat.div_add_mod', ← hscaled, mul_assoc, Nat.cast_pow, ← zpow_natCast,
    ← zpow_add₀ (by norm_num), add_neg_cancel, zpow_zero, mul_one, h]

theorem readUnsigned_shortest (h : Double.ofRat magnitude = .finite false magnitude) :
    readUnsigned (shortest magnitude) = some (.finite false magnitude) := by
  unfold shortest
  split
  case isTrue hzero =>
    subst hzero
    decide +kernel
  case isFalse =>
    cases hfind : ((List.range' 1 17).flatMap (forms magnitude)).find? fun text =>
        decide (readUnsigned text = some (.finite false magnitude)) with
    | none => exact readUnsigned_exactForm h
    | some text =>
      have hread := List.find?_some hfind
      exact of_decide_eq_true hread

theorem readDecimal_repr {negative : Bool} (h : (Double.finite negative magnitude).Proper) :
    readDecimal (Double.finite negative magnitude).repr = some (.finite negative magnitude) := by
  have hread := readUnsigned_shortest h
  unfold Double.repr
  cases negative with
  | false => exact readDecimal_unsigned hread
  | true =>
    show (readUnsigned (shortest magnitude)).map Double.neg = _
    rw [hread]
    rfl

/-! ## 4. Small integers -/

theorem ofRat_nat {n : ℕ} (h : n < 2 ^ 53) : Double.ofRat n = .finite false n := by
  have hlimit : ∀ r : ℚ, r = n → (if (Double.limit : ℚ) ≤ |r| then
      Double.infinite (decide ((n : ℚ) < 0)) else .finite (decide ((n : ℚ) < 0)) |r|) =
        .finite false n := by
    rintro r rfl
    have hlt : (n : ℚ) < (Double.limit : ℚ) := by
      have hnat : 2 ^ 53 < Double.limit := by decide +kernel
      exact_mod_cast lt_trans h hnat
    rw [abs_of_nonneg (Nat.cast_nonneg n), if_neg (not_le.mpr hlt),
      decide_eq_false (not_lt.mpr (Nat.cast_nonneg n))]
  unfold Double.ofRat
  dsimp only
  refine hlimit _ ?_
  split
  case isTrue hsmall =>
    have hzero : n = 0 := by
      by_contra hne
      have hone : (1 : ℚ) ≤ |(n : ℚ)| := by
        rw [abs_of_nonneg (Nat.cast_nonneg n)]
        exact_mod_cast Nat.one_le_iff_ne_zero.mpr hne
      have hscale : (1 : ℚ) ≤ (Double.normalScale : ℚ) := by
        have hpow : ∀ k : ℕ, (1 : ℚ) ≤ ((2 ^ k : ℕ) : ℚ) := fun k => Nat.one_le_cast.mpr (Nat.two_pow_pos k)
        exact hpow 1022
      exact not_lt.mpr (one_le_mul_of_one_le_of_one_le hone hscale) hsmall
    subst hzero
    have hround : roundHalfEven (((0 : ℕ) : ℚ) * Double.subnormalScale) = 0 := by
      rw [Nat.cast_zero, zero_mul]
      exact roundHalfEven_of_near (by norm_num)
    rw [hround, Int.cast_zero, zero_div, Nat.cast_zero]
  case isFalse =>
    have habs : |(n : ℤ)| < 2 ^ 53 := by
      rw [abs_of_nonneg (Int.natCast_nonneg n)]
      exact_mod_cast h
    exact_mod_cast toDouble_int habs

theorem readDecimal_natText {n : ℕ} (h : n < 2 ^ 53) : readDecimal (intText n) = some (.finite false n) := by
  refine readDecimal_unsigned ?_
  show readUnsigned (Nat.toDigits 10 n) = _
  rw [readUnsigned_whole Nat.toDigits_ne_nil (isDigit_toDigits n), Nat.ofDigitChars_ten_toDigits, ofRat_nat h]

/-! ## 5. Blanks -/

/-- `c.isspace()`. -/
def isSpace (c : Char) : Bool :=
  (9 ≤ c.toNat && c.toNat ≤ 13) || (28 ≤ c.toNat && c.toNat ≤ 32) || (8192 ≤ c.toNat && c.toNat ≤ 8202) ||
    [133, 160, 5760, 8232, 8233, 8239, 8287, 12288].contains c.toNat

/-- `text.strip()`. -/
def strip (cs : List Char) : List Char := ((cs.dropWhile isSpace).reverse.dropWhile isSpace).reverse

theorem strip_of_no_space (h : ∀ c ∈ cs, isSpace c = false) : strip cs = cs := by
  have hdrop : ∀ l : List Char, (∀ c ∈ l, isSpace c = false) → l.dropWhile isSpace = l := by
    intro l hl
    cases l with
    | nil => rfl
    | cons c l => exact List.dropWhile_cons_of_neg (by simp [hl c List.mem_cons_self])
  unfold strip
  rw [hdrop cs h, hdrop cs.reverse fun c hc => h c (List.mem_reverse.mp hc), List.reverse_reverse]

theorem isSpace_digit {c : Char} (h : c.isDigit = true) : isSpace c = false := by
  have hrange := Char.isDigit_iff_toNat.mp h
  change 48 ≤ c.toNat ∧ c.toNat ≤ 57 at hrange
  unfold isSpace
  simp
  omega

theorem no_space_exponent {exponent : ℤ} (h : readExponent cs = some exponent) :
    ∀ c ∈ cs, isSpace c = false := by
  have hdigits : ∀ {ds : List Char} {n : ℕ}, readDigitsOnly ds = some n → ∀ c ∈ ds, isSpace c = false := by
    intro ds n hread c hc
    unfold readDigitsOnly at hread
    split at hread
    case isTrue hall => exact isSpace_digit (List.all_eq_true.mp hall.2 c hc)
    case isFalse => cases hread
  unfold readExponent at h
  split at h
  · exact fun c hc => absurd hc List.not_mem_nil
  · obtain ⟨n, hn, -⟩ := Option.map_eq_some_iff.mp h
    simpa [isSpace] using hdigits hn
  · obtain ⟨n, hn, -⟩ := Option.map_eq_some_iff.mp h
    simpa [isSpace] using hdigits hn
  · obtain ⟨n, hn, -⟩ := Option.map_eq_some_iff.mp h
    simpa [isSpace] using hdigits hn
  · cases h

theorem no_space_unsigned (h : readUnsigned cs = some d) :
    ∀ c ∈ cs, isSpace c = false := by
  have hwhole : ∀ c ∈ cs.takeWhile Char.isDigit, isSpace c = false :=
    fun c hc => isSpace_digit (List.mem_takeWhile_imp hc)
  have hrest : ∀ c ∈ cs.dropWhile Char.isDigit, isSpace c = false := by
    unfold readUnsigned at h
    dsimp only at h
    split at h
    case isTrue => cases h
    case isFalse =>
      split at h
      case h_1 rest hdrop =>
        split at h
        case isTrue => cases h
        case isFalse =>
          obtain ⟨exponent, hexponent, -⟩ := Option.map_eq_some_iff.mp h
          intro c hc
          rw [hdrop, List.mem_cons, ← List.takeWhile_append_dropWhile (p := Char.isDigit) (l := rest),
            List.mem_append] at hc
          rcases hc with rfl | hplace | hlast
          · rfl
          · exact isSpace_digit (List.mem_takeWhile_imp hplace)
          · exact no_space_exponent hexponent c hlast
      case h_2 rest hdrop hnone =>
        obtain ⟨exponent, hexponent, -⟩ := Option.map_eq_some_iff.mp h
        exact no_space_exponent hexponent
  intro c hc
  rw [← List.takeWhile_append_dropWhile (p := Char.isDigit) (l := cs), List.mem_append] at hc
  exact hc.elim (hwhole c) (hrest c)

theorem strip_of_read (h : readDecimal cs = some d) : strip cs = cs := by
  refine strip_of_no_space ?_
  unfold readDecimal at h
  split at h
  case h_1 cs =>
    obtain ⟨d, hd, -⟩ := Option.map_eq_some_iff.mp h
    simpa [isSpace] using no_space_unsigned hd
  case h_2 => exact no_space_unsigned h

end TraxJourney.Lib
