/-
  File:      Lib/FixedText.lean
  Subject:   Numbers as text with a fixed number of decimal places, in exact arithmetic.

  * **`readFloat_fixedText`** -- a text with fixed places is read as its number.

  Texts with underscores and digits that are not of ASCII are not read.
-/
import TraxJourney.Lib.FloatText

namespace TraxJourney.Lib

/-! ## 1. Writing -/

section Writing

variable {K : Type*} [Field K] [LinearOrder K] [FloorRing K]

/-- How many units of the last place. -/
def units (places : ℕ) (x : K) : ℤ := roundHalfAway (x * ((10 : ℕ) : K) ^ places)

/-- `x.toStringAsFixed(places)`, of one place at least. -/
def fixedText (places : ℕ) (x : K) : List Char :=
  let m := (units places x).natAbs
  (if x < 0 then ['-'] else []) ++
    (Nat.toDigits 10 (m / 10 ^ places) ++ '.' :: digits places (m % 10 ^ places))

/-- The number that the text stands for. -/
def fixed (places : ℕ) (x : K) : ℚ := units places x / ((10 : ℕ) : ℚ) ^ places

variable [IsStrictOrderedRing K] {x : K} {places : ℕ}

theorem abs_sub_roundHalfAway_le (x : K) : |x - roundHalfAway x| ≤ 1 / 2 := by
  unfold roundHalfAway
  rw [Nat.cast_ofNat, abs_le]
  split
  · have hle := Int.floor_le (x + 1 / 2)
    have hlt := Int.lt_floor_add_one (x + 1 / 2)
    constructor <;> linarith
  · have hle := Int.floor_le (-x + 1 / 2)
    have hlt := Int.lt_floor_add_one (-x + 1 / 2)
    push_cast
    constructor <;> linarith

theorem roundHalfAway_neg_of_neg (h : x < 0) : roundHalfAway x ≤ 0 := by
  have hround := abs_le.mp (abs_sub_roundHalfAway_le x)
  have hlt : ((roundHalfAway x : ℤ) : K) < 1 := by linarith
  have hlt' : roundHalfAway x < 1 := by exact_mod_cast hlt
  omega

theorem roundHalfAway_nonneg (h : 0 ≤ x) : 0 ≤ roundHalfAway x := by
  have hround := abs_le.mp (abs_sub_roundHalfAway_le x)
  have hlt : (-1 : K) < (roundHalfAway x : ℤ) := by linarith
  have hlt' : -1 < roundHalfAway x := by exact_mod_cast hlt
  omega

theorem abs_fixed_sub_le (places : ℕ) (x : K) : |x - ((fixed places x : ℚ) : K)| ≤ 1 / 2 / 10 ^ places := by
  have hten : (0 : K) < 10 ^ places := by positivity
  have hround := abs_sub_roundHalfAway_le (x * ((10 : ℕ) : K) ^ places)
  have hfixed : x - ((fixed places x : ℚ) : K) =
      (x * ((10 : ℕ) : K) ^ places - units places x) / 10 ^ places := by
    unfold fixed
    push_cast
    field_simp
  rw [hfixed, abs_div, abs_of_pos hten]
  exact div_le_div_of_nonneg_right hround hten.le

theorem le_fixed {k : ℤ} (h : (k : K) ≤ x) : (k : ℚ) ≤ fixed places x := by
  have hten : (0 : K) < ((10 : ℕ) : K) ^ places := by positivity
  have hround := abs_le.mp (abs_sub_roundHalfAway_le (x * ((10 : ℕ) : K) ^ places))
  have hscaled := mul_le_mul_of_nonneg_right h hten.le
  have hlt : ((k * 10 ^ places : ℤ) : K) < (units places x + 1 : ℤ) := by
    push_cast at hscaled hround ⊢
    unfold units
    push_cast
    linarith
  have hle : k * 10 ^ places ≤ units places x := Int.lt_add_one_iff.mp (by exact_mod_cast hlt)
  unfold fixed
  rw [le_div_iff₀ (by positivity)]
  exact_mod_cast hle

theorem fixed_le {k : ℤ} (h : x ≤ k) : fixed places x ≤ (k : ℚ) := by
  have hten : (0 : K) < ((10 : ℕ) : K) ^ places := by positivity
  have hround := abs_le.mp (abs_sub_roundHalfAway_le (x * ((10 : ℕ) : K) ^ places))
  have hscaled := mul_le_mul_of_nonneg_right h hten.le
  have hlt : ((units places x : ℤ) : K) < (k * 10 ^ places + 1 : ℤ) := by
    push_cast at hscaled hround ⊢
    unfold units
    push_cast
    linarith
  have hle : units places x ≤ k * 10 ^ places := Int.lt_add_one_iff.mp (by exact_mod_cast hlt)
  unfold fixed
  rw [div_le_iff₀ (by positivity)]
  exact_mod_cast hle

theorem fixed_lt_fixed {y : K} (h : x + 1 / 10 ^ places < y) : fixed places x < fixed places y := by
  have hx := abs_le.mp (abs_fixed_sub_le places x)
  have hy := abs_le.mp (abs_fixed_sub_le places y)
  have hhalf : (1 : K) / 2 / 10 ^ places + 1 / 2 / 10 ^ places = 1 / 10 ^ places := by
    rw [← add_div, add_halves]
  have hlt : ((fixed places x : ℚ) : K) < ((fixed places y : ℚ) : K) := by linarith [hx.1, hy.2]
  exact_mod_cast hlt

theorem units_eq_of_sign (places : ℕ) (x : K) :
    units places x = if x < 0 then -((units places x).natAbs : ℤ) else (units places x).natAbs := by
  have hten : (0 : K) < ((10 : ℕ) : K) ^ places := by positivity
  split
  case isTrue h =>
    have hle : units places x ≤ 0 := roundHalfAway_neg_of_neg (mul_neg_of_neg_of_pos h hten)
    omega
  case isFalse h =>
    have hle : 0 ≤ units places x := roundHalfAway_nonneg (mul_nonneg (not_lt.mp h) hten.le)
    omega

end Writing

/-! ## 2. Reading -/

/-- A number without a sign: digits, with a point or without one, and an exponent or none. -/
def readMagnitude (cs : List Char) : Option ℚ :=
  let whole := cs.takeWhile Char.isDigit
  match cs.dropWhile Char.isDigit with
  | '.' :: rest =>
    let places := rest.takeWhile Char.isDigit
    if whole ++ places = [] then none
    else (readExponent (rest.dropWhile Char.isDigit)).map fun exponent =>
      decimal (whole ++ places) (exponent - places.length)
  | rest => if whole = [] then none else (readExponent rest).map fun exponent => decimal whole exponent

/-- The same, or a word for what is not finite. -/
def readSize (cs : List Char) : Option (Option ℚ) :=
  if cs = "inf".toList ∨ cs = "infinity".toList ∨ cs = "nan".toList then some none
  else (readMagnitude cs).map some

/-- `float(text)`: nothing where the text is no number, and `some none` where it is not finite. -/
def readFloat (cs : List Char) : Option (Option ℚ) :=
  match (strip cs).map Char.toLower with
  | '-' :: rest => (readSize rest).map fun x => x.map fun q => -q
  | '+' :: rest => readSize rest
  | rest => readSize rest

/-! ## 3. Read back -/

theorem toLower_of_isDigit {c : Char} (h : c.isDigit = true) : c.toLower = c := by
  have hrange := Char.isDigit_iff_toNat.mp h
  change 48 ≤ c.toNat ∧ c.toNat ≤ 57 at hrange
  unfold Char.toLower
  rw [dif_neg]
  rintro ⟨hlow, -⟩
  have hle : 65 ≤ c.toNat := hlow
  omega

theorem readSize_point {whole places : List Char} (hne : whole ≠ [])
    (hwhole : ∀ c ∈ whole, c.isDigit = true) (hdigits : ∀ c ∈ places, c.isDigit = true) :
    readSize (whole ++ '.' :: places) = some (some (decimal (whole ++ places) (-(places.length : ℤ)))) := by
  obtain ⟨htake, hdrop⟩ := takeWhile_digits places hwhole (show '.'.isDigit = false by decide)
  obtain ⟨htake', hdrop'⟩ := takeWhile_all hdigits
  have hword : ¬ (whole ++ '.' :: places = "inf".toList ∨ whole ++ '.' :: places = "infinity".toList ∨
      whole ++ '.' :: places = "nan".toList) := by
    -- a word has no point
    have hmem : '.' ∈ whole ++ '.' :: places := by simp
    rintro (h | h | h) <;> rw [h] at hmem <;> revert hmem <;> decide
  unfold readSize readMagnitude
  dsimp only
  rw [if_neg hword, htake, hdrop]
  show ((if whole ++ places.takeWhile Char.isDigit = [] then none else _).map some) = _
  rw [htake', hdrop', if_neg (by simp [hne])]
  show some (some (decimal _ (0 - _))) = _
  rw [zero_sub]

theorem readFloat_unsigned {cs : List Char} {c : Char} (hc : c.isDigit = true)
    (hstrip : strip (c :: cs) = c :: cs) (hlower : (c :: cs).map Char.toLower = c :: cs) :
    readFloat (c :: cs) = readSize (c :: cs) := by
  unfold readFloat
  rw [hstrip, hlower]
  split
  case h_1 h =>
    obtain ⟨rfl, -⟩ := List.cons.inj h
    exact absurd hc (by decide)
  case h_2 h =>
    obtain ⟨rfl, -⟩ := List.cons.inj h
    exact absurd hc (by decide)
  case h_3 => rfl

section

variable {K : Type*} [Field K] [LinearOrder K] [FloorRing K] [IsStrictOrderedRing K]

theorem decimal_fixed (places m : ℕ) :
    decimal (Nat.toDigits 10 (m / 10 ^ places) ++ digits places (m % 10 ^ places))
      (-((digits places (m % 10 ^ places)).length : ℤ)) = m / ((10 : ℕ) : ℚ) ^ places := by
  unfold decimal
  rw [Nat.ofDigitChars_append, Nat.ofDigitChars_ten_toDigits, ofDigitChars_digits, length_digits, Nat.mod_mod,
    Nat.div_add_mod', zpow_neg, zpow_natCast, div_eq_mul_inv]

theorem readFloat_fixedText (places : ℕ) (x : K) :
    readFloat (fixedText places x) = some (some (fixed places x)) := by
  have hsign := units_eq_of_sign places x
  unfold fixedText fixed
  dsimp only
  generalize (units places x).natAbs = m at hsign
  have hwhole := isDigit_toDigits (m / 10 ^ places)
  have hdigits := isDigit_digits places (m % 10 ^ places)
  have hne : Nat.toDigits 10 (m / 10 ^ places) ≠ [] := Nat.toDigits_ne_nil
  have hsize := readSize_point hne hwhole hdigits
  rw [decimal_fixed] at hsize
  -- neither a blank nor a capital is in it
  have hplain : ∀ c ∈ Nat.toDigits 10 (m / 10 ^ places) ++ '.' :: digits places (m % 10 ^ places),
      isSpace c = false ∧ c.toLower = c := by
    intro c hc
    rcases List.mem_append.mp hc with hc | hc
    · exact ⟨isSpace_digit (hwhole c hc), toLower_of_isDigit (hwhole c hc)⟩
    · rcases List.mem_cons.mp hc with rfl | hc
      · exact ⟨by decide, by decide⟩
      · exact ⟨isSpace_digit (hdigits c hc), toLower_of_isDigit (hdigits c hc)⟩
  generalize hcs : Nat.toDigits 10 (m / 10 ^ places) ++ '.' :: digits places (m % 10 ^ places) = cs at *
  have hlower : cs.map Char.toLower = cs := (List.map_congr_left fun c hc => (hplain c hc).2).trans (List.map_id' cs)
  split at hsign
  case isTrue h =>
    rw [if_pos h]
    have hspace : ∀ c ∈ '-' :: cs, isSpace c = false := by
      intro c hc
      rcases List.mem_cons.mp hc with rfl | hc
      · decide
      · exact (hplain c hc).1
    show readFloat ('-' :: cs) = _
    unfold readFloat
    rw [strip_of_no_space hspace, List.map_cons, hlower]
    show (readSize cs).map _ = _
    rw [hsize, hsign]
    push_cast
    simp [neg_div]
  case isFalse h =>
    rw [if_neg h, List.nil_append, hsign]
    obtain ⟨c, rest, hfirst⟩ := List.exists_cons_of_ne_nil hne
    have hc : c.isDigit = true := hwhole c (hfirst ▸ List.mem_cons_self)
    rw [hfirst, List.cons_append] at hcs
    rw [← hcs] at hsize hlower hplain ⊢
    rw [readFloat_unsigned hc (strip_of_no_space fun c hc => (hplain c hc).1) hlower, hsize]
    rfl

omit [IsStrictOrderedRing K] in
theorem comma_not_mem_fixedText (places : ℕ) (x : K) : ',' ∉ fixedText places x := by
  unfold fixedText
  dsimp only
  intro hmem
  rcases List.mem_append.mp hmem with hsign | hmem
  · split at hsign
    · exact absurd (List.mem_singleton.mp hsign) (by decide)
    · exact List.not_mem_nil hsign
  · rcases List.mem_append.mp hmem with hwhole | hmem
    · exact absurd (isDigit_toDigits _ _ hwhole) (by decide)
    · rcases List.mem_cons.mp hmem with hpoint | hmem
      · exact absurd hpoint (by decide)
      · exact absurd (isDigit_digits _ _ _ hmem) (by decide)

end

end TraxJourney.Lib
