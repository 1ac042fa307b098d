/-
  File:      Track/ElevationCodec.lean
  Subject:   Elevation profiles as compact texts: `src/project/elevation_codec.py`, and the decoder of the
             client, `lib/src/projects/elevation_codec.dart`.

  * **`encodeProfilePairs_decoded`** -- when all of this can be said of a list of points: when none holds
    an integer that is too large for a double.

  A text is the list of its characters' codes; those of an encoding are ASCII, where characters and code
  units are the same. What divides by the two scales is a parameter.
-/
import TraxJourney.Lib.Json

namespace TraxJourney.Track.Codec

open Lib

/-! ## 1. The encoder -/

/-- `_DIST_SCALE`, `_ELEV_SCALE`. -/
def distScale : ℚ := 1000
def elevScale : ℚ := 10

/-- What `float(x)` does: it answers, or raises an error that is caught, or one that is not. -/
inductive Floated where
  | value (d : Double)
  | refused
  | overflow
deriving DecidableEq

/-- `float(x)`; `parse` reads a text. -/
def floatOf (parse : Text → Option Double) : Json → Floated
  | .bool b => .value (if b then .finite false 1 else .zero)
  | .num (.int n) => if (Double.ofInt n).exact.isSome then .value (.ofInt n) else .overflow
  | .num (.float d) => .value d
  | .text t => ((parse t).map Floated.value).getD .refused
  | _ => .refused

/-- `round(x * scale)`; nothing where the product overflows. -/
def scaled (x : Double) (scale : ℚ) : Option ℤ := (x.mul (.finite false scale)).exact.map roundHalfEven

/-- The rounded distance and elevation of a point; `some none` for a point that is skipped, nothing where
    an error is not caught. -/
def quantised (parse : Text → Option Double) : Json → Option (Option (ℤ × ℤ))
  | .list (x :: y :: _) =>
    match floatOf parse x with
    | .overflow => none
    | .refused => some none
    | .value dist =>
      match floatOf parse y with
      | .overflow => none
      | .refused => some none
      | .value elev =>
        if dist.exact.isSome && elev.exact.isSome then
          some ((scaled dist distScale).bind fun d => (scaled elev elevScale).map fun e => (d, e))
        else some none
  | _ => some none

/-- `while v >= 0x20`, in at most `fuel` turns. -/
def chunks : ℕ → ℕ → List ℕ
  | 0, v => [v + 63]
  | fuel + 1, v => if 32 ≤ v then ((32 ||| v % 32) + 63) :: chunks fuel (v / 32) else [v + 63]

/-- `~(value << 1) if value < 0 else (value << 1)`. -/
def zigzag (value : ℤ) : ℕ := (if value < 0 then -(2 * value) - 1 else 2 * value).toNat

def encodeSigned (value : ℤ) : List ℕ := chunks (zigzag value) (zigzag value)

structure Encoder where
  out : List ℕ
  prev : ℤ × ℤ

def Encoder.add (s : Encoder) (sample : ℤ × ℤ) : Encoder :=
  { out := s.out ++ encodeSigned (sample.1 - s.prev.1) ++ encodeSigned (sample.2 - s.prev.2)
    prev := sample }

def encodePoint (parse : Text → Option Double) (s : Encoder) (point : Json) : Option Encoder :=
  (quantised parse point).map fun sample => (sample.map s.add).getD s

def encodeProfilePairs (parse : Text → Option Double) (pairs : List Json) : Option (List ℕ) :=
  (pairs.foldlM (encodePoint parse) { out := [], prev := (0, 0) }).map Encoder.out

/-! ## 2. The decoders -/

/-- `while True`: the number, and what follows it; nothing where the text ends before. -/
def readVarint : List ℕ → ℕ → ℕ → Option (ℕ × List ℕ)
  | [], _, _ => none
  | c :: rest, result, shift =>
    let byte : ℤ := c - 63
    let result := result ||| (byte % 32).toNat <<< shift
    if byte < 32 then some (result, rest) else readVarint rest result (shift + 5)

/-- `~(result >> 1) if (result & 1) else (result >> 1)`. -/
def delta (result : ℕ) : ℤ := if result % 2 = 1 then -((result / 2 : ℕ) : ℤ) - 1 else ((result / 2 : ℕ) : ℤ)

/-- `while index < length`, in at most `fuel` turns, from the last distance and elevation on. -/
def decodeFrom : ℕ → List ℕ → ℤ × ℤ → List (ℤ × ℤ)
  | 0, _, _ => []
  | fuel + 1, codes, prev =>
    match readVarint codes 0 0 with
    | none => []
    | some (d, rest) =>
      match readVarint rest 0 0 with
      | none => []
      | some (e, rest) =>
        let sample := (prev.1 + delta d, prev.2 + delta e)
        sample :: decodeFrom fuel rest sample

variable {R : Type*} (toKm toM : ℤ → R)

def decodeProfile (codes : List ℕ) : List (R × R) :=
  (decodeFrom codes.length codes (0, 0)).map fun s => (toKm s.1, toM s.2)

def readDelta : List ℕ → ℕ → ℕ → Option (ℤ × List ℕ)
  | [], _, _ => none
  | c :: rest, shift, r =>
    let b : ℤ := c - 63
    let r := r + (b % 32).toNat * (1 <<< shift)
    if 32 ≤ b then readDelta rest (shift + 5) r
    else some (if r % 2 ≠ 0 then -(((r + 1) / 2 : ℕ) : ℤ) else ((r / 2 : ℕ) : ℤ), rest)

/-- `while (index < encoded.length)`. -/
def decodeElevationFrom : ℕ → List ℕ → ℤ × ℤ → List (ℤ × ℤ)
  | 0, _, _ => []
  | fuel + 1, codes, prev =>
    match readDelta codes 0 0 with
    | none => []
    | some (dd, rest) =>
      match readDelta rest 0 0 with
      | none => []
      | some (de, rest) =>
        let sample := (prev.1 + dd, prev.2 + de)
        sample :: decodeElevationFrom fuel rest sample

def decodeElevationProfile (codes : List ℕ) : List (R × R) :=
  (decodeElevationFrom codes.length codes (0, 0)).map fun s => (toKm s.1, toM s.2)

/-! ## 3. The two decoders -/

variable {result shift : ℕ}

theorem or_shift {x : ℕ} (h : result < 2 ^ shift) :
    result ||| x <<< shift = result + x * 2 ^ shift := by
  rw [Nat.shiftLeft_eq, Nat.mul_comm, Nat.or_comm, ← Nat.two_pow_add_eq_or_of_lt h, Nat.add_comm]

theorem add_chunk_lt {x : ℕ} (h : result < 2 ^ shift) (hx : x < 32) :
    result + x * 2 ^ shift < 2 ^ (shift + 5) := by
  have hpow : 2 ^ (shift + 5) = 32 * 2 ^ shift := by rw [Nat.pow_add, Nat.mul_comm]
  have hmul : (x + 1) * 2 ^ shift ≤ 32 * 2 ^ shift := Nat.mul_le_mul_right _ hx
  rw [Nat.succ_mul] at hmul
  omega

theorem chunk_lt (byte : ℤ) : (byte % 32).toNat < 32 := by omega

theorem readDelta_eq (codes : List ℕ) (h : result < 2 ^ shift) :
    readDelta codes shift result = (readVarint codes result shift).map fun r => (delta r.1, r.2) := by
  induction codes generalizing result shift with
  | nil => rfl
  | cons c rest ih =>
    have hsum : result + (((c : ℤ) - 63) % 32).toNat * (1 <<< shift) =
        result ||| (((c : ℤ) - 63) % 32).toNat <<< shift := by
      rw [Nat.one_shiftLeft, or_shift h]
    rw [readDelta, readVarint]
    rw [hsum]
    by_cases hlast : (c : ℤ) - 63 < 32
    · have hdelta : ∀ r : ℕ, (if r % 2 ≠ 0 then -(((r + 1) / 2 : ℕ) : ℤ) else ((r / 2 : ℕ) : ℤ)) =
          delta r := by
        intro r
        unfold delta
        split
        · rw [if_pos (by omega)]
          omega
        · rw [if_neg (by omega)]
      rw [if_neg (not_le.mpr hlast), if_pos hlast, hdelta]
      rfl
    · rw [if_pos (not_lt.mp hlast), if_neg hlast]
      refine ih ?_
      rw [or_shift h]
      exact add_chunk_lt h (chunk_lt _)

theorem decodeElevationFrom_eq (fuel : ℕ) (codes : List ℕ) (prev : ℤ × ℤ) :
    decodeElevationFrom fuel codes prev = decodeFrom fuel codes prev := by
  induction fuel generalizing codes prev with
  | zero => rfl
  | succ fuel ih =>
    have hread : ∀ codes, readDelta codes 0 0 = _ := fun codes => readDelta_eq codes (Nat.two_pow_pos 0)
    rw [decodeElevationFrom, decodeFrom, hread]
    cases readVarint codes 0 0 with
    | none => rfl
    | some d =>
      dsimp only [Option.map_some]
      rw [hread]
      cases readVarint d.2 0 0 with
      | none => rfl
      | some e =>
        dsimp only [Option.map_some]
        rw [ih]

theorem decodeElevationProfile_eq (codes : List ℕ) :
    decodeElevationProfile toKm toM codes = decodeProfile toKm toM codes := by
  rw [decodeElevationProfile, decodeElevationFrom_eq, decodeProfile]

/-! ## 4. A text that ends early -/

theorem readVarint_append {codes rest : List ℕ} {n : ℕ} (more : List ℕ)
    (h : readVarint codes result shift = some (n, rest)) :
    readVarint (codes ++ more) result shift = some (n, rest ++ more) := by
  induction codes generalizing result shift with
  | nil => cases h
  | cons c codes ih =>
    rw [readVarint] at h
    rw [List.cons_append, readVarint]
    split at h
    case isTrue hlast =>
      rw [if_pos hlast]
      cases h
      rfl
    case isFalse hlast =>
      rw [if_neg hlast]
      exact ih h

theorem decodeFrom_append {fuel fuel' : ℕ} (hfuel : fuel ≤ fuel') (codes more : List ℕ)
    (prev : ℤ × ℤ) : decodeFrom fuel codes prev <+: decodeFrom fuel' (codes ++ more) prev := by
  induction fuel generalizing fuel' codes prev with
  | zero => exact List.nil_prefix
  | succ fuel ih =>
    obtain ⟨fuel', rfl⟩ := Nat.exists_eq_add_of_lt hfuel
    rw [decodeFrom]
    cases hd : readVarint codes 0 0 with
    | none => exact List.nil_prefix
    | some d =>
      cases he : readVarint d.2 0 0 with
      | none =>
        dsimp only
        rw [he]
        exact List.nil_prefix
      | some e =>
        dsimp only
        rw [he, decodeFrom, readVarint_append more hd]
        dsimp only
        rw [readVarint_append more he]
        exact List.cons_prefix_cons.mpr ⟨rfl, ih (by omega) _ _⟩

theorem decodeProfile_append (codes more : List ℕ) :
    decodeProfile toKm toM codes <+: decodeProfile toKm toM (codes ++ more) :=
  (decodeFrom_append (by rw [List.length_append]; exact Nat.le_add_right _ _) codes more _).map _

/-! ## 5. The way there and back -/

theorem delta_zigzag (value : ℤ) : delta (zigzag value) = value := by
  unfold zigzag delta
  split <;> split <;> omega

theorem readVarint_last (rest : List ℕ) {v : ℕ} (hv : v < 32) (h : result < 2 ^ shift) :
    readVarint ((v + 63) :: rest) result shift = some (result + v * 2 ^ shift, rest) := by
  have hbyte : ((v + 63 : ℕ) : ℤ) - 63 = v := by omega
  have hchunk : ((v : ℤ) % 32).toNat = v := by omega
  rw [readVarint]
  simp only [hbyte]
  rw [if_pos (by omega), hchunk, or_shift h]

theorem low_or {v : ℕ} (h : v < 32) : 32 ||| v = 32 + v := (Nat.two_pow_add_eq_or_of_lt (i := 5) h 1).symm

theorem readVarint_chunks (rest : List ℕ) {fuel v : ℕ} (hfuel : v ≤ fuel) (h : result < 2 ^ shift) :
    readVarint (chunks fuel v ++ rest) result shift = some (result + v * 2 ^ shift, rest) := by
  induction fuel generalizing v result shift with
  | zero => exact readVarint_last rest (by omega) h
  | succ fuel ih =>
    rw [chunks]
    split
    case isFalse hsmall => exact readVarint_last rest (Nat.not_le.mp hsmall) h
    case isTrue hlarge =>
      have hmod : v % 32 < 32 := Nat.mod_lt v (by decide)
      have hor := low_or hmod
      have hbyte : ((32 + v % 32 + 63 : ℕ) : ℤ) - 63 = ((32 + v % 32 : ℕ) : ℤ) := by omega
      have hchunk : (((32 + v % 32 : ℕ) : ℤ) % 32).toNat = v % 32 := by omega
      have hvalue : result + v % 32 * 2 ^ shift + v / 32 * 2 ^ (shift + 5) = result + v * 2 ^ shift := by
        calc result + v % 32 * 2 ^ shift + v / 32 * 2 ^ (shift + 5)
            = result + (v % 32 + 32 * (v / 32)) * 2 ^ shift := by ring
          _ = result + v * 2 ^ shift := by rw [Nat.mod_add_div]
      rw [List.cons_append, readVarint]
      simp only [hor, hbyte]
      rw [if_neg (by omega), hchunk, or_shift h, ih (by omega) (add_chunk_lt h hmod), hvalue]

theorem readVarint_encodeSigned (value : ℤ) (rest : List ℕ) :
    readVarint (encodeSigned value ++ rest) 0 0 = some (zigzag value, rest) := by
  rw [encodeSigned, readVarint_chunks rest le_rfl (Nat.two_pow_pos 0), Nat.pow_zero, Nat.mul_one,
    Nat.zero_add]

/-- The characters of samples, after the sample `prev`. -/
def encodingFrom : ℤ × ℤ → List (ℤ × ℤ) → List ℕ
  | _, [] => []
  | prev, sample :: rest =>
    encodeSigned (sample.1 - prev.1) ++ encodeSigned (sample.2 - prev.2) ++ encodingFrom sample rest

variable {samples : List (ℤ × ℤ)}

theorem decodeFrom_encoding {fuel : ℕ} (prev : ℤ × ℤ) (hfuel : samples.length ≤ fuel) :
    decodeFrom fuel (encodingFrom prev samples) prev = samples := by
  induction fuel generalizing samples prev with
  | zero => rw [List.length_eq_zero_iff.mp (Nat.le_zero.mp hfuel), decodeFrom]
  | succ fuel ih =>
    cases samples with
    | nil => rfl
    | cons sample rest =>
      have hsample : (prev.1 + (sample.1 - prev.1), prev.2 + (sample.2 - prev.2)) = sample := by
        rw [add_sub_cancel, add_sub_cancel]
      rw [encodingFrom, List.append_assoc, decodeFrom, readVarint_encodeSigned]
      dsimp only
      rw [readVarint_encodeSigned]
      dsimp only
      rw [delta_zigzag, delta_zigzag, hsample, ih sample (Nat.le_of_succ_le_succ hfuel)]

theorem chunks_length_pos (fuel v : ℕ) : 0 < (chunks fuel v).length := by
  cases fuel with
  | zero => exact Nat.one_pos
  | succ fuel =>
    rw [chunks]
    split
    · exact Nat.succ_pos _
    · exact Nat.one_pos

theorem length_le_encodingFrom (prev : ℤ × ℤ) (samples : List (ℤ × ℤ)) :
    samples.length ≤ (encodingFrom prev samples).length := by
  induction samples generalizing prev with
  | nil => exact Nat.zero_le _
  | cons sample rest ih =>
    have hrest := ih sample
    have hdist := chunks_length_pos (zigzag (sample.1 - prev.1)) (zigzag (sample.1 - prev.1))
    rw [encodingFrom, List.length_append, List.length_append, encodeSigned, List.length_cons]
    omega

/-! ### The characters are ASCII -/

theorem chunks_lt {fuel v c : ℕ} (hfuel : v ≤ fuel) (h : c ∈ chunks fuel v) : c < 128 := by
  induction fuel generalizing v with
  | zero =>
    have hc := List.mem_singleton.mp h
    omega
  | succ fuel ih =>
    rw [chunks] at h
    split at h
    case isFalse hsmall =>
      have hc := List.mem_singleton.mp h
      omega
    case isTrue hlarge =>
      rcases List.mem_cons.mp h with hhead | htail
      · have hor : 32 ||| v % 32 < 2 ^ 6 :=
          Nat.or_lt_two_pow (by decide) ((Nat.mod_lt v (by decide)).trans (by decide))
        omega
      · exact ih (by omega) htail

theorem encodingFrom_lt {prev : ℤ × ℤ} {c : ℕ} (h : c ∈ encodingFrom prev samples) : c < 128 := by
  induction samples generalizing prev with
  | nil => exact absurd h List.not_mem_nil
  | cons sample rest ih =>
    rcases List.mem_append.mp h with hsigned | hrest
    · rcases List.mem_append.mp hsigned with hdist | helev
      · exact chunks_lt le_rfl hdist
      · exact chunks_lt le_rfl helev
    · exact ih hrest

/-! ## 6. Which points are written -/

/-- What is a number and not infinite. -/
def finiteOf (parse : Text → Option Double) (x : Json) : Option Double :=
  match floatOf parse x with
  | .value d => if d.exact.isSome then some d else none
  | _ => none

/-- The sample a point is read as, rounded to the grid; only a well-formed point has one. -/
def sampleOf (parse : Text → Option Double) : Json → Option (ℤ × ℤ)
  | .list (x :: y :: _) =>
    (finiteOf parse x).bind fun dist => (finiteOf parse y).bind fun elev =>
      (scaled dist distScale).bind fun d => (scaled elev elevScale).map fun e => (d, e)
  | _ => none

/-- Whether one of a point's two numbers is an integer that is too large, and is reached. -/
def tooLarge (parse : Text → Option Double) : Json → Bool
  | .list (x :: y :: _) =>
    match floatOf parse x with
    | .overflow => true
    | .refused => false
    | .value _ => floatOf parse y = .overflow
  | _ => false

theorem quantised_eq (parse : Text → Option Double) (point : Json) :
    quantised parse point = if tooLarge parse point then none else some (sampleOf parse point) := by
  unfold quantised sampleOf tooLarge finiteOf
  split
  case h_2 => rfl
  case h_1 x y _ =>
    cases hx : floatOf parse x with
    | overflow => rfl
    | refused => rfl
    | value dist =>
      cases hy : floatOf parse y with
      | overflow => simp
      | refused => simp
      | value elev =>
        by_cases hd : dist.exact.isSome = true <;> by_cases he : elev.exact.isSome = true <;> simp [hd, he]

theorem foldlM_encodePoint (parse : Text → Option Double) (pairs : List Json) (s : Encoder) :
    (pairs.foldlM (encodePoint parse) s).map Encoder.out =
      if ∃ p ∈ pairs, tooLarge parse p = true then none
      else some (s.out ++ encodingFrom s.prev (pairs.filterMap (sampleOf parse))) := by
  induction pairs generalizing s with
  | nil => simp [encodingFrom]
  | cons p pairs ih =>
    rw [List.foldlM_cons, encodePoint, quantised_eq]
    by_cases hlarge : tooLarge parse p = true
    · rw [if_pos hlarge, if_pos ⟨p, List.mem_cons_self, hlarge⟩]
      rfl
    · have hexists : (∃ q ∈ p :: pairs, tooLarge parse q = true) ↔ ∃ q ∈ pairs, tooLarge parse q = true := by
        rw [List.exists_mem_cons_iff]
        exact or_iff_right hlarge
      rw [if_neg hlarge, Option.map_some, Option.bind_eq_bind, Option.bind_some, ih]
      simp only [hexists]
      cases hsample : sampleOf parse p with
      | none => rw [List.filterMap_cons_none hsample, Option.map_none, Option.getD_none]
      | some sample =>
        rw [List.filterMap_cons_some hsample, encodingFrom]
        simp only [Option.map_some, Option.getD_some, Encoder.add, List.append_assoc]

/-- **The codec's way there and back**: the samples of the well-formed points come back rounded to the
    grid, and of every beginning of the text, for both decoders, a beginning of them -- exactly when no
    point is reached that holds an integer too large for a double. -/
theorem encodeProfilePairs_decoded (parse : Text → Option Double) (pairs : List Json) :
    (∃ codes, encodeProfilePairs parse pairs = some codes ∧ (∀ c ∈ codes, c < 128) ∧
      decodeProfile toKm toM codes = (pairs.filterMap (sampleOf parse)).map (fun s => (toKm s.1, toM s.2)) ∧
      ∀ pre, pre <+: codes → decodeProfile toKm toM pre <+: decodeProfile toKm toM codes ∧
        decodeElevationProfile toKm toM pre = decodeProfile toKm toM pre) ↔
      ∀ p ∈ pairs, tooLarge parse p = false := by
  have hwritten : encodeProfilePairs parse pairs = _ :=
    foldlM_encodePoint parse pairs { out := [], prev := (0, 0) }
  constructor
  · intro h p hp
    obtain ⟨codes, hcodes, -⟩ := h
    refine Bool.eq_false_iff.mpr fun hlarge => ?_
    rw [hwritten, if_pos ⟨p, hp, hlarge⟩] at hcodes
    cases hcodes
  · intro hsmall
    have hnone : ¬∃ p ∈ pairs, tooLarge parse p = true := by
      intro hex
      obtain ⟨p, hp, hlarge⟩ := hex
      rw [hsmall p hp] at hlarge
      cases hlarge
    rw [if_neg hnone] at hwritten
    refine ⟨_, hwritten, fun c hc => encodingFrom_lt hc, ?_, ?_⟩
    · rw [decodeProfile, List.nil_append, decodeFrom_encoding _ (length_le_encodingFrom _ _)]
    · intro pre hpre
      obtain ⟨more, hmore⟩ := hpre
      refine ⟨?_, decodeElevationProfile_eq toKm toM pre⟩
      rw [← hmore]
      exact decodeProfile_append toKm toM pre more

/-- A distance of `10 ** 400`: the point is not skipped. -/
theorem encodeProfilePairs_large :
    encodeProfilePairs (fun _ => none) [.list [.int (10 ^ 400), .num (.float .zero)]] = none := by
  decide +kernel

end TraxJourney.Track.Codec
