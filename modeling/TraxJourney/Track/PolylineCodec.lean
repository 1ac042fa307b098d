/-
  File:      Track/PolylineCodec.lean
  Subject:   Lines as compact texts on the device: `lib/src/track_metrics/polyline_encoder.dart` and
             `lib/src/map/polyline_decoder.dart`.

  * **`decodePolyline_encodePolyline`** -- and points on the grid are, on words and on doubles.

  A text is the list of its code units; a point is two doubles, of which a zero has no sign.
-/
import TraxJourney.Lib.MachineInts
import TraxJourney.Track.ElevationCodec

namespace TraxJourney.Track.Polyline

open Lib
open Codec (chunks zigzag delta encodeSigned encodingFrom)

variable (N : MachineInts)

/-! ## 1. The encoder -/

/-- `while (v >= 32)`, in at most `fuel` turns. -/
def writeGroups : ℕ → ℤ → List ℕ
  | 0, v => [(N.wrap (v + 63)).toNat]
  | fuel + 1, v =>
    if 32 ≤ v then
      (N.wrap (N.wrap (32 + v % 32) + 63)).toNat :: writeGroups fuel (N.tdiv v 32)
    else [(N.wrap (v + 63)).toNat]

def write (delta : ℤ) : List ℕ :=
  let v := if delta < 0 then N.wrap (N.wrap (N.wrap (-delta) * 2) - 1) else N.wrap (delta * 2)
  writeGroups N v.toNat v

/-- The loop over the points, after the point `lat`, `lon`. -/
def encodeFrom : ℤ → ℤ → List (ℚ × ℚ) → List ℕ
  | _, _, [] => []
  | lat, lon, (pLat, pLon) :: rest =>
    let eLat := N.round (toDouble (pLat * 100000))
    let eLon := N.round (toDouble (pLon * 100000))
    write N (N.wrap (eLat - lat)) ++ write N (N.wrap (eLon - lon)) ++ encodeFrom eLat eLon rest

def encodePolyline (points : List (ℚ × ℚ)) : List ℕ := encodeFrom N 0 0 points

/-! ## 2. The decoder -/

/-- `(r & 1) != 0 ? -((r + 1) ~/ 2) : (r ~/ 2)`. -/
def unzigzag (r : ℤ) : ℤ := if N.and r 1 ≠ 0 then N.wrap (-N.tdiv (N.wrap (r + 1)) 2) else N.tdiv r 2

/-- `readDelta`: the number, and what follows it; nothing where the text ends before. -/
def readDelta : List ℕ → ℕ → ℤ → Option (ℤ × List ℕ)
  | [], _, _ => none
  | c :: rest, shift, r =>
    let b := N.wrap (c - 63)
    let r := N.wrap (r + N.wrap (N.and b 0x1f * N.shl 1 shift))
    if 0x20 ≤ b then readDelta rest (shift + 5) r else some (unzigzag N r, rest)

/-- `n / 1e5`. -/
def degrees (n : ℤ) : ℚ := toDouble (toDouble (n : ℚ) / 100000)

/-- `while (index < encoded.length)`, in at most `fuel` turns. -/
def decodeFrom : ℕ → List ℕ → ℤ → ℤ → Option (List (ℚ × ℚ))
  | 0, codes, _, _ => if codes = [] then some [] else none
  | fuel + 1, codes, lat, lng =>
    if codes = [] then some [] else do
      let (dLat, rest) ← readDelta N codes 0 0
      let (dLng, rest) ← readDelta N rest 0 0
      let lat := N.wrap (lat + dLat)
      let lng := N.wrap (lng + dLng)
      let result ← decodeFrom fuel rest lat lng
      return (degrees lat, degrees lng) :: result

/-- `decodePolyline`; nothing where the text ends within a number. -/
def decodePolyline (encoded : List ℕ) : Option (List (ℚ × ℚ)) := decodeFrom N encoded.length encoded 0 0

/-! ## 3. Points on the grid -/

/-- A point of the map, in units of 1e-5 degrees. -/
structure GridPoint where
  lat : ℤ
  lon : ℤ
  lat_le : |lat| ≤ 9000000
  lon_le : |lon| ≤ 18000000

namespace GridPoint

/-- The doubles nearest to its degrees. -/
def point (g : GridPoint) : ℚ × ℚ := (toDouble (g.lat / 100000), toDouble (g.lon / 100000))

def units (g : GridPoint) : ℤ × ℤ := (g.lat, g.lon)

end GridPoint

/-- What is met at the place of a grid point. -/
structure Place (prev : ℤ × ℤ) : Prop where
  lat_le : |prev.1| ≤ 9000000
  lon_le : |prev.2| ≤ 18000000

theorem Place.origin : Place (0, 0) := ⟨by decide, by decide⟩

theorem GridPoint.place (g : GridPoint) : Place g.units := ⟨g.lat_le, g.lon_le⟩

variable {N}

theorem abs_sub_lt {a b : ℤ} (ha : |a| ≤ 18000000) (hb : |b| ≤ 18000000) : |a - b| < 2 ^ 26 := by
  have hsub := abs_sub a b
  omega

theorem zigzag_lt {d : ℤ} (h : |d| < 2 ^ 26) : zigzag d < 2 ^ 27 := by
  have habs := abs_lt.mp h
  unfold zigzag
  split <;> omega

/-! ## 4. The text -/

theorem writeGroups_eq (hN : N.Exact) {fuel v : ℕ} (hv : v < 2 ^ 27) :
    writeGroups N fuel v = chunks fuel v := by
  have hlast : ∀ {v : ℕ}, v < 2 ^ 27 → (N.wrap ((v : ℤ) + 63)).toNat = v + 63 := by
    intro v hv
    rw [hN.wrap_eq (by rw [abs_of_nonneg (by omega)]; omega)]
    omega
  induction fuel generalizing v with
  | zero => rw [writeGroups, chunks, hlast hv]
  | succ fuel ih =>
    have hmod : v % 32 < 32 := Nat.mod_lt v (by decide)
    have hor := Codec.low_or hmod
    have hgroup : (32 : ℤ) + (v : ℤ) % 32 = ((32 + v % 32 : ℕ) : ℤ) := by omega
    have hdiv : N.tdiv (v : ℤ) 32 = ((v / 32 : ℕ) : ℤ) := hN.tdiv_eq 5 (hv.trans (by decide))
    have hinner : N.wrap ((32 + v % 32 : ℕ) : ℤ) = ((32 + v % 32 : ℕ) : ℤ) :=
      hN.wrap_eq (by rw [abs_of_nonneg (by omega)]; omega)
    rw [writeGroups, chunks, hgroup, hinner, hlast (by omega), hlast hv, hdiv, hor, ih (by omega)]
    by_cases hlarge : 32 ≤ v
    · rw [if_pos hlarge, if_pos (by omega)]
    · rw [if_neg hlarge, if_neg (by omega)]

theorem write_eq (hN : N.Exact) {d : ℤ} (h : |d| < 2 ^ 26) : write N d = encodeSigned d := by
  have habs := abs_lt.mp h
  have hv : (if d < 0 then N.wrap (N.wrap (N.wrap (-d) * 2) - 1) else N.wrap (d * 2)) =
      (zigzag d : ℤ) := by
    unfold zigzag
    split
    · rw [hN.wrap_eq (x := -d) (by rw [abs_neg]; omega), hN.wrap_eq (x := -d * 2) (by rw [abs_lt]; omega),
        hN.wrap_eq (by rw [abs_lt]; omega)]
      omega
    · rw [hN.wrap_eq (by rw [abs_lt]; omega)]
      omega
  unfold write encodeSigned
  dsimp only
  rw [hv, Int.toNat_natCast, writeGroups_eq hN (zigzag_lt h)]

theorem round_eq (hN : N.Exact) {k : ℤ} (hk : |k| ≤ 18000000) :
    N.round (toDouble (toDouble ((k : ℚ) / 100000) * 100000)) = k :=
  hN.round_eq (by omega) (abs_toDouble_scaled_sub_lt (by norm_num) (by omega))

theorem encodeFrom_eq (hN : N.Exact) (grid : List GridPoint) {prev : ℤ × ℤ} (hprev : Place prev) :
    encodeFrom N prev.1 prev.2 (grid.map GridPoint.point) = encodingFrom prev (grid.map GridPoint.units) := by
  induction grid generalizing prev with
  | nil => rfl
  | cons g rest ih =>
    have hlat : |g.lat - prev.1| < 2 ^ 26 :=
      abs_sub_lt (g.lat_le.trans (by decide)) (hprev.lat_le.trans (by decide))
    have hlon : |g.lon - prev.2| < 2 ^ 26 := abs_sub_lt g.lon_le hprev.lon_le
    have hrest := ih g.place
    rw [List.map_cons, List.map_cons, GridPoint.point, encodeFrom, encodingFrom]
    dsimp only [GridPoint.units] at hrest ⊢
    rw [round_eq hN (g.lat_le.trans (by decide)), round_eq hN g.lon_le,
      hN.wrap_eq (hlat.trans (by decide)), hN.wrap_eq (hlon.trans (by decide)), write_eq hN hlat,
      write_eq hN hlon, hrest]

/-! ## 5. Reading it back -/

theorem unzigzag_eq (hN : N.Exact) {r : ℕ} (hr : r < 2 ^ 30) : unzigzag N r = delta r := by
  have hand : N.and (r : ℤ) 1 = ((r % 2 : ℕ) : ℤ) := hN.and_eq (k := 1) (by omega) (by decide)
  have hhalf : ∀ {n : ℕ}, n < 2 ^ 31 → N.tdiv (n : ℤ) 2 = ((n / 2 : ℕ) : ℤ) := fun hn => hN.tdiv_eq 1 hn
  have hsucc : N.wrap ((r : ℤ) + 1) = ((r + 1 : ℕ) : ℤ) := by
    rw [hN.wrap_eq (by rw [abs_of_nonneg (by omega)]; omega)]
    rfl
  unfold unzigzag delta
  rw [hand, hsucc, hhalf (by omega), hhalf (by omega)]
  by_cases hodd : r % 2 = 1
  · rw [if_pos (by omega), if_pos hodd, hN.wrap_eq (by rw [abs_lt]; omega)]
    omega
  · rw [if_neg (by omega), if_neg hodd]

theorem wrap_group (hN : N.Exact) {x r shift : ℕ} (hshift : shift ≤ 26) (hx : x < 64)
    (hsize : r + x % 32 * 2 ^ shift < 2 ^ 28) :
    N.wrap ((r : ℤ) + N.wrap (N.and (x : ℤ) 0x1f * N.shl 1 shift)) = ((r + x % 32 * 2 ^ shift : ℕ) : ℤ) := by
  have hand : N.and (x : ℤ) 0x1f = ((x % 32 : ℕ) : ℤ) := hN.and_eq (k := 5) (by omega) (by decide)
  have hmul : ((x % 32 : ℕ) : ℤ) * ((2 ^ shift : ℕ) : ℤ) = ((x % 32 * 2 ^ shift : ℕ) : ℤ) :=
    (Nat.cast_mul _ _).symm
  have hwrap : ∀ {n : ℕ}, n < 2 ^ 28 → N.wrap (n : ℤ) = n := fun hn =>
    hN.wrap_eq (by rw [abs_of_nonneg (by omega)]; omega)
  rw [hand, hN.shl_eq (by omega), hmul, hwrap (by omega), ← Nat.cast_add, hwrap hsize]

theorem readDelta_cons (hN : N.Exact) {x r shift : ℕ} (rest : List ℕ) (hshift : shift ≤ 26) (hx : x < 64)
    (hsize : r + x % 32 * 2 ^ shift < 2 ^ 28) :
    readDelta N ((x + 63) :: rest) shift r =
      if 32 ≤ x then readDelta N rest (shift + 5) ((r + x % 32 * 2 ^ shift : ℕ) : ℤ)
      else some (delta (r + x % 32 * 2 ^ shift), rest) := by
  have hcode : N.wrap (((x + 63 : ℕ) : ℤ) - 63) = x := by
    have hsub : ((x + 63 : ℕ) : ℤ) - 63 = x := by omega
    rw [hsub, hN.wrap_eq (by rw [abs_of_nonneg (by omega)]; omega)]
  rw [readDelta, hcode, wrap_group hN hshift hx hsize]
  by_cases hmore : 32 ≤ x
  · rw [if_pos hmore, if_pos (by omega)]
  · rw [if_neg hmore, if_neg (by omega), unzigzag_eq hN (by omega)]

theorem readDelta_last (hN : N.Exact) (rest : List ℕ) {v r shift : ℕ} (hv : v < 32)
    (hshift : shift ≤ 26) (hr : r < 2 ^ shift) (hsize : v * 2 ^ shift < 2 ^ 27) :
    readDelta N ((v + 63) :: rest) shift r = some (delta (r + v * 2 ^ shift), rest) := by
  have hpow : 2 ^ shift ≤ 2 ^ 26 := Nat.pow_le_pow_right (by decide) hshift
  have hmod : v % 32 = v := Nat.mod_eq_of_lt hv
  rw [readDelta_cons hN rest hshift (by omega) (by rw [hmod]; omega), if_neg (by omega), hmod]

theorem readDelta_chunks (hN : N.Exact) (rest : List ℕ) {fuel v r shift : ℕ} (hfuel : v ≤ fuel)
    (hshift : shift ≤ 26) (hr : r < 2 ^ shift) (hsize : v * 2 ^ shift < 2 ^ 27) :
    readDelta N (chunks fuel v ++ rest) shift r = some (delta (r + v * 2 ^ shift), rest) := by
  induction fuel generalizing v r shift with
  | zero => exact readDelta_last hN rest (by omega) hshift hr hsize
  | succ fuel ih =>
    rw [chunks]
    split
    case isFalse hsmall => exact readDelta_last hN rest (Nat.not_le.mp hsmall) hshift hr hsize
    case isTrue hlarge =>
      have hmod : v % 32 < 32 := Nat.mod_lt v (by decide)
      have hor := Codec.low_or hmod
      have hgroup : (32 + v % 32) % 32 = v % 32 := by omega
      have hvalue : v % 32 * 2 ^ shift + v / 32 * 2 ^ (shift + 5) = v * 2 ^ shift := by
        calc v % 32 * 2 ^ shift + v / 32 * 2 ^ (shift + 5)
            = (v % 32 + 32 * (v / 32)) * 2 ^ shift := by ring
          _ = v * 2 ^ shift := by rw [Nat.mod_add_div]
      -- a number that goes on is at least 1 above this group
      have hnext : 2 ^ (shift + 5) ≤ v / 32 * 2 ^ (shift + 5) := Nat.le_mul_of_pos_left _ (by omega)
      have hshift' : shift + 5 ≤ 26 := by
        have hlt : 2 ^ (shift + 5) < 2 ^ 27 := by omega
        have hexp := (Nat.pow_lt_pow_iff_right (a := 2) (by decide)).mp hlt
        omega
      have hpow : 2 ^ shift ≤ 2 ^ 26 := Nat.pow_le_pow_right (by decide) hshift
      rw [List.cons_append, hor, readDelta_cons hN _ hshift (by omega) (by rw [hgroup]; omega),
        if_pos (by omega), hgroup,
        ih (by omega) hshift' (Codec.add_chunk_lt hr hmod) (by omega), Nat.add_assoc, hvalue]

theorem readDelta_encodeSigned (hN : N.Exact) (rest : List ℕ) {d : ℤ} (h : |d| < 2 ^ 26) :
    readDelta N (encodeSigned d ++ rest) 0 0 = some (d, rest) := by
  have hread := readDelta_chunks hN rest (v := zigzag d) le_rfl (Nat.zero_le 26) (Nat.two_pow_pos 0)
    (by rw [Nat.pow_zero, Nat.mul_one]; exact zigzag_lt h)
  rw [Nat.pow_zero, Nat.mul_one, Nat.zero_add, Codec.delta_zigzag] at hread
  exact hread

theorem degrees_eq {n : ℤ} (h : |n| ≤ 18000000) : degrees n = toDouble ((n : ℚ) / 100000) := by
  rw [degrees, toDouble_int (by omega)]

theorem decodeFrom_encoding (hN : N.Exact) {fuel : ℕ} {grid : List GridPoint} {prev : ℤ × ℤ}
    (hprev : Place prev) (hfuel : grid.length ≤ fuel) :
    decodeFrom N fuel (encodingFrom prev (grid.map GridPoint.units)) prev.1 prev.2 =
      some (grid.map GridPoint.point) := by
  induction grid generalizing fuel prev with
  | nil => cases fuel <;> rfl
  | cons g rest ih =>
    obtain ⟨fuel, rfl⟩ := Nat.exists_eq_add_of_lt hfuel
    have hlat : |g.units.1 - prev.1| < 2 ^ 26 :=
      abs_sub_lt (g.lat_le.trans (by decide)) (hprev.lat_le.trans (by decide))
    have hlon : |g.units.2 - prev.2| < 2 ^ 26 := abs_sub_lt g.lon_le hprev.lon_le
    have hrest := ih g.place (Nat.le_add_right rest.length fuel)
    have hne : encodingFrom prev ((g :: rest).map GridPoint.units) ≠ [] := by
      have hlength := Codec.length_le_encodingFrom prev ((g :: rest).map GridPoint.units)
      intro hnil
      rw [hnil] at hlength
      exact absurd hlength (by simp)
    have hback : ∀ a b : ℤ, a + (b - a) = b := fun a b => add_sub_cancel a b
    have hwrap : ∀ {k : ℤ}, |k| ≤ 18000000 → N.wrap k = k := fun hk => hN.wrap_eq (by omega)
    rw [decodeFrom, if_neg hne, List.map_cons, encodingFrom,
      List.append_assoc, readDelta_encodeSigned hN _ hlat, Option.bind_eq_bind, Option.bind_some]
    dsimp only
    rw [readDelta_encodeSigned hN _ hlon]
    dsimp only [Option.bind_eq_bind, Option.bind_some, GridPoint.units] at hrest ⊢
    rw [hback, hback, hwrap (g.lat_le.trans (by decide)), hwrap g.lon_le, hrest,
      degrees_eq (g.lat_le.trans (by decide)), degrees_eq g.lon_le]
    rfl

/-- **A line on the grid is decoded to what was encoded**, whatever the program is run with. -/
theorem decodePolyline_encodePolyline (grid : List GridPoint) :
    decodePolyline MachineInts.words (encodePolyline MachineInts.words (grid.map GridPoint.point)) =
        some (grid.map GridPoint.point) ∧
      decodePolyline MachineInts.doubles (encodePolyline MachineInts.doubles (grid.map GridPoint.point)) =
        some (grid.map GridPoint.point) := by
  have hread : ∀ N : MachineInts, N.Exact →
      decodePolyline N (encodePolyline N (grid.map GridPoint.point)) = some (grid.map GridPoint.point) := by
    intro N hN
    have hlength := Codec.length_le_encodingFrom (0, 0) (grid.map GridPoint.units)
    rw [List.length_map] at hlength
    rw [decodePolyline, encodePolyline, encodeFrom_eq hN grid Place.origin]
    exact decodeFrom_encoding hN Place.origin hlength
  exact ⟨hread _ MachineInts.words_exact, hread _ MachineInts.doubles_exact⟩

/-- On either side of the antimeridian, at a pole. -/
def acrossTheWorld : List GridPoint :=
  [⟨9000000, 18000000, by decide, by decide⟩, ⟨-9000000, -18000000, by decide, by decide⟩]

example : decodePolyline MachineInts.words (encodePolyline MachineInts.words (acrossTheWorld.map GridPoint.point)) =
    some [(90, 180), (-90, -180)] := by decide +kernel

end TraxJourney.Track.Polyline
