/-
  File:      Geo/PackedLine.lean
  Subject:   The packed line (`src/models/prepared_geo.py`): the bytes of a prepared line, and what is
             read of them.

  * **`pack_gridPoints`** -- what a line on the grid packs to.

  A double is the 64 bits of its representation where it is stored, and its value in `K` where the
  code computes with it: scaling and unscaling are rounded (`Lib.toDouble`). The bytes are
  little-endian on every host.
-/
import TraxJourney.Lib.Words
import TraxJourney.Lib.Doubles
import TraxJourney.Geo.PreparedLevels

namespace TraxJourney.Geo

open Lib

/-! ## 1. Bytes -/

def preparedGeoVersion : ℕ := 1

/-- `_HEADER.size`, for `<BI4d`. -/
def headerSize : ℕ := 37

/-- Half of the values of an `int32`. -/
def int32Half : ℕ := 2147483648

/-- An `int32` holds it. -/
def isInt32 (k : ℤ) : Bool := -int32Half ≤ k && k < int32Half

/-- The four doubles of a bounding box, each as its 64 bits. -/
def BBox.words (b : BBox UInt64) : List ℕ := [b.minLon.toNat, b.minLat.toNat, b.maxLon.toNat, b.maxLat.toNat]

def BBox.ofWords (ws : List ℕ) : BBox UInt64 where
  minLon := UInt64.ofNat (ws.getD 0 0)
  minLat := UInt64.ofNat (ws.getD 1 0)
  maxLon := UInt64.ofNat (ws.getD 2 0)
  maxLat := UInt64.ofNat (ws.getD 3 0)

/-- `(flat, levels, bbox, version)`. -/
structure Unpacked where
  flat : List ℤ
  levels : List UInt8
  bbox : BBox UInt64
  version : ℕ

/-- `_HEADER.pack(version, count, *bbox)`. -/
def packHeader (version count : ℕ) (bbox : BBox UInt64) : List UInt8 :=
  leBytes 1 version ++ leBytes 4 count ++ ofWords 8 bbox.words

/-- `flat.tobytes()`. -/
def int32Bytes (flat : List ℤ) : List UInt8 := ofWords 4 (flat.map (toTwos int32Half))

/-- The number of points that a header declares. -/
def declared (blob : List UInt8) : ℕ := leNat ((blob.drop 1).take 4)

/-- `unpack_prepared_line`; the error is the text of `PreparedGeoFormatError`. -/
def unpackPreparedLine (blob : List UInt8) : Except String Unpacked :=
  if blob.length < headerSize then
    .error ("blob too short for a header: " ++ toString blob.length ++ " bytes")
  else
    let count := declared blob
    let coordsEnd := headerSize + count * 8
    if blob.length ≠ coordsEnd + count then
      .error ("blob is " ++ toString blob.length ++ " bytes, header declares " ++ toString count ++
        " points (" ++ toString (coordsEnd + count) ++ " expected)")
    else .ok
      { flat := (toWords 4 (2 * count) ((blob.drop headerSize).take (count * 8))).map (fromTwos int32Half)
        levels := blob.drop coordsEnd
        bbox := BBox.ofWords (toWords 8 4 ((blob.drop 5).take 32))
        version := leNat (blob.take 1) }

/-! ## 2. What is accepted -/

def AgreesWithHeader (blob : List UInt8) : Prop :=
  headerSize ≤ blob.length ∧ blob.length = headerSize + 9 * declared blob

/-- The bytes of what was read. -/
def Unpacked.layout (u : Unpacked) : List UInt8 :=
  packHeader u.version u.levels.length u.bbox ++ int32Bytes u.flat ++ u.levels

/-- What a blob can hold: two coordinates for each level, of 32 bits. -/
structure Unpacked.Fits (u : Unpacked) : Prop where
  version : u.version < 256
  count : u.levels.length < 256 ^ 4
  flat : u.flat.length = 2 * u.levels.length
  coords : ∀ k ∈ u.flat, isInt32 k = true

theorem isInt32_iff {k : ℤ} : isInt32 k = true ↔ -int32Half ≤ k ∧ k < int32Half := by
  simp [isInt32]

theorem unpack_error_iff {blob : List UInt8} :
    (∃ text, unpackPreparedLine blob = .error text) ↔ ¬ AgreesWithHeader blob := by
  unfold unpackPreparedLine AgreesWithHeader
  split
  case isTrue hshort => simp [Nat.not_le.mpr hshort]
  case isFalse hlong =>
    have hcount : headerSize + declared blob * 8 + declared blob = headerSize + 9 * declared blob := by omega
    dsimp only
    rw [hcount]
    split
    case isTrue hne => simp [hne]
    case isFalse heq => simp [not_not.mp heq]

@[simp] theorem BBox.length_words (b : BBox UInt64) : b.words.length = 4 := rfl

theorem BBox.words_lt (b : BBox UInt64) : ∀ n ∈ b.words, n < 256 ^ 8 := by
  have hlt : ∀ d : UInt64, d.toNat < 256 ^ 8 := fun d => d.toNat_lt
  simp only [BBox.words, List.forall_mem_cons]
  exact ⟨hlt _, hlt _, hlt _, hlt _, nofun⟩

theorem BBox.ofWords_words (b : BBox UInt64) : BBox.ofWords b.words = b := by
  simp [BBox.ofWords, BBox.words]

theorem BBox.words_ofWords {ws : List ℕ} (hlen : ws.length = 4) (hlt : ∀ n ∈ ws, n < 256 ^ 8) :
    (BBox.ofWords ws).words = ws := by
  obtain ⟨a, b, c, d, rfl⟩ : ∃ a b c d, ws = [a, b, c, d] := by
    match ws, hlen with
    | [a, b, c, d], _ => exact ⟨a, b, c, d, rfl⟩
  have hback : ∀ n ∈ [a, b, c, d], (UInt64.ofNat n).toNat = n := fun n hn =>
    UInt64.toNat_ofNat_of_lt (hlt n hn)
  simp only [List.forall_mem_cons] at hback
  obtain ⟨ha, hb, hc, hd, -⟩ := hback
  simp [BBox.words, BBox.ofWords, ha, hb, hc, hd]

@[simp] theorem length_packHeader (version count : ℕ) (bbox : BBox UInt64) :
    (packHeader version count bbox).length = headerSize := by
  simp [packHeader, headerSize]

@[simp] theorem length_int32Bytes (flat : List ℤ) : (int32Bytes flat).length = 4 * flat.length := by
  simp [int32Bytes]

theorem unpack_layout {u : Unpacked} (h : u.Fits) : unpackPreparedLine u.layout = .ok u := by
  have hcoords : (int32Bytes u.flat).length = u.levels.length * 8 := by
    rw [length_int32Bytes, h.flat]
    omega
  have hlen : u.layout.length = headerSize + u.levels.length * 8 + u.levels.length := by
    rw [Unpacked.layout, List.length_append, List.length_append, length_packHeader, hcoords]
  -- the layout, cut where each part is read
  have hversion : u.layout = leBytes 1 u.version ++ (leBytes 4 u.levels.length ++
      (ofWords 8 u.bbox.words ++ (int32Bytes u.flat ++ u.levels))) := by
    simp only [Unpacked.layout, packHeader, List.append_assoc]
  have hbbox : u.layout = (leBytes 1 u.version ++ leBytes 4 u.levels.length) ++
      (ofWords 8 u.bbox.words ++ (int32Bytes u.flat ++ u.levels)) := by
    simp only [Unpacked.layout, packHeader, List.append_assoc]
  have hflat : u.layout = packHeader u.version u.levels.length u.bbox ++ (int32Bytes u.flat ++ u.levels) := by
    simp only [Unpacked.layout, List.append_assoc]
  have hcount : declared u.layout = u.levels.length := by
    rw [declared, hversion, List.drop_left' (length_leBytes 1 _), List.take_left'
      (length_leBytes 4 _), leNat_leBytes h.count]
  have hreadVersion : leNat (u.layout.take 1) = u.version := by
    rw [hversion, List.take_left' (length_leBytes 1 _), leNat_leBytes (by simpa using h.version)]
  have hreadBBox : BBox.ofWords (toWords 8 4 ((u.layout.drop 5).take 32)) = u.bbox := by
    have hwords := toWords_ofWords u.bbox.words_lt []
    rw [List.append_nil, BBox.length_words] at hwords
    rw [hbbox, List.drop_left' (by simp), List.take_left' (by simp), hwords, BBox.ofWords_words]
  have hreadFlat : (toWords 4 (2 * u.levels.length) ((u.layout.drop headerSize).take
      (u.levels.length * 8))).map (fromTwos int32Half) = u.flat := by
    have hfit : ∀ n ∈ u.flat.map (toTwos int32Half), n < 256 ^ 4 := by
      intro n hn
      obtain ⟨k, -, rfl⟩ := List.mem_map.mp hn
      exact toTwos_lt (h := int32Half) (by decide) k
    have hwords := toWords_ofWords hfit []
    rw [List.append_nil, List.length_map, h.flat] at hwords
    rw [hflat, List.drop_left' (length_packHeader _ _ _), List.take_left' hcoords, int32Bytes,
      hwords, List.map_map]
    refine (List.map_congr_left fun k hk => ?_).trans (List.map_id _)
    obtain ⟨hlow, hhigh⟩ := isInt32_iff.mp (h.coords k hk)
    exact fromTwos_toTwos hlow hhigh
  have hreadLevels : u.layout.drop (headerSize + u.levels.length * 8) = u.levels := by
    rw [Unpacked.layout, List.drop_left']
    rw [List.length_append, length_packHeader, hcoords]
  unfold unpackPreparedLine
  rw [hcount, if_neg (by omega)]
  dsimp only
  rw [if_neg (by omega), hreadVersion, hreadBBox, hreadFlat, hreadLevels]

theorem layout_unpack {blob : List UInt8} {u : Unpacked} (h : unpackPreparedLine blob = .ok u) :
    u.Fits ∧ blob = u.layout := by
  unfold unpackPreparedLine at h
  split at h
  case isTrue => cases h
  case isFalse hlong =>
    dsimp only at h
    split at h
    case isTrue => cases h
    case isFalse hlength =>
      obtain rfl := Except.ok.inj h
      have hdeclared : (blob.drop (headerSize + declared blob * 8)).length = declared blob := by
        rw [List.length_drop]
        omega
      have hheader : 37 ≤ blob.length := Nat.not_lt.mp hlong
      have hone : (blob.take 1).length = 1 := by
        rw [List.length_take]
        omega
      have hfour : ((blob.drop 1).take 4).length = 4 := by
        rw [List.length_take, List.length_drop]
        omega
      have height : ((blob.drop 5).take 32).length = 8 * 4 := by
        rw [List.length_take, List.length_drop]
        omega
      have hcoords : ((blob.drop headerSize).take (declared blob * 8)).length = 4 * (2 * declared blob) := by
        rw [List.length_take, List.length_drop]
        omega
      have hdouble : ∀ n ∈ toWords 8 4 ((blob.drop 5).take 32), n < 256 ^ 8 := toWords_lt
      have hword : ∀ n ∈ toWords 4 (2 * declared blob)
          ((blob.drop headerSize).take (declared blob * 8)), n < 256 ^ 4 := toWords_lt
      refine ⟨⟨?_, ?_, ?_, ?_⟩, ?_⟩
      · have hlt := leNat_lt (blob.take 1)
        rw [hone] at hlt
        exact hlt
      · have hlt := leNat_lt ((blob.drop 1).take 4)
        rw [hfour] at hlt
        show (blob.drop (headerSize + declared blob * 8)).length < 256 ^ 4
        rw [hdeclared]
        exact hlt
      · simp [hdeclared]
      · intro k hk
        obtain ⟨n, hn, rfl⟩ := List.mem_map.mp hk
        exact isInt32_iff.mpr (fromTwos_range (h := int32Half) (hword n hn))
      · -- the five parts, put together again
        have hbytes : int32Bytes ((toWords 4 (2 * declared blob)
            ((blob.drop headerSize).take (declared blob * 8))).map (fromTwos int32Half)) =
            (blob.drop headerSize).take (declared blob * 8) := by
          rw [int32Bytes, List.map_map]
          have hback : (toWords 4 (2 * declared blob) ((blob.drop headerSize).take (declared blob * 8))).map
                (toTwos int32Half ∘ fromTwos int32Half) =
              toWords 4 (2 * declared blob) ((blob.drop headerSize).take (declared blob * 8)) :=
            (List.map_congr_left fun n hn => toTwos_fromTwos (h := int32Half) (hword n hn)).trans
              (List.map_id _)
          rw [hback, ofWords_toWords hcoords]
        have hboxBytes : ofWords 8 (BBox.ofWords (toWords 8 4 ((blob.drop 5).take 32))).words =
            (blob.drop 5).take 32 := by
          rw [BBox.words_ofWords (length_toWords 8 4 _) hdouble, ofWords_toWords height]
        have hversionBytes : leBytes 1 (leNat (blob.take 1)) = blob.take 1 := by
          have hback := leBytes_leNat (blob.take 1)
          rwa [hone] at hback
        have hcountBytes : leBytes 4 (declared blob) = (blob.drop 1).take 4 := by
          have hback := leBytes_leNat ((blob.drop 1).take 4)
          rwa [hfour] at hback
        show blob = packHeader _ (blob.drop (headerSize + declared blob * 8)).length _ ++ int32Bytes _ ++ _
        rw [hdeclared, packHeader, hbytes, hboxBytes, hversionBytes, hcountBytes, ← List.take_add,
          ← List.take_add, show 1 + 4 + 32 = headerSize from rfl, ← List.take_add,
          List.take_append_drop]

theorem unpack_ok_iff {blob : List UInt8} {u : Unpacked} :
    unpackPreparedLine blob = .ok u ↔ u.Fits ∧ blob = u.layout := by
  constructor
  · exact layout_unpack
  · rintro ⟨hfits, rfl⟩
    exact unpack_layout hfits

/-! ## 3. Packing -/

section Packing

variable {K : Type*} [Field K] [LinearOrder K] [FloorRing K]

def coordScale : K := (100000 : ℕ)

/-- `k / 100000.0`, as `polyline.decode` and the serving side compute it. -/
def unscaled (k : ℤ) : K := toDouble ((k : K) / coordScale)

/-- `round(x * COORD_SCALE)`. -/
def scaled (x : K) : ℤ := roundHalfEven (toDouble (x * coordScale))

/-- The point of the grid at a cell: `[lon, lat]`, five decimals each. -/
def gridPoint (cell : ℤ × ℤ) : Position K where
  lon := unscaled cell.1
  lat := unscaled cell.2

/-- What packing raises: its own check, `array.append`, and `Struct.pack`. -/
inductive PackError where
  | valueError (text : String)
  | overflowError
  | structError

/-- The longitudes and latitudes in turn, as `array("i")` holds them. -/
def flatten (points : List (Position K)) : List ℤ := points.flatMap fun p => [scaled p.lon, scaled p.lat]

def packPreparedLine (points : List (Position K)) (levels : List UInt8) (bbox : BBox UInt64) :
    Except PackError (List UInt8) :=
  if levels.length ≠ points.length then
    .error (.valueError ("levels/points length mismatch: " ++ toString levels.length ++ " vs " ++
      toString points.length))
  else if (flatten points).any fun k => !isInt32 k then .error .overflowError
  else if 256 ^ 4 ≤ points.length then .error .structError
  else .ok (packHeader preparedGeoVersion points.length bbox ++ int32Bytes (flatten points) ++ levels)

/-- The cells in turn, longitude first. -/
def flatCells (cells : List (ℤ × ℤ)) : List ℤ := cells.flatMap fun cell => [cell.1, cell.2]

@[simp] theorem length_flatCells (cells : List (ℤ × ℤ)) : (flatCells cells).length = 2 * cells.length := by
  induction cells with
  | nil => rfl
  | cons cell cells ih =>
    show (cell.1 :: cell.2 :: flatCells cells).length = 2 * (cells.length + 1)
    rw [List.length_cons, List.length_cons, ih]
    omega

variable {cells : List (ℤ × ℤ)}

theorem mem_flatCells {k : ℤ} :
    k ∈ flatCells cells ↔ ∃ cell ∈ cells, k = cell.1 ∨ k = cell.2 := by
  simp [flatCells]

/-- The cells whose coordinates an `int32` holds. -/
def CellsFit (cells : List (ℤ × ℤ)) : Prop := ∀ cell ∈ cells, isInt32 cell.1 = true ∧ isInt32 cell.2 = true

theorem CellsFit.flat (h : CellsFit cells) :
    ∀ k ∈ flatCells cells, isInt32 k = true := by
  intro k hk
  obtain ⟨cell, hcell, rfl | rfl⟩ := mem_flatCells.mp hk
  · exact (h cell hcell).1
  · exact (h cell hcell).2

/-- **A coordinate on the grid is scaled back to its integer**, as far as 50 bits. -/
theorem scaled_unscaled [IsStrictOrderedRing K] {k : ℤ} (hk : |k| ≤ 2 ^ 50) : scaled (unscaled k : K) = k :=
  roundHalfEven_toDouble (Nat.cast_pos.mpr (by decide)) hk

theorem abs_le_of_isInt32 {k : ℤ} (h : isInt32 k = true) : |k| ≤ 2 ^ 50 := by
  obtain ⟨hlow, hhigh⟩ := isInt32_iff.mp h
  rw [abs_le]
  simp only [int32Half] at hlow hhigh
  constructor <;> omega

theorem flatten_gridPoints [IsStrictOrderedRing K] (h : ∀ k ∈ flatCells cells, |k| ≤ 2 ^ 50) :
    flatten (cells.map (gridPoint (K := K))) = flatCells cells := by
  unfold flatten flatCells
  rw [List.flatMap_map]
  refine List.flatMap_congr fun cell hcell => ?_
  have hlon : |cell.1| ≤ 2 ^ 50 := h _ (mem_flatCells.mpr ⟨cell, hcell, .inl rfl⟩)
  have hlat : |cell.2| ≤ 2 ^ 50 := h _ (mem_flatCells.mpr ⟨cell, hcell, .inr rfl⟩)
  show [scaled (unscaled cell.1 : K), scaled (unscaled cell.2 : K)] = [cell.1, cell.2]
  rw [scaled_unscaled hlon, scaled_unscaled hlat]

/-- What a line on the grid packs to. -/
def packedCells (cells : List (ℤ × ℤ)) (levels : List UInt8) (bbox : BBox UInt64) : Unpacked where
  flat := flatCells cells
  levels := levels
  bbox := bbox
  version := preparedGeoVersion

theorem packedCells_fits {levels : List UInt8} {bbox : BBox UInt64} (hfit : CellsFit cells)
    (hlevels : levels.length = cells.length)
    (hcount : cells.length < 256 ^ 4) : (packedCells cells levels bbox).Fits where
  version := show preparedGeoVersion < 256 by decide
  count := hlevels ▸ hcount
  flat := by
    show (flatCells cells).length = 2 * levels.length
    rw [length_flatCells, hlevels]
  coords := hfit.flat

theorem pack_gridPoints [IsStrictOrderedRing K] {levels : List UInt8} {bbox : BBox UInt64}
    (hfit : CellsFit cells) (hlevels : levels.length = cells.length) (hcount : cells.length < 256 ^ 4) :
    packPreparedLine (cells.map (gridPoint (K := K))) levels bbox =
      .ok (packedCells cells levels bbox).layout := by
  have hflat : flatten (cells.map (gridPoint (K := K))) = flatCells cells :=
    flatten_gridPoints fun k hk => abs_le_of_isInt32 (hfit.flat k hk)
  have hints : ¬ ((flatCells cells).any fun k => !isInt32 k) = true := by
    rw [List.any_eq_true]
    rintro ⟨k, hk, hout⟩
    rw [hfit.flat k hk] at hout
    cases hout
  unfold packPreparedLine
  rw [List.length_map, hflat, if_neg (not_not.mpr hlevels), if_neg hints,
    if_neg (Nat.not_le.mpr hcount), Unpacked.layout, packedCells, hlevels]

end Packing

end TraxJourney.Geo
