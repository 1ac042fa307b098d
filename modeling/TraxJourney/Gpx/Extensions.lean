/-
  File:      Gpx/Extensions.lean
  Subject:   What a GPX export carries of an activity beside its track, and what an import reads of it
             (`activity_identity`, `activity_extensions`, `read_activity_extensions` and
             `read_activity_identity` in `src/gpx/export_format.py`).

  * **`extensions_read_back`** -- what is written of an activity is read again, each value exactly if it
    is within its bounds; and nothing that is read of any children is out of them.

  Ids are those of 64-bit columns, so that `str` writes each of them.
-/
import TraxJourney.Lib.FloatText
import TraxJourney.Transfer.TripSchema

namespace TraxJourney.Gpx

open Lib
open Transfer (durationMaxS distanceMaxM)

/-! ## 1. Identities -/

/-- `SOURCE_GPX`, `SOURCE_STRAVA`, `SOURCE_LOCAL`. -/
def sourceGpx : List Char := ['g', 'p', 'x']
def sourceStrava : List Char := ['s', 't', 'r', 'a', 'v', 'a']
def sourceLocal : List Char := ['l', 'o', 'c', 'a', 'l']

def activityIdMax : ℕ := 2 ^ 63 - 1

/-- `(source, source_id)`. -/
abbrev Identity := List Char × List Char

/-- `_FINGERPRINT`. -/
def isFingerprint (text : List Char) : Bool :=
  decide (text.length = 64) && text.all fun c => c.isDigit || ('a' ≤ c && c ≤ 'f')

/-- `_STRAVA_ID`, and the number that it is. -/
def positiveId : List Char → Option ℕ
  | [] => none
  | c :: rest =>
    if c.isDigit = true ∧ c ≠ '0' ∧ rest.all Char.isDigit = true ∧ rest.length ≤ 18 then
      some (Nat.ofDigitChars 10 (c :: rest) 0)
    else none

/-- `_LOCAL_ID`, and the number without its sign. -/
def localId : List Char → Option ℕ
  | '-' :: rest => positiveId rest
  | _ => none

/-- `_valid_identity`, of a `source_id` that is text. -/
def validIdentity (source sourceId : List Char) : Option Identity :=
  if source = sourceGpx ∧ isFingerprint sourceId = true then some (source, sourceId)
  else if source = sourceStrava ∧ (positiveId sourceId).any (· ≤ activityIdMax) = true then
    some (source, sourceId)
  else if source = sourceLocal ∧ (localId sourceId).any (· ≤ activityIdMax) = true then
    some (source, sourceId)
  else none

/-- The GPX fingerprint that is stored, where it has its shape. -/
def fingerprintIdentity (source sourceId : Json) : Option Identity :=
  match source, sourceId with
  | .text (.valid "gpx"), .text (.valid text) => validIdentity sourceGpx text.toList
  | _, _ => none

/-- `activity_identity`; `stravaId` is nothing where it is not given. -/
def activityIdentity (source sourceId activityId : Json) (stravaId : Option Json) : Option Identity :=
  match fingerprintIdentity source sourceId with
  | some found => some found
  | none =>
    match stravaId, activityId with
    | some (.num (.int id)), _ => validIdentity sourceStrava (intText id)
    | none, .num (.int id) =>
      if source.isNull ∧ 0 < id then validIdentity sourceStrava (intText id)
      else validIdentity sourceLocal (intText id)
    | some _, .num (.int id) => validIdentity sourceLocal (intText id)
    | _, _ => none

/-! ## 2. Writing and reading -/

structure Element where
  tag : Option String
  text : Option (List Char)

def extensionNamespace : String := "https://traxjourney.com/xmlns/gpx/1"

def tagOf (name : String) : String := "\x7b" ++ extensionNamespace ++ "\x7d" ++ name

def bounded (upper : ℤ) : Json → Option Number
  | .num n => if n.within 0 upper then some n else none
  | _ => none

def movingTimeText (n : Number) : List Char := intText n.truncate
def distanceText (n : Number) : List Char := n.toDouble.repr

def identityElements (identity : Option Identity) : List Element :=
  (identity.map fun i => [⟨some (tagOf "source"), some i.1⟩, ⟨some (tagOf "source_id"), some i.2⟩]).getD []

def activityExtensions (movingTime distance : Json) (identity : Option Identity) : List Element :=
  ((bounded durationMaxS movingTime).map fun n =>
      ⟨some (tagOf "moving_time"), some (movingTimeText n)⟩).toList ++
    ((bounded distanceMaxM distance).map fun n => ⟨some (tagOf "distance"), some (distanceText n)⟩).toList ++
    identityElements identity

/-- What `float` reads of texts that are no plain decimals, such as those of other digits. -/
structure FloatForms where
  otherFloats : List Char → Option Double

def FloatForms.number (py : FloatForms) (text : Option (List Char)) : Json :=
  let stripped := strip (text.getD [])
  (((readDecimal stripped).or (py.otherFloats stripped)).map fun d => Json.num (.float d)).getD .null

/-- One turn of the loop of `read_activity_extensions`. -/
def readFigure (py : FloatForms) (found : Option ℤ × Option Double) (e : Element) :
    Option ℤ × Option Double :=
  if e.tag = some (tagOf "moving_time") ∧ found.1 = none then
    ((bounded durationMaxS (py.number e.text)).map Number.truncate, found.2)
  else if e.tag = some (tagOf "distance") ∧ found.2 = none then
    (found.1, (bounded distanceMaxM (py.number e.text)).map Number.toDouble)
  else found

def readActivityExtensions (py : FloatForms) (elements : List Element) : Option ℤ × Option Double :=
  elements.foldl (readFigure py) (none, none)

/-- One turn of the loop of `read_activity_identity`. -/
def readPart (found : Option (List Char) × Option (List Char)) (e : Element) :
    Option (List Char) × Option (List Char) :=
  if e.tag = some (tagOf "source") ∧ found.1 = none then (some (strip (e.text.getD [])), found.2)
  else if e.tag = some (tagOf "source_id") ∧ found.2 = none then
    (found.1, some (strip (e.text.getD [])))
  else found

def readActivityIdentity (elements : List Element) : Option Identity :=
  match elements.foldl readPart (none, none) with
  | (some source, some sourceId) => validIdentity source sourceId
  | _ => none

structure StoredActivity where
  movingTime : Json
  distance : Json
  source : Json
  sourceId : Json
  activityId : Json
  stravaId : Option Json
  /-- a float is a double of 64 bits -/
  proper : ∀ d, distance = .num (.float d) → d.Proper

def StoredActivity.identity (a : StoredActivity) : Option Identity :=
  activityIdentity a.source a.sourceId a.activityId a.stravaId

/-- The children that the export writes. -/
def StoredActivity.written (a : StoredActivity) : List Element :=
  activityExtensions a.movingTime a.distance a.identity

/-! ## 3. Ids -/

theorem toDigits_positive {n : ℕ} (hn : 0 < n) : ∃ c rest, Nat.toDigits 10 n = c :: rest ∧ c ≠ '0' := by
  induction n using Nat.strongRecOn with
  | ind n ih =>
    by_cases hlt : n < 10
    · refine ⟨Nat.digitChar n, [], Nat.toDigits_of_lt_base hlt, ?_⟩
      have hnonzero : ∀ m < 10, 0 < m → Nat.digitChar m ≠ '0' := by decide
      exact hnonzero n hlt hn
    · obtain ⟨c, rest, hdigits, hc⟩ := ih (n / 10) (by omega) (by omega)
      refine ⟨c, rest ++ [Nat.digitChar (n % 10)], ?_, hc⟩
      rw [Nat.toDigits_of_base_le (by decide) (not_lt.mp hlt), hdigits]
      rfl

theorem digitChar_value {c : Char} (hc : c.isDigit = true) :
    c.toNat - '0'.toNat < 10 ∧ Nat.digitChar (c.toNat - '0'.toNat) = c := by
  have hrange := Char.isDigit_iff_toNat.mp hc
  change 48 ≤ c.toNat ∧ c.toNat ≤ 57 at hrange
  change c.toNat - 48 < 10 ∧ Nat.digitChar (c.toNat - 48) = c
  have hlt : c.toNat - 48 < 10 := by omega
  refine ⟨hlt, Char.toNat_inj.mp ?_⟩
  rw [Nat.toNat_digitChar_of_lt_ten hlt]
  omega

theorem toDigits_ofDigitChars {c : Char} {rest : List Char} (hc : c.isDigit = true) (hzero : c ≠ '0')
    (hrest : ∀ d ∈ rest, d.isDigit = true) :
    Nat.toDigits 10 (Nat.ofDigitChars 10 (c :: rest) 0) = c :: rest ∧
      0 < Nat.ofDigitChars 10 (c :: rest) 0 := by
  induction rest using List.reverseRecOn with
  | nil =>
    obtain ⟨hlt, hchar⟩ := digitChar_value hc
    have hvalue : Nat.ofDigitChars 10 [c] 0 = c.toNat - '0'.toNat := by
      rw [Nat.ofDigitChars_cons, Nat.ofDigitChars_nil, Nat.mul_zero, Nat.zero_add]
    rw [hvalue, Nat.toDigits_of_lt_base hlt, hchar]
    refine ⟨rfl, Nat.pos_of_ne_zero fun hnil => hzero ?_⟩
    rw [← hchar, hnil]
    rfl
  | append_singleton rest d ih =>
    obtain ⟨hdigits, hpos⟩ := ih fun e he => hrest e (List.mem_append_left _ he)
    obtain ⟨hlt, hchar⟩ := digitChar_value (hrest d (by simp))
    have hvalue : Nat.ofDigitChars 10 (c :: (rest ++ [d])) 0 =
        10 * Nat.ofDigitChars 10 (c :: rest) 0 + (d.toNat - '0'.toNat) := by
      rw [← List.cons_append, Nat.ofDigitChars_append, Nat.ofDigitChars_cons, Nat.ofDigitChars_nil]
    rw [hvalue]
    refine ⟨?_, by omega⟩
    rw [← Nat.toDigits_append_toDigits (by decide) hpos hlt, hdigits, Nat.toDigits_of_lt_base hlt,
      hchar]
    rfl

theorem positiveId_iff {text : List Char} : (positiveId text).any (· ≤ activityIdMax) = true ↔
      ∃ n, 0 < n ∧ n ≤ activityIdMax ∧ text = Nat.toDigits 10 n := by
  constructor
  · intro h
    obtain ⟨n, hn, hle⟩ := (Option.any_eq_true _ _).mp h
    cases text with
    | nil => cases hn
    | cons c rest =>
      rw [positiveId] at hn
      split at hn
      case isTrue hshape =>
        obtain ⟨hc, hzero, hrest, -⟩ := hshape
        obtain ⟨hdigits, hpos⟩ := toDigits_ofDigitChars hc hzero (List.all_eq_true.mp hrest)
        obtain rfl := Option.some.inj hn
        exact ⟨_, hpos, of_decide_eq_true hle, hdigits.symm⟩
      case isFalse => cases hn
  · rintro ⟨n, hpos, hle, rfl⟩
    obtain ⟨c, rest, hdigits, hzero⟩ := toDigits_positive hpos
    have hall := isDigit_toDigits n
    have hvalue := @Nat.ofDigitChars_ten_toDigits n
    have hlength : (Nat.toDigits 10 n).length ≤ 19 := by
      refine (Nat.length_toDigits_le_iff (by decide) (by decide)).mpr (lt_of_le_of_lt hle ?_)
      decide
    rw [hdigits] at hall hvalue hlength ⊢
    rw [List.forall_mem_cons] at hall
    rw [List.length_cons] at hlength
    rw [positiveId, if_pos ⟨hall.1, hzero, List.all_eq_true.mpr hall.2, by omega⟩, hvalue]
    exact decide_eq_true hle

theorem strava_iff {n : ℤ} : (positiveId (intText n)).any (· ≤ activityIdMax) = true ↔
    0 < n ∧ n ≤ activityIdMax := by
  rw [positiveId_iff]
  constructor
  · rintro ⟨m, hpos, hle, htext⟩
    have hvalue : n = m := by
      cases n with
      | ofNat n =>
        have hdigits := congrArg (Nat.ofDigitChars 10 · 0) htext
        change Nat.ofDigitChars 10 (Nat.toDigits 10 n) 0 = _ at hdigits
        simp only [Nat.ofDigitChars_ten_toDigits] at hdigits
        exact congrArg Int.ofNat hdigits
      | negSucc n =>
        -- a sign is no digit
        have hdigit := isDigit_toDigits m '-' (htext ▸ List.mem_cons_self)
        exact absurd hdigit (by decide)
    omega
  · rintro ⟨hpos, hle⟩
    obtain ⟨m, rfl⟩ := Int.eq_ofNat_of_zero_le hpos.le
    exact ⟨m, by omega, by omega, rfl⟩

theorem local_iff {n : ℤ} : (localId (intText n)).any (· ≤ activityIdMax) = true ↔
    n < 0 ∧ -(activityIdMax : ℤ) ≤ n := by
  cases n with
  | ofNat n =>
    have hnone : localId (intText (Int.ofNat n)) = none := by
      obtain ⟨c, rest, hdigits⟩ := List.exists_cons_of_ne_nil (@Nat.toDigits_ne_nil n 10)
      have hc := isDigit_toDigits n c (hdigits ▸ List.mem_cons_self)
      show localId (Nat.toDigits 10 n) = none
      rw [hdigits]
      unfold localId
      split
      case h_1 heq =>
        obtain ⟨rfl, -⟩ := List.cons.inj heq
        exact absurd hc (by decide)
      case h_2 => rfl
    rw [hnone]
    constructor
    · intro h
      cases h
    · intro h
      have hneg := h.1
      change (n : ℤ) < 0 at hneg
      omega
  | negSucc n =>
    show (positiveId (Nat.toDigits 10 (n + 1))).any (· ≤ activityIdMax) = true ↔ _
    rw [positiveId_iff]
    constructor
    · rintro ⟨m, hpos, hle, htext⟩
      have hdigits := congrArg (Nat.ofDigitChars 10 · 0) htext
      simp only [Nat.ofDigitChars_ten_toDigits] at hdigits
      omega
    · rintro ⟨-, hle⟩
      exact ⟨n + 1, Nat.succ_pos n, by omega, rfl⟩

/-! ## 4. Identities that are read -/

/-- The shapes of identities: a fingerprint, a Strava id of the column, a local id of the column. -/
def IdentityShape (i : Identity) : Prop :=
  (i.1 = sourceGpx ∧ isFingerprint i.2 = true) ∨
  (i.1 = sourceStrava ∧ ∃ n : ℕ, 0 < n ∧ n ≤ activityIdMax ∧ i.2 = Nat.toDigits 10 n) ∨
  (i.1 = sourceLocal ∧ ∃ n : ℕ, 0 < n ∧ n ≤ activityIdMax ∧ i.2 = '-' :: Nat.toDigits 10 n)

theorem localId_iff {text : List Char} : (localId text).any (· ≤ activityIdMax) = true ↔
    ∃ n, 0 < n ∧ n ≤ activityIdMax ∧ text = '-' :: Nat.toDigits 10 n := by
  unfold localId
  split
  case h_1 rest =>
    rw [positiveId_iff]
    simp
  case h_2 hsign =>
    constructor
    · intro h
      cases h
    · rintro ⟨n, -, -, htext⟩
      exact absurd htext (hsign _)

theorem validIdentity_eq_some {source sourceId : List Char} {i : Identity} :
    validIdentity source sourceId = some i ↔ i = (source, sourceId) ∧ IdentityShape i := by
  have hshape : IdentityShape (source, sourceId) ↔ (source = sourceGpx ∧ isFingerprint sourceId = true) ∨
      (source = sourceStrava ∧ (positiveId sourceId).any (· ≤ activityIdMax) = true) ∨
      (source = sourceLocal ∧ (localId sourceId).any (· ≤ activityIdMax) = true) := by
    rw [positiveId_iff, localId_iff]
    rfl
  have hpair : i = (source, sourceId) ∧ IdentityShape i ↔
      i = (source, sourceId) ∧ IdentityShape (source, sourceId) := by
    refine and_congr_right fun h => ?_
    rw [h]
  have hsome : some (source, sourceId) = some i ↔ i = (source, sourceId) := by
    rw [Option.some.injEq]
    exact eq_comm
  rw [hpair, hshape]
  unfold validIdentity
  split
  case isTrue h => rw [hsome, and_iff_left (.inl h)]
  case isFalse h =>
    split
    case isTrue h' => rw [hsome, and_iff_left (.inr (.inl h'))]
    case isFalse h' =>
      split
      case isTrue h'' => rw [hsome, and_iff_left (.inr (.inr h''))]
      case isFalse h'' => simp [h, h', h'']

theorem IdentityShape.strip {i : Identity} (h : IdentityShape i) : strip i.1 = i.1 ∧ strip i.2 = i.2 := by
  obtain ⟨source, sourceId⟩ := i
  have hdigits : ∀ n, ∀ c ∈ Nat.toDigits 10 n, isSpace c = false :=
    fun n c hc => isSpace_digit (isDigit_toDigits n c hc)
  rcases h with ⟨hsource, hid⟩ | ⟨hsource, n, -, -, hid⟩ | ⟨hsource, n, -, -, hid⟩
  · dsimp only at hsource hid ⊢
    subst hsource
    refine ⟨by decide, strip_of_no_space fun c hc => ?_⟩
    unfold isFingerprint at hid
    rw [Bool.and_eq_true] at hid
    have hchar := List.all_eq_true.mp hid.2 c hc
    rw [Bool.or_eq_true, Bool.and_eq_true, decide_eq_true_eq, decide_eq_true_eq] at hchar
    rcases hchar with hdigit | ⟨hlow, hhigh⟩
    · exact isSpace_digit hdigit
    · have hlow' : 97 ≤ c.toNat := hlow
      have hhigh' : c.toNat ≤ 102 := hhigh
      unfold isSpace
      simp
      omega
  · dsimp only at hsource hid ⊢
    subst hsource hid
    exact ⟨by decide, strip_of_no_space (hdigits n)⟩
  · dsimp only at hsource hid ⊢
    subst hsource hid
    refine ⟨by decide, strip_of_no_space fun c hc => ?_⟩
    rcases List.mem_cons.mp hc with rfl | hc
    · rfl
    · exact hdigits n c hc

theorem activityIdentity_shape {source sourceId activityId : Json} {stravaId : Option Json}
    {i : Identity} (h : activityIdentity source sourceId activityId stravaId = some i) :
    IdentityShape i := by
  have hfingerprint : ∀ {j}, fingerprintIdentity source sourceId = some j → IdentityShape j := by
    intro j hj
    unfold fingerprintIdentity at hj
    split at hj
    · exact (validIdentity_eq_some.mp hj).2
    · cases hj
  unfold activityIdentity at h
  split at h
  case h_1 found hfound =>
    obtain rfl := Option.some.inj h
    exact hfingerprint hfound
  case h_2 =>
    split at h
    · exact (validIdentity_eq_some.mp h).2
    · split at h
      · exact (validIdentity_eq_some.mp h).2
      · exact (validIdentity_eq_some.mp h).2
    · exact (validIdentity_eq_some.mp h).2
    · cases h

/-- The ids of an activity that are within their bounds: a fingerprint, else a Strava id, else a local
    one; where no Strava id is given, the positive id of a row without a source is one. -/
def StoredActivity.IdentityInBounds (a : StoredActivity) : Prop :=
  (∃ text, a.source = .text (.valid "gpx") ∧ a.sourceId = .text (.valid text) ∧
    isFingerprint text.toList = true) ∨
  (∃ id : ℤ, a.stravaId = some (.num (.int id)) ∧ 0 < id ∧ id ≤ activityIdMax) ∨
  (∃ id : ℤ, a.activityId = .num (.int id) ∧ (∀ n, a.stravaId ≠ some (.num (.int n))) ∧
    (id < 0 ∧ -(activityIdMax : ℤ) ≤ id ∨
      a.stravaId = none ∧ a.source.isNull = true ∧ 0 < id ∧ id ≤ activityIdMax))

theorem isSome_strava {id : ℤ} : (validIdentity sourceStrava (intText id)).isSome = true ↔
    0 < id ∧ id ≤ activityIdMax := by
  have hgpx : ¬ sourceStrava = sourceGpx := by decide
  have hlocal : ¬ sourceStrava = sourceLocal := by decide
  rw [← strava_iff]
  unfold validIdentity
  by_cases h : (positiveId (intText id)).any (· ≤ activityIdMax) = true
  · simp [hgpx, h]
  · simp [hgpx, hlocal, h]

theorem isSome_local {id : ℤ} : (validIdentity sourceLocal (intText id)).isSome = true ↔
    id < 0 ∧ -(activityIdMax : ℤ) ≤ id := by
  have hgpx : ¬ sourceLocal = sourceGpx := by decide
  have hstrava : ¬ sourceLocal = sourceStrava := by decide
  rw [← local_iff]
  unfold validIdentity
  by_cases h : (localId (intText id)).any (· ≤ activityIdMax) = true
  · simp [hgpx, hstrava, h]
  · simp [hgpx, hstrava, h]

theorem isSome_fingerprint {source sourceId : Json} : (fingerprintIdentity source sourceId).isSome = true ↔
      ∃ text, source = .text (.valid "gpx") ∧ sourceId = .text (.valid text) ∧
        isFingerprint text.toList = true := by
  have hstrava : ¬ sourceGpx = sourceStrava := by decide
  have hlocal : ¬ sourceGpx = sourceLocal := by decide
  unfold fingerprintIdentity
  split
  case h_1 text =>
    unfold validIdentity
    by_cases h : isFingerprint text.toList = true
    · simp [h]
    · simp [hstrava, hlocal, h]
  case h_2 hnot =>
    constructor
    · intro h
      cases h
    · rintro ⟨text, hsource, hid, -⟩
      exact absurd hid (hnot text hsource)

theorem identity_isSome (a : StoredActivity) : a.identity.isSome = true ↔ a.IdentityInBounds := by
  unfold StoredActivity.identity activityIdentity StoredActivity.IdentityInBounds
  rw [← isSome_fingerprint]
  cases hfound : fingerprintIdentity a.source a.sourceId with
  | some found => simp
  | none =>
    dsimp only
    rw [Option.isSome_none, or_iff_right (by decide)]
    split
    case h_1 id hstrava =>
      rw [isSome_strava, hstrava]
      simp
    case h_2 id hstrava hactivity =>
      -- no Strava id is given
      rw [hstrava, hactivity]
      split
      case isTrue hnull =>
        rw [isSome_strava]
        constructor
        · exact fun h => .inr ⟨id, rfl, by simp, .inr ⟨rfl, hnull.1, h⟩⟩
        · rintro (⟨n, hn, -⟩ | ⟨n, hn, -, hneg | hpos⟩)
          · cases hn
          · cases hn
            omega
          · cases hn
            exact hpos.2.2
      case isFalse hother =>
        rw [isSome_local]
        constructor
        · exact fun h => .inr ⟨id, rfl, by simp, .inl h⟩
        · rintro (⟨n, hn, -⟩ | ⟨n, hn, -, hneg | hpos⟩)
          · cases hn
          · cases hn
            exact hneg
          · cases hn
            exact absurd ⟨hpos.2.1, hpos.2.2.1⟩ hother
    case h_3 v id hgiven hstrava hactivity =>
      -- one is given that is no number
      rw [isSome_local, hstrava, hactivity]
      constructor
      · exact fun h => .inr ⟨id, rfl, fun n hn => hgiven n (Option.some.inj hn), .inl h⟩
      · rintro (⟨n, hn, -⟩ | ⟨n, hn, -, hneg | hpos⟩)
        · exact absurd (Option.some.inj hn) (hgiven n)
        · cases hn
          exact hneg
        · cases hpos.1
    case h_4 hstrava hmissing hgiven =>
      constructor
      · intro h
        cases h
      · rintro (⟨n, hn, -⟩ | ⟨n, hn, -, -⟩)
        · exact (hstrava n hn).elim
        · cases hgive : a.stravaId with
          | none => exact (hmissing n hgive hn).elim
          | some v => exact (hgiven v n hgive hn).elim

/-! ## 5. Figures that are read -/

variable {py : FloatForms} {upper : ℤ} {v : Json} {n : Number}

theorem bounded_eq_some : bounded upper v = some n ↔ v = .num n ∧ n.within 0 upper = true := by
  unfold bounded
  split
  case h_1 m =>
    split
    case isTrue h =>
      constructor
      · intro heq
        obtain rfl := Option.some.inj heq
        exact ⟨rfl, h⟩
      · rintro ⟨heq, -⟩
        cases heq
        rfl
    case isFalse h =>
      constructor
      · intro heq
        cases heq
      · rintro ⟨heq, hin⟩
        cases heq
        exact absurd hin h
  case h_2 hnone =>
    constructor
    · intro heq
      cases heq
    · rintro ⟨heq, -⟩
      exact absurd heq (hnone n)

theorem number_within_iff : n.within 0 upper = true ↔ ∃ q, n.exact = some q ∧ 0 ≤ q ∧ q ≤ upper := by
  unfold Number.within
  rw [Option.any_eq_true]
  simp

theorem truncate_within {q : ℚ} (hexact : n.exact = some q) (hq : 0 ≤ q) : n.truncate = ⌊q⌋ := by
  unfold Number.truncate
  rw [hexact]
  exact if_neg (not_lt.mpr hq)

theorem truncate_bounds (h : n.within 0 upper = true) : 0 ≤ n.truncate ∧ n.truncate ≤ upper := by
  obtain ⟨q, hexact, hlow, hhigh⟩ := number_within_iff.mp h
  rw [truncate_within hexact hlow]
  refine ⟨Int.floor_nonneg.mpr hlow, ?_⟩
  exact_mod_cast le_trans (Int.floor_le q) hhigh

theorem number_of_read {text : List Char} {d : Double} (h : readDecimal text = some d) :
    py.number (some text) = .num (.float d) := by
  unfold FloatForms.number
  dsimp only
  rw [Option.getD_some, strip_of_read h, h, Option.some_or]
  rfl

theorem exact_nat (k : ℕ) : (Number.float (.finite false k)).exact = some (k : ℚ) := rfl

theorem moving_read_back (hn : n.within 0 durationMaxS = true) :
    (bounded durationMaxS (py.number (some (movingTimeText n)))).map Number.truncate = some n.truncate := by
  obtain ⟨hlow, hhigh⟩ := truncate_bounds hn
  obtain ⟨k, hk⟩ := Int.eq_ofNat_of_zero_le hlow
  have hsmall : k < 2 ^ 53 := by
    unfold durationMaxS at hhigh
    omega
  have hread : readDecimal (movingTimeText n) = some (.finite false k) := by
    unfold movingTimeText
    rw [hk]
    exact readDecimal_natText hsmall
  have hin : (Number.float (.finite false k)).within 0 durationMaxS = true := by
    refine number_within_iff.mpr ⟨k, exact_nat k, Nat.cast_nonneg k, ?_⟩
    have hle : (k : ℤ) ≤ durationMaxS := hk ▸ hhigh
    exact_mod_cast hle
  rw [number_of_read hread, bounded_eq_some.mpr ⟨rfl, hin⟩, Option.map_some,
    truncate_within (exact_nat k) (Nat.cast_nonneg k), Int.floor_natCast, hk]

theorem small_distance {m : ℤ} (hlow : (0 : ℚ) ≤ m) (hhigh : (m : ℚ) ≤ distanceMaxM) : ∃ k : ℕ, k < 2 ^ 53 ∧ m = k := by
  obtain ⟨k, rfl⟩ := Int.eq_ofNat_of_zero_le (by exact_mod_cast hlow : 0 ≤ m)
  have hle : (k : ℤ) ≤ distanceMaxM := by exact_mod_cast hhigh
  unfold distanceMaxM at hle
  exact ⟨k, by omega, rfl⟩

theorem toDouble_exact (hn : n.within 0 distanceMaxM = true) : n.toDouble.exact = n.exact := by
  cases n with
  | float d => rfl
  | int m =>
    obtain ⟨q, hexact, hlow, hhigh⟩ := number_within_iff.mp hn
    obtain rfl : (m : ℚ) = q := Option.some.inj hexact
    obtain ⟨k, hsmall, rfl⟩ := small_distance hlow hhigh
    show (Double.ofRat _).exact = some _
    rw [Int.cast_natCast, ofRat_nat hsmall]
    rfl

theorem distance_read_back (hn : n.within 0 distanceMaxM = true) (hproper : ∀ d, n = .float d → d.Proper) :
    (bounded distanceMaxM (py.number (some (distanceText n)))).map Number.toDouble = some n.toDouble := by
  have hexact := toDouble_exact hn
  obtain ⟨q, hq, hlow, hhigh⟩ := number_within_iff.mp hn
  have hdouble : n.toDouble.Proper := by
    cases n with
    | float d => exact hproper d rfl
    | int m =>
      obtain rfl : (m : ℚ) = q := Option.some.inj hq
      obtain ⟨k, hsmall, rfl⟩ := small_distance hlow hhigh
      show (Double.ofRat _).Proper
      rw [Int.cast_natCast, ofRat_nat hsmall]
      exact ofRat_nat hsmall
  rw [hq] at hexact
  unfold distanceText
  cases hd : n.toDouble with
  | finite negative magnitude =>
    rw [hd] at hdouble hexact
    have hin : (Number.float (.finite negative magnitude)).within 0 distanceMaxM = true :=
      number_within_iff.mpr ⟨q, hexact, hlow, hhigh⟩
    rw [number_of_read (readDecimal_repr hdouble), bounded_eq_some.mpr ⟨rfl, hin⟩]
    rfl
  | infinite negative =>
    rw [hd] at hexact
    cases hexact
  | nan =>
    rw [hd] at hexact
    cases hexact

/-! ## 6. The loops -/

theorem tags_differ : tagOf "moving_time" ≠ tagOf "distance" ∧ tagOf "moving_time" ≠ tagOf "source" ∧
    tagOf "moving_time" ≠ tagOf "source_id" ∧ tagOf "distance" ≠ tagOf "source" ∧
    tagOf "distance" ≠ tagOf "source_id" ∧ tagOf "source" ≠ tagOf "source_id" := by decide

theorem figures_beside_identity (identity : Option Identity) (found : Option ℤ × Option Double) :
    (identityElements identity).foldl (readFigure py) found = found := by
  obtain ⟨-, hms, hmi, hds, hdi, -⟩ := tags_differ
  cases identity with
  | none => rfl
  | some i =>
    show readFigure py (readFigure py found ⟨some (tagOf "source"), some i.1⟩)
      ⟨some (tagOf "source_id"), some i.2⟩ = _
    have hsource : ∀ text, readFigure py found ⟨some (tagOf "source"), text⟩ = found := by
      intro text
      simp [readFigure, hms.symm, hds.symm]
    rw [hsource]
    simp [readFigure, hmi.symm, hdi.symm]

theorem parts_beside_figure {tag : String} (hsource : tag ≠ tagOf "source")
    (hid : tag ≠ tagOf "source_id") (text : Option (List Char))
    (found : Option (List Char) × Option (List Char)) : readPart found ⟨some tag, text⟩ = found := by
  simp [readPart, hsource, hid]

theorem parts_of_identity {identity : Option Identity} (h : ∀ i, identity = some i → IdentityShape i) :
    (identityElements identity).foldl readPart (none, none) = (identity.map (·.1), identity.map (·.2)) := by
  obtain ⟨-, -, -, -, -, hsi⟩ := tags_differ
  cases identity with
  | none => rfl
  | some i =>
    obtain ⟨hsource, hid⟩ := (h i rfl).strip
    show readPart (readPart (none, none) ⟨some (tagOf "source"), some i.1⟩)
      ⟨some (tagOf "source_id"), some i.2⟩ = _
    simp [readPart, hsi.symm, hsource, hid]

theorem identity_read_back (movingTime distance : Json) {identity : Option Identity}
    (h : ∀ i, identity = some i → IdentityShape i) :
    readActivityIdentity (activityExtensions movingTime distance identity) = identity := by
  obtain ⟨-, hms, hmi, hds, hdi, -⟩ := tags_differ
  have hfigures : ∀ {tag : String} (number : Option Number) (text : Number → List Char),
      tag ≠ tagOf "source" → tag ≠ tagOf "source_id" → ∀ found,
        (number.map fun n => (⟨some tag, some (text n)⟩ : Element)).toList.foldl readPart found =
          found := by
    intro tag number text hsource hid found
    cases number with
    | none => rfl
    | some n => exact parts_beside_figure hsource hid _ found
  unfold readActivityIdentity activityExtensions
  rw [List.foldl_append, List.foldl_append, hfigures _ _ hms hmi, hfigures _ _ hds hdi, parts_of_identity h]
  cases hidentity : identity with
  | none => rfl
  | some i => exact validIdentity_eq_some.mpr ⟨rfl, h i hidentity⟩

theorem figures_read_back (py : FloatForms) {movingTime distance : Json} (identity : Option Identity)
    (hproper : ∀ d, distance = .num (.float d) → d.Proper) :
    readActivityExtensions py (activityExtensions movingTime distance identity) =
      ((bounded durationMaxS movingTime).map Number.truncate,
        (bounded distanceMaxM distance).map Number.toDouble) := by
  obtain ⟨hmd, -⟩ := tags_differ
  have hmoving : ((bounded durationMaxS movingTime).map fun n =>
      (⟨some (tagOf "moving_time"), some (movingTimeText n)⟩ : Element)).toList.foldl (readFigure py)
        (none, none) = ((bounded durationMaxS movingTime).map Number.truncate, none) := by
    cases hn : bounded durationMaxS movingTime with
    | none => rfl
    | some n =>
      show readFigure py (none, none) ⟨some (tagOf "moving_time"), some (movingTimeText n)⟩ = _
      rw [readFigure, if_pos ⟨rfl, rfl⟩, moving_read_back (bounded_eq_some.mp hn).2]
      rfl
  have hdistance : ∀ moving, ((bounded distanceMaxM distance).map fun n =>
      (⟨some (tagOf "distance"), some (distanceText n)⟩ : Element)).toList.foldl (readFigure py)
        (moving, none) = (moving, (bounded distanceMaxM distance).map Number.toDouble) := by
    intro moving
    cases hn : bounded distanceMaxM distance with
    | none => rfl
    | some n =>
      obtain ⟨hdist, hin⟩ := bounded_eq_some.mp hn
      have hfirst : ¬ (some (tagOf "distance") = some (tagOf "moving_time") ∧ moving = none) :=
        fun h => hmd (Option.some.inj h.1).symm
      show readFigure py (moving, none) ⟨some (tagOf "distance"), some (distanceText n)⟩ = _
      rw [readFigure, if_neg hfirst, if_pos ⟨rfl, rfl⟩,
        distance_read_back hin fun d hd => hproper d (hd ▸ hdist)]
      rfl
  unfold readActivityExtensions activityExtensions
  rw [List.foldl_append, List.foldl_append, hmoving, hdistance, figures_beside_identity]

/-- Figures within their bounds. -/
def FiguresOk (found : Option ℤ × Option Double) : Prop :=
  (∀ s, found.1 = some s → 0 ≤ s ∧ s ≤ durationMaxS) ∧
  ∀ d, found.2 = some d → ∃ q, d.exact = some q ∧ 0 ≤ q ∧ q ≤ distanceMaxM

theorem readFigure_ok {found : Option ℤ × Option Double} (h : FiguresOk found) (e : Element) :
    FiguresOk (readFigure py found e) := by
  unfold readFigure
  split
  case isTrue =>
    refine ⟨fun s hs => ?_, h.2⟩
    obtain ⟨n, hn, rfl⟩ := Option.map_eq_some_iff.mp hs
    exact truncate_bounds (bounded_eq_some.mp hn).2
  case isFalse =>
    split
    case isTrue =>
      refine ⟨h.1, fun d hd => ?_⟩
      obtain ⟨n, hn, rfl⟩ := Option.map_eq_some_iff.mp hd
      have hin := (bounded_eq_some.mp hn).2
      rw [toDouble_exact hin]
      exact number_within_iff.mp hin
    case isFalse => exact h

theorem figures_within (py : FloatForms) (elements : List Element) :
    FiguresOk (readActivityExtensions py elements) := by
  have hrun : ∀ found, FiguresOk found → FiguresOk (elements.foldl (readFigure py) found) := by
    induction elements with
    | nil => exact fun found h => h
    | cons e elements ih => exact fun found h => ih _ (readFigure_ok h e)
  refine hrun _ ⟨fun s hs => ?_, fun d hd => ?_⟩
  · cases hs
  · cases hd

/-- **Extensions are read back**: of every stored activity the moving time in whole seconds, the distance
    and the identity, each exactly if it is within its bounds; and what is read of any children whatever
    is within them. -/
theorem extensions_read_back (py : FloatForms) (a : StoredActivity) :
    readActivityExtensions py a.written = ((bounded durationMaxS a.movingTime).map Number.truncate,
      (bounded distanceMaxM a.distance).map Number.toDouble) ∧
    (∀ metres, bounded distanceMaxM a.distance = some metres → metres.toDouble.exact = metres.exact) ∧
    readActivityIdentity a.written = a.identity ∧
    (a.identity.isSome = true ↔ a.IdentityInBounds) ∧
    ∀ elements, FiguresOk (readActivityExtensions py elements) ∧
      ∀ i, readActivityIdentity elements = some i → IdentityShape i := by
  refine ⟨figures_read_back py _ a.proper, fun metres h => toDouble_exact (bounded_eq_some.mp h).2,
    identity_read_back _ _ fun i hi => activityIdentity_shape hi, identity_isSome a, fun elements =>
    ⟨figures_within py elements, fun i hi => ?_⟩⟩
  unfold readActivityIdentity at hi
  split at hi
  · exact (validIdentity_eq_some.mp hi).2
  · cases hi

/-- An hour's ride of 12345.678 m, from Strava. -/
def ride : StoredActivity where
  movingTime := .int 3600
  distance := .num (.float (.ofRat (12345678 / 1000)))
  source := .null
  sourceId := .null
  activityId := .int 7
  stravaId := some (.int 1234567890)
  proper := by
    intro d h
    cases h
    decide +kernel

/-- Its figures and its Strava id come back. -/
theorem extensions_read_back_ride : distanceText (.float (.ofRat (12345678 / 1000))) =
      ['1', '2', '3', '4', '5', '.', '6', '7', '8'] ∧
    readActivityExtensions ⟨fun _ => none⟩ ride.written =
      (some 3600, some (.ofRat (12345678 / 1000))) ∧
    readActivityIdentity ride.written = some (sourceStrava, intText 1234567890) := by
  obtain ⟨hfigures, -, hidentity, -⟩ := extensions_read_back ⟨fun _ => none⟩ ride
  rw [hfigures, hidentity]
  decide +kernel

end TraxJourney.Gpx
