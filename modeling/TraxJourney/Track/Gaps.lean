/-
  File:      Track/Gaps.lean
  Subject:   The holes of an elevation series filled by distance: `interpolate_elevation_gaps` of
             `src/models/track_edit.py` (in `StoredPoints`) and the device's port of it,
             `lib/src/track_metrics/elevation_profile.dart`, calculated exactly.

  * **`interpolateElevationGaps_spec`** -- every sample is filled so, where one is known and every sample has
    its distance.
-/
import TraxJourney.Track.StoredPoints

namespace TraxJourney.Track

open Lib

variable {K : Type} [Field K] [LinearOrder K]

/-! ## 1. The port -/

/-- `interpolateElevationGaps`. Nothing where it throws. -/
def Device.interpolateElevationGaps (distancesKm : List K) (elevations : List (Option K)) :
    Option (List K) := do
  let known := (List.range elevations.length).filter fun i => (elevations[i]?.join).isSome
  if known = [] then none
  else
    let filled := elevations.map fun e => e.getD 0
    let first ← known.head?
    let last ← known.getLast?
    let filled ← (List.range' 0 first).foldlM (fun filled i => do
      let e ← filled[first]?
      some (filled.set i e)) filled
    let filled ← (List.range' (last + 1) (filled.length - (last + 1))).foldlM (fun filled i => do
      let e ← filled[last]?
      some (filled.set i e)) filled
    (List.range' 0 (known.length - 1)).foldlM (fun filled k => do
      let a ← known[k]?
      let b ← known[k + 1]?
      if b = a + 1 then some filled
      else do
        let d₀ ← distancesKm[a]?
        let d₁ ← distancesKm[b]?
        let e₀ ← filled[a]?
        let e₁ ← filled[b]?
        let span := d₁ - d₀
        (List.range' (a + 1) (b - (a + 1))).foldlM (fun filled i => do
          let frac ← if span ≠ 0 then (distancesKm[i]?).map fun d => (d - d₀) / span else some 0
          some (filled.set i (e₀ + frac * (e₁ - e₀)))) filled) filled

theorem Device.interpolateElevationGaps_eq (distancesKm : List K) (elevations : List (Option K)) :
    Device.interpolateElevationGaps distancesKm elevations =
      Track.interpolateElevationGaps distancesKm elevations := by
  unfold Device.interpolateElevationGaps Track.interpolateElevationGaps
  dsimp only
  generalize (List.range elevations.length).filter _ = known
  split
  case isTrue hnone =>
    subst hnone
    rfl
  case isFalse =>
    cases hfirst : known.head? with
    | none => rfl
    | some first =>
      cases hlast : known.getLast? with
      | none => rfl
      | some last =>
        simp only [Option.bind_eq_bind, Option.bind_some]
        refine congrArg _ (funext fun filled => congrArg _ (funext fun filled => ?_))
        rw [← length_zip_tail]
        refine foldlM_range'_elements (fun k hk filled => ?_) filled
        obtain ⟨ha, hb⟩ := zip_tail_get hk
        rw [Nat.zero_add]
        rw [Nat.add_sub_cancel_left] at ha
        rw [Nat.add_comm 1 k] at hb
        rw [ha, hb]
        dsimp only [Option.bind_some]
        split
        · rfl
        · refine congrArg _ (funext fun d₀ => ?_)
          cases hend : distancesKm[(known.zip known.tail)[k].2]? with
          | none => rfl
          | some d₁ =>
            dsimp only [Option.bind_some]
            refine congrArg _ (funext fun e₀ => congrArg _ (funext fun e₁ => ?_))
            refine foldlM_congr (fun i hi filled => ?_) filled
            -- a distance before one that was read is there
            have hwithin := (List.getElem?_eq_some_iff.mp hend).1
            rw [List.mem_range'_1] at hi
            rw [List.getElem?_eq_getElem (by omega)]
            by_cases hspan : d₁ - d₀ = 0
            · rw [if_neg (not_not_intro hspan)]
              dsimp only [Option.bind_some]
              rw [if_pos hspan]
            · rw [if_pos hspan]
              dsimp only [Option.bind_some, Option.map_some]
              rw [if_neg hspan]

/-! ## 2. What the samples are filled with -/

/-- The straight line between two samples; level where they are at one distance. -/
def line (d₀ d₁ e₀ e₁ d : K) : K :=
  let span := d₁ - d₀
  let frac := if span = 0 then 0 else (d - d₀) / span
  e₀ + frac * (e₁ - e₀)

/-- What sample `j` is filled with. -/
inductive FilledAs (ds : List K) (es : List (Option K)) (j : ℕ) : K → Prop
  | known {e : K} (h : es[j]? = some (some e)) : FilledAs ds es j e
  | leading {b : ℕ} {e : K} (hj : j < b) (hnone : ∀ k < b, es[k]? = some none)
      (hb : es[b]? = some (some e)) : FilledAs ds es j e
  | trailing {a : ℕ} {e : K} (hj : a < j) (hnone : ∀ k, a < k → k < es.length → es[k]? = some none)
      (ha : es[a]? = some (some e)) : FilledAs ds es j e
  | between {a b : ℕ} {e₀ e₁ d₀ d₁ d : K} (hlow : a < j) (hhigh : j < b)
      (hnone : ∀ k, a < k → k < b → es[k]? = some none) (ha : es[a]? = some (some e₀))
      (hb : es[b]? = some (some e₁)) (hd₀ : ds[a]? = some d₀) (hd₁ : ds[b]? = some d₁)
      (hd : ds[j]? = some d) : FilledAs ds es j (line d₀ d₁ e₀ e₁ d)

theorem FilledAs.eq_of_known {ds : List K} {es : List (Option K)} {j : ℕ} {v e : K} (hv : FilledAs ds es j v)
    (hj : es[j]? = some (some e)) : v = e := by
  have hclash : es[j]? ≠ some none := by
    rw [hj]
    exact fun heq => absurd (Option.some.inj heq) nofun
  cases hv with
  | known h => exact (Option.some.inj (Option.some.inj (hj.symm.trans h))).symm
  | leading hlt hall _ => exact absurd (hall j hlt) hclash
  | trailing hlt hall _ => exact absurd (hall j hlt (List.getElem?_eq_some_iff.mp hj).1) hclash
  | between hlow hhigh hall _ _ _ _ _ => exact absurd (hall j hlow hhigh) hclash

/-- The known samples are in place, and those of `S` are filled. -/
structure Done (ds : List K) (es : List (Option K)) (S : ℕ → Prop) (filled : List K) : Prop where
  length : filled.length = es.length
  known : ∀ {j : ℕ} {e : K}, es[j]? = some (some e) → filled[j]? = some e
  done : ∀ {j : ℕ}, S j → ∃ v, filled[j]? = some v ∧ FilledAs ds es j v

variable {ds : List K} {es : List (Option K)} {S : ℕ → Prop} {filled : List K}

theorem Done.mono {T : ℕ → Prop} (h : Done ds es S filled) (hle : ∀ j, T j → S j) : Done ds es T filled :=
  ⟨h.length, h.known, fun hj => h.done (hle _ hj)⟩

theorem Done.set {i : ℕ} {v : K} (h : Done ds es S filled) (hhole : es[i]? = some none)
    (hv : FilledAs ds es i v) : Done ds es (fun j => S j ∨ j = i) (filled.set i v) := by
  have hi : i < filled.length := h.length ▸ (List.getElem?_eq_some_iff.mp hhole).1
  refine ⟨by rw [List.length_set, h.length], fun {j e} hj => ?_, fun {j} hj => ?_⟩
  · have hne : i ≠ j := by
      rintro rfl
      rw [hhole] at hj
      exact absurd (Option.some.inj hj) nofun
    rw [List.getElem?_set_ne hne]
    exact h.known hj
  · by_cases hne : i = j
    · subst hne
      exact ⟨v, List.getElem?_set_self hi, hv⟩
    · rw [List.getElem?_set_ne hne]
      exact h.done (hj.resolve_right fun heq => hne heq.symm)

theorem Done.loop {turn : List K → ℕ → Option (List K)} {lo cnt : ℕ} (h : Done ds es S filled)
    (hturn : ∀ i filled, lo ≤ i → i < lo + cnt → Done ds es S filled →
      es[i]? = some none ∧ ∃ v, turn filled i = some (filled.set i v) ∧ FilledAs ds es i v) :
    ∃ filled', (List.range' lo cnt).foldlM turn filled = some filled' ∧
      Done ds es (fun j => S j ∨ lo ≤ j ∧ j < lo + cnt) filled' := by
  have hstart : Done ds es (fun j => S j ∨ lo ≤ j ∧ j < lo) filled :=
    h.mono fun j hj => hj.resolve_right fun hin => by omega
  refine foldlM_range'_spec (P := fun i filled => Done ds es (fun j => S j ∨ lo ≤ j ∧ j < i) filled)
    (fun i filled hlow hhigh hdone => ?_) hstart
  obtain ⟨hhole, v, hrun, hv⟩ := hturn i filled hlow hhigh (hdone.mono fun j hj => .inl hj)
  refine ⟨_, hrun, (hdone.set hhole hv).mono fun j hj => ?_⟩
  rcases hj with hj | hj
  · exact .inl (.inl hj)
  · rcases Nat.lt_succ_iff_lt_or_eq.mp hj.2 with hlt | heq
    · exact .inl (.inr ⟨hj.1, hlt⟩)
    · exact .inr heq

theorem Done.pairs {turn : List K → ℕ × ℕ → Option (List K)} {gaps : List (ℕ × ℕ)} (h : Done ds es S filled)
    (hturn : ∀ ab ∈ gaps, ∀ T filled, Done ds es T filled → ∃ filled', turn filled ab = some filled' ∧
      Done ds es (fun j => T j ∨ ab.1 < j ∧ j < ab.2) filled') :
    ∃ filled', gaps.foldlM turn filled = some filled' ∧
      Done ds es (fun j => S j ∨ ∃ ab ∈ gaps, ab.1 < j ∧ j < ab.2) filled' := by
  induction gaps generalizing S filled with
  | nil => exact ⟨filled, rfl, h.mono fun j hj => hj.resolve_right fun ⟨_, hmem, _⟩ => List.not_mem_nil hmem⟩
  | cons ab gaps ih =>
    obtain ⟨next, hnext, hdone⟩ := hturn ab List.mem_cons_self S filled h
    obtain ⟨filled', hrest, hdone'⟩ := ih hdone fun cd hcd => hturn cd (List.mem_cons_of_mem _ hcd)
    refine ⟨filled', by rw [List.foldlM_cons, hnext]; exact hrest, hdone'.mono fun j hj => ?_⟩
    rcases hj with hj | ⟨cd, hcd, hj⟩
    · exact .inl (.inl hj)
    · rcases List.mem_cons.mp hcd with rfl | hcd
      · exact .inl (.inr hj)
      · exact .inr ⟨cd, hcd, hj⟩

/-! ## 3. The filled series -/

structure KnownAt (es : List (Option K)) (known : List ℕ) : Prop where
  ordered : known.Pairwise (· < ·)
  mem : ∀ j : ℕ, j ∈ known ↔ ∃ e : K, es[j]? = some (some e)

omit [Field K] [LinearOrder K] in
theorem knownAt_filter (es : List (Option K)) :
    KnownAt es ((List.range es.length).filter fun i => (es[i]?.join).isSome) := by
  refine ⟨List.pairwise_lt_range.filter _, fun j => ?_⟩
  rw [List.mem_filter, List.mem_range]
  constructor
  · intro h
    rw [List.getElem?_eq_getElem h.1] at h ⊢
    cases hj : es[j] with
    | none => simp [hj] at h
    | some e => exact ⟨e, rfl⟩
  · rintro ⟨e, he⟩
    exact ⟨(List.getElem?_eq_some_iff.mp he).1, by rw [he]; rfl⟩

namespace KnownAt

variable {known : List ℕ}

omit [Field K] [LinearOrder K] in
theorem hole (h : KnownAt es known) {j : ℕ} (hj : j < es.length) (hnot : j ∉ known) : es[j]? = some none := by
  rw [h.mem, List.getElem?_eq_getElem hj] at hnot
  rw [List.getElem?_eq_getElem hj]
  cases hjs : es[j] with
  | none => rfl
  | some e => exact absurd ⟨e, by rw [hjs]⟩ hnot

omit [Field K] [LinearOrder K] in
theorem before (h : KnownAt es known) {first k : ℕ} (hfirst : known.head? = some first) (hk : k < first) :
    es[k]? = some none := by
  obtain ⟨e, he⟩ := (h.mem first).mp (List.mem_of_head? hfirst)
  have hlt := (List.getElem?_eq_some_iff.mp he).1
  refine h.hole (by omega) fun hmem => ?_
  cases known with
  | nil => exact List.not_mem_nil hmem
  | cons a known =>
    obtain rfl := Option.some.inj hfirst
    rcases List.mem_cons.mp hmem with rfl | hmem
    · exact lt_irrefl _ hk
    · exact lt_asymm hk ((List.pairwise_cons.mp h.ordered).1 k hmem)

omit [Field K] [LinearOrder K] in
theorem after (h : KnownAt es known) {last k : ℕ} (hlast : known.getLast? = some last) (hk : last < k)
    (hin : k < es.length) : es[k]? = some none := by
  refine h.hole hin fun hmem => ?_
  obtain ⟨init, rfl⟩ := List.getLast?_eq_some_iff.mp hlast
  rcases List.mem_append.mp hmem with hmem | hmem
  · have hlt := (List.pairwise_append.mp h.ordered).2.2 k hmem last (List.mem_singleton.mpr rfl)
    exact lt_asymm hk hlt
  · exact lt_irrefl _ (List.mem_singleton.mp hmem ▸ hk)

end KnownAt

/-- One turn of the loops over the first and over the last samples. -/
def extendTurn (k : ℕ) (filled : List K) (i : ℕ) : Option (List K) := do
  let e ← filled[k]?
  some (filled.set i e)

/-- One turn of the loop over the gaps. -/
def gapTurn (ds : List K) (filled : List K) (ab : ℕ × ℕ) : Option (List K) :=
  if ab.2 = ab.1 + 1 then some filled
  else do
    let d₀ ← ds[ab.1]?
    let d₁ ← ds[ab.2]?
    let e₀ ← filled[ab.1]?
    let e₁ ← filled[ab.2]?
    (List.range' (ab.1 + 1) (ab.2 - (ab.1 + 1))).foldlM (fun filled i => do
      let d ← ds[i]?
      some (filled.set i (line d₀ d₁ e₀ e₁ d))) filled

theorem Done.gap {known : List ℕ} (hlen : es.length ≤ ds.length) (hknown : KnownAt es known)
    {ab : ℕ × ℕ} (hab : ab ∈ known.zip known.tail) (h : Done ds es S filled) :
    ∃ filled', gapTurn ds filled ab = some filled' ∧
      Done ds es (fun j => S j ∨ ab.1 < j ∧ j < ab.2) filled' := by
  obtain ⟨ha, hb, hlt, hnone⟩ := zip_tail_ordered hknown.ordered hab
  obtain ⟨e₀, he₀⟩ := (hknown.mem _).mp ha
  obtain ⟨e₁, he₁⟩ := (hknown.mem _).mp hb
  have hbLt := (List.getElem?_eq_some_iff.mp he₁).1
  have hd : ∀ i, i ≤ ab.2 → ∃ d, ds[i]? = some d := fun i hi => ⟨_, List.getElem?_eq_getElem (by omega)⟩
  have hholes : ∀ k, ab.1 < k → k < ab.2 → es[k]? = some none := by
    intro k hlow hhigh
    refine hknown.hole (by omega) fun hmem => ?_
    rcases hnone k hmem with hle | hge
    · omega
    · omega
  unfold gapTurn
  split
  case isTrue hnext => exact ⟨filled, rfl, h.mono fun j hj => hj.resolve_right fun hin => by omega⟩
  case isFalse =>
    obtain ⟨d₀, hd₀⟩ := hd ab.1 hlt.le
    obtain ⟨d₁, hd₁⟩ := hd ab.2 le_rfl
    rw [hd₀, hd₁, h.known he₀, h.known he₁]
    simp only [Option.bind_eq_bind, Option.bind_some]
    have hturn : ∀ i filled, ab.1 + 1 ≤ i → i < ab.1 + 1 + (ab.2 - (ab.1 + 1)) → Done ds es S filled →
        es[i]? = some none ∧ ∃ v, ((ds[i]?).bind fun d => some (filled.set i (line d₀ d₁ e₀ e₁ d))) =
          some (filled.set i v) ∧ FilledAs ds es i v := by
      intro i filled hlow hhigh _
      obtain ⟨d, hdi⟩ := hd i (by omega)
      exact ⟨hholes i (by omega) (by omega), _, by rw [hdi]; rfl,
        .between (by omega) (by omega) hholes he₀ he₁ hd₀ hd₁ hdi⟩
    obtain ⟨filled', hrun, hdone⟩ := h.loop hturn
    exact ⟨filled', hrun, hdone.mono fun j hj => hj.imp_right fun hin => by omega⟩

theorem interpolateElevationGaps_spec (hknown : ∃ (j : ℕ) (e : K), es[j]? = some (some e))
    (hlen : es.length ≤ ds.length) :
    ∃ filled, interpolateElevationGaps ds es = some filled ∧ filled.length = es.length ∧
      ∀ j < es.length, ∃ v, filled[j]? = some v ∧ FilledAs ds es j v := by
  have hat := knownAt_filter es
  unfold interpolateElevationGaps
  dsimp only
  generalize (List.range es.length).filter _ = known at hat
  obtain ⟨j₀, hj₀⟩ := hknown
  have hin : j₀ ∈ known := (hat.mem j₀).mpr hj₀
  obtain ⟨first, hfirst⟩ : ∃ first, known.head? = some first := by
    cases known with
    | nil => exact absurd hin List.not_mem_nil
    | cons a known => exact ⟨a, rfl⟩
  obtain ⟨last, hlast⟩ : ∃ last, known.getLast? = some last := by
    cases h : known.getLast? with
    | none => exact absurd hin (List.getLast?_eq_none_iff.mp h ▸ List.not_mem_nil)
    | some last => exact ⟨last, rfl⟩
  obtain ⟨eFirst, heFirst⟩ := (hat.mem first).mp (List.mem_of_head? hfirst)
  obtain ⟨eLast, heLast⟩ := (hat.mem last).mp (List.mem_of_getLast? hlast)
  have hlastLt : last < es.length := (List.getElem?_eq_some_iff.mp heLast).1
  have hstart : Done ds es (fun _ => False) (es.map fun e => e.getD 0) :=
    ⟨List.length_map _, fun hj => by rw [List.getElem?_map, hj]; rfl, fun hj => hj.elim⟩
  have hlead : ∀ i filled, 0 ≤ i → i < 0 + first → Done ds es (fun _ => False) filled →
      es[i]? = some none ∧ ∃ v, extendTurn first filled i = some (filled.set i v) ∧ FilledAs ds es i v :=
    fun i filled _ hi hdone => ⟨hat.before hfirst (by omega), eFirst,
      by rw [extendTurn, hdone.known heFirst]; rfl,
      .leading (by omega) (fun k hk => hat.before hfirst hk) heFirst⟩
  obtain ⟨filled₁, hrun₁, hdone₁⟩ := hstart.loop hlead
  have htrail : ∀ i filled, last + 1 ≤ i → i < last + 1 + (filled₁.length - (last + 1)) →
      Done ds es (fun j => False ∨ 0 ≤ j ∧ j < 0 + first) filled →
        es[i]? = some none ∧ ∃ v, extendTurn last filled i = some (filled.set i v) ∧ FilledAs ds es i v := by
    intro i filled hlow hi hdone
    have hlen₁ := hdone₁.length
    exact ⟨hat.after hlast (by omega) (by omega), eLast, by rw [extendTurn, hdone.known heLast]; rfl,
      .trailing (by omega) (fun k hk hin => hat.after hlast hk hin) heLast⟩
  obtain ⟨filled₂, hrun₂, hdone₂⟩ := hdone₁.loop htrail
  obtain ⟨filled₃, hrun₃, hdone₃⟩ := hdone₂.pairs fun ab hab T filled hdone => hdone.gap hlen hat hab
  refine ⟨filled₃, ?_, hdone₃.length, fun j hj => ?_⟩
  · rw [hfirst, hlast]
    simp only [Option.bind_eq_bind, Option.bind_some]
    exact Option.bind_eq_some_iff.mpr ⟨filled₁, hrun₁, Option.bind_eq_some_iff.mpr ⟨filled₂, hrun₂, hrun₃⟩⟩
  · have hlen₁ := hdone₁.length
    rcases Nat.lt_or_ge j first with hbefore | hge
    · exact hdone₃.done (.inl (.inl (.inr (by omega))))
    · rcases Nat.lt_or_ge last j with hafter | hle
      · exact hdone₃.done (.inl (.inr (by omega)))
      · rcases exists_neighbours hat.ordered hfirst hlast hge hle with hmem | hgap
        · obtain ⟨e, he⟩ := (hat.mem j).mp hmem
          exact ⟨e, hdone₃.known he, .known he⟩
        · exact hdone₃.done (.inr hgap)

end TraxJourney.Track
