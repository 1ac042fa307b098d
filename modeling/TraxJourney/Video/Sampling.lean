/-
  File:      Video/Sampling.lean
  Subject:   What a trip video shows over time: `Timeline.sample` of `src/video/timeline.py`, for a
             timeline that `build_timeline` gives.

  * **`sample_forward`** -- every time has its sample, a later one is not before an earlier one, and no
    counter goes back.
-/
import Mathlib.Data.Rat.Floor
import TraxJourney.Lib.ListSlices
import TraxJourney.Video.Playback

namespace TraxJourney.Video

open Lib

section Sampling

variable {K : Type*} [Field K] [LinearOrder K] [IsStrictOrderedRing K] {tl : Timeline K} {t t' : K}

/-! ## 1. Spots in order -/

/-- In the order of legs and fractions. -/
def Spot.Before (s s' : Spot K) : Prop :=
  s.leg.index < s'.leg.index ∨ s.leg.index = s'.leg.index ∧ s.fraction ≤ s'.fraction

def TimedLeg.fractionAt (sub : TimedLeg K) (x : K) : K :=
  if sub.instant then 1 else min 1 (max 0 ((x - sub.startS) / (sub.endS - sub.startS)))

/-- Between the cards: the clip at a time, the time on its clock, and the leg there. -/
structure Timeline.Playing (tl : Timeline K) (t : K) (i : ℕ) (clip : TimedClip K) (x : K)
    (sub : TimedLeg K) : Prop where
  count : bisectRight (tl.clips.map TimedClip.startS) t = i + 1
  clip_at : tl.clips[i]? = some clip
  begun : clip.startS ≤ t
  going : t < clip.endS
  clock : easeClock (t - clip.startS) (clip.endS - clip.startS) = some x
  sub_at : clip.subs[bisectRight (clip.subs.map TimedLeg.endS) x]? = some sub
  sub_begun : sub.startS ≤ x
  sub_going : x < sub.endS

theorem TimedLeg.fractionAt_mono {sub : TimedLeg K} {x y : K} (hsub : sub.startS < sub.endS)
    (h : x ≤ y) : sub.fractionAt x ≤ sub.fractionAt y := by
  unfold TimedLeg.fractionAt
  split
  · exact le_rfl
  · refine min_le_min_left 1 (max_le_max_left 0 ?_)
    exact div_le_div_of_nonneg_right (sub_le_sub_right h _) (sub_pos.mpr hsub).le

theorem TimedLeg.fractionAt_between (sub : TimedLeg K) (x : K) :
    0 ≤ sub.fractionAt x ∧ sub.fractionAt x ≤ 1 := by
  unfold TimedLeg.fractionAt
  split
  · exact ⟨zero_le_one, le_rfl⟩
  · exact ⟨le_min zero_le_one (le_max_left 0 _), min_le_left 1 _⟩

theorem Timeline.Sound.playing (h : tl.Sound) (hlow : titleS ≤ t) (hhigh : t < tl.totalS - endS) :
    ∃ i clip x sub, tl.Playing t i clip x sub := by
  obtain ⟨i, clip, hcount, hclip, hbegun, hgoing, htiled⟩ := h.laid.find h.clips_ne hlow hhigh
  obtain ⟨clock, hclock, -, hinside⟩ := easeClock_spec (sub_pos.mpr (hbegun.trans_lt hgoing))
  obtain ⟨hzero, hlt⟩ := hinside (t - clip.startS) (sub_nonneg.mpr hbegun) (sub_lt_sub_right hgoing _)
  obtain ⟨sub, hsub, hsubBegun, hsubGoing⟩ := htiled.find hzero hlt
  exact ⟨i, clip, clock (t - clip.startS), sub,
    ⟨hcount, hclip, hbegun, hgoing, hclock _, hsub, hsubBegun, hsubGoing⟩⟩

theorem Timeline.Playing.position {i : ℕ} {clip : TimedClip K} {x : K} {sub : TimedLeg K}
    (h : tl.Playing t i clip x sub) (hlow : titleS ≤ t) (hhigh : t < tl.totalS - endS) :
    ∃ j, tl.position t = some ⟨.clip, some i, some j, sub.leg, sub.fractionAt x⟩ := by
  obtain ⟨j, hj⟩ : ∃ j, j = bisectRight (clip.subs.map TimedLeg.endS) x := ⟨_, rfl⟩
  have hlast : min j (clip.subs.length - 1) = j := by
    have hin := (List.getElem?_eq_some_iff.mp h.sub_at).1
    omega
  have hclip : clipAt tl.clips t = some (i, clip) := by
    unfold clipAt
    rw [h.count]
    dsimp only
    rw [h.clip_at]
    rfl
  have hspan : sub.endS - sub.startS ≠ 0 := (sub_pos.mpr (h.sub_begun.trans_lt h.sub_going)).ne'
  have hdivide : divide (x - sub.startS) (sub.endS - sub.startS) =
      some ((x - sub.startS) / (sub.endS - sub.startS)) := if_neg hspan
  refine ⟨j, ?_⟩
  unfold Timeline.position
  rw [if_neg (not_lt.mpr hlow), if_neg (not_le.mpr hhigh), hclip, Option.bind_some, h.clock, Option.bind_some]
  unfold spotIn
  dsimp only
  rw [← hj, hlast, hj, h.sub_at, Option.bind_some, hdivide, Option.map_some]
  unfold TimedLeg.fractionAt
  split
  · rfl
  · rfl

omit [IsStrictOrderedRing K] in
theorem Timeline.Sound.ascend (h : tl.Sound) :
    (∀ clip ∈ tl.clips, clip.subs.Pairwise fun a b => a.leg.index < b.leg.index) ∧
      tl.clips.Pairwise fun c d => ∀ a ∈ c.subs, ∀ b ∈ d.subs, a.leg.index < b.leg.index := by
  have hascend := legs_ascend tl.legset
  rw [← h.in_order, List.pairwise_flatMap] at hascend
  obtain ⟨hinside, hacross⟩ := hascend
  constructor
  · intro clip hclip
    have hlegs := hinside clip hclip
    rwa [List.pairwise_map] at hlegs
  · refine hacross.imp fun hcd a ha b hb => ?_
    exact hcd a.leg (List.mem_map_of_mem ha) b.leg (List.mem_map_of_mem hb)

theorem Timeline.Playing.before (h : tl.Sound) {i i' : ℕ} {clip clip' : TimedClip K} {x x' : K}
    {sub sub' : TimedLeg K} (hp : tl.Playing t i clip x sub) (hp' : tl.Playing t' i' clip' x' sub')
    (hle : t ≤ t') : sub.leg.index < sub'.leg.index ∨
      sub.leg.index = sub'.leg.index ∧ sub.fractionAt x ≤ sub'.fractionAt x' := by
  obtain ⟨hinside, hacross⟩ := h.ascend
  have hclips : i ≤ i' := by
    have hmono := bisectRight_mono (tl.clips.map TimedClip.startS) hle
    rw [hp.count, hp'.count] at hmono
    exact Nat.le_of_succ_le_succ hmono
  rcases Nat.eq_or_lt_of_le hclips with rfl | hlater
  · obtain rfl : clip = clip' := Option.some.inj (hp.clip_at.symm.trans hp'.clip_at)
    have hclock : x ≤ x' := by
      obtain ⟨clock, hclock, hmono, -⟩ := easeClock_spec (sub_pos.mpr (hp.begun.trans_lt hp.going))
      have hx := Option.some.inj (hp.clock.symm.trans (hclock _))
      have hx' := Option.some.inj (hp'.clock.symm.trans (hclock _))
      rw [hx, hx']
      exact hmono _ _ (sub_le_sub_right hle _)
    rcases Nat.eq_or_lt_of_le (bisectRight_mono (clip.subs.map TimedLeg.endS) hclock) with
      hsame | hnext
    · have hsub := hp.sub_at
      rw [hsame, hp'.sub_at] at hsub
      obtain rfl : sub' = sub := Option.some.inj hsub
      exact .inr ⟨rfl, TimedLeg.fractionAt_mono (hp.sub_begun.trans_lt hp.sub_going) hclock⟩
    · have hlegs := hinside clip (List.mem_of_getElem? hp.clip_at)
      exact .inl (rel_of_getElem? (r := fun a b : TimedLeg K => a.leg.index < b.leg.index) hlegs hnext
        hp.sub_at hp'.sub_at)
  · have hlegs := rel_of_getElem? hacross hlater hp.clip_at hp'.clip_at
    exact .inl (hlegs sub (List.mem_of_getElem? hp.sub_at) sub' (List.mem_of_getElem? hp'.sub_at))

omit [IsStrictOrderedRing K] in
theorem Timeline.Sound.first (h : tl.Sound) : ∃ leg, tl.legset.legs[0]? = some leg ∧
    ∀ t, t < titleS → tl.position t = some ⟨.title, none, none, leg.toLeg, 0⟩ := by
  have hpos : 0 < tl.legset.legs.length := List.length_pos_iff.mpr h.legs_ne
  have hleg := List.getElem?_eq_getElem hpos
  refine ⟨_, hleg, fun t hlow => ?_⟩
  rw [Timeline.position, if_pos hlow, List.head?_eq_getElem?, hleg, Option.map_some]

omit [IsStrictOrderedRing K] in
theorem Timeline.Sound.last (h : tl.Sound) : ∃ leg, tl.legset.legs[tl.legset.legs.length - 1]? = some leg ∧
      ∀ t, tl.totalS - endS ≤ t → tl.position t = some ⟨.ending, none, none, leg.toLeg, 1⟩ := by
  have hpos : 0 < tl.legset.legs.length := List.length_pos_iff.mpr h.legs_ne
  have hleg := List.getElem?_eq_getElem (Nat.sub_one_lt hpos.ne')
  refine ⟨_, hleg, fun t hhigh => ?_⟩
  rw [Timeline.position, if_neg (not_lt.mpr (h.room.trans hhigh)), if_pos hhigh,
    List.getLast?_eq_getElem?, hleg, Option.map_some]

theorem Timeline.Sound.position (h : tl.Sound) (t : K) :
    ∃ (s : Spot K) (n : ℕ) (leg : DrawnLeg K), tl.position t = some s ∧
      tl.legset.legs[n]? = some leg ∧ leg.toLeg = s.leg ∧ 0 ≤ s.fraction ∧ s.fraction ≤ 1 := by
  by_cases hlow : t < titleS
  · obtain ⟨leg, hleg, hposition⟩ := h.first
    exact ⟨_, 0, leg, hposition t hlow, hleg, rfl, le_rfl, zero_le_one⟩
  · by_cases hhigh : tl.totalS - endS ≤ t
    · obtain ⟨leg, hleg, hposition⟩ := h.last
      exact ⟨_, _, leg, hposition t hhigh, hleg, rfl, zero_le_one, le_rfl⟩
    · obtain ⟨i, clip, x, sub, hplaying⟩ := h.playing (not_lt.mp hlow) (not_le.mp hhigh)
      obtain ⟨j, hposition⟩ := hplaying.position (not_lt.mp hlow) (not_le.mp hhigh)
      have hmem : sub.leg ∈ tl.legset.legs.map DrawnLeg.toLeg := by
        rw [← h.in_order]
        exact List.mem_flatMap.mpr ⟨clip, List.mem_of_getElem? hplaying.clip_at,
          List.mem_map_of_mem (List.mem_of_getElem? hplaying.sub_at)⟩
      obtain ⟨leg, hleg, heq⟩ := List.mem_map.mp hmem
      obtain ⟨n, hn⟩ := List.mem_iff_getElem?.mp hleg
      obtain ⟨hzero, hone⟩ := sub.fractionAt_between x
      exact ⟨_, n, leg, hposition, hn, heq, hzero, hone⟩

theorem Timeline.Sound.position_before (h : tl.Sound) (hle : t ≤ t') {s s' : Spot K}
    (hs : tl.position t = some s) (hs' : tl.position t' = some s') : s.Before s' := by
  obtain ⟨_, n, leg, hspot, hn, hleg, hfrom, hto⟩ := h.position t
  obtain rfl := Option.some.inj (hs.symm.trans hspot)
  obtain ⟨_, n', leg', hspot', hn', hleg', hfrom', hto'⟩ := h.position t'
  obtain rfl := Option.some.inj (hs'.symm.trans hspot')
  have hindex : s.leg.index = n := hleg ▸ tl.legset.sound.numbered n leg hn
  have hindex' : s'.leg.index = n' := hleg' ▸ tl.legset.sound.numbered n' leg' hn'
  unfold Spot.Before
  by_cases hlow : t < titleS
  · -- the start of the first leg
    obtain ⟨first, hfirst, hcard⟩ := h.first
    obtain rfl := Option.some.inj ((hcard t hlow).symm.trans hs)
    have hzero : first.index = 0 := tl.legset.sound.numbered 0 first hfirst
    rw [hindex', hzero]
    rcases Nat.eq_zero_or_pos n' with hsame | hlater
    · exact .inr ⟨(congrArg Nat.cast hsame).symm, hfrom'⟩
    · exact .inl (Int.natCast_pos.mpr hlater)
  · by_cases hhigh : tl.totalS - endS ≤ t'
    · -- the end of the last leg
      obtain ⟨last, hlast, hcard⟩ := h.last
      obtain rfl := Option.some.inj ((hcard t' hhigh).symm.trans hs')
      have hend : last.index = ((tl.legset.legs.length - 1 : ℕ) : ℤ) := tl.legset.sound.numbered _ last hlast
      have hlt := (List.getElem?_eq_some_iff.mp hn).1
      rw [hindex, hend]
      rcases Nat.eq_or_lt_of_le (Nat.le_sub_one_of_lt hlt) with hsame | hearlier
      · exact .inr ⟨congrArg Nat.cast hsame, hto⟩
      · exact .inl (Int.ofNat_lt.mpr hearlier)
    · have hlow' : titleS ≤ t' := (not_lt.mp hlow).trans hle
      have hhigh' : t < tl.totalS - endS := hle.trans_lt (not_le.mp hhigh)
      obtain ⟨i, clip, x, sub, hplaying⟩ := h.playing (not_lt.mp hlow) hhigh'
      obtain ⟨j, hposition⟩ := hplaying.position (not_lt.mp hlow) hhigh'
      obtain rfl := Option.some.inj (hposition.symm.trans hs)
      obtain ⟨i', clip', x', sub', hplaying'⟩ := h.playing hlow' (not_le.mp hhigh)
      obtain ⟨j', hposition'⟩ := hplaying'.position hlow' (not_le.mp hhigh)
      obtain rfl := Option.some.inj (hposition'.symm.trans hs')
      exact hplaying.before h hplaying' hle

/-! ## 2. The counters -/

def kmOf (mode : String) (legs : List (DrawnLeg K)) : K :=
  ((legs.filter fun leg => leg.mode = mode).map DrawnLeg.km).sum

/-- `d.get(mode, 0.0)`. -/
def kmShown (km : Dict String K) (mode : String) : K := (km.find mode).getD 0

omit [LinearOrder K] [IsStrictOrderedRing K] in
theorem kmShown_addKm (running : Dict String K) (mode key : String) (km : K) :
    kmShown (addKm running key km) mode = kmShown running mode + if key = mode then km else 0 := by
  unfold kmShown addKm
  rw [Table.find_put]
  by_cases hkey : mode = key
  · rw [if_pos hkey, if_pos hkey.symm, Option.getD_some, hkey]
  · rw [if_neg hkey, if_neg (Ne.symm hkey), add_zero]

omit [LinearOrder K] [IsStrictOrderedRing K] in
theorem kmOf_append (mode : String) (legs more : List (DrawnLeg K)) :
    kmOf mode (legs ++ more) = kmOf mode legs + kmOf mode more := by
  unfold kmOf
  rw [List.filter_append, List.map_append, List.sum_append]

omit [LinearOrder K] [IsStrictOrderedRing K] in
theorem kmOf_singleton (mode : String) (leg : DrawnLeg K) :
    kmOf mode [leg] = if leg.mode = mode then leg.km else 0 := by
  unfold kmOf
  by_cases hmode : leg.mode = mode
  · rw [List.filter_cons, decide_eq_true hmode, if_pos rfl, if_pos hmode, List.filter_nil,
      List.map_singleton, List.sum_singleton]
  · rw [List.filter_cons, decide_eq_false hmode, if_neg Bool.false_ne_true, if_neg hmode,
      List.filter_nil, List.map_nil, List.sum_nil]

theorem kmOf_nonneg {legs : List (DrawnLeg K)} (h : ∀ leg ∈ legs, 0 ≤ leg.km) (mode : String) :
    0 ≤ kmOf mode legs := by
  refine List.sum_nonneg fun km hkm => ?_
  obtain ⟨leg, hleg, rfl⟩ := List.mem_map.mp hkm
  exact h leg (List.mem_of_mem_filter hleg)

omit [LinearOrder K] [IsStrictOrderedRing K] in
theorem kmShown_foldl (running : Dict String K) (legs : List (DrawnLeg K)) (mode : String) :
    kmShown (legs.foldl (fun running leg => addKm running leg.mode leg.km) running) mode =
      kmShown running mode + kmOf mode legs := by
  induction legs generalizing running with
  | nil => exact (add_zero _).symm
  | cons leg legs ih =>
    rw [List.foldl_cons, ih, kmShown_addKm, ← kmOf_singleton, add_assoc, ← kmOf_append, List.singleton_append]

/-- The counters before the `n`th leg. -/
def kmUpTo (legs : List (DrawnLeg K)) (n : ℕ) : Dict String K :=
  (legs.take n).foldl (fun running leg => addKm running leg.mode leg.km) .empty

omit [LinearOrder K] [IsStrictOrderedRing K] in
theorem kmShown_kmUpTo (legs : List (DrawnLeg K)) (n : ℕ) (mode : String) :
    kmShown (kmUpTo legs n) mode = kmOf mode (legs.take n) :=
  (kmShown_foldl .empty (legs.take n) mode).trans (zero_add _)

variable {leg : DrawnLeg K}

omit [LinearOrder K] [IsStrictOrderedRing K] in
theorem kmUpTo_succ {legs : List (DrawnLeg K)} {n : ℕ} (hn : legs[n]? = some leg) :
    kmUpTo legs (n + 1) = addKm (kmUpTo legs n) leg.mode leg.km := by
  unfold kmUpTo
  rw [List.take_add_one, hn, List.foldl_append]
  rfl

omit [IsStrictOrderedRing K] in
theorem Timeline.kmTotals_eq (tl : Timeline K) :
    tl.kmTotals = kmUpTo tl.legset.legs tl.legset.legs.length := by
  unfold Timeline.kmTotals kmBefore kmUpTo
  rw [List.getLast?_scanl, Option.getD_some, List.take_length]

theorem kmUpTo_forward (legset : LegSet K) {n n' : ℕ} {leg' : DrawnLeg K} {f f' : K}
    (hn : legset.legs[n]? = some leg) (hn' : legset.legs[n']? = some leg') (hf : f ≤ 1) (hf' : 0 ≤ f')
    (hle : n < n' ∨ n = n' ∧ f ≤ f') (mode : String) :
    kmShown (addKm (kmUpTo legset.legs n) leg.mode (leg.km * f)) mode ≤
      kmShown (addKm (kmUpTo legset.legs n') leg'.mode (leg'.km * f')) mode := by
  have hkm := legset.sound.km_nonneg leg (List.mem_of_getElem? hn)
  have hkm' := legset.sound.km_nonneg leg' (List.mem_of_getElem? hn')
  have hpart : ∀ {km a b : K}, 0 ≤ km → a ≤ b → ∀ key : String,
      (if key = mode then km * a else 0) ≤ if key = mode then km * b else 0 := by
    intro km a b hpos hab key
    split
    · exact mul_le_mul_of_nonneg_left hab hpos
    · exact le_rfl
  rw [kmShown_addKm, kmShown_addKm]
  rcases hle with hlt | ⟨rfl, hff⟩
  · have hrest : kmOf mode (legset.legs.take (n + 1)) ≤ kmOf mode (legset.legs.take n') := by
      rw [← take_append_slice legset.legs hlt, kmOf_append]
      refine le_add_of_nonneg_right (kmOf_nonneg (fun leg hleg => ?_) mode)
      exact legset.sound.km_nonneg leg (mem_of_mem_slice hleg)
    calc kmShown (kmUpTo legset.legs n) mode + (if leg.mode = mode then leg.km * f else 0)
        ≤ kmShown (kmUpTo legset.legs n) mode + if leg.mode = mode then leg.km * 1 else 0 :=
          add_le_add_right (hpart hkm hf leg.mode) _
      _ = kmOf mode (legset.legs.take (n + 1)) := by
          rw [mul_one, ← kmShown_addKm, ← kmUpTo_succ hn, kmShown_kmUpTo]
      _ ≤ kmOf mode (legset.legs.take n') := hrest
      _ = kmShown (kmUpTo legset.legs n') mode + 0 := by rw [kmShown_kmUpTo, add_zero]
      _ ≤ _ := by
          refine add_le_add_right (le_trans ?_ (hpart hkm' hf' leg'.mode)) _
          rw [mul_zero, ite_self]
  · obtain rfl : leg = leg' := Option.some.inj (hn.symm.trans hn')
    exact add_le_add_right (hpart hkm hff leg.mode) _

/-! ## 3. Samples -/

omit [IsStrictOrderedRing K] in
theorem pointAt_some (bearing : K × K → K × K → K) (fraction : K) (htwo : 2 ≤ leg.points.length)
    (hcum : leg.cumKm.length = leg.points.length) :
    ∃ p, pointAt bearing leg fraction = some p := by
  have hget : ∀ {α : Type _} {l : List α} {i : ℕ}, i < l.length → ∃ x, l[i]? = some x := fun h =>
    ⟨_, List.getElem?_eq_getElem h⟩
  obtain ⟨last, hlast⟩ := hget (l := leg.cumKm) (i := leg.cumKm.length - 1) (by omega)
  obtain ⟨i, hi⟩ : ∃ i, i = max 1 (min (bisectLeft leg.cumKm (fraction * last)) (leg.cumKm.length - 1)) :=
    ⟨_, rfl⟩
  obtain ⟨here, hhere⟩ := hget (l := leg.cumKm) (i := i) (by omega)
  obtain ⟨before, hbefore⟩ := hget (l := leg.cumKm) (i := i - 1) (by omega)
  obtain ⟨p, hp⟩ := hget (l := leg.points) (i := i - 1) (by omega)
  obtain ⟨q, hq⟩ := hget (l := leg.points) (i := i) (by omega)
  unfold pointAt
  rw [List.getLast?_eq_getElem?, hlast, Option.bind_some]
  dsimp only
  rw [← hi, hhere, Option.bind_some, hbefore, Option.bind_some, hp, hq]
  by_cases hspan : here - before ≤ 0
  · rw [if_pos hspan]
    exact ⟨_, rfl⟩
  · have hdivide : ∀ a : K, divide a (here - before) = some (a / (here - before)) := fun a =>
      if_neg fun hzero => hspan hzero.le
    rw [if_neg hspan, hdivide]
    exact ⟨_, rfl⟩

omit [IsStrictOrderedRing K] in
theorem Timeline.state_some (bearing : K × K → K × K → K) (tl : Timeline K) (t : K) {s : Spot K} {n : ℕ}
    (hn : tl.legset.legs[n]? = some leg) (hleg : leg.toLeg = s.leg) :
    ∃ state, tl.state bearing t s = some state ∧
      state.kmByMode = addKm (kmUpTo tl.legset.legs n) leg.mode (leg.km * s.fraction) := by
  obtain ⟨hlt, hget⟩ := List.getElem?_eq_some_iff.mp hn
  have hpos : tl.legPos s.leg = some n := by
    refine List.findIdx?_eq_some_iff_getElem.mpr ⟨hlt, decide_eq_true ?_, fun j hj hd => ?_⟩
    · rw [hget, ← hleg]
    · have hj' := tl.legset.sound.numbered j _ (List.getElem?_eq_getElem (hj.trans hlt))
      have hn' := tl.legset.sound.numbered n leg hn
      have hsame := of_decide_eq_true hd
      rw [← hleg, hn', hj'] at hsame
      omega
  obtain ⟨htwo, hcum⟩ := tl.legset.sound.drawn leg (List.mem_of_getElem? hn)
  obtain ⟨p, hp⟩ := pointAt_some bearing s.fraction htwo hcum
  have hkm : (kmBefore tl.legset.legs)[n]? = some (kmUpTo tl.legset.legs n) := by
    unfold kmBefore kmUpTo
    rw [List.getElem?_scanl, if_pos hlt.le]
  unfold Timeline.state
  rw [hpos, Option.bind_some, hn, Option.bind_some, hp, Option.bind_some, hkm, Option.map_some]
  exact ⟨_, rfl, rfl⟩

/-- A time of the video. -/
def Timeline.clamped (tl : Timeline K) (t : K) : K := min (max t 0) tl.totalS

/-- **A trip video never runs backwards.** -/
theorem sample_forward [FloorRing K] {R : Root K} {policy : PacingPolicy K} {fps : ℤ}
    {legset : LegSet K} {totalS : K} {tl : Timeline K}
    (hbuild : buildTimeline R policy fps legset totalS = some tl) (bearing : K × K → K × K → K) :
    (∀ t, ∃ s state, tl.position (tl.clamped t) = some s ∧ tl.sample bearing t = some state) ∧
      (∀ t t', t ≤ t' → ∀ s s', tl.position (tl.clamped t) = some s →
        tl.position (tl.clamped t') = some s' → s.Before s') ∧
      (∀ t t', t ≤ t' → ∀ state state', tl.sample bearing t = some state →
        tl.sample bearing t' = some state' →
        ∀ mode, kmShown state.kmByMode mode ≤ kmShown state'.kmByMode mode) ∧
      ∀ t, totalS - endS ≤ t → ∃ state, tl.sample bearing t = some state ∧ state.kmByMode = tl.kmTotals ∧
        ∀ mode, kmShown state.kmByMode mode = kmOf mode legset.legs := by
  obtain ⟨hsound, rfl, rfl⟩ := buildTimeline_sound hbuild
  have hclamped : ∀ {t t' : K}, t ≤ t' → tl.clamped t ≤ tl.clamped t' := fun hle =>
    min_le_min_right _ (max_le_max_right _ hle)
  have hsample : ∀ t, ∃ s n leg, tl.position (tl.clamped t) = some s ∧
      tl.legset.legs[n]? = some leg ∧ leg.toLeg = s.leg ∧ 0 ≤ s.fraction ∧ s.fraction ≤ 1 ∧
      ∃ state, tl.sample bearing t = some state ∧
        state.kmByMode = addKm (kmUpTo tl.legset.legs n) leg.mode (leg.km * s.fraction) := by
    intro t
    obtain ⟨s, n, leg, hs, hn, hleg, hzero, hone⟩ := hsound.position (tl.clamped t)
    obtain ⟨state, hstate, hkm⟩ := tl.state_some bearing (tl.clamped t) hn hleg
    refine ⟨s, n, leg, hs, hn, hleg, hzero, hone, state, ?_, hkm⟩
    unfold Timeline.sample
    dsimp only
    rw [← Timeline.clamped, hs, Option.bind_some, hstate]
  refine ⟨fun t => ?every, fun t t' hle s s' hs hs' => ?spots, fun t t' hle state state' h h' => ?counters,
    fun t ht => ?ending⟩
  case every =>
    obtain ⟨s, -, -, hs, -, -, -, -, state, hstate, -⟩ := hsample t
    exact ⟨s, state, hs, hstate⟩
  case spots => exact hsound.position_before (hclamped hle) hs hs'
  case counters =>
    intro mode
    obtain ⟨s, n, leg, hs, hn, hleg, -, hone, shown, hshown, hkm⟩ := hsample t
    obtain rfl := Option.some.inj (h.symm.trans hshown)
    obtain ⟨s', n', leg', hs', hn', hleg', hzero', -, shown', hshown', hkm'⟩ := hsample t'
    obtain rfl := Option.some.inj (h'.symm.trans hshown')
    have hindex : s.leg.index = n := hleg ▸ tl.legset.sound.numbered n leg hn
    have hindex' : s'.leg.index = n' := hleg' ▸ tl.legset.sound.numbered n' leg' hn'
    have hbefore := hsound.position_before (hclamped hle) hs hs'
    unfold Spot.Before at hbefore
    rw [hindex, hindex', Int.ofNat_lt, Int.ofNat_inj] at hbefore
    rw [hkm, hkm']
    exact kmUpTo_forward tl.legset hn hn' hone hzero' hbefore mode
  case ending =>
    obtain ⟨last, hlast, hcard⟩ := hsound.last
    have hend : (0 : K) ≤ endS := by norm_num [endS]
    have hlate : tl.totalS - endS ≤ tl.clamped t := le_min (ht.trans (le_max_left t 0)) (sub_le_self _ hend)
    obtain ⟨state, hstate, hkm⟩ := tl.state_some bearing (tl.clamped t) (s := ⟨.ending, none, none,
      last.toLeg, 1⟩) hlast rfl
    have htotal : state.kmByMode = tl.kmTotals := by
      have hpos : 0 < tl.legset.legs.length := List.length_pos_iff.mpr hsound.legs_ne
      rw [hkm, mul_one, ← kmUpTo_succ hlast, Nat.sub_add_cancel hpos, tl.kmTotals_eq]
    refine ⟨state, ?_, htotal, fun mode => ?_⟩
    · unfold Timeline.sample
      dsimp only
      rw [← Timeline.clamped, hcard _ hlate, Option.bind_some, hstate]
    · rw [htotal, tl.kmTotals_eq, kmShown_kmUpTo, List.take_length]

end Sampling

/-- The roots of 20, 30, 40 and 50 squared. -/
def tensRoot : Root ℚ where
  sqrt x := if x = 400 then 20 else if x = 900 then 30 else if x = 1600 then 40 else
    if x = 2500 then 50 else 0
  nonneg x := by split_ifs <;> norm_num

/-- Two rides of one day and a walk on the next, each recorded at one place. -/
def threeLegs : LegSet ℚ :=
  buildLegs (fun _ _ => 0) (fun _ _ => le_rfl)
    [(.activity "ride" (some "2024-07-01") (some 5000) (some 900) none 18, some [(7, 46), (7, 46)]),
      (.activity "ride" none (some 10000) (some 1600) none 18, some [(8, 46), (8, 46)]),
      (.activity "hike" (some "2024-07-02") (some 3000) (some 400) none (9 / 2), some [(8, 47), (8, 47)])]

/-- The three legs in the two clips that eight and a half seconds have room for. -/
theorem sample_forward_threeLegs :
    ∃ tl, buildTimeline tensRoot (sqrtBudget tensRoot) 30 threeLegs (17 / 2) = some tl ∧
      tl.clips.map (fun c => (c.startS, c.endS)) = [(5 / 2, 4), (4, 11 / 2)] ∧
      ∀ t, 17 / 2 - endS ≤ t → ∃ state, tl.sample (fun _ _ => 0) t = some state ∧
        kmShown state.kmByMode "ride" = 15 ∧ kmShown state.kmByMode "hike" = 3 := by
  obtain ⟨tl, htl⟩ := Option.isSome_iff_exists.mp
    (show (buildTimeline tensRoot (sqrtBudget tensRoot) 30 threeLegs (17 / 2)).isSome = true by
      decide +kernel)
  have hclips : (buildTimeline tensRoot (sqrtBudget tensRoot) 30 threeLegs (17 / 2)).map
      (fun tl => tl.clips.map fun c => (c.startS, c.endS)) = some [(5 / 2, 4), (4, 11 / 2)] := by
    decide +kernel
  have hride : kmOf "ride" threeLegs.legs = 15 := by decide +kernel
  have hhike : kmOf "hike" threeLegs.legs = 3 := by decide +kernel
  rw [htl, Option.map_some] at hclips
  refine ⟨tl, htl, Option.some.inj hclips, fun t ht => ?_⟩
  obtain ⟨-, -, -, hend⟩ := sample_forward htl fun _ _ => (0 : ℚ)
  obtain ⟨state, hstate, -, hkm⟩ := hend t ht
  exact ⟨state, hstate, (hkm "ride").trans hride, (hkm "hike").trans hhike⟩

end TraxJourney.Video
