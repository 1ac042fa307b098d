/-
  File:      Geo/Cache.lean
  Subject:   The cache of gzipped project payloads: `bust_geo_cache`, `_geo_generation`,
             `_geo_cache_get` and `_geo_cache_store` from `api/geo.py`, and any number of threads
             of any number of processes that look up, recompute and mutate.

  * **`geo_cache_fresh`** -- a lookup never returns a payload older than a mutation whose bust had
    finished when the lookup began, and the dict of every process stays within its limits.

  A payload stands for its bytes: it keeps their number, and the version of the project it was
  computed from. `bumpedTo` and `bustedTo` are history that no step reads.
-/
import TraxJourney.Lib.Clients
import TraxJourney.Lib.Table
import Mathlib.Algebra.GroupWithZero.Nat
import Mathlib.Algebra.Order.BigOperators.Group.List
import Mathlib.Algebra.Order.Group.Nat
import Mathlib.Data.List.MinMax

namespace TraxJourney.Geo

open Lib

/-! ## 1. One process's dict -/

def geoCacheMaxEntries : ℕ := 200

def geoCacheMaxBytes : ℕ := 64 * 1024 * 1024

def geoCacheMaxEntryBytes : ℕ := 16 * 1024 * 1024

structure ProjectKey where
  userInfoId : ℤ
  projectName : String
deriving DecidableEq

/-- `(user_info_id, project_name, variant)`. -/
structure CacheKey (ν : Type*) where
  project : ProjectKey
  variant : ν
deriving DecidableEq

structure Payload where
  size : ℕ
  version : ℕ
deriving DecidableEq

/-- `_geo_cache[key] = (gz_bytes, deadline, gen)`. -/
structure CacheEntry (ν τ : Type*) where
  key : CacheKey ν
  gzBytes : Payload
  deadline : τ
  gen : ℕ
deriving DecidableEq

abbrev GeoCache (ν τ : Type*) := Table (CacheEntry ν τ) CacheEntry.key

variable {ν τ π : Type*}

section Dict

variable [DecidableEq ν] [LinearOrder τ] [Add τ]

def geoCacheBytes (c : GeoCache ν τ) : ℕ := (c.rows.map (·.gzBytes.size)).sum

/-- The budget of the eviction loop. -/
def Within (c : GeoCache ν τ) : Prop :=
  geoCacheBytes c ≤ geoCacheMaxBytes ∧ c.rows.length ≤ geoCacheMaxEntries

instance (c : GeoCache ν τ) : Decidable (Within c) := inferInstanceAs (Decidable (_ ∧ _))

/-- The eviction loop, over at most `n` entries. -/
def evict (cacheKey : CacheKey ν) : ℕ → GeoCache ν τ → GeoCache ν τ
  | 0, c => c
  | n + 1, c =>
    if Within c then c
    else match c.rows.argmin CacheEntry.deadline with
      | none => c
      | some soonest =>
        if soonest.key = cacheKey ∧ c.rows.length = 1 then c
        else evict cacheKey n (c.erase soonest.key)

/-- The locked section of `_geo_cache_store`. -/
def geoCacheStore (c : GeoCache ν τ) (cacheKey : CacheKey ν) (gzBytes : Payload) (gen : ℕ)
    (now ttlS : τ) : GeoCache ν τ :=
  let c := c.delete fun e => e.deadline ≤ now
  if gzBytes.size > geoCacheMaxEntryBytes then c.erase cacheKey
  else
    let c := c.put ⟨cacheKey, gzBytes, now + ttlS, gen⟩
    evict cacheKey c.rows.length c

/-- The first locked section of `_geo_cache_get`. -/
def geoCacheFind (c : GeoCache ν τ) (cacheKey : CacheKey ν) (now : τ) :
    GeoCache ν τ × Option (CacheEntry ν τ) :=
  match c.get cacheKey with
  | none => (c, none)
  | some e => if e.deadline ≤ now then (c.erase cacheKey, none) else (c, some e)

/-! ## 2. The budget -/

section Budget

variable {c c' : GeoCache ν τ} {cacheKey : CacheKey ν} {e : CacheEntry ν τ}

omit [DecidableEq ν] [LinearOrder τ] [Add τ] in
theorem Within.delete (h : Within c) (p : CacheEntry ν τ → Bool) : Within (c.delete p) := by
  have hsub : (c.delete p).rows.Sublist c.rows := List.filter_sublist
  have hbytes : geoCacheBytes (c.delete p) ≤ geoCacheBytes c := (hsub.map _).sum_le_sum fun _ _ => Nat.zero_le _
  have hlen : (c.delete p).rows.length ≤ c.rows.length := hsub.length_le
  exact ⟨Nat.le_trans hbytes h.1, Nat.le_trans hlen h.2⟩

omit [LinearOrder τ] [Add τ] in
theorem length_erase (he : e ∈ c) : (c.erase e.key).rows.length < c.rows.length := by
  refine List.length_filter_lt_length_iff_exists.mpr ⟨e, he, ?_⟩
  simp

omit [Add τ] in
theorem mem_of_mem_evict {n : ℕ} (h : e ∈ evict cacheKey n c) : e ∈ c := by
  induction n generalizing c with
  | zero => exact h
  | succ n ih =>
    rw [evict] at h
    split at h
    · exact h
    · split at h
      · exact h
      · split at h
        · exact h
        · exact (Table.mem_delete.mp (ih h)).1

omit [Add τ] in
theorem evict_within {n : ℕ} (hn : c.rows.length ≤ n) : Within (evict cacheKey n c) ∨
      ∃ e, (evict cacheKey n c).rows = [e] ∧ e.key = cacheKey := by
  induction n generalizing c with
  | zero =>
    have hnil : c.rows = [] := List.length_eq_zero_iff.mp (Nat.le_zero.mp hn)
    left
    simp [evict, Within, geoCacheBytes, hnil]
  | succ n ih =>
    rw [evict]
    split
    · rename_i hwithin
      exact .inl hwithin
    · split
      · rename_i hnone
        have hnil : c.rows = [] := List.argmin_eq_none.mp hnone
        left
        simp [Within, geoCacheBytes, hnil]
      · rename_i soonest hsoonest
        split
        · -- the entry just stored is the only one
          rename_i halone
          obtain ⟨a, ha⟩ := List.length_eq_one_iff.mp halone.2
          have hmem : soonest ∈ c.rows := List.argmin_mem hsoonest
          rw [ha, List.mem_singleton] at hmem
          subst hmem
          exact .inr ⟨soonest, ha, halone.1⟩
        · have hlen := length_erase (c := c) (List.argmin_mem hsoonest)
          exact ih (by omega)

theorem geoCacheStore_within (h : Within c) (gzBytes : Payload) (gen : ℕ) (now ttlS : τ) :
    Within (geoCacheStore c cacheKey gzBytes gen now ttlS) := by
  unfold geoCacheStore
  dsimp only
  split
  · exact (h.delete _).delete _
  · rename_i hsize
    generalize hput : (c.delete fun e => e.deadline ≤ now).put
      ⟨cacheKey, gzBytes, now + ttlS, gen⟩ = c₁
    have hend : Within (evict cacheKey c₁.rows.length c₁) ∨
        ∃ e, (evict cacheKey c₁.rows.length c₁).rows = [e] ∧ e.key = cacheKey :=
      evict_within (Nat.le_refl _)
    rcases hend with hin | ⟨e, hrows, hkey⟩
    · exact hin
    · have hmem : e ∈ c₁ := mem_of_mem_evict (Table.mem_def.mpr (hrows ▸ List.mem_singleton_self e))
      rw [← hput] at hmem
      rcases Table.mem_put.mp hmem with rfl | ⟨-, hne⟩
      · constructor
        · have hbytes := Nat.le_of_not_lt hsize
          simp only [geoCacheBytes, hrows, List.map_cons, List.map_nil, List.sum_singleton]
          simp only [geoCacheMaxEntryBytes, geoCacheMaxBytes] at hbytes ⊢
          omega
        · have hlen := congrArg List.length hrows
          simp only [List.length_singleton] at hlen
          simp only [hlen, geoCacheMaxEntries]
          omega
      · exact absurd hkey hne

theorem mem_geoCacheStore {gzBytes : Payload} {gen : ℕ} {now ttlS : τ}
    (h : e ∈ geoCacheStore c cacheKey gzBytes gen now ttlS) :
    e ∈ c ∨ e = ⟨cacheKey, gzBytes, now + ttlS, gen⟩ := by
  unfold geoCacheStore at h
  dsimp only at h
  split at h
  · exact .inl (Table.mem_delete.mp (Table.mem_delete.mp h).1).1
  · rcases Table.mem_put.mp (mem_of_mem_evict h) with rfl | ⟨hold, -⟩
    · exact .inr rfl
    · exact .inl (Table.mem_delete.mp hold).1

omit [Add τ] in
theorem geoCacheFind_cases {now : τ} {found : Option (CacheEntry ν τ)}
    (h : geoCacheFind c cacheKey now = (c', found)) :
    (∃ p, c' = c.delete p ∧ found = none) ∨ c' = c ∧ ∀ e, found = some e → e ∈ c ∧ e.key = cacheKey := by
  unfold geoCacheFind at h
  split at h
  · cases h
    exact .inr ⟨rfl, nofun⟩
  · rename_i e hget
    split at h
    · cases h
      exact .inl ⟨_, rfl, rfl⟩
    · cases h
      refine .inr ⟨rfl, fun _ he => ?_⟩
      cases he
      exact Table.get_eq_some.mp hget

end Budget

end Dict

/-! ## 3. Threads of several processes -/

/-- The dict and the fallback counters of each process, the counters of the broker, and the version of each
    project. `bumpedTo` and `bustedTo`: the latest mutations that bumped the counter, and whose bust has
    finished. -/
structure Store (π ν τ : Type*) where
  geoCache : π → GeoCache ν τ
  geoGen : π → ProjectKey → ℕ
  sharedGen : ProjectKey → ℕ
  version : ProjectKey → ℕ
  bumpedTo : ProjectKey → ℕ
  bustedTo : ProjectKey → ℕ

/-- `_geo_generation`, with a broker that answers or without one. -/
def Store.geoGeneration (redis : Bool) (s : Store π ν τ) (proc : π) (k : ProjectKey) : ℕ :=
  if redis then s.sharedGen k else s.geoGen proc k

section Steps

variable [DecidableEq ν] [LinearOrder τ] [Add τ] [DecidableEq π]

def Store.withCache (s : Store π ν τ) (proc : π) (c : GeoCache ν τ) : Store π ν τ :=
  { s with geoCache := Function.update s.geoCache proc c }

/-- `client.incr`. -/
def Store.incrShared (s : Store π ν τ) (k : ProjectKey) (v : ℕ) : Store π ν τ :=
  { s with
    sharedGen := Function.update s.sharedGen k (s.sharedGen k + 1)
    bumpedTo := Function.update s.bumpedTo k (max (s.bumpedTo k) v) }

/-- The locked section of `bust_geo_cache`. -/
def Store.dropLocal (redis : Bool) (s : Store π ν τ) (proc : π) (k : ProjectKey) (v : ℕ) : Store π ν τ :=
  { s with
    geoCache := Function.update s.geoCache proc ((s.geoCache proc).delete fun e => e.key.project = k)
    geoGen := Function.update s.geoGen proc (Function.update (s.geoGen proc) k (s.geoGen proc k + 1))
    bumpedTo := if redis then s.bumpedTo
      else Function.update s.bumpedTo k (max (s.bumpedTo k) v)
    bustedTo := Function.update s.bustedTo k (max (s.bustedTo k) v) }

/-- Where a thread stands. A lookup carries the latest mutation whose bust had finished when it
    began. -/
inductive Phase (ν τ : Type*) where
  | idle
  | looking (cacheKey : CacheKey ν) (busted : ℕ)
  | found (cacheKey : CacheKey ν) (busted : ℕ) (entry : CacheEntry ν τ)
  | superseded (cacheKey : CacheKey ν) (busted : ℕ)
  | returned (cacheKey : CacheKey ν) (busted : ℕ) (result : Option Payload)
  | captured (cacheKey : CacheKey ν) (gen : ℕ)
  | computed (cacheKey : CacheKey ν) (gen : ℕ) (gzBytes : Payload)
  | storing (cacheKey : CacheKey ν) (gen : ℕ) (gzBytes : Payload)
  | committed (k : ProjectKey) (version : ℕ)
  | bumped (k : ProjectKey) (version : ℕ)
deriving DecidableEq

structure Thread (π ν τ : Type*) where
  proc : π
  phase : Phase ν τ

/-- What a thread does next. `now` is the reading of `monotonic`, `size` the length of the payload
    it computes. -/
inductive Action (ν τ : Type*) where
  | looksUp (cacheKey : CacheKey ν)
  | recomputes (cacheKey : CacheKey ν)
  | mutates (k : ProjectKey)
  | goesOn (now ttlS : τ) (size : ℕ)
  | ends

/-- The next step of a thread, up to the next point where another thread can come in. -/
def goOn (redis : Bool) (proc : π) (s : Store π ν τ) (now ttlS : τ) (size : ℕ) :
    Phase ν τ → Option (Phase ν τ × Store π ν τ)
  | .looking cacheKey busted =>
    match geoCacheFind (s.geoCache proc) cacheKey now with
    | (c, none) => some (.returned cacheKey busted none, s.withCache proc c)
    | (c, some e) => some (.found cacheKey busted e, s.withCache proc c)
  | .found cacheKey busted e =>
    if e.gen ≠ s.geoGeneration redis proc cacheKey.project then
      some (.superseded cacheKey busted, s)
    else some (.returned cacheKey busted (some e.gzBytes), s)
  | .superseded cacheKey busted =>
    some (.returned cacheKey busted none, s.withCache proc ((s.geoCache proc).erase cacheKey))
  | .captured cacheKey gen => some (.computed cacheKey gen ⟨size, s.version cacheKey.project⟩, s)
  | .computed cacheKey gen gzBytes =>
    if s.geoGeneration redis proc cacheKey.project ≠ gen then some (.idle, s)
    else some (.storing cacheKey gen gzBytes, s)
  | .storing cacheKey gen gzBytes =>
    some (.idle, s.withCache proc (geoCacheStore (s.geoCache proc) cacheKey gzBytes gen now ttlS))
  | .committed k v => some (.bumped k v, if redis then s.incrShared k v else s)
  | .bumped k v => some (.idle, s.dropLocal redis proc k v)
  | _ => none

def act (redis : Bool) (th : Thread π ν τ) (a : Action ν τ) (s : Store π ν τ) :
    Option (Thread π ν τ × Store π ν τ) :=
  match a, th.phase with
  | .looksUp cacheKey, .idle => some ({ th with phase := .looking cacheKey (s.bustedTo cacheKey.project) }, s)
  | .recomputes cacheKey, .idle =>
    some ({ th with
      phase := .captured cacheKey (s.geoGeneration redis th.proc cacheKey.project) }, s)
  | .mutates k, .idle =>
    some ({ th with phase := .committed k (s.version k + 1) },
      { s with version := Function.update s.version k (s.version k + 1) })
  | .goesOn now ttlS size, phase =>
    (goOn redis th.proc s now ttlS size phase).map fun r => ({ th with phase := r.1 }, r.2)
  | .ends, .returned _ _ _ => some ({ th with phase := .idle }, s)
  | _, _ => none

end Steps

/-! ## 4. What ties an entry to its state -/

variable {redis : Bool} {s s' : Store π ν τ} {proc : π} {k : ProjectKey} {gen version : ℕ}

/-- The generation is not ahead of the counter; and it is behind once the counter was bumped for a
    mutation later than the version. -/
structure Dated (redis : Bool) (s : Store π ν τ) (proc : π) (k : ProjectKey) (gen version : ℕ) :
    Prop where
  le : gen ≤ s.geoGeneration redis proc k
  behind : version < s.bumpedTo k → gen < s.geoGeneration redis proc k

/-- What holds of the store at every moment. -/
structure Sound (redis : Bool) (s : Store π ν τ) : Prop where
  bumped : ∀ k, s.bumpedTo k ≤ s.version k
  busted : ∀ k, s.bustedTo k ≤ s.bumpedTo k
  dated : ∀ proc, ∀ e ∈ s.geoCache proc, Dated redis s proc e.key.project e.gen e.gzBytes.version
  within : ∀ proc, Within (s.geoCache proc)

/-- What holds of a thread at every moment. -/
def Thread.Ok (redis : Bool) (th : Thread π ν τ) (s : Store π ν τ) : Prop :=
  match th.phase with
  | .looking cacheKey busted => busted ≤ s.bumpedTo cacheKey.project
  | .found cacheKey busted e => busted ≤ s.bumpedTo cacheKey.project ∧ e.key = cacheKey ∧
      Dated redis s th.proc cacheKey.project e.gen e.gzBytes.version
  | .returned _ busted (some gzBytes) => busted ≤ gzBytes.version
  | .captured cacheKey gen => gen ≤ s.geoGeneration redis th.proc cacheKey.project
  | .computed cacheKey gen gzBytes => Dated redis s th.proc cacheKey.project gen gzBytes.version
  | .storing cacheKey gen gzBytes => Dated redis s th.proc cacheKey.project gen gzBytes.version
  | .committed k v => v ≤ s.version k
  | .bumped k v => v ≤ s.version k ∧ (redis = true → v ≤ s.bumpedTo k)
  | _ => True

/-- How the counters move: never back, and always when a later mutation bumps them. -/
structure Later (redis : Bool) (s s' : Store π ν τ) : Prop where
  gen : ∀ proc k, s.geoGeneration redis proc k ≤ s'.geoGeneration redis proc k
  bumped : ∀ k, s.bumpedTo k ≤ s'.bumpedTo k
  moves : ∀ proc k, s.bumpedTo k < s'.bumpedTo k →
    s.geoGeneration redis proc k < s'.geoGeneration redis proc k
  version : ∀ k, s.version k ≤ s'.version k

theorem Later.refl (s : Store π ν τ) : Later redis s s where
  gen _ _ := Nat.le_refl _
  bumped _ := Nat.le_refl _
  moves _ _ h := absurd h (Nat.lt_irrefl _)
  version _ := Nat.le_refl _

theorem Later.withCache [DecidableEq π] (s : Store π ν τ) (proc : π) (c : GeoCache ν τ) :
    Later redis s (s.withCache proc c) where
  gen _ _ := Nat.le_refl _
  bumped _ := Nat.le_refl _
  moves _ _ h := absurd h (Nat.lt_irrefl _)
  version _ := Nat.le_refl _

theorem Dated.later (h : Dated redis s proc k gen version) (hl : Later redis s s') :
    Dated redis s' proc k gen version := by
  have hgen := hl.gen proc k
  have hle := h.le
  refine ⟨Nat.le_trans hle hgen, fun hlt => ?_⟩
  by_cases hold : version < s.bumpedTo k
  · have hb := h.behind hold
    omega
  · -- the counter was bumped just now
    have hm := hl.moves proc k (by omega)
    omega

theorem Thread.Ok.later {th : Thread π ν τ} (h : th.Ok redis s) (hl : Later redis s s') : th.Ok redis s' := by
  unfold Thread.Ok at h ⊢
  split at h
  · exact Nat.le_trans h (hl.bumped _)
  · exact ⟨Nat.le_trans h.1 (hl.bumped _), h.2.1, h.2.2.later hl⟩
  · exact h
  · exact Nat.le_trans h (hl.gen _ _)
  · exact h.later hl
  · exact h.later hl
  · exact Nat.le_trans h (hl.version _)
  · exact ⟨Nat.le_trans h.1 (hl.version _), fun hr => Nat.le_trans (h.2 hr) (hl.bumped _)⟩
  · trivial

/-! ## 5. What one step can do -/

theorem Later.incrShared (s : Store π ν τ) (k : ProjectKey) (v : ℕ) : Later true s (s.incrShared k v) where
  gen _ k' := by
    by_cases hk : k' = k
    · subst hk
      simp [Store.geoGeneration, Store.incrShared]
    · simp [Store.geoGeneration, Store.incrShared, Function.update_of_ne hk]
  bumped k' := by
    by_cases hk : k' = k
    · subst hk
      simp [Store.incrShared]
    · simp [Store.incrShared, Function.update_of_ne hk]
  moves _ k' h := by
    by_cases hk : k' = k
    · subst hk
      simp [Store.geoGeneration, Store.incrShared]
    · simp [Store.incrShared, Function.update_of_ne hk] at h
  version _ := Nat.le_refl _

theorem Sound.later (hs : Sound redis s) (hl : Later redis s s')
    (hcache : s'.geoCache = s.geoCache) (hbumped : ∀ k, s'.bumpedTo k ≤ s'.version k)
    (hbusted : ∀ k, s'.bustedTo k ≤ s'.bumpedTo k) : Sound redis s' where
  bumped := hbumped
  busted := hbusted
  dated p e he := (hs.dated p e (hcache ▸ he)).later hl
  within p := hcache ▸ hs.within p

theorem Sound.incrShared {v : ℕ} (hs : Sound true s) (hv : v ≤ s.version k) :
    Sound true (s.incrShared k v) := by
  have hl := Later.incrShared s k v
  refine hs.later hl rfl (fun k' => ?_) fun k' => Nat.le_trans (hs.busted k') (hl.bumped k')
  by_cases hk : k' = k
  · subst hk
    simpa [Store.incrShared] using ⟨hs.bumped k', hv⟩
  · simpa [Store.incrShared, Function.update_of_ne hk] using hs.bumped k'

section Effects

variable [DecidableEq π]

theorem Later.dropLocal (hone : redis = true ∨ Subsingleton π) (s : Store π ν τ) (proc : π)
    (k : ProjectKey) (v : ℕ) : Later redis s (s.dropLocal redis proc k v) where
  gen p k' := by
    cases redis with
    | true => exact Nat.le_refl _
    | false =>
      by_cases hp : p = proc
      · subst hp
        by_cases hk : k' = k
        · subst hk
          simp [Store.geoGeneration, Store.dropLocal]
        · simp [Store.geoGeneration, Store.dropLocal, Function.update_of_ne hk]
      · simp [Store.geoGeneration, Store.dropLocal, Function.update_of_ne hp]
  bumped k' := by
    cases redis with
    | true => exact Nat.le_refl _
    | false =>
      by_cases hk : k' = k
      · subst hk
        simp [Store.dropLocal]
      · simp [Store.dropLocal, Function.update_of_ne hk]
  moves p k' h := by
    cases redis with
    | true => exact absurd h (Nat.lt_irrefl _)
    | false =>
      have hsub : Subsingleton π := hone.resolve_left nofun
      obtain rfl : p = proc := Subsingleton.elim _ _
      by_cases hk : k' = k
      · subst hk
        simp [Store.geoGeneration, Store.dropLocal]
      · simp [Store.dropLocal, Function.update_of_ne hk] at h
  version _ := Nat.le_refl _

theorem Sound.withCache {c : GeoCache ν τ} (hs : Sound redis s)
    (hdated : ∀ e ∈ c, Dated redis s proc e.key.project e.gen e.gzBytes.version)
    (hwithin : Within c) : Sound redis (s.withCache proc c) where
  bumped := hs.bumped
  busted := hs.busted
  dated p e he := by
    have hl : Later redis s (s.withCache proc c) := Later.withCache s proc c
    by_cases hp : p = proc
    · subst hp
      have hmem : e ∈ c := by simpa [Store.withCache] using he
      exact (hdated e hmem).later hl
    · have hmem : e ∈ s.geoCache p := by simpa [Store.withCache, Function.update_of_ne hp] using he
      exact (hs.dated p e hmem).later hl
  within p := by
    by_cases hp : p = proc
    · subst hp
      simpa [Store.withCache] using hwithin
    · simpa [Store.withCache, Function.update_of_ne hp] using hs.within p

theorem Sound.delete (hs : Sound redis s) (proc : π) (p : CacheEntry ν τ → Bool) :
    Sound redis (s.withCache proc ((s.geoCache proc).delete p)) :=
  hs.withCache (fun e he => hs.dated proc e (Table.mem_delete.mp he).1) ((hs.within proc).delete p)

theorem Sound.dropLocal {v : ℕ} (hone : redis = true ∨ Subsingleton π) (hs : Sound redis s)
    (hv : v ≤ s.version k) (hbumped : redis = true → v ≤ s.bumpedTo k) :
    Sound redis (s.dropLocal redis proc k v) := by
  have hl := Later.dropLocal hone s proc k v
  have hdel := hs.delete proc fun e => e.key.project = k
  refine ⟨fun k' => ?_, fun k' => ?_, fun p e he => ?_, hdel.within⟩
  · cases redis with
    | true => exact hs.bumped k'
    | false =>
      by_cases hk : k' = k
      · subst hk
        simpa [Store.dropLocal] using ⟨hs.bumped k', hv⟩
      · simpa [Store.dropLocal, Function.update_of_ne hk] using hs.bumped k'
  · have hbusted := hs.busted k'
    cases redis with
    | true =>
      by_cases hk : k' = k
      · subst hk
        simpa [Store.dropLocal] using ⟨hbusted, hbumped rfl⟩
      · simpa [Store.dropLocal, Function.update_of_ne hk] using hbusted
    | false =>
      by_cases hk : k' = k
      · subst hk
        simp only [Store.dropLocal, Function.update_self, Bool.false_eq_true, if_false]
        omega
      · simpa [Store.dropLocal, Function.update_of_ne hk] using hbusted
  · have hold : e ∈ s.geoCache p := by
      by_cases hp : p = proc
      · subst hp
        have hmem : e ∈ (s.geoCache p).delete fun e => e.key.project = k := by
          simpa [Store.dropLocal] using he
        exact (Table.mem_delete.mp hmem).1
      · simpa [Store.dropLocal, Function.update_of_ne hp] using he
    exact (hs.dated p e hold).later hl

variable [DecidableEq ν] [LinearOrder τ] [Add τ]

theorem goOn_effect {now ttlS : τ} {size : ℕ} {th : Thread π ν τ} {p : Phase ν τ}
    (hone : redis = true ∨ Subsingleton π) (hs : Sound redis s) (hth : th.Ok redis s)
    (h : goOn redis th.proc s now ttlS size th.phase = some (p, s')) :
    Later redis s s' ∧ Sound redis s' ∧ Thread.Ok redis { th with phase := p } s' := by
  have hrefl : Later redis s s := Later.refl s
  cases hphase : th.phase with
  | idle => simp [hphase, goOn] at h
  | returned cacheKey busted result => simp [hphase, goOn] at h
  | looking cacheKey busted =>
    simp only [hphase, goOn, Thread.Ok] at h hth
    have hlook : ∀ c found, geoCacheFind (s.geoCache th.proc) cacheKey now = (c, found) →
        Sound redis (s.withCache th.proc c) ∧
          ∀ e, found = some e → e ∈ s.geoCache th.proc ∧ e.key = cacheKey := by
      intro c found hf
      rcases geoCacheFind_cases hf with ⟨q, rfl, rfl⟩ | ⟨rfl, hmem⟩
      · exact ⟨hs.delete th.proc q, nofun⟩
      · exact ⟨hs.withCache (hs.dated th.proc) (hs.within th.proc), hmem⟩
    split at h
    · rename_i c hf
      cases h
      exact ⟨Later.withCache s _ c, (hlook c none hf).1, trivial⟩
    · rename_i c e hf
      cases h
      have hl : Later redis s (s.withCache th.proc c) := Later.withCache s th.proc c
      obtain ⟨hsound, hmem⟩ := hlook c (some e) hf
      obtain ⟨he, rfl⟩ := hmem e rfl
      exact ⟨hl, hsound, hth, rfl, (hs.dated th.proc e he).later hl⟩
  | found cacheKey busted e =>
    simp only [hphase, goOn, Thread.Ok] at h hth
    obtain ⟨hbusted, -, hdated⟩ := hth
    split at h
    · cases h
      exact ⟨hrefl, hs, trivial⟩
    · rename_i hgen
      cases h
      refine ⟨hrefl, hs, ?_⟩
      show busted ≤ e.gzBytes.version
      by_contra hold
      -- the counter would have moved past the entry's generation
      have hlt := hdated.behind (by omega)
      omega
  | superseded cacheKey busted =>
    simp only [hphase, goOn] at h
    cases h
    exact ⟨Later.withCache s _ _, hs.delete th.proc _, trivial⟩
  | captured cacheKey gen =>
    simp only [hphase, goOn, Thread.Ok] at h hth
    cases h
    -- no mutation is later than the version that is read now
    have hb := hs.bumped cacheKey.project
    exact ⟨hrefl, hs, hth, fun hlt => absurd hlt (Nat.not_lt.mpr hb)⟩
  | computed cacheKey gen gzBytes =>
    simp only [hphase, goOn, Thread.Ok] at h hth
    split at h
    · cases h
      exact ⟨hrefl, hs, trivial⟩
    · cases h
      exact ⟨hrefl, hs, hth⟩
  | storing cacheKey gen gzBytes =>
    simp only [hphase, goOn, Thread.Ok] at h hth
    cases h
    refine ⟨Later.withCache s _ _, hs.withCache (fun e he => ?_) ?_, trivial⟩
    · rcases mem_geoCacheStore he with hold | rfl
      · exact hs.dated th.proc e hold
      · exact hth
    · exact geoCacheStore_within (hs.within th.proc) gzBytes gen now ttlS
  | committed k v =>
    simp only [hphase, goOn, Thread.Ok] at h hth
    cases h
    cases redis with
    | false => exact ⟨hrefl, hs, hth, nofun⟩
    | true =>
      refine ⟨Later.incrShared s k v, hs.incrShared hth, hth, fun _ => ?_⟩
      simp [Store.incrShared]
  | bumped k v =>
    simp only [hphase, goOn, Thread.Ok] at h hth
    cases h
    exact ⟨Later.dropLocal hone s th.proc k v, hs.dropLocal hone hth.1 hth.2, trivial⟩

theorem act_effect {th th' : Thread π ν τ} {a : Action ν τ}
    (hone : redis = true ∨ Subsingleton π) (hs : Sound redis s) (hth : th.Ok redis s)
    (h : act redis th a s = some (th', s')) :
    Later redis s s' ∧ Sound redis s' ∧ th'.Ok redis s' := by
  have hrefl : Later redis s s := Later.refl s
  unfold act at h
  split at h
  · cases h
    exact ⟨hrefl, hs, hs.busted _⟩
  · cases h
    exact ⟨hrefl, hs, Nat.le_refl _⟩
  · rename_i k _
    cases h
    have hversion : ∀ k', s.version k' ≤ Function.update s.version k (s.version k + 1) k' := by
      intro k'
      by_cases hk : k' = k
      · subst hk
        simp
      · simp [Function.update_of_ne hk]
    have hl : Later redis s { s with version := Function.update s.version k (s.version k + 1) } :=
      ⟨hrefl.gen, hrefl.bumped, hrefl.moves, hversion⟩
    refine ⟨hl, hs.later hl rfl (fun k' => Nat.le_trans (hs.bumped k') (hversion k')) hs.busted, ?_⟩
    simp [Thread.Ok]
  · obtain ⟨⟨p, s₁⟩, hgo, he⟩ := Option.map_eq_some_iff.mp h
    cases he
    exact goOn_effect hone hs hth hgo
  · cases h
    exact ⟨hrefl, hs, trivial⟩
  · cases h

/-! ## 6. Freshness -/

variable {ι : Type*} [DecidableEq ι]

omit [DecidableEq ι] in
theorem act_kept (hone : redis = true ∨ Subsingleton π) :
    Kept (act redis) (fun (_ : Clients ι (Thread π ν τ) (Store π ν τ)) _ => True) (Sound redis)
      (Thread.Ok redis) where
  own _ i _ _ _ hs hth _ h := (act_effect hone hs (hth i) h).2
  other _ i _ _ _ j _ hs hth _ h := (hth j).later (act_effect hone hs (hth i) h).1

/-- Nothing is cached, and nothing is going on. -/
def start (procs : ι → π) : Clients ι (Thread π ν τ) (Store π ν τ) where
  locals i := ⟨procs i, .idle⟩
  store := ⟨fun _ => Table.empty, fun _ _ => 0, fun _ => 0, fun _ => 0, fun _ => 0, fun _ => 0⟩

omit [DecidableEq π] [DecidableEq ν] [LinearOrder τ] [Add τ] [DecidableEq ι] in
theorem start_sound (procs : ι → π) :
    Sound redis (start procs : Clients ι (Thread π ν τ) (Store π ν τ)).store where
  bumped _ := Nat.le_refl _
  busted _ := Nat.le_refl _
  dated _ _ he := absurd he Table.not_mem_empty
  within _ := ⟨Nat.zero_le _, Nat.zero_le _⟩

/-- **The cache is fresh and bounded.** -/
theorem geo_cache_fresh (hone : redis = true ∨ Subsingleton π) {procs : ι → π}
    {tr : List (ι × Action ν τ)} {w : Clients ι (Thread π ν τ) (Store π ν τ)}
    (h : Run (Steps (Clients.step (act redis))) (start procs) tr w) :
    (∀ i cacheKey busted gzBytes,
      (w.locals i).phase = .returned cacheKey busted (some gzBytes) → busted ≤ gzBytes.version) ∧
      ∀ proc, Within (w.store.geoCache proc) := by
  obtain ⟨hsound, hok⟩ := (act_kept hone).run_steps (start_sound procs) (fun _ => trivial) h
  refine ⟨fun i cacheKey busted gzBytes hphase => ?_, hsound.within⟩
  have hi := hok i
  rw [Thread.Ok, hphase] at hi
  exact hi

end Effects

/-- Thread 1 passes the check of its store, and is overtaken by the mutation of thread 2: what it
    stores is superseded when thread 4 looks it up. -/
def slowReader : List (ℕ × Action String ℤ) :=
  let trip : CacheKey String := ⟨⟨7, "Alps"⟩, "low-res"⟩
  [(1, .recomputes trip), (1, .goesOn 0 300 900), (1, .goesOn 1 300 0),
    (2, .mutates trip.project), (2, .goesOn 2 300 0), (2, .goesOn 3 300 0), (1, .goesOn 4 300 0),
    (4, .looksUp trip), (4, .goesOn 5 300 0), (4, .goesOn 6 300 0), (4, .goesOn 7 300 0),
    (4, .ends), (4, .recomputes trip), (4, .goesOn 8 300 901), (4, .goesOn 9 300 0),
    (4, .goesOn 10 300 0), (1, .looksUp trip), (1, .goesOn 11 300 0), (1, .goesOn 12 300 0)]

theorem geo_cache_fresh_slowReader : ∃ w : Clients ℕ (Thread Bool String ℤ) (Store Bool String ℤ),
    Run (Steps (Clients.step (act true))) (start fun i => i == 3) slowReader w ∧
      (w.locals 1).phase = .returned ⟨⟨7, "Alps"⟩, "low-res"⟩ 1 (some ⟨901, 1⟩) ∧
      ((∀ i cacheKey busted gzBytes, (w.locals i).phase = .returned cacheKey busted (some gzBytes) →
        busted ≤ gzBytes.version) ∧ ∀ proc, Within (w.store.geoCache proc)) := by
  have hend : (exec (Clients.step (act true)) (start fun i => i == 3) slowReader).map
      (fun w : Clients ℕ (Thread Bool String ℤ) (Store Bool String ℤ) => (w.locals 1).phase) =
        some (.returned ⟨⟨7, "Alps"⟩, "low-res"⟩ 1 (some ⟨901, 1⟩)) := by decide +kernel
  obtain ⟨w, hw, he⟩ := Option.map_eq_some_iff.mp hend
  have hrun := run_iff_exec.mpr hw
  exact ⟨w, hrun, he, geo_cache_fresh (.inl rfl) hrun⟩

end TraxJourney.Geo
