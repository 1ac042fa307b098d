/-
  File:      Lib/ShortestPaths.lean
  Subject:   Shortest paths in a graph of lengths that are not negative, by a queue whose entries are
             not taken back.

  * **`search_shortest`** -- the loop ends, with a walk that none is shorter than, or there is none.
-/
import Mathlib
import TraxJourney.Lib.Links

namespace TraxJourney.Lib

/-! ## 1. Walks -/

/-- A walk from `a` along the edges, with its length and its vertices. -/
inductive Walk {κ K : Type*} [Zero K] [Add K] (adj : κ → List κ) (w : κ → κ → K) (a : κ) :
    κ → K → List κ → Prop where
  | stay : Walk adj w a a 0 [a]
  | step {u v : κ} {d : K} {p : List κ} :
      Walk adj w a u d p → v ∈ adj u → Walk adj w a v (d + w u v) (p ++ [v])

section Walks

variable {κ K : Type*} [Zero K] [Add K] {adj : κ → List κ} {w : κ → κ → K} {a b : κ} {d : K} {p : List κ}

theorem Walk.last (h : Walk adj w a b d p) : p.getLast? = some b := by
  cases h with
  | stay => rfl
  | step _ _ => exact List.getLast?_concat

theorem Walk.head (h : Walk adj w a b d p) : p.head? = some a := by
  induction h with
  | stay => rfl
  | step _ _ ih => rw [List.head?_append, ih, Option.some_or]

theorem Walk.isChain (h : Walk adj w a b d p) : p.IsChain fun u v => v ∈ adj u := by
  induction h with
  | stay => exact List.isChain_singleton _
  | step hwalk hadj ih =>
    refine List.isChain_append.mpr ⟨ih, List.isChain_singleton _, fun x hx y hy => ?_⟩
    rw [hwalk.last] at hx
    cases hx
    cases hy
    exact hadj

theorem Walk.forall_mem (h : Walk adj w a b d p) {P : κ → Prop} (ha : P a)
    (hadj : ∀ u v, v ∈ adj u → P v) : ∀ u ∈ p, P u := by
  induction h with
  | stay =>
    intro u hu
    rw [List.mem_singleton.mp hu]
    exact ha
  | step _ hv ih =>
    intro u hu
    rcases List.mem_append.mp hu with hold | hlast
    · exact ih u hold
    · rw [List.mem_singleton.mp hlast]
      exact hadj _ _ hv

end Walks

/-! ## 2. The loop -/

/-- What the loop has found: `dist`, `prev`, `heap`, and the settled vertices, the newest first. -/
structure Search (κ K : Type*) where
  dist : κ → Option K
  prev : κ → Option κ
  heap : List (K × κ)
  visited : List κ

section Reach

variable {κ K : Type*} [DecidableEq κ] {s : Search κ K} {u v x : κ} {d : K}

/-- `v` reached from `u`, at the distance `nd`. -/
def Search.reach (s : Search κ K) (u v : κ) (nd : K) : Search κ K where
  dist := Function.update s.dist v (some nd)
  prev := Function.update s.prev v (some u)
  heap := (nd, v) :: s.heap
  visited := s.visited

theorem Search.reach_dist_self (s : Search κ K) (u v : κ) (d : K) :
    (s.reach u v d).dist v = some d := Function.update_self _ _ _

theorem Search.reach_dist_of_ne (hx : x ≠ v) : (s.reach u v d).dist x = s.dist x :=
  Function.update_of_ne hx _ _

theorem Search.reach_prev_self (s : Search κ K) (u v : κ) (d : K) :
    (s.reach u v d).prev v = some u := Function.update_self _ _ _

theorem Search.reach_prev_of_ne (hx : x ≠ v) : (s.reach u v d).prev x = s.prev x :=
  Function.update_of_ne hx _ _

end Reach

section Loop

variable {κ K : Type*} [LinearOrder κ] [AddCommMonoid K] [LinearOrder K]

/-- The edge from `u`, which is `d` away, to `v`. -/
def relax (w : κ → κ → K) (u : κ) (d : K) (s : Search κ K) (v : κ) : Search κ K :=
  if (s.dist v).all fun dv => decide (d + w u v < dv) then s.reach u v (d + w u v) else s

/-- The predecessors of a vertex, itself first, in at most `fuel` steps. -/
def trail (prev : κ → Option κ) : ℕ → κ → List κ
  | 0, _ => []
  | fuel + 1, v => v :: ((prev v).map (trail prev fuel)).getD []

/-- The nearest entry taken from the queue, until it is the goal's or there is none; nothing where the
    turns do not suffice. -/
def search (adj : κ → List κ) (w : κ → κ → K) (goal : κ) : ℕ → Search κ K → Option (Option (List κ))
  | 0, _ => none
  | fuel + 1, s =>
    match popLeast toLex s.heap with
    | none => some none
    | some (e, rest) =>
      if e.2 ∈ s.visited then search adj w goal fuel { s with heap := rest }
      else if e.2 = goal then
        some (some (trail s.prev (s.visited.length + 1) goal).reverse)
      else
        search adj w goal fuel ((adj e.2).foldl (relax w e.2 e.1)
            { s with heap := rest, visited := e.2 :: s.visited })

/-- Before the first turn. -/
def Search.start (a : κ) : Search κ K where
  dist := fun v => if v = a then some 0 else none
  prev := fun _ => none
  heap := [(0, a)]
  visited := []

/-- Turns that suffice. -/
def searchFuel (adj : κ → List κ) (vertices : List κ) : ℕ := 2 + (vertices.map fun v => (adj v).length).sum

end Loop

/-! ## 3. The invariant -/

/-- A settled vertex's predecessor was settled before it. -/
def Rooted {κ : Type*} (prev : κ → Option κ) : List κ → Prop
  | [] => True
  | v :: rest => (∀ u, prev v = some u → u ∈ rest) ∧ Rooted prev rest

theorem Rooted.congr {κ : Type*} {prev prev' : κ → Option κ} {vs : List κ} (h : Rooted prev vs)
    (hsame : ∀ v ∈ vs, prev' v = prev v) : Rooted prev' vs := by
  induction vs with
  | nil => trivial
  | cons v vs ih =>
    refine ⟨?_, ih h.2 fun u hu => hsame u (List.mem_cons_of_mem v hu)⟩
    intro u hu
    rw [hsame v List.mem_cons_self] at hu
    exact h.1 u hu

section Invariant

variable {κ K : Type*} [LinearOrder κ] [AddCommMonoid K] [LinearOrder K]

/-- The invariant; of a settled vertex `u` the edges to `scanned u` are relaxed. -/
structure Search.Sound (adj scanned : κ → List κ) (w : κ → κ → K) (a : κ) (vertices : List κ)
    (s : Search κ K) : Prop where
  origin : s.dist a = some 0
  known : ∀ v d, s.dist v = some d → (v = a ∧ d = 0 ∧ s.prev v = none) ∨
    ∃ u ∈ s.visited, ∃ du, s.prev v = some u ∧ v ∈ adj u ∧ s.dist u = some du ∧ d = du + w u v
  nonneg : ∀ v d, s.dist v = some d → 0 ≤ d
  inside : ∀ v d, s.dist v = some d → v ∈ vertices
  rooted : Rooted s.prev s.visited
  settled : ∀ u ∈ s.visited, ∃ du, s.dist u = some du ∧ (∀ e ∈ s.heap, du ≤ e.1) ∧
    ∀ v ∈ scanned u, ∃ dv, s.dist v = some dv ∧ dv ≤ du + w u v
  queued : ∀ v d, s.dist v = some d → v ∈ s.visited ∨ (d, v) ∈ s.heap
  entries : ∀ e ∈ s.heap, ∃ d, s.dist e.2 = some d ∧ d ≤ e.1

variable {adj scanned : κ → List κ} {w : κ → κ → K} {a u v : κ} {vertices : List κ} {s : Search κ K} {d : K}

theorem Search.sound_start (ha : a ∈ vertices) :
    (Search.start a : Search κ K).Sound adj scanned w a vertices := by
  have hdist : ∀ (v : κ) (d : K), (Search.start a : Search κ K).dist v = some d → v = a ∧ d = 0 := by
    intro v d h
    unfold Search.start at h
    dsimp only at h
    split at h
    case isTrue hv =>
      cases h
      exact ⟨hv, rfl⟩
    case isFalse => cases h
  have horigin : (Search.start a : Search κ K).dist a = some 0 := if_pos rfl
  exact
    { origin := horigin
      known := fun v d h => Or.inl ⟨(hdist v d h).1, (hdist v d h).2, rfl⟩
      nonneg := fun v d h => (hdist v d h).2.symm.le
      inside := by
        intro v d h
        rw [(hdist v d h).1]
        exact ha
      rooted := trivial
      settled := fun u hu => absurd hu List.not_mem_nil
      queued := by
        intro v d h
        right
        rw [(hdist v d h).1, (hdist v d h).2]
        exact List.mem_singleton_self _
      entries := by
        intro e he
        rw [List.mem_singleton.mp he]
        exact ⟨0, horigin, le_rfl⟩ }

theorem relax_cases (w : κ → κ → K) (u : κ) (d : K) (s : Search κ K) (v : κ) :
    (∃ dv, s.dist v = some dv ∧ dv ≤ d + w u v ∧ relax w u d s v = s) ∨
      ((∀ dv, s.dist v = some dv → d + w u v < dv) ∧ relax w u d s v = s.reach u v (d + w u v)) := by
  unfold relax
  cases hv : s.dist v with
  | none =>
    refine Or.inr ⟨fun dv hdv => ?_, by rw [Option.all_none, if_pos rfl]⟩
    cases hdv
  | some dv =>
    rw [Option.all_some]
    by_cases hlt : d + w u v < dv
    · refine Or.inr ⟨fun dv' hdv => ?_, by rw [if_pos (decide_eq_true hlt)]⟩
      cases hdv
      exact hlt
    · exact Or.inl ⟨dv, rfl, not_lt.mp hlt, if_neg fun h => hlt (of_decide_eq_true h)⟩

variable [IsOrderedAddMonoid K]

omit [LinearOrder κ] in
theorem Search.Sound.fresh {x : κ} (h : s.Sound adj scanned w a vertices) (hw : 0 ≤ w u v)
    (hlast : ∀ x ∈ s.visited, ∀ dx, s.dist x = some dx → dx ≤ d)
    (hlt : ∀ dv, s.dist v = some dv → d + w u v < dv) (hx : x ∈ s.visited) : x ≠ v := by
  intro hxv
  obtain ⟨dx, hdx, -⟩ := h.settled x hx
  have hle := hlast x hx dx hdx
  rw [hxv] at hdx
  exact absurd (hlt dx hdx) (not_lt.mpr (hle.trans (le_add_of_nonneg_right hw)))

variable {done : List κ}

theorem Search.Sound.reach (h : s.Sound adj (Function.update scanned u done) w a vertices) (hw : 0 ≤ w u v)
    (hinside : v ∈ vertices) (hv : v ∈ adj u) (hu : u ∈ s.visited) (hd : s.dist u = some d)
    (hlast : ∀ x ∈ s.visited, ∀ dx, s.dist x = some dx → dx ≤ d)
    (hlt : ∀ dv, s.dist v = some dv → d + w u v < dv) :
    (s.reach u v (d + w u v)).Sound adj (Function.update scanned u (done ++ [v])) w a vertices := by
  have hnd : d ≤ d + w u v := le_add_of_nonneg_right hw
  have hfresh : ∀ x ∈ s.visited, x ≠ v := fun x hx => h.fresh hw hlast hlt hx
  have hav : a ≠ v := by
    intro hav
    have hzero := hlt 0 (hav ▸ h.origin)
    exact absurd hzero (not_lt.mpr ((h.nonneg u d hd).trans hnd))
  have hself := s.reach_dist_self u v (d + w u v)
  -- a distance after the step is the new one, or one from before
  have hcases : ∀ x dx, (s.reach u v (d + w u v)).dist x = some dx →
      (x = v ∧ dx = d + w u v) ∨ (x ≠ v ∧ s.dist x = some dx) := by
    intro x dx hdx
    by_cases hxv : x = v
    · rw [hxv, hself] at hdx
      cases hdx
      exact Or.inl ⟨hxv, rfl⟩
    · exact Or.inr ⟨hxv, (Search.reach_dist_of_ne hxv).symm.trans hdx⟩
  refine
    { origin := (Search.reach_dist_of_ne hav).trans h.origin
      known := ?known
      nonneg := ?nonneg
      inside := ?inside
      rooted := h.rooted.congr fun x hx => Search.reach_prev_of_ne (hfresh x hx)
      settled := ?settled
      queued := ?queued
      entries := ?entries }
  case known =>
    intro x dx hdx
    rcases hcases x dx hdx with hnew | hold
    · rw [hnew.1]
      exact Or.inr ⟨u, hu, d, s.reach_prev_self u v _, hv,
        (Search.reach_dist_of_ne (hfresh u hu)).trans hd, hnew.2⟩
    · rcases h.known x dx hold.2 with horigin | hstep
      · exact Or.inl ⟨horigin.1, horigin.2.1, (Search.reach_prev_of_ne hold.1).trans horigin.2.2⟩
      · obtain ⟨y, hy, dy, hpy, hadj, hdy, hsum⟩ := hstep
        exact Or.inr ⟨y, hy, dy, (Search.reach_prev_of_ne hold.1).trans hpy, hadj,
          (Search.reach_dist_of_ne (hfresh y hy)).trans hdy, hsum⟩
  case nonneg =>
    intro x dx hdx
    rcases hcases x dx hdx with hnew | hold
    · rw [hnew.2]
      exact (h.nonneg u d hd).trans hnd
    · exact h.nonneg x dx hold.2
  case inside =>
    intro x dx hdx
    rcases hcases x dx hdx with hnew | hold
    · rw [hnew.1]
      exact hinside
    · exact h.inside x dx hold.2
  case settled =>
    intro x hx
    obtain ⟨dx, hdx, hheap, hscanned⟩ := h.settled x hx
    refine ⟨dx, (Search.reach_dist_of_ne (hfresh x hx)).trans hdx, ?_, fun y hy => ?_⟩
    · exact List.forall_mem_cons.mpr ⟨(hlast x hx dx hdx).trans hnd, hheap⟩
    · by_cases hyv : y = v
      · subst hyv
        refine ⟨d + w u y, hself, ?_⟩
        by_cases hxu : x = u
        · subst hxu
          rw [hd] at hdx
          cases hdx
          exact le_rfl
        · rw [Function.update_of_ne hxu] at hy hscanned
          obtain ⟨dy, hdy, hle⟩ := hscanned y hy
          exact (hlt dy hdy).le.trans hle
      · have hold : y ∈ Function.update scanned u done x := by
          by_cases hxu : x = u
          · subst hxu
            rw [Function.update_self] at hy ⊢
            exact (List.mem_append.mp hy).resolve_right fun hlast => hyv (List.mem_singleton.mp hlast)
          · rw [Function.update_of_ne hxu] at hy ⊢
            exact hy
        obtain ⟨dy, hdy, hle⟩ := hscanned y hold
        exact ⟨dy, (Search.reach_dist_of_ne hyv).trans hdy, hle⟩
  case queued =>
    intro x dx hdx
    rcases hcases x dx hdx with hnew | hold
    · rw [hnew.1, hnew.2]
      exact Or.inr List.mem_cons_self
    · exact (h.queued x dx hold.2).imp_right fun hmem => List.mem_cons_of_mem _ hmem
  case entries =>
    intro e he
    rcases List.mem_cons.mp he with hnew | hold
    · rw [hnew]
      exact ⟨d + w u v, hself, le_rfl⟩
    · obtain ⟨de, hde, hle⟩ := h.entries e hold
      by_cases hev : e.2 = v
      · rw [hev] at hde ⊢
        exact ⟨d + w u v, hself, (hlt de hde).le.trans hle⟩
      · exact ⟨de, (Search.reach_dist_of_ne hev).trans hde, hle⟩

theorem Search.Sound.relax (h : s.Sound adj (Function.update scanned u done) w a vertices) (hw : 0 ≤ w u v)
    (hinside : v ∈ vertices) (hv : v ∈ adj u) (hu : u ∈ s.visited) (hd : s.dist u = some d)
    (hlast : ∀ x ∈ s.visited, ∀ dx, s.dist x = some dx → dx ≤ d) :
    (relax w u d s v).Sound adj (Function.update scanned u (done ++ [v])) w a vertices := by
  rcases relax_cases w u d s v with huseless | hshorter
  · obtain ⟨dv, hdv, hle, heq⟩ := huseless
    rw [heq]
    refine { h with settled := ?_ }
    intro x hx
    obtain ⟨dx, hdx, hheap, hscanned⟩ := h.settled x hx
    refine ⟨dx, hdx, hheap, fun y hy => ?_⟩
    by_cases hxu : x = u
    · subst hxu
      rw [Function.update_self] at hy hscanned
      rcases List.mem_append.mp hy with hdone | hnew
      · exact hscanned y hdone
      · rw [List.mem_singleton.mp hnew]
        rw [hd] at hdx
        cases hdx
        exact ⟨dv, hdv, hle⟩
    · rw [Function.update_of_ne hxu] at hy hscanned
      exact hscanned y hy
  · obtain ⟨hlt, heq⟩ := hshorter
    rw [heq]
    exact h.reach hw hinside hv hu hd hlast hlt

theorem Search.Sound.relax_dist {x : κ} (h : s.Sound adj scanned w a vertices) (hw : 0 ≤ w u v)
    (hlast : ∀ x ∈ s.visited, ∀ dx, s.dist x = some dx → dx ≤ d) (hx : x ∈ s.visited) :
    (Lib.relax w u d s v).dist x = s.dist x := by
  rcases relax_cases w u d s v with huseless | hshorter
  · obtain ⟨dv, -, -, heq⟩ := huseless
    rw [heq]
  · rw [hshorter.2]
    exact Search.reach_dist_of_ne (h.fresh hw hlast hshorter.1 hx)

omit [IsOrderedAddMonoid K] in
theorem relax_visited (w : κ → κ → K) (u : κ) (d : K) (s : Search κ K) (v : κ) :
    (relax w u d s v).visited = s.visited := by
  unfold relax
  split <;> rfl

omit [IsOrderedAddMonoid K] in
theorem relax_heap_length (w : κ → κ → K) (u : κ) (d : K) (s : Search κ K) (v : κ) :
    (relax w u d s v).heap.length ≤ s.heap.length + 1 := by
  unfold relax
  split
  · exact le_rfl
  · exact Nat.le_succ _

theorem Search.Sound.relaxAll (vs : List κ) (h : s.Sound adj (Function.update scanned u done) w a vertices)
    (hw : ∀ v ∈ vs, 0 ≤ w u v) (hinside : ∀ v ∈ vs, v ∈ vertices) (hvs : ∀ v ∈ vs, v ∈ adj u)
    (hu : u ∈ s.visited) (hd : s.dist u = some d)
    (hlast : ∀ x ∈ s.visited, ∀ dx, s.dist x = some dx → dx ≤ d) :
    (vs.foldl (Lib.relax w u d) s).Sound adj (Function.update scanned u (done ++ vs)) w a vertices ∧
      (vs.foldl (Lib.relax w u d) s).visited = s.visited ∧
      (vs.foldl (Lib.relax w u d) s).heap.length ≤ s.heap.length + vs.length := by
  induction vs generalizing s done with
  | nil =>
    rw [List.append_nil]
    exact ⟨h, rfl, le_rfl⟩
  | cons v vs ih =>
    have hwv := hw v List.mem_cons_self
    have hnext := h.relax hwv (hinside v List.mem_cons_self) (hvs v List.mem_cons_self) hu hd hlast
    have hvisited := relax_visited w u d s v
    have hdist : ∀ x ∈ s.visited, (Lib.relax w u d s v).dist x = s.dist x := fun x hx =>
      h.relax_dist hwv hlast hx
    obtain ⟨hsound, hsame, hlength⟩ := ih hnext (fun x hx => hw x (List.mem_cons_of_mem v hx))
      (fun x hx => hinside x (List.mem_cons_of_mem v hx))
      (fun x hx => hvs x (List.mem_cons_of_mem v hx)) (hvisited ▸ hu) ((hdist u hu).trans hd) (by
        intro x hx dx hdx
        rw [hvisited] at hx
        exact hlast x hx dx ((hdist x hx).symm.trans hdx))
    rw [List.append_assoc, List.singleton_append] at hsound
    refine ⟨hsound, hsame.trans hvisited, ?_⟩
    have hone := relax_heap_length w u d s v
    rw [List.length_cons]
    rw [List.foldl_cons]
    omega

variable {rest : List (K × κ)} {e : K × κ}

omit [AddCommMonoid K] [IsOrderedAddMonoid K] in
theorem popLeast_le {heap : List (K × κ)} (h : popLeast toLex heap = some (e, rest)) :
    ∀ x ∈ heap, e.1 ≤ x.1 := by
  obtain ⟨-, hleast, -⟩ := popLeast_some h
  exact fun x hx => Prod.Lex.monotone_fst _ _ (hleast x hx)

omit [IsOrderedAddMonoid K] in
theorem Search.Sound.drop (h : s.Sound adj scanned w a vertices)
    (hpop : popLeast toLex s.heap = some (e, rest)) (he : e.2 ∈ s.visited) :
    ({ s with heap := rest } : Search κ K).Sound adj scanned w a vertices :=
  { h with
    settled := by
      intro x hx
      obtain ⟨dx, hdx, hheap, hscanned⟩ := h.settled x hx
      exact ⟨dx, hdx, fun y hy => hheap y ((popLeast_rest hpop).1 y hy), hscanned⟩
    queued := by
      intro x dx hdx
      by_cases hxe : x = e.2
      · exact Or.inl (hxe ▸ he)
      · exact (h.queued x dx hdx).imp_right fun hmem =>
          (popLeast_rest hpop).2.1 _ hmem fun heq => hxe (congrArg Prod.snd heq)
    entries := fun y hy => h.entries y ((popLeast_rest hpop).1 y hy) }

omit [IsOrderedAddMonoid K] in
theorem Search.Sound.popped (h : s.Sound adj scanned w a vertices)
    (hpop : popLeast toLex s.heap = some (e, rest)) (he : e.2 ∉ s.visited) :
    s.dist e.2 = some e.1 := by
  obtain ⟨hmem, -⟩ := popLeast_some hpop
  obtain ⟨d, hd, hle⟩ := h.entries e hmem
  have hqueued := (h.queued e.2 d hd).resolve_left he
  rw [hd, le_antisymm hle (popLeast_le hpop _ hqueued)]

omit [IsOrderedAddMonoid K] in
theorem Search.Sound.settle (h : s.Sound adj adj w a vertices) (hpop : popLeast toLex s.heap = some (e, rest))
    (he : e.2 ∉ s.visited) :
    ({ s with heap := rest, visited := e.2 :: s.visited } : Search κ K).Sound adj
        (Function.update adj e.2 []) w a vertices ∧
      ∀ x ∈ e.2 :: s.visited, ∀ dx, s.dist x = some dx → dx ≤ e.1 := by
  have hdist := h.popped hpop he
  obtain ⟨hmem, -⟩ := popLeast_some hpop
  constructor
  · exact
      { origin := h.origin
        known := by
          intro x dx hdx
          refine (h.known x dx hdx).imp_right fun hstep => ?_
          obtain ⟨u, hu, hrest⟩ := hstep
          exact ⟨u, List.mem_cons_of_mem _ hu, hrest⟩
        nonneg := h.nonneg
        inside := h.inside
        rooted := by
          refine ⟨fun u hu => ?_, h.rooted⟩
          rcases h.known e.2 e.1 hdist with horigin | hstep
          · rw [horigin.2.2] at hu
            cases hu
          · obtain ⟨y, hy, -, hpy, -⟩ := hstep
            rw [hpy] at hu
            cases hu
            exact hy
        settled := by
          intro x hx
          rcases List.mem_cons.mp hx with hnew | hold
          · rw [hnew, Function.update_self]
            exact ⟨e.1, hdist, fun y hy => popLeast_le hpop y ((popLeast_rest hpop).1 y hy),
              fun v hv => absurd hv List.not_mem_nil⟩
          · obtain ⟨dx, hdx, hheap, hscanned⟩ := h.settled x hold
            have hne : x ≠ e.2 := fun hxe => he (hxe ▸ hold)
            rw [Function.update_of_ne hne]
            exact ⟨dx, hdx, fun y hy => hheap y ((popLeast_rest hpop).1 y hy), hscanned⟩
        queued := by
          intro x dx hdx
          by_cases hxe : x = e.2
          · exact Or.inl (hxe ▸ List.mem_cons_self)
          · exact (h.queued x dx hdx).imp (fun hv => List.mem_cons_of_mem _ hv) fun hq =>
              (popLeast_rest hpop).2.1 _ hq fun heq => hxe (congrArg Prod.snd heq)
        entries := fun y hy => h.entries y ((popLeast_rest hpop).1 y hy) }
  · intro x hx dx hdx
    rcases List.mem_cons.mp hx with hnew | hold
    · rw [hnew, hdist] at hdx
      cases hdx
      exact le_rfl
    · obtain ⟨dx', hdx', hheap, -⟩ := h.settled x hold
      rw [hdx'] at hdx
      cases hdx
      exact hheap e hmem

/-! ## 4. Walks and the invariant -/

omit [LinearOrder κ] [IsOrderedAddMonoid K] in
theorem Search.Sound.trail_walk (h : s.Sound adj scanned w a vertices) {vs : List κ} {fuel : ℕ}
    (hrooted : Rooted s.prev vs) (hfuel : vs.length ≤ fuel) (hv : v ∈ vs) (hd : s.dist v = some d) :
    Walk adj w a v d (trail s.prev fuel v).reverse := by
  induction vs generalizing fuel v d with
  | nil => exact absurd hv List.not_mem_nil
  | cons x vs ih =>
    cases fuel with
    | zero => cases hfuel
    | succ fuel =>
      rcases List.mem_cons.mp hv with hhead | htail
      · subst hhead
        rw [trail]
        rcases h.known v d hd with horigin | hstep
        · rw [horigin.2.2, horigin.1, horigin.2.1]
          exact Walk.stay
        · obtain ⟨u, -, du, hprev, hadj, hdu, hsum⟩ := hstep
          have hu := hrooted.1 u hprev
          have hwalk := ih hrooted.2 (Nat.le_of_succ_le_succ hfuel) hu hdu
          rw [hprev, Option.map_some, Option.getD_some, List.reverse_cons, hsum]
          exact hwalk.step hadj
      · exact ih hrooted.2 (Nat.le_of_succ_le hfuel) htail hd

omit [LinearOrder κ] in
theorem Search.Sound.walk_bound (h : s.Sound adj adj w a vertices) (hw : ∀ u v, v ∈ adj u → 0 ≤ w u v)
    {p : List κ} (hwalk : Walk adj w a v d p) :
    (v ∈ s.visited ∧ ∃ dv, s.dist v = some dv ∧ dv ≤ d) ∨ ∃ e ∈ s.heap, e.1 ≤ d := by
  have hplace : ∀ x dx, s.dist x = some dx → ∀ l, dx ≤ l →
      (x ∈ s.visited ∧ ∃ dv, s.dist x = some dv ∧ dv ≤ l) ∨ ∃ e ∈ s.heap, e.1 ≤ l := by
    intro x dx hdx l hle
    rcases h.queued x dx hdx with hvisited | hqueued
    · exact Or.inl ⟨hvisited, dx, hdx, hle⟩
    · exact Or.inr ⟨(dx, x), hqueued, hle⟩
  induction hwalk with
  | stay => exact hplace a 0 h.origin 0 le_rfl
  | @step u x l p _ hadj ih =>
    rcases ih with hsettled | hheap
    · obtain ⟨hu, du, hdu, hle⟩ := hsettled
      obtain ⟨du', hdu', -, hscanned⟩ := h.settled u hu
      rw [hdu] at hdu'
      cases hdu'
      obtain ⟨dx, hdx, hdxle⟩ := hscanned x hadj
      exact hplace x dx hdx _ (hdxle.trans (add_le_add_left hle _))
    · obtain ⟨e, he, hle⟩ := hheap
      exact Or.inr ⟨e, he, hle.trans (le_add_of_nonneg_right (hw u x hadj))⟩

/-! ## 5. The loop to its end -/

/-- What is to be answered: a walk that none is shorter than, or that there is none. -/
def Shortest (adj : κ → List κ) (w : κ → κ → K) (a goal : κ) : Option (List κ) → Prop
  | some p => ∃ d, Walk adj w a goal d p ∧ ∀ d' p', Walk adj w a goal d' p' → d ≤ d'
  | none => ∀ d p, ¬Walk adj w a goal d p

def openEdges (adj : κ → List κ) (visited vertices : List κ) : ℕ :=
  ((vertices.filter fun v => decide (v ∉ visited)).map fun v => (adj v).length).sum

omit [IsOrderedAddMonoid K] [AddCommMonoid K] [LinearOrder K] in
theorem openEdges_cons_le (adj : κ → List κ) (u : κ) (visited vertices : List κ) :
    openEdges adj (u :: visited) vertices ≤ openEdges adj visited vertices := by
  induction vertices with
  | nil => exact le_rfl
  | cons x vertices ih =>
    unfold openEdges at ih ⊢
    by_cases hx : x ∈ visited
    · rw [List.filter_cons_of_neg (by simp [hx]), List.filter_cons_of_neg (by simp [hx])]
      exact ih
    · rw [List.filter_cons_of_pos (p := fun v => decide (v ∉ visited)) (by simp [hx])]
      by_cases hxu : x = u
      · rw [List.filter_cons_of_neg (by simp [hxu])]
        exact ih.trans (by simp)
      · rw [List.filter_cons_of_pos (by simp [hx, hxu])]
        simp only [List.map_cons, List.sum_cons]
        exact Nat.add_le_add_left ih _

omit [IsOrderedAddMonoid K] [AddCommMonoid K] [LinearOrder K] in
variable (adj) in
theorem openEdges_settle {visited : List κ} (hu : u ∈ vertices) (hnew : u ∉ visited) :
    openEdges adj (u :: visited) vertices + (adj u).length ≤ openEdges adj visited vertices := by
  obtain ⟨before, after, heq⟩ := List.append_of_mem hu
  have happend : ∀ vs us rest : List κ, openEdges adj vs (us ++ rest) =
      openEdges adj vs us + openEdges adj vs rest := by
    intro vs us rest
    simp [openEdges]
  have hold : openEdges adj visited (u :: after) = (adj u).length + openEdges adj visited after := by
    simp [openEdges, hnew]
  have hskip : openEdges adj (u :: visited) (u :: after) = openEdges adj (u :: visited) after := by
    simp [openEdges]
  rw [heq, happend, happend, hold, hskip]
  have hbefore := openEdges_cons_le adj u visited before
  have hafter := openEdges_cons_le adj u visited after
  omega

theorem search_from {goal : κ} (hw : ∀ u v, v ∈ adj u → 0 ≤ w u v)
    (hclosed : ∀ u ∈ vertices, ∀ v ∈ adj u, v ∈ vertices) {fuel : ℕ} (s : Search κ K)
    (h : s.Sound adj adj w a vertices) (hgoal : goal ∉ s.visited)
    (hfuel : s.heap.length + openEdges adj s.visited vertices < fuel) :
    ∃ r, search adj w goal fuel s = some r ∧ Shortest adj w a goal r := by
  induction fuel generalizing s with
  | zero => exact absurd hfuel (Nat.not_lt_zero _)
  | succ fuel ih =>
    rw [search]
    cases hpop : popLeast toLex s.heap with
    | none =>
      refine ⟨none, rfl, fun d p hwalk => ?_⟩
      rcases h.walk_bound hw hwalk with hsettled | hheap
      · exact hgoal hsettled.1
      · obtain ⟨e, he, -⟩ := hheap
        obtain ⟨q, hq⟩ : ∃ q, popLeast toLex s.heap = some q := popLeast_isSome he
        rw [hpop] at hq
        cases hq
    | some popped =>
      obtain ⟨e, rest⟩ := popped
      dsimp only
      obtain ⟨-, -, hlength⟩ := popLeast_rest hpop
      by_cases hstale : e.2 ∈ s.visited
      · rw [if_pos hstale]
        exact ih _ (h.drop hpop hstale) hgoal (by dsimp only; omega)
      · rw [if_neg hstale]
        have hdist := h.popped hpop hstale
        obtain ⟨hsettle, hlast⟩ := h.settle hpop hstale
        by_cases hend : e.2 = goal
        · rw [if_pos hend]
          refine ⟨_, rfl, e.1, ?_, fun d p hwalk => ?_⟩
          · have htrail := hsettle.trail_walk hsettle.rooted
              (Nat.le_refl (s.visited.length + 1)) List.mem_cons_self hdist
            rw [← hend]
            exact htrail
          · rcases h.walk_bound hw hwalk with hsettled | hheap
            · exact absurd hsettled.1 hgoal
            · obtain ⟨e', he', hle⟩ := hheap
              exact (popLeast_le hpop e' he').trans hle
        · rw [if_neg hend]
          have hinside := h.inside e.2 e.1 hdist
          obtain ⟨hall, hvisited, hheap⟩ := hsettle.relaxAll (adj e.2)
            (hw e.2) (hclosed e.2 hinside) (fun v hv => hv) List.mem_cons_self hdist hlast
          rw [List.nil_append, Function.update_eq_self] at hall
          refine ih _ hall ?_ ?_
          · rw [hvisited]
            exact fun hmem => (List.mem_cons.mp hmem).elim (fun he => hend he.symm) hgoal
          · have hopen := openEdges_settle adj hinside hstale
            rw [hvisited]
            dsimp only at hheap ⊢
            omega

theorem search_shortest {goal : κ} (hw : ∀ u v, v ∈ adj u → 0 ≤ w u v)
    (hclosed : ∀ u ∈ vertices, ∀ v ∈ adj u, v ∈ vertices) (ha : a ∈ vertices) :
    ∃ r, search adj w goal (searchFuel adj vertices) (Search.start a) = some r ∧ Shortest adj w a goal r := by
  refine search_from hw hclosed _ (Search.sound_start ha) List.not_mem_nil ?_
  have hopen : openEdges adj (Search.start a : Search κ K).visited vertices =
      (vertices.map fun v => (adj v).length).sum := by
    unfold openEdges Search.start
    rw [List.filter_eq_self.mpr]
    intro v _
    exact decide_eq_true List.not_mem_nil
  rw [hopen, searchFuel]
  show 1 + _ < _
  omega

end Invariant

end TraxJourney.Lib
