/-
  File:      Overpass/RailGraph.lean
  Subject:   The node graph of railway ways and the shortest path on it: `_build_rail_graph`,
             `_dijkstra` and `_components` of `src/services/overpass_service.py`.

  * **`dijkstra_shortest`** -- a path that no path is shorter than, or the vertices are in two components.

  Vertex ids are of any ordered type, and the id of a point is a parameter: the text of its rounded
  coordinates.
-/
import TraxJourney.Lib.Components
import TraxJourney.Lib.Dict
import TraxJourney.Lib.Doubles
import TraxJourney.Lib.ShortestPaths

namespace TraxJourney.Overpass

open Lib Lib.Numerals

/-! ## 1. The graph -/

section Graph

variable {κ K : Type*} [DecidableEq κ]

/-- `nodes`: the `[lon, lat]` of an id, in the order the ids came; and `adj`. -/
structure RailGraph (κ K : Type*) [DecidableEq κ] where
  nodes : Dict κ (K × K)
  adj : κ → List κ
  closed : ∀ u v, v ∈ adj u → v ∈ nodes.rows.map Prod.fst
  symm : ∀ u v, v ∈ adj u → u ∈ adj v

def RailGraph.ids (G : RailGraph κ K) : List κ := G.nodes.rows.map Prod.fst

/-- `nodes[u]`; every id that the searches come to is a node's. -/
def RailGraph.place [Zero K] (G : RailGraph κ K) (u : κ) : K × K := (G.nodes.find u).getD (0, 0)

/-- `adj.setdefault(a, []).append(b)`, and the same the other way. -/
def append (adj : κ → List κ) (a b : κ) : κ → List κ :=
  let there := Function.update adj a (adj a ++ [b])
  Function.update there b (there b ++ [a])

theorem mem_append {adj : κ → List κ} {a b u v : κ} :
    v ∈ append adj a b u ↔ v ∈ adj u ∨ (u = a ∧ v = b) ∨ (u = b ∧ v = a) := by
  unfold append
  by_cases hub : u = b
  · subst hub
    rw [Function.update_self, List.mem_append, List.mem_singleton]
    by_cases hua : u = a
    · subst hua
      rw [Function.update_self, List.mem_append, List.mem_singleton]
      tauto
    · rw [Function.update_of_ne hua]
      tauto
  · rw [Function.update_of_ne hub]
    by_cases hua : u = a
    · subst hua
      rw [Function.update_self, List.mem_append, List.mem_singleton]
      tauto
    · rw [Function.update_of_ne hua]
      tauto

/-- An edge between two nodes. -/
def RailGraph.addEdge (G : RailGraph κ K) (a b : κ) (ha : a ∈ G.ids) (hb : b ∈ G.ids) : RailGraph κ K where
  nodes := G.nodes
  adj := append G.adj a b
  closed := by
    intro u v hv
    rcases mem_append.mp hv with hold | hthere | hback
    · exact G.closed u v hold
    · exact hthere.2 ▸ hb
    · exact hback.2 ▸ ha
  symm := by
    intro u v hv
    rw [mem_append] at hv ⊢
    rcases hv with hold | hthere | hback
    · exact Or.inl (G.symm u v hold)
    · exact Or.inr (Or.inr ⟨hthere.2, hthere.1⟩)
    · exact Or.inr (Or.inl ⟨hback.2, hback.1⟩)

theorem mem_ids_put (nodes : Dict κ (K × K)) (a u : κ) (p : K × K) :
    u ∈ (nodes.put (a, p)).rows.map Prod.fst ↔ u = a ∨ u ∈ nodes.rows.map Prod.fst := by
  simp only [List.mem_map]
  constructor
  · intro h
    obtain ⟨row, hrow, hu⟩ := h
    rcases Table.mem_put.mp hrow with hnew | hold
    · exact Or.inl (hu.symm.trans (congrArg Prod.fst hnew))
    · exact Or.inr ⟨row, hold.1, hu⟩
  · intro h
    by_cases hua : u = a
    · exact ⟨(a, p), Table.mem_put.mpr (Or.inl rfl), hua.symm⟩
    · obtain ⟨row, hrow, hu⟩ := h.resolve_left hua
      exact ⟨row, Table.mem_put.mpr (Or.inr ⟨hrow, fun he => hua (hu.symm.trans he)⟩), hu⟩

/-- `nodes[nid] = [lon, lat]`. -/
def RailGraph.setNode (G : RailGraph κ K) (nid : κ) (p : K × K) : RailGraph κ K where
  nodes := G.nodes.put (nid, p)
  adj := G.adj
  closed := fun u v hv => (mem_ids_put _ _ _ _).mpr (Or.inr (G.closed u v hv))
  symm := G.symm

theorem mem_ids_setNode {G : RailGraph κ K} {nid u : κ} {p : K × K} :
    u ∈ (G.setNode nid p).ids ↔ u = nid ∨ u ∈ G.ids := mem_ids_put _ _ _ _

def RailGraph.empty : RailGraph κ K where
  nodes := .empty
  adj := fun _ => []
  closed := fun _ _ hv => absurd hv List.not_mem_nil
  symm := fun _ _ hv => absurd hv List.not_mem_nil

/-- The graph, and the id of the way's point before. -/
structure Building (κ K : Type*) [DecidableEq κ] where
  graph : RailGraph κ K
  prev : Option κ
  known : ∀ p, prev = some p → p ∈ graph.ids

/-- One point of a way, `(lat, lon)`. -/
def addPoint (nid : K → K → κ) (s : Building κ K) (pt : K × K) : Building κ K :=
  let id := nid pt.1 pt.2
  let graph := s.graph.setNode id (pt.2, pt.1)
  have hid : id ∈ graph.ids := mem_ids_setNode.mpr (Or.inl rfl)
  { graph :=
      match hprev : s.prev with
      | some p => graph.addEdge p id (mem_ids_setNode.mpr (Or.inr (s.known p hprev))) hid
      | none => graph
    prev := some id
    known := by
      intro p hp
      cases hp
      split <;> exact hid }

def addWay (nid : K → K → κ) (G : RailGraph κ K) (way : List (K × K)) : RailGraph κ K :=
  (way.foldl (addPoint nid) { graph := G, prev := none, known := fun _ h => by cases h }).graph

/-- `_build_rail_graph`, of the points of the ways. -/
def buildRailGraph (nid : K → K → κ) (ways : List (List (K × K))) : RailGraph κ K :=
  ways.foldl (addWay nid) .empty

end Graph

/-! ## 2. The searches -/

/-- The length of an edge, from the `[lon, lat]` of its ends. -/
structure Lengths (K : Type*) [Zero K] [LE K] where
  between : K × K → K × K → K
  nonneg : ∀ a b, 0 ≤ between a b

/-- `math.cos(math.radians(..))`, `math.hypot` and `math.sqrt`. -/
structure Metric (K : Type*) [Zero K] [LE K] where
  cosDegrees : K → K
  hypot : K → K → K
  sqrt : K → K
  sqrt_nonneg : ∀ x, 0 ≤ sqrt x

section Searches

variable {κ K : Type*} [LinearOrder κ] [Field K] [LinearOrder K]

/-- The length that `_dijkstra` gives an edge. -/
def Metric.edgeKm (M : Metric K) : Lengths K where
  between cu cv :=
    let dlat := (cu.2 - cv.2) * 111
    let dlon := (cu.1 - cv.1) * 111 * M.cosDegrees ((cu.2 + cv.2) / 2)
    M.sqrt (dlat * dlat + dlon * dlon)
  nonneg _ _ := M.sqrt_nonneg _

def RailGraph.length (G : RailGraph κ K) (L : Lengths K) (u v : κ) : K := L.between (G.place u) (G.place v)

/-- `_dijkstra`; `some none` where there is no path. -/
def dijkstra (L : Lengths K) (G : RailGraph κ K) (start goal : κ) : Option (Option (List κ)) :=
  search G.adj (G.length L) goal (searchFuel G.adj G.ids) (Search.start start)

/-- `_components`. -/
def componentsOf (G : RailGraph κ K) : List (List κ) := components G.adj G.ids

variable {G : RailGraph κ K} {L : Lengths K} {start goal u v : κ} {d : K} {p : List κ}

theorem connected_of_walk (h : Walk G.adj (G.length L) u v d p) : Connected G.adj u v := by
  induction h with
  | stay => exact Relation.ReflTransGen.refl
  | step _ hadj ih => exact ih.tail hadj

theorem walk_of_connected (L : Lengths K) (h : Connected G.adj u v) :
    ∃ d p, Walk G.adj (G.length L) u v d p := by
  induction h with
  | refl => exact ⟨0, [u], Walk.stay⟩
  | tail _ hadj ih =>
    obtain ⟨d, p, hwalk⟩ := ih
    exact ⟨_, _, hwalk.step hadj⟩

omit [Field K] [LinearOrder K] in
theorem components_apart (hstart : start ∈ G.ids) (hgoal : goal ∈ G.ids) :
    (∃ c ∈ componentsOf G, ∃ c' ∈ componentsOf G, c.Disjoint c' ∧ start ∈ c ∧ goal ∈ c') ↔
      ¬Connected G.adj start goal := by
  have hclosed : ∀ u ∈ G.ids, ∀ v ∈ G.adj u, v ∈ G.ids := fun u _ v hv => G.closed u v hv
  obtain ⟨hrooted, -, hall⟩ := components_spec G.symm hclosed
  have hsame : ∀ c ∈ componentsOf G, ∀ x ∈ c, ∀ y ∈ c, Connected G.adj x y := by
    intro c hc x hx y hy
    obtain ⟨root, -, hroot⟩ := hrooted c hc
    exact (((hroot x).mp hx).symm G.symm).trans ((hroot y).mp hy)
  constructor
  · intro hdiff hconn
    obtain ⟨c, hc, c', hc', hdisjoint, hstartc, hgoalc⟩ := hdiff
    obtain ⟨root, -, hroot⟩ := hrooted c hc
    exact hdisjoint ((hroot goal).mpr (((hroot start).mp hstartc).trans hconn)) hgoalc
  · intro hnot
    obtain ⟨c, hc, hstartc⟩ := hall start hstart
    obtain ⟨c', hc', hgoalc⟩ := hall goal hgoal
    refine ⟨c, hc, c', hc', fun x hx hx' => hnot ?_, hstartc, hgoalc⟩
    exact (hsame c hc start hstartc x hx).trans (hsame c' hc' x hx' goal hgoalc)

theorem dijkstra_spec [IsStrictOrderedRing K] (L : Lengths K) (G : RailGraph κ K) (hstart : start ∈ G.ids)
    (goal : κ) : ∃ r, dijkstra L G start goal = some r ∧ Shortest G.adj (G.length L) start goal r :=
  search_shortest (fun u v _ => L.nonneg (G.place u) (G.place v)) (fun u _ v hv => G.closed u v hv) hstart

/-- **The shortest path.** -/
theorem dijkstra_shortest [IsStrictOrderedRing K] (L : Lengths K) (G : RailGraph κ K)
    (hstart : start ∈ G.ids) (hgoal : goal ∈ G.ids) :
    ∃ r, dijkstra L G start goal = some r ∧
      (∀ path, r = some path → ∃ d, Walk G.adj (G.length L) start goal d path ∧
        ∀ d' path', Walk G.adj (G.length L) start goal d' path' → d ≤ d') ∧
      (r = none ↔ ∃ c ∈ componentsOf G, ∃ c' ∈ componentsOf G, c.Disjoint c' ∧ start ∈ c ∧ goal ∈ c') := by
  obtain ⟨r, hr, hshort⟩ := dijkstra_spec L G hstart goal
  refine ⟨r, hr, ?_, ?_⟩
  · intro path hpath
    rw [hpath] at hshort
    exact hshort
  · rw [components_apart hstart hgoal]
    cases r with
    | none =>
      refine iff_of_true rfl fun hconn => ?_
      obtain ⟨d, p, hwalk⟩ := walk_of_connected L hconn
      exact hshort d p hwalk
    | some path =>
      refine iff_of_false (fun h => by cases h) fun hnot => ?_
      obtain ⟨d, hwalk, -⟩ := hshort
      exact hnot (connected_of_walk hwalk)

end Searches

/-- The functions of Python's `math` over the reals. -/
noncomputable def realMetric : Metric ℝ where
  cosDegrees d := Real.cos (d * Real.pi / 180)
  hypot x y := Real.sqrt (x ^ 2 + y ^ 2)
  sqrt := Real.sqrt
  sqrt_nonneg := Real.sqrt_nonneg

/-- One edge, from Luxembourg to the south. -/
def twoStations : RailGraph ℕ ℝ :=
  ((RailGraph.empty.setNode 0 (6, 49)).setNode 1 (6, 50)).addEdge 0 1
    (mem_ids_setNode.mpr (Or.inr (mem_ids_setNode.mpr (Or.inl rfl)))) (mem_ids_setNode.mpr (Or.inl rfl))

theorem dijkstra_shortest_stations : (0 ∈ twoStations.ids ∧ 1 ∈ twoStations.ids) ∧
      ∃ r, dijkstra realMetric.edgeKm twoStations 0 1 = some r ∧ (∀ path, r = some path →
          ∃ d, Walk twoStations.adj (twoStations.length realMetric.edgeKm) 0 1 d path ∧
            ∀ d' path', Walk twoStations.adj (twoStations.length realMetric.edgeKm) 0 1 d' path' → d ≤ d') ∧
        (r = none ↔ ∃ c ∈ componentsOf twoStations, ∃ c' ∈ componentsOf twoStations,
          c.Disjoint c' ∧ 0 ∈ c ∧ 1 ∈ c') := by
  have hzero : 0 ∈ twoStations.ids := mem_ids_setNode.mpr (Or.inr (mem_ids_setNode.mpr (Or.inl rfl)))
  have hone : 1 ∈ twoStations.ids := mem_ids_setNode.mpr (Or.inl rfl)
  exact ⟨⟨hzero, hone⟩, dijkstra_shortest realMetric.edgeKm twoStations hzero hone⟩

/-! ## 3. Where a built graph comes from -/

section Built

variable {κ K : Type*} [DecidableEq κ] {nid : K → K → κ}

/-- An edge of one of the ways, as the ids of its ends, in the direction of the way. -/
def WayEdge (nid : K → K → κ) (ways : List (List (K × K))) (u v : κ) : Prop :=
  ∃ way ∈ ways, ∃ before after a b, way = before ++ a :: b :: after ∧ nid a.1 a.2 = u ∧ nid b.1 b.2 = v

def WayNode (nid : K → K → κ) (ways : List (List (K × K))) (u : κ) (place : K × K) : Prop :=
  ∃ way ∈ ways, ∃ pt ∈ way, nid pt.1 pt.2 = u ∧ (pt.2, pt.1) = place

structure RailGraph.From (G : RailGraph κ K) (N : κ → K × K → Prop) (E : κ → κ → Prop) : Prop where
  nodes : ∀ row ∈ G.nodes, N row.1 row.2
  edges : ∀ u v, v ∈ G.adj u → E u v ∨ E v u

theorem addPoint_nodes (s : Building κ K) (pt : K × K) :
    (addPoint nid s pt).graph.nodes = s.graph.nodes.put (nid pt.1 pt.2, (pt.2, pt.1)) := by
  unfold addPoint
  dsimp only
  split <;> rfl

theorem mem_addPoint_adj {s : Building κ K} {pt : K × K} {u v : κ} (h : v ∈ (addPoint nid s pt).graph.adj u) :
    v ∈ s.graph.adj u ∨
      ∃ p, s.prev = some p ∧ ((u = p ∧ v = nid pt.1 pt.2) ∨ (u = nid pt.1 pt.2 ∧ v = p)) := by
  unfold addPoint at h
  dsimp only at h
  split at h
  case h_1 p hprev => exact (mem_append.mp h).imp_right fun hnew => ⟨p, hprev, hnew⟩
  case h_2 => exact Or.inl h

variable {N : κ → K × K → Prop} {E : κ → κ → Prop}

theorem foldl_addPoint_from {pts : List (K × K)} {s : Building κ K} (hs : s.graph.From N E)
    (hnode : ∀ pt ∈ pts, N (nid pt.1 pt.2) (pt.2, pt.1))
    (hedge : ∀ before after a b, pts = before ++ a :: b :: after → E (nid a.1 a.2) (nid b.1 b.2))
    (hfirst : ∀ p b rest, s.prev = some p → pts = b :: rest → E p (nid b.1 b.2)) :
    (pts.foldl (addPoint nid) s).graph.From N E := by
  induction pts generalizing s with
  | nil => exact hs
  | cons b rest ih =>
    refine ih ?_ (fun pt hpt => hnode pt (List.mem_cons_of_mem b hpt)) ?_ ?_
    · refine { nodes := fun row hrow => ?_, edges := fun u v hv => ?_ }
      · rw [addPoint_nodes] at hrow
        rcases Table.mem_put.mp hrow with hnew | hold
        · rw [hnew]
          exact hnode b List.mem_cons_self
        · exact hs.nodes row hold.1
      · rcases mem_addPoint_adj hv with hold | hnew
        · exact hs.edges u v hold
        · obtain ⟨p, hp, hends⟩ := hnew
          have hpb := hfirst p b rest hp rfl
          rcases hends with hthere | hback
          · rw [hthere.1, hthere.2]
            exact Or.inl hpb
          · rw [hback.1, hback.2]
            exact Or.inr hpb
    · intro before after a c heq
      exact hedge (b :: before) after a c (by rw [heq, List.cons_append])
    · intro p c rest' hp heq
      cases hp
      exact hedge [] rest' b c (by rw [heq, List.nil_append])

theorem buildRailGraph_from (nid : K → K → κ) (ways : List (List (K × K))) :
    (buildRailGraph nid ways).From (WayNode nid ways) (WayEdge nid ways) := by
  have hall : ∀ (rest : List (List (K × K))) (G : RailGraph κ K), (∀ way ∈ rest, way ∈ ways) →
      G.From (WayNode nid ways) (WayEdge nid ways) →
      (rest.foldl (addWay nid) G).From (WayNode nid ways) (WayEdge nid ways) := by
    intro rest
    induction rest with
    | nil => exact fun G _ hG => hG
    | cons way rest ih =>
      intro G hsub hG
      have hway := hsub way List.mem_cons_self
      refine ih _ (fun w hw => hsub w (List.mem_cons_of_mem way hw)) (foldl_addPoint_from hG ?_ ?_ ?_)
      · exact fun pt hpt => ⟨way, hway, pt, hpt, rfl, rfl⟩
      · exact fun before after a b heq => ⟨way, hway, before, after, a, b, heq, rfl, rfl⟩
      · intro p b rest hp
        cases hp
  refine hall ways .empty (fun way hway => hway) ?_
  exact { nodes := fun row hrow => absurd hrow Table.not_mem_empty
          edges := fun u v hv => absurd hv List.not_mem_nil }

end Built

end TraxJourney.Overpass
