/-
  File:      Overpass/RelationGeometry.lean
  Subject:   The line that a route relation gives for a leg: `_extract_relation_geometry` of
             `src/services/overpass_service.py`, with the bridges to the stops the relation names.

  * **`extractRelationGeometry_edges`** -- the line ends at the snapped vertices, and follows edges of path
    ways and bridges; **`extractRelationGeometry_rounded`** -- of the vertices, not the points.
-/
import TraxJourney.Lib.Doubles
import TraxJourney.Overpass.RailGraph

namespace TraxJourney.Overpass

open Lib Lib.Numerals

/-! ## 1. The relation -/

inductive MemberType where
  | way
  | node
  | other
deriving DecidableEq

/-- A member of a relation: a way's points, as `(lat, lon)`, and a node's place, where it is known. -/
structure Member (K : Type*) where
  type : MemberType
  role : String := ""
  geometry : List (K × K) := []
  located : Option (K × K) := none

def nonPathRoles : List String := ["platform", "hail_and_ride"]

def isRoutePath (role : String) : Bool := !(nonPathRoles.any fun r => r.toList.isPrefixOf role.toList)

section Defs

variable {κ K : Type*} [LinearOrder κ] [Field K] [LinearOrder K]

/-- The points of the ways that the route runs on. -/
def pathWays (rel : List (Member K)) : List (List (K × K)) :=
  (rel.filter fun m => m.type = .way && 2 ≤ m.geometry.length && isRoutePath m.role).map
    Member.geometry

def crowKm (M : Metric K) (lat1 lon1 lat2 lon2 : K) : K :=
  let dlat := (lat1 - lat2) * 111
  let dlon := (lon1 - lon2) * 111 * M.cosDegrees ((lat1 + lat2) / 2)
  M.hypot dlat dlon

/-- `_STOP_ANCHOR_KM`, `_COMPONENT_BRIDGE_M`. -/
def stopAnchorKm : K := 1
def componentBridgeM : K := 250

/-- One member of `_relation_stop_near`. -/
def nearerStop (M : Metric K) (lat lon : K) (s : Option (K × K) × K) (m : Member K) : Option (K × K) × K :=
  match m.type, m.located with
  | .node, some stop =>
    let km := crowKm M lat lon stop.1 stop.2
    if km ≤ s.2 then (some stop, km) else s
  | _, _ => s

/-- `_relation_stop_near`: a place as `(lat, lon)`. -/
def relationStopNear (M : Metric K) (rel : List (Member K)) (lat lon : K) : Option (K × K) :=
  (rel.foldl (nearerStop M lat lon) (none, stopAnchorKm)).1

/-- `_sq`, of two `[lon, lat]`. -/
def sq (a b : K × K) : K := (a.1 - b.1) ^ 2 + (a.2 - b.2) ^ 2

/-- `min(.., key=lambda n: _sq(nodes[n], [lon, lat]))`, the first of the nearest. -/
def nearestOf (G : RailGraph κ K) (ids : List κ) (lat lon : K) : Option κ :=
  ids.argmin fun n => sq (G.place n) (lon, lat)

def nearestNode (G : RailGraph κ K) (lat lon : K) : Option κ := nearestOf G G.ids lat lon

/-! ## 2. The bridges -/

section Grid

variable [FloorRing K]

/-- `int(x)`: towards zero. -/
def trunc (x : K) : ℤ := if 0 ≤ x then ⌊x⌋ else ⌈x⌉

/-- `_key`. -/
def gridKey (G : RailGraph κ K) (xScale : K) (node : κ) : ℤ × ℤ :=
  let cell : K := componentBridgeM / 111000
  (trunc ((G.place node).2 / cell), trunc ((G.place node).1 * xScale / cell))

/-- `grid.setdefault(_key(node), []).append(node)`. -/
def addToGrid (key : κ → ℤ × ℤ) (grid : ℤ × ℤ → List κ) (node : κ) : ℤ × ℤ → List κ :=
  Function.update grid (key node) (grid (key node) ++ [node])

/-- The cell of a key and the eight around it. -/
def around (c : ℤ × ℤ) : List (ℤ × ℤ) :=
  [c.1 - 1, c.1, c.1 + 1].flatMap fun i => [c.2 - 1, c.2, c.2 + 1].map fun j => (i, j)

/-- The pairs of a home node and another that the grid offers. -/
def candidates (key : κ → ℤ × ℤ) (grid : ℤ × ℤ → List κ) (comp : List κ) : List (κ × κ) :=
  comp.flatMap fun other => (around (key other)).flatMap fun c => (grid c).map fun node => (node, other)

/-- `_crow_km(..) * 1000` between two nodes. -/
def metresBetween (M : Metric K) (G : RailGraph κ K) (a b : κ) : K :=
  crowKm M (G.place a).2 (G.place a).1 (G.place b).2 (G.place b).1 * 1000

/-- One candidate: within the limit, and nearer than the best before it. -/
def nearerPair (M : Metric K) (G : RailGraph κ K) (best : Option (K × κ × κ)) (pair : κ × κ) :
    Option (K × κ × κ) :=
  let metres := metresBetween M G pair.1 pair.2
  if componentBridgeM < metres then best
  else if best.all fun b => decide (metres < b.1) then some (metres, pair)
  else best

/-- `_closest_approaches`, with the home component and the others in their order. -/
def closestApproaches (M : Metric K) (G : RailGraph κ K) (homeNodes : List κ)
    (others : List (List κ)) : List (κ × κ) :=
  let refLat := (homeNodes.map fun n => (G.place n).2).sum / homeNodes.length
  let xScale := max (M.cosDegrees refLat) (1 / 100)
  let key := gridKey G xScale
  let grid := homeNodes.foldl (addToGrid key) fun _ => []
  others.filterMap fun comp => ((candidates key grid comp).foldl (nearerPair M G) none).map Prod.snd

/-! ### What the approaches are -/

omit [LinearOrder κ] in
theorem mem_foldl_addToGrid {key : κ → ℤ × ℤ} {homeNodes : List κ} {grid : ℤ × ℤ → List κ}
    {c : ℤ × ℤ} {node : κ} (h : node ∈ homeNodes.foldl (addToGrid key) grid c) :
    node ∈ grid c ∨ node ∈ homeNodes := by
  induction homeNodes generalizing grid with
  | nil => exact Or.inl h
  | cons n homeNodes ih =>
    rcases ih h with hgrid | hnode
    · unfold addToGrid at hgrid
      by_cases hc : c = key n
      · rw [hc, Function.update_self, List.mem_append, List.mem_singleton] at hgrid
        rw [hc]
        refine hgrid.imp_right fun heq => ?_
        rw [heq]
        exact List.mem_cons_self
      · rw [Function.update_of_ne hc] at hgrid
        exact Or.inl hgrid
    · exact Or.inr (List.mem_cons_of_mem n hnode)

omit [LinearOrder κ] in
theorem mem_candidates {key : κ → ℤ × ℤ} {grid : ℤ × ℤ → List κ} {comp : List κ} {pair : κ × κ}
    (h : pair ∈ candidates key grid comp) : pair.2 ∈ comp ∧ ∃ c, pair.1 ∈ grid c := by
  obtain ⟨other, hother, hcell⟩ := List.mem_flatMap.mp h
  obtain ⟨c, -, hpair⟩ := List.mem_flatMap.mp hcell
  obtain ⟨node, hnode, heq⟩ := List.mem_map.mp hpair
  rw [← heq]
  exact ⟨hother, c, hnode⟩

omit [FloorRing K] in
theorem foldl_nearerPair (M : Metric K) (G : RailGraph κ K) {P : κ × κ → Prop}
    (pairs : List (κ × κ)) (best : Option (K × κ × κ)) (hpairs : ∀ pair ∈ pairs, P pair)
    (hbest : ∀ b, best = some b → P b.2 ∧ metresBetween M G b.2.1 b.2.2 ≤ componentBridgeM) :
    ∀ b, pairs.foldl (nearerPair M G) best = some b →
      P b.2 ∧ metresBetween M G b.2.1 b.2.2 ≤ componentBridgeM := by
  refine List.foldlRecOn (motive := fun best => ∀ b, best = some b →
    P b.2 ∧ metresBetween M G b.2.1 b.2.2 ≤ componentBridgeM) pairs (nearerPair M G) hbest
    fun best hbest pair hpair b hb => ?_
  unfold nearerPair at hb
  dsimp only at hb
  split at hb
  case isTrue => exact hbest b hb
  case isFalse hnear =>
    split at hb
    case isTrue =>
      cases hb
      exact ⟨hpairs pair hpair, not_lt.mp hnear⟩
    case isFalse => exact hbest b hb

theorem mem_closestApproaches {M : Metric K} {G : RailGraph κ K} {homeNodes : List κ}
    {others : List (List κ)} {pair : κ × κ} (h : pair ∈ closestApproaches M G homeNodes others) :
    pair.1 ∈ homeNodes ∧ (∃ comp ∈ others, pair.2 ∈ comp) ∧
      metresBetween M G pair.1 pair.2 ≤ componentBridgeM := by
  obtain ⟨comp, hcomp, hbest⟩ := List.mem_filterMap.mp h
  obtain ⟨b, hb, heq⟩ := Option.map_eq_some_iff.mp hbest
  have hspec := foldl_nearerPair M G (P := fun q => q.1 ∈ homeNodes ∧ q.2 ∈ comp) _ none
    (fun q hq => by
      obtain ⟨hother, c, hnode⟩ := mem_candidates hq
      exact ⟨(mem_foldl_addToGrid hnode).resolve_left List.not_mem_nil, hother⟩)
    (fun b hb => by cases hb) b hb
  rw [← heq]
  exact ⟨hspec.1.1, ⟨comp, hcomp, hspec.1.2⟩, hspec.2⟩

end Grid

omit [Field K] [LinearOrder K] in
theorem mem_ids_of_component {G : RailGraph κ K} {comp : List κ} (hcomp : comp ∈ componentsOf G)
    {u : κ} (hu : u ∈ comp) : u ∈ G.ids := by
  obtain ⟨hrooted, -, -⟩ := components_spec G.symm fun u (_ : u ∈ G.ids) v hv => G.closed u v hv
  obtain ⟨root, hroot, hclass⟩ := hrooted comp hcomp
  have hconn := (hclass u).mp hu
  induction hconn with
  | refl => exact hroot
  | tail _ hadj => exact G.closed _ _ hadj

/-- The graph with edges added, and the edges, each with its lesser end first. -/
structure Bridging (G : RailGraph κ K) where
  graph : RailGraph κ K
  added : List (κ × κ)
  same : graph.nodes = G.nodes

/-- `(a, b) if a < b else (b, a)`. -/
def edgeKey (pair : κ × κ) : κ × κ := if pair.1 < pair.2 then pair else (pair.2, pair.1)

/-- `if edge in added: continue`. -/
def addBridge {G : RailGraph κ K} (s : Bridging G) (pair : κ × κ) (ha : pair.1 ∈ G.ids)
    (hb : pair.2 ∈ G.ids) : Bridging G :=
  if edgeKey pair ∈ s.added then s
  else
    { graph := s.graph.addEdge pair.1 pair.2 (by rw [RailGraph.ids, s.same]; exact ha)
        (by rw [RailGraph.ids, s.same]; exact hb)
      added := edgeKey pair :: s.added
      same := s.same }

section Bridges

variable [FloorRing K]

local instance lawfulBEq_node : LawfulBEq κ := inferInstance

/-- The place among the components of the one with the node; no node is in two of them. -/
def owner (comps : List (List κ)) (node : κ) : ℕ := comps.findIdx fun comp => decide (node ∈ comp)

/-- The pairs that join the component `home` to the others. -/
def approachesOf (M : Metric K) (G : RailGraph κ K) (home : ℕ) : List (κ × κ) :=
  closestApproaches M G (((componentsOf G)[home]?).getD []) ((componentsOf G).eraseIdx home)

theorem mem_approachesOf {M : Metric K} {G : RailGraph κ K} {home : ℕ} {pair : κ × κ}
    (h : pair ∈ approachesOf M G home) : pair.1 ∈ G.ids ∧ pair.2 ∈ G.ids := by
  obtain ⟨hnode, hother, -⟩ := mem_closestApproaches h
  obtain ⟨comp, hcomp, hpair⟩ := hother
  refine ⟨?_, mem_ids_of_component (List.mem_of_mem_eraseIdx hcomp) hpair⟩
  cases hget : (componentsOf G)[home]? with
  | none =>
    rw [hget] at hnode
    exact absurd hnode List.not_mem_nil
  | some c =>
    rw [hget] at hnode
    exact mem_ids_of_component (List.mem_of_getElem? hget) hnode

/-- One end of the leg, `(lat, lon)`, with the homes of the ends before it. -/
def bridgeEnd (M : Metric K) (rel : List (Member K)) {G : RailGraph κ K}
    (s : Bridging G × List ℕ) (legEnd : K × K) : Bridging G × List ℕ :=
  match (relationStopNear M rel legEnd.1 legEnd.2).bind fun stop => nearestNode G stop.1 stop.2 with
  | none => s
  | some node =>
    let home := owner (componentsOf G) node
    if home ∈ s.2 then s
    else
      ((approachesOf M G home).attach.foldl
        (fun t pair => addBridge t pair.1 (mem_approachesOf pair.2).1 (mem_approachesOf pair.2).2)
        s.1, home :: s.2)

/-- `_bridge_to_named_stops`: the graph with the bridges. -/
def bridgeToNamedStops (M : Metric K) (rel : List (Member K)) (G : RailGraph κ K)
    (lat1 lon1 lat2 lon2 : K) : RailGraph κ K :=
  if (componentsOf G).length < 2 then G
  else
    ([(lat1, lon1), (lat2, lon2)].foldl (bridgeEnd M rel)
      ({ graph := G, added := [], same := rfl }, [])).1.graph

/-! ## 3. The line -/

/-- One component of `_snap_endpoints`. -/
def betterSnap (G : RailGraph κ K) (lat1 lon1 lat2 lon2 : K) (best : Option (K × κ × κ))
    (comp : List κ) : Option (K × κ × κ) :=
  if comp.length < 2 then best
  else
    match nearestOf G comp lat1 lon1, nearestOf G comp lat2 lon2 with
    | some start, some goal =>
      let cost := sq (G.place start) (lon1, lat1) + sq (G.place goal) (lon2, lat2)
      if best.all fun b => decide (cost < b.1) then some (cost, start, goal) else best
    | _, _ => best

def snapEndpoints (G : RailGraph κ K) (lat1 lon1 lat2 lon2 : K) : Option (κ × κ) :=
  ((componentsOf G).foldl (betterSnap G lat1 lon1 lat2 lon2) none).map Prod.snd

def relationGraph (M : Metric K) (nid : K → K → κ) (rel : List (Member K))
    (lat1 lon1 lat2 lon2 : K) : RailGraph κ K :=
  bridgeToNamedStops M rel (buildRailGraph nid (pathWays rel)) lat1 lon1 lat2 lon2

/-- `_extract_relation_geometry`; `some none` where there is no line. -/
def extractRelationGeometry (M : Metric K) (nid : K → K → κ) (rel : List (Member K))
    (lat1 lon1 lat2 lon2 : K) : Option (Option (List (K × K))) :=
  if (pathWays rel).isEmpty then some none
  else if (buildRailGraph nid (pathWays rel)).ids.isEmpty then some none
  else
    let G := relationGraph M nid rel lat1 lon1 lat2 lon2
    match snapEndpoints G lat1 lon1 lat2 lon2 with
    | none => some none
    | some (start, goal) =>
      (dijkstra M.edgeKm G start goal).map fun found =>
        (found.filter fun path => 2 ≤ path.length).map fun path => path.map G.place

end Bridges

/-! ## 4. The bridges' edges -/

section Lines

variable [FloorRing K] {M : Metric K} {rel : List (Member K)} {G : RailGraph κ K} {u v : κ}

omit [LinearOrder κ] [FloorRing K] in
theorem relationStopNear_some {lat lon : K} {stop : K × K} (h : relationStopNear M rel lat lon = some stop) :
    (∃ m ∈ rel, m.type = .node ∧ m.located = some stop) ∧ crowKm M lat lon stop.1 stop.2 ≤ stopAnchorKm := by
  -- what the loop has so far: its best is no further than the anchor distance, and so is its stop
  have hfold := List.foldlRecOn (motive := fun s : Option (K × K) × K => s.2 ≤ stopAnchorKm ∧
      ∀ stop, s.1 = some stop → (∃ m ∈ rel, m.type = .node ∧ m.located = some stop) ∧
        crowKm M lat lon stop.1 stop.2 ≤ stopAnchorKm) rel (nearerStop M lat lon)
    (b := (none, stopAnchorKm)) ⟨le_rfl, fun stop hstop => by cases hstop⟩ fun s hs m hm => by
    unfold nearerStop
    split
    case h_1 htype hlocated =>
      dsimp only
      split
      case isTrue hnear =>
        refine ⟨hnear.trans hs.1, fun stop hstop => ?_⟩
        cases hstop
        exact ⟨⟨m, hm, htype, hlocated⟩, hnear.trans hs.1⟩
      case isFalse => exact hs
    case h_2 => exact hs
  exact hfold.2 stop h

/-- An edge that no way has: from the component of the vertex nearest to a stop that the relation names
    near an end of the leg, to another component, and no longer than the limit. -/
structure Bridge (M : Metric K) (rel : List (Member K)) (G : RailGraph κ K) (ends : List (K × K))
    (a b : κ) : Prop where
  anchored : ∃ e ∈ ends, ∃ stop, (∃ m ∈ rel, m.type = .node ∧ m.located = some stop) ∧
    crowKm M e.1 e.2 stop.1 stop.2 ≤ stopAnchorKm ∧
    ∃ node, nearestNode G stop.1 stop.2 = some node ∧
      ∃ home ∈ componentsOf G, node ∈ home ∧ a ∈ home ∧ b ∉ home
  short : metresBetween M G a b ≤ componentBridgeM

omit [FloorRing K] [Field K] [LinearOrder K] in
theorem disjoint_of_mem_eraseIdx {i : ℕ} {home comp : List κ}
    (hhome : (componentsOf G)[i]? = some home) (hcomp : comp ∈ (componentsOf G).eraseIdx i) :
    home.Disjoint comp := by
  obtain ⟨-, hapart, -⟩ := components_spec G.symm fun u (_ : u ∈ G.ids) v hv => G.closed u v hv
  obtain ⟨hi, hget⟩ := List.getElem?_eq_some_iff.mp hhome
  rw [List.eraseIdx_eq_take_drop_succ, List.mem_append] at hcomp
  have hsplit : componentsOf G = (componentsOf G).take i ++ home :: (componentsOf G).drop (i + 1) := by
    rw [← hget, List.getElem_cons_drop, List.take_append_drop]
  have hpairs : (componentsOf G).Pairwise List.Disjoint := hapart
  rw [hsplit, List.pairwise_append] at hpairs
  rcases hcomp with hbefore | hafter
  · exact (hpairs.2.2 comp hbefore home List.mem_cons_self).symm
  · exact (List.pairwise_cons.mp hpairs.2.1).1 comp hafter

theorem approachesOf_owner {node : κ} {pair : κ × κ}
    (h : pair ∈ approachesOf M G (owner (componentsOf G) node)) :
    (∃ home ∈ componentsOf G, node ∈ home ∧ pair.1 ∈ home ∧ pair.2 ∉ home) ∧
      metresBetween M G pair.1 pair.2 ≤ componentBridgeM := by
  obtain ⟨hnode, hother, hshort⟩ := mem_closestApproaches h
  obtain ⟨comp, hcomp, hpair⟩ := hother
  refine ⟨?_, hshort⟩
  cases hget : (componentsOf G)[owner (componentsOf G) node]? with
  | none =>
    rw [hget] at hnode
    exact absurd hnode List.not_mem_nil
  | some home =>
    rw [hget] at hnode
    refine ⟨home, List.mem_of_getElem? hget, ?_, hnode, ?_⟩
    · obtain ⟨hlt, heq⟩ := List.getElem?_eq_some_iff.mp hget
      have hfound := List.findIdx_getElem (w := hlt)
      rw [← heq]
      exact of_decide_eq_true hfound
    · exact fun hmem => disjoint_of_mem_eraseIdx hget hcomp hmem hpair

omit [FloorRing K] [Field K] [LinearOrder K] in
theorem addBridge_adj {s : Bridging G} {pair : κ × κ} {ha : pair.1 ∈ G.ids} {hb : pair.2 ∈ G.ids}
    (h : v ∈ (addBridge s pair ha hb).graph.adj u) :
    v ∈ s.graph.adj u ∨ (u = pair.1 ∧ v = pair.2) ∨ (u = pair.2 ∧ v = pair.1) := by
  unfold addBridge at h
  split at h
  · exact Or.inl h
  · exact mem_append.mp h

/-- An edge of the graph before, or a bridge, in either direction. -/
def Joined (M : Metric K) (rel : List (Member K)) (G : RailGraph κ K) (ends : List (K × K))
    (u v : κ) : Prop :=
  v ∈ G.adj u ∨ Bridge M rel G ends u v ∨ Bridge M rel G ends v u

omit [FloorRing K] in
theorem foldl_addBridge {ends : List (K × K)} {pairs : List (κ × κ)}
    (hids : ∀ pair ∈ pairs, pair.1 ∈ G.ids ∧ pair.2 ∈ G.ids)
    (hbridge : ∀ pair ∈ pairs, Bridge M rel G ends pair.1 pair.2) (taken : List {p // p ∈ pairs})
    (s : Bridging G) (hs : ∀ u v, v ∈ s.graph.adj u → Joined M rel G ends u v) :
    ∀ u v, v ∈ (taken.foldl (fun t (pair : {p // p ∈ pairs}) =>
      addBridge t pair.1 (hids pair.1 pair.2).1 (hids pair.1 pair.2).2) s).graph.adj u →
      Joined M rel G ends u v := by
  induction taken generalizing s with
  | nil => exact hs
  | cons pair taken ih =>
    refine ih _ fun u v hv => ?_
    rcases addBridge_adj hv with hold | hthere | hback
    · exact hs u v hold
    · rw [hthere.1, hthere.2]
      exact Or.inr (Or.inl (hbridge pair.1 pair.2))
    · rw [hback.1, hback.2]
      exact Or.inr (Or.inr (hbridge pair.1 pair.2))

variable (M rel G) in
theorem bridgeEnd_adj {ends : List (K × K)} {e : K × K} (he : e ∈ ends) (s : Bridging G × List ℕ)
    (hs : ∀ u v, v ∈ s.1.graph.adj u → Joined M rel G ends u v) :
    ∀ u v, v ∈ (bridgeEnd M rel s e).1.graph.adj u → Joined M rel G ends u v := by
  unfold bridgeEnd
  split
  case h_1 => exact hs
  case h_2 node hnode =>
    obtain ⟨stop, hstop, hnear⟩ := Option.bind_eq_some_iff.mp hnode
    obtain ⟨hnamed, hanchor⟩ := relationStopNear_some hstop
    dsimp only
    split
    case isTrue => exact hs
    case isFalse =>
      refine foldl_addBridge (fun pair hpair => mem_approachesOf hpair) (fun pair hpair => ?_) _ s.1 hs
      obtain ⟨hhome, hshort⟩ := approachesOf_owner hpair
      exact ⟨⟨e, he, stop, hnamed, hanchor, node, hnear, hhome⟩, hshort⟩

theorem bridgeToNamedStops_adj (M : Metric K) (rel : List (Member K)) (G : RailGraph κ K)
    (lat1 lon1 lat2 lon2 : K) :
    (bridgeToNamedStops M rel G lat1 lon1 lat2 lon2).nodes = G.nodes ∧
      ∀ u v, v ∈ (bridgeToNamedStops M rel G lat1 lon1 lat2 lon2).adj u →
        Joined M rel G [(lat1, lon1), (lat2, lon2)] u v := by
  unfold bridgeToNamedStops
  split
  case isTrue => exact ⟨rfl, fun u v hv => Or.inl hv⟩
  case isFalse =>
    refine ⟨Bridging.same _, ?_⟩
    have hone := bridgeEnd_adj M rel G (List.mem_cons_self (a := (lat1, lon1)) (l := [(lat2, lon2)]))
      ({ graph := G, added := [], same := rfl }, []) fun u v hv => Or.inl hv
    exact bridgeEnd_adj M rel G (List.mem_cons_of_mem _ (List.mem_singleton_self _)) _ hone

/-! ## 5. The line -/

omit [FloorRing K] in
theorem snapEndpoints_mem {lat1 lon1 lat2 lon2 : K} {start goal : κ}
    (h : snapEndpoints G lat1 lon1 lat2 lon2 = some (start, goal)) :
    start ∈ G.ids ∧ goal ∈ G.ids := by
  have hfold := List.foldlRecOn (motive := fun best : Option (K × κ × κ) => ∀ b, best = some b →
      b.2.1 ∈ G.ids ∧ b.2.2 ∈ G.ids) (componentsOf G) (betterSnap G lat1 lon1 lat2 lon2)
    (b := none) (fun b hb => by cases hb) fun best hbest comp hcomp b hb => by
    unfold betterSnap at hb
    split at hb
    case isTrue => exact hbest b hb
    case isFalse =>
      split at hb
      case h_1 s g hstart hgoal =>
        dsimp only at hb
        split at hb
        case isTrue =>
          cases hb
          exact ⟨mem_ids_of_component hcomp (List.argmin_mem hstart),
            mem_ids_of_component hcomp (List.argmin_mem hgoal)⟩
        case isFalse => exact hbest b hb
      case h_2 => exact hbest b hb
  obtain ⟨b, hb, heq⟩ := Option.map_eq_some_iff.mp h
  have hspec := hfold b hb
  rw [heq] at hspec
  exact hspec

omit [LinearOrder K] [FloorRing K] in
theorem place_of_mem_ids {nid : K → K → κ} {ways : List (List (K × K))} {E : κ → κ → Prop}
    (hG : G.From (WayNode nid ways) E) (hu : u ∈ G.ids) : WayNode nid ways u (G.place u) := by
  obtain ⟨row, hrow, heq⟩ := List.mem_map.mp hu
  have hfind : G.nodes.find u = some row.2 := by
    rw [← heq]
    exact Table.find_eq_some.mpr hrow
  rw [RailGraph.place, hfind, Option.getD_some, ← heq]
  exact hG.nodes row hrow

variable [IsStrictOrderedRing K]

/-- **No teleports.** -/
theorem extractRelationGeometry_edges (M : Metric K) (nid : K → K → κ) (rel : List (Member K))
    (lat1 lon1 lat2 lon2 : K) :
    ∃ r, extractRelationGeometry M nid rel lat1 lon1 lat2 lon2 = some r ∧ ∀ line, r = some line →
        ∃ (start goal : κ) (path : List κ),
          snapEndpoints (relationGraph M nid rel lat1 lon1 lat2 lon2) lat1 lon1 lat2 lon2 =
            some (start, goal) ∧
          line = path.map (buildRailGraph nid (pathWays rel)).place ∧
          path.head? = some start ∧ path.getLast? = some goal ∧
          (∀ u ∈ path, WayNode nid (pathWays rel) u ((buildRailGraph nid (pathWays rel)).place u)) ∧
          path.IsChain fun u v =>
            (WayEdge nid (pathWays rel) u v ∨ WayEdge nid (pathWays rel) v u) ∨
              (Bridge M rel (buildRailGraph nid (pathWays rel)) [(lat1, lon1), (lat2, lon2)] u v ∨
                Bridge M rel (buildRailGraph nid (pathWays rel)) [(lat1, lon1), (lat2, lon2)] v u) := by
  have hnone : ∀ line : List (K × K), (none : Option (List (K × K))) = some line → False := by
    intro line h
    cases h
  unfold extractRelationGeometry
  split
  case isTrue => exact ⟨none, rfl, fun line h => (hnone line h).elim⟩
  case isFalse =>
    split
    case isTrue => exact ⟨none, rfl, fun line h => (hnone line h).elim⟩
    case isFalse =>
      dsimp only
      obtain ⟨hnodes, hadj⟩ := bridgeToNamedStops_adj M rel (buildRailGraph nid (pathWays rel))
        lat1 lon1 lat2 lon2
      have hbuilt := buildRailGraph_from nid (pathWays rel)
      cases hsnap : snapEndpoints (relationGraph M nid rel lat1 lon1 lat2 lon2) lat1 lon1 lat2 lon2 with
      | none => exact ⟨none, rfl, fun line h => (hnone line h).elim⟩
      | some ends =>
        obtain ⟨start, goal⟩ := ends
        obtain ⟨hstart, hgoal⟩ := snapEndpoints_mem hsnap
        obtain ⟨found, hfound, hshort⟩ := dijkstra_spec M.edgeKm _ hstart goal
        dsimp only
        rw [hfound]
        refine ⟨_, rfl, fun line hline => ?_⟩
        obtain ⟨path, hfilter, hplace⟩ := Option.map_eq_some_iff.mp hline
        obtain ⟨hsome, -⟩ := Option.filter_eq_some_iff.mp hfilter
        rw [hsome] at hshort
        obtain ⟨d, hwalk, -⟩ := hshort
        have hplaces : (relationGraph M nid rel lat1 lon1 lat2 lon2).place =
            (buildRailGraph nid (pathWays rel)).place := by
          funext u
          rw [RailGraph.place, relationGraph, hnodes, RailGraph.place]
        refine ⟨start, goal, path, rfl, ?_, hwalk.head, hwalk.last, ?_, ?_⟩
        · rw [← hplace, hplaces]
        · intro u hu
          have hids : (relationGraph M nid rel lat1 lon1 lat2 lon2).ids =
              (buildRailGraph nid (pathWays rel)).ids := by
            rw [RailGraph.ids, RailGraph.ids, relationGraph, hnodes]
          refine place_of_mem_ids hbuilt (hids ▸ ?_)
          exact hwalk.forall_mem hstart (fun u v hv => RailGraph.closed _ u v hv) u hu
        · refine hwalk.isChain.imp fun u v hv => ?_
          rcases hadj u v hv with hway | hbridge
          · exact Or.inl (hbuilt.edges u v hway)
          · exact Or.inr hbridge

end Lines

end Defs

/-! ### Two points of one id -/

/-- The numbers that `"{lat:.6f},{lon:.6f}"` writes, of coordinates that are not negative. -/
def rounded (lat lon : ℚ) : ℤ ×ₗ ℤ := toLex (roundHalfEven (lat * 1000000), roundHalfEven (lon * 1000000))

/-- Functions that are right of a line that runs north: of squares, and of numbers of which one is zero. -/
def northwards : Metric ℚ where
  cosDegrees _ := 1
  hypot x y := |x| + |y|
  sqrt x := Nat.sqrt x.num.toNat / Nat.sqrt x.den
  sqrt_nonneg _ := div_nonneg (Nat.cast_nonneg _) (Nat.cast_nonneg _)

/-- Two ways that meet at two points of one id. -/
def meeting : List (Member ℚ) :=
  [{ type := .way, geometry := [(0, 0), (1 / 10000, 0)] },
    { type := .way, geometry := [(1002 / 10000000, 0), (2 / 10000, 0)] }]

/-- The line of the two ways: its points are path ways' points, one edge after the other. -/
theorem extractRelationGeometry_meeting : ∃ path : List (ℤ ×ₗ ℤ),
      path.map (buildRailGraph rounded (pathWays meeting)).place =
        [(0, 0), (0, 1002 / 10000000), (0, 2 / 10000)] ∧
      ∀ u ∈ path, WayNode rounded (pathWays meeting) u
        ((buildRailGraph rounded (pathWays meeting)).place u) := by
  obtain ⟨r, hr, hline⟩ := extractRelationGeometry_edges northwards rounded meeting 0 0 (2 / 10000) 0
  have hfound : extractRelationGeometry northwards rounded meeting 0 0 (2 / 10000) 0 =
      some (some [(0, 0), (0, 1002 / 10000000), (0, 2 / 10000)]) := by decide +kernel
  rw [hfound] at hr
  obtain ⟨-, -, path, -, hplaces, -, -, hnodes, -⟩ := hline _ (Option.some.inj hr).symm
  exact ⟨path, hplaces.symm, hnodes⟩

/-- The line takes the second way's point for the end of the first way, and no stop is named. -/
theorem extractRelationGeometry_rounded :
    extractRelationGeometry northwards rounded meeting 0 0 (2 / 10000) 0 =
        some (some [(0, 0), (0, 1002 / 10000000), (0, 2 / 10000)]) ∧
      (∀ m ∈ meeting, ((0, 0), (1002 / 10000000, 0)) ∉ m.geometry.zip m.geometry.tail ∧
        ((1002 / 10000000, 0), (0, 0)) ∉ m.geometry.zip m.geometry.tail) ∧
      relationStopNear northwards meeting 0 0 = none ∧
      relationStopNear northwards meeting (2 / 10000) 0 = none := by
  decide +kernel

end TraxJourney.Overpass
