/-
  File:      Lib/Components.lean
  Subject:   The connected components of an undirected graph, by a stack.

  * **`components_spec`** -- every vertex is in a component, components are apart, and each is all that is
    reached from one of its vertices.
-/
import Mathlib.Data.List.Nodup
import Mathlib.Data.List.Perm.Subperm

namespace TraxJourney.Lib

variable {κ : Type*} [DecidableEq κ]

/-! ## 1. The loop -/

structure Explore (κ : Type*) where
  seen : List κ
  stack : List κ
  component : List κ

/-- `if neighbour not in seen`. -/
def visit (s : Explore κ) (neighbour : κ) : Explore κ :=
  if neighbour ∈ s.seen then s
  else { s with seen := neighbour :: s.seen, stack := neighbour :: s.stack }

/-- `while stack`, the top of the stack first. -/
def explore (adj : κ → List κ) : ℕ → Explore κ → Explore κ
  | 0, s => s
  | fuel + 1, s =>
    match s.stack with
    | [] => s
    | current :: rest =>
      explore adj fuel ((adj current).foldl visit
        { s with stack := rest, component := s.component ++ [current] })

/-- One node of the outer loop: what is seen, and the components before it. -/
def addComponent (adj : κ → List κ) (fuel : ℕ) (s : List κ × List (List κ)) (node : κ) :
    List κ × List (List κ) :=
  if node ∈ s.1 then s
  else
    let t := explore adj fuel { seen := node :: s.1, stack := [node], component := [] }
    (t.seen, s.2 ++ [t.component])

/-- The components, in the order of their first vertices; a component has no more turns than there are
    vertices. -/
def components (adj : κ → List κ) (nodes : List κ) : List (List κ) :=
  (nodes.foldl (addComponent adj nodes.length) ([], [])).2

/-! ## 2. One vertex of the stack -/

theorem foldl_visit (vs : List κ) (s : Explore κ) : ∃ new, vs.foldl visit s =
        { seen := new ++ s.seen, stack := new ++ s.stack, component := s.component } ∧
      new.Nodup ∧ (∀ x ∈ new, x ∈ vs ∧ x ∉ s.seen) ∧ ∀ x ∈ vs, x ∈ new ++ s.seen := by
  induction vs generalizing s with
  | nil => exact ⟨[], rfl, List.nodup_nil, fun x hx => absurd hx List.not_mem_nil,
      fun x hx => absurd hx List.not_mem_nil⟩
  | cons v vs ih =>
    rw [List.foldl_cons, visit]
    split
    case isTrue hseen =>
      obtain ⟨new, heq, hnodup, hnew, hall⟩ := ih s
      refine ⟨new, heq, hnodup, fun x hx => ?_, ?_⟩
      · exact ⟨List.mem_cons_of_mem v (hnew x hx).1, (hnew x hx).2⟩
      · exact List.forall_mem_cons.mpr ⟨List.mem_append_right new hseen, hall⟩
    case isFalse hfresh =>
      obtain ⟨new, heq, hnodup, hnew, hall⟩ := ih { s with seen := v :: s.seen, stack := v :: s.stack }
      have hv : v ∉ new := fun hmem => (hnew v hmem).2 List.mem_cons_self
      refine ⟨new ++ [v], by simpa using heq, ?_, ?_, ?_⟩
      · exact hnodup.append (List.nodup_singleton v) (List.disjoint_singleton.mpr hv)
      · intro x hx
        rcases List.mem_append.mp hx with hold | hlast
        · exact ⟨List.mem_cons_of_mem v (hnew x hold).1,
            fun hmem => (hnew x hold).2 (List.mem_cons_of_mem v hmem)⟩
        · rw [List.mem_singleton.mp hlast]
          exact ⟨List.mem_cons_self, hfresh⟩
      · rw [List.append_assoc, List.singleton_append]
        refine List.forall_mem_cons.mpr ⟨?_, hall⟩
        exact List.mem_append_right new List.mem_cons_self

/-! ## 3. One component -/

/-- `v` is a neighbour of `u`. -/
def Neighbour (adj : κ → List κ) (u v : κ) : Prop := v ∈ adj u

/-- A way leads from the one to the other. -/
def Connected (adj : κ → List κ) : κ → κ → Prop := Relation.ReflTransGen (Neighbour adj)

/-- The invariant, from the vertex `root` on, with `base` seen before. -/
structure Exploring (adj : κ → List κ) (base : List κ) (root : κ) (vertices : List κ)
    (s : Explore κ) : Prop where
  seen : ∀ x, x ∈ s.seen ↔ x ∈ base ∨ x ∈ s.component ++ s.stack
  fresh : ∀ x ∈ s.component ++ s.stack, x ∉ base
  nodup : (s.component ++ s.stack).Nodup
  inside : ∀ x ∈ s.component ++ s.stack, x ∈ vertices
  reached : ∀ x ∈ s.component ++ s.stack, Connected adj root x
  root : root ∈ s.component ++ s.stack
  done : ∀ x ∈ s.component, ∀ y ∈ adj x, y ∈ s.seen

variable {adj : κ → List κ} {base vertices : List κ} {root : κ} {s : Explore κ}

theorem Exploring.step {current : κ} {rest : List κ} (h : Exploring adj base root vertices s)
    (hstack : s.stack = current :: rest) (hclosed : ∀ u ∈ vertices, ∀ v ∈ adj u, v ∈ vertices) :
    Exploring adj base root vertices ((adj current).foldl visit
      { s with stack := rest, component := s.component ++ [current] }) := by
  obtain ⟨new, heq, hnodup, hnew, hall⟩ := foldl_visit (adj current)
    { s with stack := rest, component := s.component ++ [current] }
  have hsame : s.component ++ s.stack = s.component ++ [current] ++ rest := by
    rw [hstack, List.append_assoc, List.singleton_append]
  have hmem : ∀ x, x ∈ s.component ++ [current] ++ (new ++ rest) ↔ x ∈ new ∨ x ∈ s.component ++ s.stack := by
    intro x
    rw [hsame]
    simp only [List.mem_append]
    tauto
  have hcurrent : current ∈ s.component ++ s.stack := by
    rw [hstack]
    exact List.mem_append_right _ List.mem_cons_self
  have hunseen : ∀ x ∈ new, x ∉ base ∧ x ∉ s.component ++ s.stack := by
    intro x hx
    have hx' := (hnew x hx).2
    dsimp only at hx'
    rw [h.seen] at hx'
    exact not_or.mp hx'
  rw [heq]
  refine
    { seen := fun x => ?seen
      fresh := fun x hx => ?fresh
      nodup := ?nodup
      inside := fun x hx => ?inside
      reached := fun x hx => ?reached
      root := (hmem root).mpr (Or.inr h.root)
      done := fun x hx y hy => ?done }
  case seen =>
    dsimp only
    rw [hmem, List.mem_append, h.seen]
    tauto
  case fresh =>
    rcases (hmem x).mp hx with hx | hx
    · exact (hunseen x hx).1
    · exact h.fresh x hx
  case nodup =>
    have hswap : (new ++ (s.component ++ [current])).Perm (s.component ++ [current] ++ new) :=
      List.perm_append_comm
    have hperm : (new ++ (s.component ++ [current] ++ rest)).Perm
        (s.component ++ [current] ++ (new ++ rest)) := by
      simpa only [List.append_assoc] using hswap.append_right rest
    refine hperm.nodup_iff.mp (hnodup.append (hsame ▸ h.nodup) ?_)
    intro x hx hold
    exact (hunseen x hx).2 (hsame ▸ hold)
  case inside =>
    rcases (hmem x).mp hx with hx | hx
    · exact hclosed current (h.inside current hcurrent) x (hnew x hx).1
    · exact h.inside x hx
  case reached =>
    rcases (hmem x).mp hx with hx | hx
    · exact (h.reached current hcurrent).tail (hnew x hx).1
    · exact h.reached x hx
  case done =>
    rcases List.mem_append.mp hx with hold | hlast
    · exact List.mem_append_right new (h.done x hold y hy)
    · rw [List.mem_singleton.mp hlast] at hy
      exact hall y hy

theorem explore_done {fuel : ℕ} (h : Exploring adj base root vertices s)
    (hclosed : ∀ u ∈ vertices, ∀ v ∈ adj u, v ∈ vertices)
    (hfuel : vertices.length ≤ fuel + s.component.length) :
    Exploring adj base root vertices (explore adj fuel s) ∧ (explore adj fuel s).stack = [] := by
  induction fuel generalizing s with
  | zero =>
    refine ⟨h, ?_⟩
    have hlength := (h.nodup.subperm h.inside).length_le
    rw [List.length_append] at hlength
    exact List.length_eq_zero_iff.mp (by rw [explore]; omega)
  | succ fuel ih =>
    rw [explore]
    cases hstack : s.stack with
    | nil => exact ⟨h, hstack⟩
    | cons current rest =>
      refine ih (h.step hstack hclosed) ?_
      obtain ⟨new, heq, -⟩ := foldl_visit (adj current)
        { s with stack := rest, component := s.component ++ [current] }
      rw [heq, List.length_append, List.length_singleton]
      omega

theorem explore_component (hsymm : ∀ u v, v ∈ adj u → u ∈ adj v)
    (hclosed : ∀ u ∈ vertices, ∀ v ∈ adj u, v ∈ vertices) (hroot : root ∈ vertices)
    (hfresh : root ∉ base) (hbase : ∀ x ∈ base, ∀ y ∈ adj x, y ∈ base) :
    let t := explore adj vertices.length { seen := root :: base, stack := [root], component := [] }
    (∀ x, x ∈ t.component ↔ Connected adj root x) ∧
      (∀ x, x ∈ t.seen ↔ x ∈ base ∨ x ∈ t.component) ∧ ∀ x ∈ t.component, x ∉ base := by
  intro t
  have hstart : Exploring adj base root vertices { seen := root :: base, stack := [root], component := [] } :=
    { seen := fun x => by simp [or_comm]
      fresh := fun x hx => by
        rw [List.mem_singleton.mp hx]
        exact hfresh
      nodup := List.nodup_singleton root
      inside := fun x hx => by
        rw [List.mem_singleton.mp hx]
        exact hroot
      reached := fun x hx => by
        rw [List.mem_singleton.mp hx]
        exact Relation.ReflTransGen.refl
      root := List.mem_singleton_self root
      done := fun x hx => absurd hx List.not_mem_nil }
  obtain ⟨hend, hstack⟩ := explore_done hstart hclosed (Nat.le_add_right _ _)
  have hall : t.component ++ t.stack = t.component := by rw [hstack, List.append_nil]
  have hseen : ∀ x, x ∈ t.seen ↔ x ∈ base ∨ x ∈ t.component := fun x => hall ▸ hend.seen x
  have hapart : ∀ x ∈ t.component, x ∉ base := fun x hx => hend.fresh x (hall.symm ▸ hx)
  refine ⟨fun x => ⟨fun hx => hend.reached x (hall.symm ▸ hx), fun hx => ?_⟩, hseen, hapart⟩
  induction hx with
  | refl => exact hall ▸ hend.root
  | @tail u v _ hadj ih =>
    -- a neighbour seen before would have the vertex among what was seen before, too
    refine ((hseen v).mp (hend.done u ih v hadj)).resolve_left fun hv => ?_
    exact hapart u ih (hbase v hv u (hsymm u v hadj))

/-! ## 4. All components -/

/-- What the outer loop keeps: the components so far are apart, each is all that is reached from one of
    its vertices, and together they are what was seen. -/
structure Split (adj : κ → List κ) (vertices : List κ) (s : List κ × List (List κ)) : Prop where
  rooted : ∀ c ∈ s.2, ∃ root ∈ vertices, ∀ x, x ∈ c ↔ Connected adj root x
  apart : s.2.Pairwise List.Disjoint
  seen : ∀ x, x ∈ s.1 ↔ ∃ c ∈ s.2, x ∈ c

variable {s : List κ × List (List κ)}

omit [DecidableEq κ] in
theorem Split.closed (h : Split adj vertices s) :
    ∀ x ∈ s.1, ∀ y ∈ adj x, y ∈ s.1 := by
  intro x hx y hy
  obtain ⟨c, hc, hxc⟩ := (h.seen x).mp hx
  obtain ⟨root, -, hroot⟩ := h.rooted c hc
  exact (h.seen y).mpr ⟨c, hc, (hroot y).mpr (((hroot x).mp hxc).tail hy)⟩

theorem Split.add {node : κ} (h : Split adj vertices s) (hsymm : ∀ u v, v ∈ adj u → u ∈ adj v)
    (hclosed : ∀ u ∈ vertices, ∀ v ∈ adj u, v ∈ vertices) (hnode : node ∈ vertices) :
    Split adj vertices (addComponent adj vertices.length s node) ∧
      node ∈ (addComponent adj vertices.length s node).1 ∧
      ∀ x ∈ s.1, x ∈ (addComponent adj vertices.length s node).1 := by
  unfold addComponent
  split
  case isTrue hseen => exact ⟨h, hseen, fun x hx => hx⟩
  case isFalse hfresh =>
    obtain ⟨hclass, hseen, hapart⟩ := explore_component hsymm hclosed hnode hfresh h.closed
    dsimp only
    refine ⟨?_, (hseen node).mpr (Or.inr ((hclass node).mpr Relation.ReflTransGen.refl)),
      fun x hx => (hseen x).mpr (Or.inl hx)⟩
    refine { rooted := fun c hc => ?rooted, apart := ?apart, seen := fun x => ?seen }
    case rooted =>
      rcases List.mem_append.mp hc with hold | hnew
      · exact h.rooted c hold
      · rw [List.mem_singleton.mp hnew]
        exact ⟨node, hnode, hclass⟩
    case apart =>
      refine List.pairwise_append.mpr ⟨h.apart, List.pairwise_singleton _ _, fun c hc d hd => ?_⟩
      rw [List.mem_singleton.mp hd]
      intro x hxc hxd
      exact hapart x hxd ((h.seen x).mpr ⟨c, hc, hxc⟩)
    case seen =>
      dsimp only
      rw [hseen, h.seen]
      constructor
      · intro hx
        rcases hx with hold | hnew
        · obtain ⟨c, hc, hxc⟩ := hold
          exact ⟨c, List.mem_append_left _ hc, hxc⟩
        · exact ⟨_, List.mem_append_right _ (List.mem_singleton_self _), hnew⟩
      · intro hx
        obtain ⟨c, hc, hxc⟩ := hx
        rcases List.mem_append.mp hc with hold | hnew
        · exact Or.inl ⟨c, hold, hxc⟩
        · rw [List.mem_singleton.mp hnew] at hxc
          exact Or.inr hxc

theorem Split.foldl {nodes : List κ} (h : Split adj vertices s) (hsymm : ∀ u v, v ∈ adj u → u ∈ adj v)
    (hclosed : ∀ u ∈ vertices, ∀ v ∈ adj u, v ∈ vertices) (hnodes : ∀ x ∈ nodes, x ∈ vertices) :
    Split adj vertices (nodes.foldl (addComponent adj vertices.length) s) ∧
      (∀ x ∈ s.1, x ∈ (nodes.foldl (addComponent adj vertices.length) s).1) ∧
      ∀ x ∈ nodes, x ∈ (nodes.foldl (addComponent adj vertices.length) s).1 := by
  induction nodes generalizing s with
  | nil => exact ⟨h, fun x hx => hx, fun x hx => absurd hx List.not_mem_nil⟩
  | cons node nodes ih =>
    obtain ⟨hsplit, hnode, hkept⟩ := h.add hsymm hclosed (hnodes node List.mem_cons_self)
    obtain ⟨hend, hseen, hall⟩ := ih hsplit fun x hx => hnodes x (List.mem_cons_of_mem node hx)
    refine ⟨hend, fun x hx => hseen x (hkept x hx), ?_⟩
    exact List.forall_mem_cons.mpr ⟨hseen node hnode, hall⟩

theorem components_spec (hsymm : ∀ u v, v ∈ adj u → u ∈ adj v)
    (hclosed : ∀ u ∈ vertices, ∀ v ∈ adj u, v ∈ vertices) :
    (∀ c ∈ components adj vertices, ∃ root ∈ vertices, ∀ x, x ∈ c ↔ Connected adj root x) ∧
      (components adj vertices).Pairwise List.Disjoint ∧
      ∀ x ∈ vertices, ∃ c ∈ components adj vertices, x ∈ c := by
  have hstart : Split adj vertices ([], []) :=
    { rooted := fun c hc => absurd hc List.not_mem_nil
      apart := List.Pairwise.nil
      seen := fun x => by simp }
  obtain ⟨hend, -, hall⟩ := hstart.foldl hsymm hclosed fun x hx => hx
  exact ⟨hend.rooted, hend.apart, fun x hx => (hend.seen x).mp (hall x hx)⟩

omit [DecidableEq κ] in
theorem Connected.symm (hsymm : ∀ u v, v ∈ adj u → u ∈ adj v) {u v : κ} (h : Connected adj u v) :
    Connected adj v u := by
  induction h with
  | refl => exact Relation.ReflTransGen.refl
  | @tail x y _ hadj ih => exact (Relation.ReflTransGen.single (hsymm x y hadj)).trans ih

end TraxJourney.Lib
