/-
  File:      Lib/ParentChains.lean
  Subject:   Chains of parents under a partial function `next`: which of them come to an end, which
             run into a loop, and what cutting the loops does.

  * **`Reaches.contract`** -- with a set of elements taken out and what follows them put in their
    place, chains still come to the root.
-/
import Mathlib.Data.Fintype.Pigeonhole
import Mathlib.Data.Set.Finite.List

namespace TraxJourney.Lib

variable {α β : Type*} {next next' : α → Option α} {x y z : α}

/-! ## 1. Chains -/

/-- `y` comes right after `x`. -/
def Link (next : α → Option α) (x y : α) : Prop := next x = some y

/-- Following `next` from `x` comes to `y`. -/
def Leads (next : α → Option α) : α → α → Prop := Relation.ReflTransGen (Link next)

/-- The chain from `x` comes back to `x`. -/
def OnLoop (next : α → Option α) (x : α) : Prop := Relation.TransGen (Link next) x x

/-- The chain from `x` stops. -/
inductive Ends (next : α → Option α) : α → Prop where
  | stop {x : α} : next x = none → Ends next x
  | step {x y : α} : next x = some y → Ends next y → Ends next x

theorem Ends.tail (h : Ends next x) (hxy : next x = some y) : Ends next y := by
  cases h with
  | stop hstop =>
    rw [hstop] at hxy
    cases hxy
  | step hstep hrest =>
    have heq := hstep.symm.trans hxy
    cases heq
    exact hrest

theorem Ends.not_onLoop (h : Ends next x) : ¬ OnLoop next x := by
  induction h with
  | stop hstop =>
    intro hloop
    obtain ⟨y, hxy, -⟩ := Relation.TransGen.head'_iff.mp hloop
    have heq : none = some y := hstop.symm.trans hxy
    cases heq
  | step hstep _ ih =>
    -- a loop through `x` is one through the element after it
    intro hloop
    obtain ⟨z, hxz, hzx⟩ := Relation.TransGen.head'_iff.mp hloop
    have heq := hstep.symm.trans hxz
    cases heq
    exact ih (Relation.TransGen.tail' hzx hstep)

theorem OnLoop.leads_back (h : OnLoop next x) (hxy : Leads next x y) : Leads next y x := by
  induction hxy with
  | refl => exact .refl
  | @tail y z _ hyz ih =>
    have hback : Relation.TransGen (Link next) y x := by
      rcases Relation.reflTransGen_iff_eq_or_transGen.mp ih with rfl | hback
      · exact h
      · exact hback
    obtain ⟨w, hyw, hwx⟩ := Relation.TransGen.head'_iff.mp hback
    have heq := hyz.symm.trans hyw
    cases heq
    exact hwx

theorem Leads.mem_of_closed {s : α → Prop} (hclosed : ∀ u v, s u → next u = some v → s v)
    (h : Leads next x y) (hx : s x) : s y := by
  induction h with
  | refl => exact hx
  | tail _ huv ih => exact hclosed _ _ ih huv

/-! ## 2. Finitely many elements -/

theorem exists_sequence (h : ¬ Ends next x) : ∃ f : ℕ → α, f 0 = x ∧ ∀ n, next (f n) = some (f (n + 1)) := by
  classical
  have hsucc : ∀ u : {u // ¬ Ends next u}, ∃ v : {v // ¬ Ends next v}, next u.val = some v.val := by
    intro ⟨u, hu⟩
    cases huv : next u with
    | none => exact absurd (.stop huv) hu
    | some v => exact ⟨⟨v, fun hv => hu (.step huv hv)⟩, rfl⟩
  choose g hg using hsucc
  refine ⟨fun n => (g^[n] ⟨x, h⟩).val, rfl, fun n => ?_⟩
  have hsucc' : g^[n + 1] ⟨x, h⟩ = g (g^[n] ⟨x, h⟩) := Function.iterate_succ_apply' g n ⟨x, h⟩
  simp only [hsucc']
  exact hg _

theorem leads_of_sequence {f : ℕ → α} (h : ∀ n, next (f n) = some (f (n + 1))) (m k : ℕ) :
    Leads next (f m) (f (m + k)) := by
  induction k with
  | zero => exact .refl
  | succ k ih => exact .tail ih (h (m + k))

theorem ends_or_loops {dom : List α} (hdom : ∀ u v, next u = some v → u ∈ dom) (x : α) :
    Ends next x ∨ ∃ y, Leads next x y ∧ OnLoop next y := by
  refine Classical.byContradiction fun hno => ?_
  obtain ⟨hends, hloops⟩ := not_or.mp hno
  obtain ⟨f, hf0, hf⟩ := exists_sequence hends
  -- two places of the sequence hold one element
  have hrepeat : ∃ m k, f m = f (m + k + 1) := by
    have hrange : ∀ n, f n ∈ dom := fun n => hdom _ _ (hf n)
    have hfinite : Finite {u // u ∈ dom} := List.finite_toSet dom
    obtain ⟨m, n, hne, heq⟩ := Finite.exists_ne_map_eq_of_infinite fun n => (⟨f n, hrange n⟩ : {u // u ∈ dom})
    have heq' : f m = f n := congrArg Subtype.val heq
    rcases Nat.lt_or_gt_of_ne hne with hlt | hlt
    · exact ⟨m, n - m - 1, by rw [heq']; congr 1; omega⟩
    · exact ⟨n, m - n - 1, by rw [← heq']; congr 1; omega⟩
  obtain ⟨m, k, heq⟩ := hrepeat
  refine hloops ⟨f m, ?_, ?_⟩
  · have hlead := leads_of_sequence hf 0 m
    rwa [hf0, Nat.zero_add] at hlead
  · have hlead := Relation.TransGen.tail' (leads_of_sequence hf m k) (hf (m + k))
    rwa [← heq] at hlead

/-- `next` without the links of the elements on a loop. -/
noncomputable def cut (next : α → Option α) (x : α) : Option α :=
  open Classical in if OnLoop next x then none else next x

theorem cut_of_onLoop (h : OnLoop next x) : cut next x = none := if_pos h

theorem cut_of_not_onLoop (h : ¬ OnLoop next x) : cut next x = next x := if_neg h

theorem cut_eq_some : cut next x = some y ↔ next x = some y ∧ ¬ OnLoop next x := by
  by_cases hx : OnLoop next x
  · simp [cut_of_onLoop hx, hx]
  · simp [cut_of_not_onLoop hx, hx]

theorem cut_ends {dom : List α} (hdom : ∀ u v, next u = some v → u ∈ dom) (x : α) : Ends (cut next) x := by
  have hcut : ∀ u v, Link (cut next) u v → Link next u v := fun u v h => (cut_eq_some.mp h).1
  rcases ends_or_loops (fun u v h => hdom u v (hcut u v h)) x with hends | ⟨y, -, hloop⟩
  · exact hends
  · -- a loop that is left is one of `next`, and its first link was cut
    exfalso
    have hloop' : OnLoop next y := Relation.TransGen.mono hcut _ _ hloop
    obtain ⟨z, hyz, -⟩ := Relation.TransGen.head'_iff.mp hloop
    exact (cut_eq_some.mp hyz).2 hloop'

/-! ## 3. Chains that come to a root -/

/-- The chain from `x` goes through members and comes to `root`. -/
inductive Reaches (member : α → Prop) (next : α → Option α) (root : α) : α → Prop where
  | root : Reaches member next root root
  | step {x y : α} : member x → next x = some y → Reaches member next root y → Reaches member next root x

section Reaches

variable {member member' : α → Prop} {root : α}

theorem Reaches.ends (hroot : next root = none) (h : Reaches member next root x) : Ends next x := by
  induction h with
  | root => exact .stop hroot
  | step _ hxy _ ih => exact .step hxy ih

theorem Reaches.congr (hmember : ∀ u, member u → member' u)
    (hnext : ∀ u v, member u → next u = some v → next' u = some v)
    (h : Reaches member next root x) : Reaches member' next' root x := by
  induction h with
  | root => exact .root
  | step hx hxy _ ih => exact .step (hmember _ hx) (hnext _ _ hx hxy) ih

theorem Reaches.image {name : α → Option β} {member' : β → Prop} {next' : β → Option β} {b root' : β}
    (hroot : name root = some root')
    (hstep : ∀ u v a, member u → next u = some v → name u = some a →
      ∃ b, name v = some b ∧ member' a ∧ next' a = some b)
    (h : Reaches member next root x) (hx : name x = some b) :
    Reaches member' next' root' b := by
  induction h generalizing b with
  | root =>
    have heq := hroot.symm.trans hx
    cases heq
    exact .root
  | step hmem hxy _ ih =>
    obtain ⟨c, hc, hb, hbc⟩ := hstep _ _ _ hmem hxy hx
    exact .step hb hbc (ih hc)

end Reaches

/-! ## 4. Taking elements out -/

/-- The first element outside `inside` on the chain that starts at `x`, or where the chain stops;
    `none` when the steps are spent. -/
def climb (inside : α → Bool) (next : α → Option α) : ℕ → Option α → Option (Option α)
  | 0, _ => none
  | _ + 1, none => some none
  | steps + 1, some x => if inside x then climb inside next steps (next x) else some (some x)

section Climb

variable {inside : α → Bool} {member : α → Prop} {root : α}

theorem climb_isSome {steps : ℕ} {dom : List α} (hsteps : dom.length ≤ steps)
    (hdom : ∀ y, Leads next x y → inside y → y ∈ dom) (h : Ends next x) :
    (climb inside next (steps + 2) (some x)).isSome := by
  classical
  induction steps generalizing x dom with
  | zero =>
    have hempty : dom = [] := List.eq_nil_of_length_eq_zero (by omega)
    have hout : inside x = false := by
      refine Bool.eq_false_iff.mpr fun hx => ?_
      have hmem := hdom x .refl hx
      rw [hempty] at hmem
      exact List.not_mem_nil hmem
    simp [climb, hout]
  | succ steps ih =>
    rw [climb]
    split
    case isFalse => rfl
    case isTrue hx =>
      cases hxy : next x with
      | none => rfl
      | some y =>
        have hmem := hdom x .refl hx
        have hlength : (dom.erase x).length ≤ steps := by
          rw [List.length_erase_of_mem hmem]
          omega
        refine ih hlength (fun z hyz hz => ?_) (h.tail hxy)
        have hne : z ≠ x := by
          rintro rfl
          exact h.not_onLoop (Relation.TransGen.head' hxy hyz)
        exact (List.mem_erase_of_ne hne).mpr (hdom z (.head hxy hyz) hz)

theorem Reaches.contract {member' : α → Prop} (hroot : inside root = false)
    (hmember : ∀ u, member u → inside u = false → member' u)
    (hnext : ∀ u v, member u → inside u = false → next u = some v →
      ∃ steps z, climb inside next steps (some v) = some z ∧ next' u = z)
    (h : Reaches member next root x) {steps : ℕ} {o : Option α}
    (hclimb : climb inside next steps (some x) = some o) :
    ∃ z, o = some z ∧ Reaches member' next' root z := by
  induction h generalizing steps o with
  | root =>
    cases steps with
    | zero => cases hclimb
    | succ steps =>
      rw [climb, if_neg (by simp [hroot])] at hclimb
      exact ⟨root, (Option.some.inj hclimb).symm, .root⟩
  | @step x y hx hxy _ ih =>
    cases steps with
    | zero => cases hclimb
    | succ steps =>
      rw [climb] at hclimb
      split at hclimb
      case isTrue =>
        rw [hxy] at hclimb
        exact ih hclimb
      case isFalse hout =>
        have hout' : inside x = false := by simpa using hout
        obtain ⟨steps', z, hfound, hnext'⟩ := hnext x y hx hout' hxy
        obtain ⟨z', rfl, hreaches⟩ := ih hfound
        exact ⟨x, (Option.some.inj hclimb).symm, .step (hmember x hx hout') hnext' hreaches⟩

end Climb

end TraxJourney.Lib
