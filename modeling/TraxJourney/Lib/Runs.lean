/-
  File:      Lib/Runs.lean
  Subject:   Labelled transition systems: runs, invariants, and properties of every state along
             one run.

  * `Run R s0 tr s` -- the labels `tr`, taken one after another from `s0`, lead to `s`.
-/
import Mathlib.Data.List.Induction

namespace TraxJourney.Lib

variable {σ α : Type*}

/-! ## 1. Runs -/

/-- The labels `tr`, one after another, lead from `s0` to `s`. -/
inductive Run (R : σ → α → σ → Prop) (s0 : σ) : List α → σ → Prop where
  | start : Run R s0 [] s0
  | step {tr : List α} {s : σ} (a : α) {s' : σ} (h : Run R s0 tr s) (hs : R s a s') : Run R s0 (tr ++ [a]) s'

variable {R : σ → α → σ → Prop} {s0 s : σ} {tr : List α}

theorem Run.trace_invariant {I : List α → σ → Prop} (h0 : I [] s0)
    (hstep : ∀ tr s a s', Run R s0 tr s → I tr s → R s a s' → I (tr ++ [a]) s') (h : Run R s0 tr s) :
    I tr s := by
  induction h with
  | start => exact h0
  | step a hr hs ih => exact hstep _ _ a _ hr ih hs

theorem Run.invariant {I : σ → Prop} (h0 : I s0) (hstep : ∀ s a s', I s → R s a s' → I s')
    (h : Run R s0 tr s) : I s :=
  h.trace_invariant (I := fun _ s => I s) h0 fun _ s a s' _ hI hs => hstep s a s' hI hs

theorem Run.cons {R : σ → α → σ → Prop} {s0 s1 s : σ} {a : α} {tr : List α} (hs : R s0 a s1)
    (h : Run R s1 tr s) : Run R s0 (a :: tr) s := by
  induction h with
  | start => exact Run.start.step a hs
  | step b _ hb ih => exact .step b ih hb

theorem Run.mono {R' : σ → α → σ → Prop} (hR : ∀ s a s', R s a s' → R' s a s') (h : Run R s0 tr s) :
    Run R' s0 tr s := by
  induction h with
  | start => exact .start
  | step a _ hs ih => exact .step a ih (hR _ _ _ hs)

/-! ## 2. Runs whose steps all meet a condition -/

/-- A step of `R` taken where `C` admits it. -/
def Meeting (R : σ → α → σ → Prop) (C : σ → α → Prop) (s : σ) (a : α) (s' : σ) : Prop := R s a s' ∧ C s a

/-! ## 3. Transition functions -/

/-- The graph of a transition function; `none` is a step that cannot be taken. -/
def Steps (f : σ → α → Option σ) (s : σ) (a : α) (s' : σ) : Prop := f s a = some s'

/-- A transition function, iterated over a list of labels. -/
def exec (f : σ → α → Option σ) : σ → List α → Option σ
  | s, [] => some s
  | s, a :: tr => (f s a).bind fun s' => exec f s' tr

theorem exec_append (f : σ → α → Option σ) (s : σ) (tr tr' : List α) :
    exec f s (tr ++ tr') = (exec f s tr).bind fun s' => exec f s' tr' := by
  induction tr generalizing s with
  | nil => rfl
  | cons a tr ih =>
    simp only [List.cons_append, exec]
    cases f s a with
    | none => rfl
    | some s' => exact ih s'

variable {f : σ → α → Option σ}

theorem run_iff_exec :
    Run (Steps f) s0 tr s ↔ exec f s0 tr = some s := by
  constructor
  · intro h
    induction h with
    | start => rfl
    | step a _ hs ih =>
      rw [exec_append, ih, Option.bind_some]
      have hs' : f _ a = some _ := hs
      simp [exec, hs']
  · induction tr using List.reverseRecOn generalizing s with
    | nil =>
      intro h
      cases h
      exact .start
    | append_singleton tr a ih =>
      intro h
      rw [exec_append] at h
      obtain ⟨s', hs', h'⟩ := Option.bind_eq_some_iff.mp h
      refine .step a (ih hs') ?_
      simpa [exec, Steps] using h'

theorem run_foldl (f : σ → α → σ) (s0 : σ) (tr : List α) :
    Run (fun s a s' => s' = f s a) s0 tr (tr.foldl f s0) := by
  induction tr using List.reverseRecOn with
  | nil => exact .start
  | append_singleton tr a ih =>
    rw [List.foldl_append]
    exact .step a ih rfl

/-! ## 4. Every state along one run -/

/-- `P` holds in every state that the labels `tr` reach from `s`, `s` included. -/
def Always (f : σ → α → Option σ) (P : σ → Prop) : σ → List α → Prop
  | s, [] => P s
  | s, a :: tr => P s ∧ ∀ s', f s a = some s' → Always f P s' tr

/-- Every step that the run of `tr` from `s` takes meets `C`. -/
def AllMeet (f : σ → α → Option σ) (C : σ → α → Prop) : σ → List α → Prop
  | _, [] => True
  | s, a :: tr => ∀ s', f s a = some s' → C s a ∧ AllMeet f C s' tr

theorem AllMeet.cons {f : σ → α → Option σ} {C : σ → α → Prop} {s s' : σ} {a : α} {tr : List α}
    (h : f s a = some s') (hC : C s a) (htr : AllMeet f C s' tr) : AllMeet f C s (a :: tr) := by
  intro t ht
  obtain rfl : s' = t := Option.some.inj (h.symm.trans ht)
  exact ⟨hC, htr⟩

/-- Along a given run, a property of the states and a condition on the steps can be evaluated. -/
instance Always.decidable {f : σ → α → Option σ} {P : σ → Prop} [∀ s, Decidable (P s)] :
    ∀ s tr, Decidable (Always f P s tr)
  | s, [] => (inferInstance : Decidable (P s))
  | s, a :: tr =>
    match h : f s a with
    | none => decidable_of_iff (P s) ⟨fun hP => ⟨hP, fun _ h' => nomatch h.symm.trans h'⟩, And.left⟩
    | some t =>
      match (inferInstance : Decidable (P s)), decidable t tr with
      | isTrue hP, isTrue htr => isTrue ⟨hP, fun _ h' => Option.some.inj (h.symm.trans h') ▸ htr⟩
      | isFalse hP, _ => isFalse fun hall => hP hall.1
      | _, isFalse htr => isFalse fun hall => htr (hall.2 t h)

instance AllMeet.decidable {f : σ → α → Option σ} {C : σ → α → Prop}
    [∀ s a, Decidable (C s a)] : ∀ s tr, Decidable (AllMeet f C s tr)
  | _, [] => isTrue trivial
  | s, a :: tr =>
    match h : f s a with
    | none => isTrue fun _ h' => nomatch h.symm.trans h'
    | some t =>
      match (inferInstance : Decidable (C s a)), decidable t tr with
      | isTrue hC, isTrue htr => isTrue (.cons h hC htr)
      | isFalse hC, _ => isFalse fun hall => hC (hall t h).1
      | _, isFalse htr => isFalse fun hall => htr (hall t h).2

theorem run_of_allMeet {C : σ → α → Prop} {s' : σ} (hex : exec f s tr = some s') (hmeet : AllMeet f C s tr) :
    Run (Meeting (Steps f) C) s tr s' := by
  induction tr generalizing s with
  | nil =>
    obtain rfl : s = s' := Option.some.inj hex
    exact .start
  | cons a tr ih =>
    obtain ⟨t, ht, hex'⟩ := Option.bind_eq_some_iff.mp hex
    obtain ⟨hC, hmeet'⟩ := hmeet t ht
    exact .cons ⟨ht, hC⟩ (ih hex' hmeet')

theorem Always.head {f : σ → α → Option σ} {P : σ → Prop} {s : σ} {tr : List α}
    (h : Always f P s tr) : P s := by
  cases tr with
  | nil => exact h
  | cons a tr => exact h.1

theorem always_iff_prefix {P : σ → Prop} :
    Always f P s tr ↔ ∀ pre s', pre <+: tr → exec f s pre = some s' → P s' := by
  induction tr generalizing s with
  | nil =>
    constructor
    · intro h pre s' hpre hex
      obtain rfl := List.prefix_nil.mp hpre
      obtain rfl : s = s' := Option.some.inj hex
      exact h
    · intro h
      exact h [] s List.prefix_rfl rfl
  | cons a tr ih =>
    constructor
    · rintro ⟨h0, h⟩ pre s' hpre hex
      rcases List.prefix_cons_iff.mp hpre with rfl | ⟨pre', rfl, hpre'⟩
      · obtain rfl : s = s' := Option.some.inj hex
        exact h0
      · obtain ⟨t, ht, hex'⟩ := Option.bind_eq_some_iff.mp hex
        exact ih.mp (h t ht) pre' s' hpre' hex'
    · intro h
      refine ⟨h [] s (List.nil_prefix) rfl, fun t ht => ih.mpr fun pre s' hpre hex => ?_⟩
      refine h (a :: pre) s' ((List.prefix_cons_inj a).mpr hpre) ?_
      simp only [exec, ht, Option.bind_some, hex]

/-- **A property of every state is a condition on every step**: when, under the invariant `I`, a step leads
    to the property exactly if it meets `C`, the property holds all along a run exactly if every step of the
    run meets `C`. -/
theorem always_iff_allMeet {I P : σ → Prop} {C : σ → α → Prop} (hI : ∀ s a s', I s → f s a = some s' → I s')
    (hC : ∀ s a s', I s → P s → f s a = some s' → (P s' ↔ C s a)) (hs : I s) (hP : P s) :
    Always f P s tr ↔ AllMeet f C s tr := by
  induction tr generalizing s with
  | nil => exact ⟨fun _ => trivial, fun _ => hP⟩
  | cons a tr ih =>
    constructor
    · rintro ⟨_, h⟩ t ht
      have hPt : P t := (h t ht).head
      exact ⟨(hC s a t hs hP ht).mp hPt, (ih (hI s a t hs ht) hPt).mp (h t ht)⟩
    · intro h
      refine ⟨hP, fun t ht => ?_⟩
      obtain ⟨hc, h'⟩ := h t ht
      exact (ih (hI s a t hs ht) ((hC s a t hs hP ht).mpr hc)).mpr h'

/-! ## 5. Runs without end -/

theorem run_of_endless {b : ℕ → σ} {l : ℕ → α} (h : ∀ n, R (b n) (l n) (b (n + 1))) (n : ℕ) :
    ∃ tr, Run R (b 0) tr (b n) := by
  induction n with
  | zero => exact ⟨[], .start⟩
  | succ n ih =>
    obtain ⟨tr, hrun⟩ := ih
    exact ⟨tr ++ [l n], hrun.step (l n) (h n)⟩

theorem stands_still {f : ℕ → ℕ} {bound n₀ : ℕ} (hmono : ∀ n, n₀ ≤ n → f n ≤ f (n + 1))
    (hle : ∀ n, f n ≤ bound) : ∃ m, ∀ n, m ≤ n → f (n + 1) = f n := by
  by_contra hno
  have hgrow : ∀ k, ∃ m, n₀ ≤ m ∧ k ≤ f m := by
    intro k
    induction k with
    | zero => exact ⟨n₀, Nat.le_refl _, Nat.zero_le _⟩
    | succ k ih =>
      obtain ⟨m, hm, hk⟩ := ih
      obtain ⟨n, hmn, hne⟩ : ∃ n, m ≤ n ∧ f (n + 1) ≠ f n := by
        by_contra hall
        exact hno ⟨m, fun n hmn => by_contra fun hne => hall ⟨n, hmn, hne⟩⟩
      have hup : ∀ n, m ≤ n → f m ≤ f n := by
        intro n hmn
        induction hmn with
        | refl => exact Nat.le_refl _
        | step hmn ih => exact Nat.le_trans ih (hmono _ (Nat.le_trans hm hmn))
      refine ⟨n + 1, by omega, ?_⟩
      have h1 := hup n hmn
      have h2 := hmono n (by omega)
      omega
  obtain ⟨m, -, hm⟩ := hgrow (bound + 1)
  have := hle m
  omega

end TraxJourney.Lib
