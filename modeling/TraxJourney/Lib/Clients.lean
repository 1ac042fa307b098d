/-
  File:      Lib/Clients.lean
  Subject:   Any number of clients over one store, interleaved.

  * **`Kept.run`** -- an invariant that each step keeps holds all along every run whose steps meet `C`;
    `Kept.run_steps` is the case without a condition.
-/
import TraxJourney.Lib.Runs

namespace TraxJourney.Lib

variable {ι L S A : Type*} [DecidableEq ι]

structure Clients (ι L S : Type*) where
  locals : ι → L
  store : S

/-- One step of one client's program `f`. -/
def Clients.step (f : L → A → S → Option (L × S)) (w : Clients ι L S) (l : ι × A) : Option (Clients ι L S) :=
  (f (w.locals l.1) l.2 w.store).map fun r => ⟨Function.update w.locals l.1 r.1, r.2⟩

theorem Clients.step_cases {f : L → A → S → Option (L × S)} {w w' : Clients ι L S} {i : ι} {a : A}
    (h : Clients.step f w (i, a) = some w') :
    ∃ l' s', f (w.locals i) a w.store = some (l', s') ∧ w' = ⟨Function.update w.locals i l', s'⟩ := by
  obtain ⟨⟨l', s'⟩, hf, he⟩ := Option.map_eq_some_iff.mp h
  exact ⟨l', s', hf, he.symm⟩

/-- The invariant `G` of the store and `A` of each client is kept by the steps that meet `C`. -/
structure Kept (f : L → A → S → Option (L × S)) (C : Clients ι L S → ι × A → Prop) (G : S → Prop)
    (I : L → S → Prop) : Prop where
  own : ∀ (w : Clients ι L S) i a l' s', G w.store → (∀ j, I (w.locals j) w.store) →
    C w (i, a) → f (w.locals i) a w.store = some (l', s') → G s' ∧ I l' s'
  other : ∀ (w : Clients ι L S) i a l' s' j, j ≠ i → G w.store →
    (∀ k, I (w.locals k) w.store) → C w (i, a) → f (w.locals i) a w.store = some (l', s') →
    I (w.locals j) s'

variable {f : L → A → S → Option (L × S)} {C : Clients ι L S → ι × A → Prop} {G : S → Prop}
  {I : L → S → Prop} {w w' : Clients ι L S}

theorem Kept.step {l : ι × A} (hk : Kept f C G I) (hG : G w.store)
    (hI : ∀ j, I (w.locals j) w.store) (hC : C w l) (h : Clients.step f w l = some w') :
    G w'.store ∧ ∀ j, I (w'.locals j) w'.store := by
  obtain ⟨i, a⟩ := l
  obtain ⟨l', s', hf, rfl⟩ := Clients.step_cases h
  obtain ⟨hG', hI'⟩ := hk.own w i a l' s' hG hI hC hf
  refine ⟨hG', fun j => ?_⟩
  by_cases hj : j = i
  · subst hj
    simpa only [Function.update_self] using hI'
  · simpa only [Function.update_of_ne hj] using hk.other w i a l' s' j hj hG hI hC hf

theorem Kept.run {tr : List (ι × A)} (hk : Kept f C G I) (hG : G w.store)
    (hI : ∀ j, I (w.locals j) w.store) (h : Run (Meeting (Steps (Clients.step f)) C) w tr w') :
    G w'.store ∧ ∀ j, I (w'.locals j) w'.store :=
  h.invariant (I := fun w => G w.store ∧ ∀ j, I (w.locals j) w.store) ⟨hG, hI⟩
    fun _ _ _ hw hs => hk.step hw.1 hw.2 hs.2 hs.1

theorem Kept.run_steps {tr : List (ι × A)} (hk : Kept f (fun (_ : Clients ι L S) _ => True) G I)
    (hG : G w.store) (hI : ∀ j, I (w.locals j) w.store)
    (h : Run (Steps (Clients.step f)) w tr w') :
    G w'.store ∧ ∀ j, I (w'.locals j) w'.store :=
  hk.run hG hI (h.mono fun _ _ _ hs => ⟨hs, trivial⟩)

end TraxJourney.Lib
