/-
  File:      Lib/Programs.lean
  Subject:   Programs over the operations of a shared store, run by any number of clients at once.

  * **`Sound.run`** -- the store's invariant and what clients know hold all along every run of clients whose
    programs are safe.
-/
import TraxJourney.Lib.Clients

namespace TraxJourney.Lib

/-! ## 1. Programs -/

/-- A program over the operations `Op`, each with its type of answers. -/
inductive Prog (Op : Type) (Ans : Op → Type) (ε α : Type) where
  | ret (a : α)
  | fail (e : ε)
  | op (o : Op) (next : Ans o → Prog Op Ans ε α)

namespace Prog

variable {Op : Type} {Ans : Op → Type} {ε ε' α β : Type}

/-- One operation, and its answer. -/
def perform (o : Op) : Prog Op Ans ε (Ans o) := op o ret

protected def bind : Prog Op Ans ε α → (α → Prog Op Ans ε β) → Prog Op Ans ε β
  | ret a, f => f a
  | fail e, _ => fail e
  | op o next, f => op o fun a => (next a).bind f

/-- A failure of `p` is handled by `f`. -/
def catching : Prog Op Ans ε α → (ε → Prog Op Ans ε' α) → Prog Op Ans ε' α
  | ret a, _ => ret a
  | fail e, f => f e
  | op o next, f => op o fun a => (next a).catching f

instance : Monad (Prog Op Ans ε) where
  pure := ret
  bind := Prog.bind

end Prog

/-! ## 2. Following a program -/

/-- What a client may do and what it learns. -/
structure Rules (Op : Type) (Ans : Op → Type) (κ : Type*) where
  allows : κ → Op → Prop
  admits : κ → (o : Op) → Ans o → Prop
  learn : κ → (o : Op) → Ans o → κ

namespace Rules

variable {Op : Type} {Ans : Op → Type} {κ : Type*} {ε ε' α β : Type} {R : Rules Op Ans κ} {k : κ}
  {Q Q' : κ → α → Prop} {E E' : κ → ε → Prop}

/-- From `k` on, `p` performs only operations that are allowed; `Q` holds where it ends and `E`
    where it fails. -/
def wp (R : Rules Op Ans κ) (Q : κ → α → Prop) (E : κ → ε → Prop) : κ → Prog Op Ans ε α → Prop
  | k, .ret a => Q k a
  | k, .fail e => E k e
  | k, .op o next => R.allows k o ∧ ∀ a, R.admits k o a → R.wp Q E (R.learn k o a) (next a)

variable {p : Prog Op Ans ε α}

theorem wp_bind {f : α → Prog Op Ans ε β} {Q : κ → β → Prop} :
    R.wp Q E k (p >>= f) ↔ R.wp (fun k a => R.wp Q E k (f a)) E k p := by
  induction p generalizing k with
  | ret a => exact Iff.rfl
  | fail e => exact Iff.rfl
  | op o next ih => exact and_congr_right fun _ => forall₂_congr fun a _ => ih a

theorem wp_catching {f : ε → Prog Op Ans ε' α} {E : κ → ε' → Prop} :
    R.wp Q E k (p.catching f) ↔ R.wp Q (fun k e => R.wp Q E k (f e)) k p := by
  induction p generalizing k with
  | ret a => exact Iff.rfl
  | fail e => exact Iff.rfl
  | op o next ih => exact and_congr_right fun _ => forall₂_congr fun a _ => ih a

theorem wp_perform {o : Op} {f : Ans o → Prog Op Ans ε β} {Q : κ → β → Prop}
    (ho : R.allows k o) (hf : ∀ a, R.admits k o a → R.wp Q E (R.learn k o a) (f a)) :
    R.wp Q E k (.perform o >>= f) := ⟨ho, hf⟩

theorem wp_mono (hQ : ∀ k a, Q k a → Q' k a) (hE : ∀ k e, E k e → E' k e) (h : R.wp Q E k p) :
    R.wp Q' E' k p := by
  induction p generalizing k with
  | ret a => exact hQ k a h
  | fail e => exact hE k e h
  | op o next ih => exact ⟨h.1, fun a ha => ih a (h.2 a ha)⟩

/-- Every operation that the program performs is allowed. -/
def Safe (R : Rules Op Ans κ) (k : κ) (p : Prog Op Ans ε α) : Prop :=
  R.wp (fun _ _ => True) (fun _ _ => True) k p

theorem Safe.of_wp (h : R.wp Q E k p) : R.Safe k p :=
  wp_mono (fun _ _ _ => trivial) (fun _ _ _ => trivial) h

end Rules

/-! ## 3. Clients that run programs -/

section Worlds

variable {Op : Type} {Ans : Op → Type} {κ S A ι : Type*} {ε α : Type} {R : Rules Op Ans κ}
  {exe : (o : Op) → A → S → Option (Ans o × S)} {G : S → Prop} {I : κ → S → Prop}
  {Apart : κ → κ → Prop}

/-- One operation of a client's program; `exe` says what it does, and the label what it leaves
    open. -/
def turn (R : Rules Op Ans κ) (exe : (o : Op) → A → S → Option (Ans o × S)) :
    κ × Prog Op Ans ε α → A → S → Option ((κ × Prog Op Ans ε α) × S)
  | (k, .op o next), l, s => (exe o l s).map fun r => ((R.learn k o r.1, next r.1), r.2)
  | _, _, _ => none

theorem turn_cases {c c' : κ × Prog Op Ans ε α} {l : A} {s s' : S} (h : turn R exe c l s = some (c', s')) :
    ∃ o next a, c.2 = .op o next ∧ exe o l s = some (a, s') ∧ c' = (R.learn c.1 o a, next a) := by
  obtain ⟨k, p⟩ := c
  cases p with
  | ret a => cases h
  | fail e => cases h
  | op o next =>
    obtain ⟨⟨a, t⟩, hexe, he⟩ := Option.map_eq_some_iff.mp h
    cases he
    exact ⟨o, next, a, rfl, hexe, rfl⟩

/-- Each operation that is allowed keeps the invariant `G` of the store, what its client knows (`I`),
    and what any other client knows, as long as the two are apart, which they stay. -/
structure Sound (R : Rules Op Ans κ) (exe : (o : Op) → A → S → Option (Ans o × S)) (G : S → Prop)
    (I : κ → S → Prop) (Apart : κ → κ → Prop) : Prop where
  symm : ∀ k k', Apart k k' → Apart k' k
  own : ∀ k o l s a s', G s → I k s → R.allows k o → exe o l s = some (a, s') →
    G s' ∧ R.admits k o a ∧ I (R.learn k o a) s'
  other : ∀ k k' o l s a s', G s → I k s → I k' s → Apart k k' → R.allows k o →
    exe o l s = some (a, s') → I k' s' ∧ Apart (R.learn k o a) k'

/-- The store's invariant, and clients that know what is so and whose programs are safe. -/
structure Coherent (R : Rules Op Ans κ) (G : S → Prop) (I : κ → S → Prop) (Apart : κ → κ → Prop)
    (w : Clients ι (κ × Prog Op Ans ε α) S) : Prop where
  store : G w.store
  knows : ∀ i, I (w.locals i).1 w.store
  safe : ∀ i, R.Safe (w.locals i).1 (w.locals i).2
  apart : ∀ i j, i ≠ j → Apart (w.locals i).1 (w.locals j).1

variable [DecidableEq ι] {w w' : Clients ι (κ × Prog Op Ans ε α) S}

theorem Sound.step {l : ι × A} (hs : Sound R exe G I Apart) (hw : Coherent R G I Apart w)
    (h : Clients.step (turn R exe) w l = some w') : Coherent R G I Apart w' := by
  obtain ⟨i, l⟩ := l
  obtain ⟨c', s', hturn, rfl⟩ := Clients.step_cases h
  obtain ⟨o, next, a, hprog, hexe, rfl⟩ := turn_cases hturn
  have hsafe := hw.safe i
  rw [hprog] at hsafe
  obtain ⟨hallows, hnext⟩ := hsafe
  obtain ⟨hG, hadmits, hI⟩ := hs.own _ _ _ _ _ _ hw.store (hw.knows i) hallows hexe
  have hother : ∀ j, j ≠ i → I (w.locals j).1 s' ∧
      Apart (R.learn (w.locals i).1 o a) (w.locals j).1 := fun j hj =>
    hs.other _ _ _ _ _ _ _ hw.store (hw.knows i) (hw.knows j) (hw.apart i j hj.symm) hallows hexe
  refine ⟨hG, fun j => ?_, fun j => ?_, fun j m hne => ?_⟩
  · by_cases hj : j = i
    · subst hj
      simpa only [Function.update_self] using hI
    · simpa only [Function.update_of_ne hj] using (hother j hj).1
  · by_cases hj : j = i
    · subst hj
      simpa only [Function.update_self, Rules.Safe] using hnext a hadmits
    · simpa only [Function.update_of_ne hj] using hw.safe j
  · by_cases hj : j = i
    · subst hj
      simpa only [Function.update_self, Function.update_of_ne hne.symm] using (hother m hne.symm).2
    · by_cases hm : m = i
      · subst hm
        simpa only [Function.update_self, Function.update_of_ne hj] using hs.symm _ _ (hother j hj).2
      · simpa only [Function.update_of_ne hj, Function.update_of_ne hm] using hw.apart j m hne

theorem Sound.run {tr : List (ι × A)} (hs : Sound R exe G I Apart) (hw : Coherent R G I Apart w)
    (h : Run (Steps (Clients.step (turn R exe))) w tr w') : Coherent R G I Apart w' :=
  h.invariant (I := Coherent R G I Apart) hw fun _ _ _ hw hstep => hs.step hw hstep

end Worlds

end TraxJourney.Lib
