/-
  File:      Lib/Traced.lean
  Subject:   Computations that leave a trace: what they do on their way, and how they end.

  * `loop` -- a body for each item in turn; **`loop_ok`** -- the rule of a loop: an invariant of the items
    done, of the events so far and of the state; `loop_each` -- a body whose events do not depend on the
    state.
-/
import Mathlib.Data.List.Induction
import Mathlib.Data.List.Nodup

namespace TraxJourney.Lib

/-! ## 1. Computations -/

/-- What happens, and what comes of it. -/
structure Traced (E ε α : Type*) where
  events : List E
  result : Except ε α

namespace Traced

variable {E ε α β σ ι : Type*}

def done (a : α) : Traced E ε α := ⟨[], .ok a⟩

def fail (e : ε) : Traced E ε α := ⟨[], .error e⟩

/-- `f` with the result, after what happened before. -/
def andThen (t : Traced E ε α) (f : α → Traced E ε β) : Traced E ε β :=
  match t.result with
  | .error e => ⟨t.events, .error e⟩
  | .ok a => ⟨t.events ++ (f a).events, (f a).result⟩

@[simp] theorem andThen_ok (events : List E) (a : α) (f : α → Traced E ε β) :
    andThen ⟨events, .ok a⟩ f = ⟨events ++ (f a).events, (f a).result⟩ := rfl

theorem andThen_error {t : Traced E ε α} {events : List E} {e : ε} (h : t = ⟨events, .error e⟩)
    (f : α → Traced E ε β) : t.andThen f = ⟨events, .error e⟩ := by
  rw [h]
  rfl

/-! ## 2. Loops -/

/-- The body for each item, with the state that the one before left. -/
def loop (body : σ → ι → Traced E ε σ) : σ → List ι → Traced E ε σ
  | s, [] => done s
  | s, i :: rest => (body s i).andThen fun s' => loop body s' rest

variable {body : σ → ι → Traced E ε σ}

theorem loop_ok_from {items : List ι} {Inv : List ι → List E → σ → Prop}
    (hstep : ∀ (before : List ι) (i : ι) (after : List ι) (events : List E) (s : σ),
      items = before ++ i :: after → Inv before events s →
        ∃ more s', body s i = ⟨more, .ok s'⟩ ∧ Inv (before ++ [i]) (events ++ more) s')
    {before : List ι} {events : List E} {s : σ} (hinv : Inv before events s) (rest : List ι)
    (hitems : items = before ++ rest) :
    ∃ more s', loop body s rest = ⟨more, .ok s'⟩ ∧ Inv items (events ++ more) s' := by
  induction rest generalizing before events s with
  | nil =>
    rw [List.append_nil] at hitems
    exact ⟨[], s, rfl, by rwa [hitems, List.append_nil]⟩
  | cons i rest ih =>
    obtain ⟨first, s', hbody, hinv'⟩ := hstep before i rest events s hitems hinv
    obtain ⟨more, s'', hloop, hend⟩ := ih hinv' (by rw [hitems, List.append_assoc]; rfl)
    refine ⟨first ++ more, s'', ?_, by rwa [← List.append_assoc]⟩
    rw [loop, hbody, andThen_ok, hloop]

theorem loop_ok (body : σ → ι → Traced E ε σ) (items : List ι) (Inv : List ι → List E → σ → Prop) {s : σ}
    (hinv : Inv [] [] s)
    (hstep : ∀ (before : List ι) (i : ι) (after : List ι) (events : List E) (s : σ),
      items = before ++ i :: after → Inv before events s →
        ∃ more s', body s i = ⟨more, .ok s'⟩ ∧ Inv (before ++ [i]) (events ++ more) s') :
    ∃ events s', loop body s items = ⟨events, .ok s'⟩ ∧ Inv items events s' :=
  loop_ok_from hstep hinv items rfl

theorem loop_each {items : List ι} {each : ι → List E}
    (hbody : ∀ i ∈ items, ∀ s, ∃ s', body s i = ⟨each i, .ok s'⟩) (s : σ) :
    ∃ s', loop body s items = ⟨items.flatMap each, .ok s'⟩ := by
  obtain ⟨events, s', hloop, rfl⟩ := loop_ok body items
    (fun before events (_ : σ) => events = before.flatMap each) (s := s) rfl
    fun before i after events s hitems hevents => by
      obtain ⟨s', hs'⟩ := hbody i (hitems ▸ List.mem_append_right _ List.mem_cons_self) s
      refine ⟨each i, s', hs', ?_⟩
      rw [hevents, List.flatMap_append, List.flatMap_singleton]
  exact ⟨s', hloop⟩

end Traced

/-! ## 3. First uses -/

section Uses

variable {ι : Type*} [DecidableEq ι]

theorem eraseDups_snoc (uses : List ι) (i : ι) :
    (uses ++ [i]).eraseDups = uses.eraseDups ++ if i ∈ uses then [] else [i] := by
  rw [List.eraseDups_append]
  congr 1
  by_cases hi : i ∈ uses <;> simp [List.removeAll, hi, List.eraseDups_cons]

theorem eraseDups_again {uses more : List ι} (h : ∀ i ∈ more, i ∈ uses) :
    (uses ++ more).eraseDups = uses.eraseDups := by
  have hnone : more.removeAll uses = [] := List.filter_eq_nil_iff.mpr fun i hi => by simpa using h i hi
  rw [List.eraseDups_append, hnone, List.eraseDups_nil, List.append_nil]

theorem eraseDups_nodup (uses : List ι) : uses.eraseDups.Nodup := by
  induction uses using List.reverseRecOn with
  | nil => exact List.nodup_nil
  | append_singleton uses i ih =>
    rw [eraseDups_snoc]
    split
    case isTrue => rwa [List.append_nil]
    case isFalse hnew =>
      refine List.nodup_append.mpr ⟨ih, List.nodup_singleton i, fun a ha b hb hab => hnew ?_⟩
      rw [List.mem_eraseDups] at ha
      rwa [← List.mem_singleton.mp hb, ← hab]

end Uses

end TraxJourney.Lib
