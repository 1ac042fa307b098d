/-
  File:      Crypto/ContentKey.lean
  Subject:   The content key and its session: over every interleaving of `lock`, `enable`,
             `unlock`, `prepareForSession` and recovery calls.

  * **`keyWithinSession_iff`** -- it is so all along a run exactly if no call is denied the key while
    another call has put one there.
-/
import TraxJourney.Crypto.EncryptionService

namespace TraxJourney.Crypto

open Lib

variable {κ π : Type}

/-! ## 1. What one turn does to the service -/

/-- The generations a suspended call holds: its own, and that of the `prepareForSession` that
    awaits it. -/
def Awaiting.captured : Awaiting κ π → List ℕ
  | .enable g _ | .recover g _ | .prepareForSession g _ | .unlock .app g _ => [g]
  | .unlock (.prepareForSession g') g _ => [g, g']
  | .trust _ _ => []

/-- The answer denies the call the key: a status that says off or not approved, a key that does not unwrap,
    or any status at all to `prepareForSession`, which asks only after `unlock` came back without the key.
    -/
def Awaiting.denies (lockGeneration : ℕ) : Awaiting κ π → Answer κ π → Bool
  | .unlock _ g (.fetchStatus _ _), .status st =>
    g == lockGeneration && (!st.enabled || !st.deviceApproved || st.wrappedCmkB64.isNone)
  | .unlock _ g (.unwrap _ _ _), .threw => g == lockGeneration
  | .prepareForSession g (.fetchStatus _), .status _ => g == lockGeneration
  | _, _ => false

/-- The effect on the service of a turn of call `me`, which holds the generations `gs`; the last
    argument says whether the turn denied it the key. -/
inductive Effect (me : ℕ) (gs : List ℕ) (s s' : EncryptionService κ) : Bool → Prop where
  | kept (h : s' = s) : Effect me gs s s' false
  | held (cmk : κ) (hg : s.lockGeneration ∈ gs) (hc : s'.cmk = some cmk)
      (hf : s'.keyFrom = some me) (hs : s'.state = .unlocked)
      (hl : s'.lockGeneration = s.lockGeneration) : Effect me gs s s' false
  | denied (hc : s'.cmk = s.cmk) (hf : s'.keyFrom = s.keyFrom) (hs : s'.state ≠ .unlocked)
      (hl : s'.lockGeneration = s.lockGeneration) : Effect me gs s s' true

variable {me : ℕ} {gs : List ℕ} {s s' : EncryptionService κ}

theorem Effect.mono {gs' : List ℕ} {b : Bool} (h : Effect me gs s s' b) (hgs : gs ⊆ gs') :
    Effect me gs' s s' b := by
  cases h with
  | kept h => exact .kept h
  | held cmk hg hc hf hs hl => exact .held cmk (hgs hg) hc hf hs hl
  | denied hc hf hs hl => exact .denied hc hf hs hl

theorem effect_setState {v : EncryptionState} (hv : v ≠ .unlocked) : Effect me gs s (s.setState v) true :=
  .denied rfl rfl hv rfl

variable {g : ℕ}

theorem effect_hold (cmk : κ) (hg : g = s.lockGeneration) : Effect me [g] s (s.hold me cmk) false :=
  .held cmk (by rw [hg]; exact List.mem_singleton_self _) rfl rfl rfl rfl

theorem effect_of_eq {α : Type} {f f' : α} (h : some (s, f) = some (s', f')) : Effect me gs s s' false :=
  .kept (Prod.mk.inj (Option.some.inj h)).1.symm

variable {ans : Answer κ π}

theorem EnableAwait.resume_effect {a : EnableAwait κ π} {f : Flow (EnableAwait κ π)}
    (h : a.resume me g s ans = some (s', f)) :
    Effect me [g] s s' false := by
  cases a with
  | request secret cmk method pub dw rw =>
    cases ans with
    | stored w =>
      obtain ⟨rfl, -⟩ := Prod.mk.inj (Option.some.inj h)
      by_cases hg : g = s.lockGeneration
      · rw [if_pos hg]
        exact effect_hold cmk hg
      · rw [if_neg hg]
        exact .kept rfl
    | threw => exact effect_of_eq h
    | _ => cases h
  | load ch d cmk =>
    cases ans with
    | keyPair kp => cases kp <;> exact effect_of_eq h
    | threw => exact effect_of_eq h
    | _ => cases h
  | wrapRecovery ch d cmk kp pub dw =>
    cases ans with
    | wrapped rw =>
      simp only [EnableAwait.resume] at h
      split at h <;> exact effect_of_eq h
    | threw => exact effect_of_eq h
    | _ => cases h
  | save ch d cmk pub dw rw =>
    cases ans with
    | done =>
      simp only [EnableAwait.resume] at h
      split at h <;> exact effect_of_eq h
    | threw => exact effect_of_eq h
    | _ => cases h
  | _ => cases ans <;> first | exact effect_of_eq h | cases h

theorem UnlockAwait.resume_effect {base64 : String → Bool} {c : UnlockCaller} {a : UnlockAwait π}
    {f : Flow (UnlockAwait π)} (h : a.resume base64 me g s ans = some (s', f)) :
    Effect me [g] s s' ((Awaiting.unlock c g a).denies s.lockGeneration ans) := by
  cases a with
  | load =>
    cases ans with
    | keyPair kp => cases kp <;> exact effect_of_eq h
    | threw => exact effect_of_eq h
    | _ => cases h
  | extractPublicKey kp => cases ans <;> first | exact effect_of_eq h | cases h
  | fetchStatus kp pub =>
    cases ans with
    | status st =>
      simp only [UnlockAwait.resume] at h
      simp only [Awaiting.denies]
      by_cases hg : g = s.lockGeneration
      · rw [if_neg (not_not.mpr hg)] at h
        cases hen : st.enabled with
        | false =>
          obtain ⟨rfl, -⟩ := Prod.mk.inj (Option.some.inj (by simpa [hen] using h))
          simpa [hg] using effect_setState (by decide)
        | true =>
          cases hap : st.deviceApproved with
          | false =>
            obtain ⟨rfl, -⟩ := Prod.mk.inj (Option.some.inj (by simpa [hen, hap] using h))
            simpa [hg] using effect_setState (by decide)
          | true =>
            cases hw : st.wrappedCmkB64 with
            | none =>
              obtain ⟨rfl, -⟩ := Prod.mk.inj (Option.some.inj (by simpa [hen, hap, hw] using h))
              simpa [hg] using effect_setState (by decide)
            | some w =>
              -- enabled, approved and wrapped: on to the unwrap, or a decoding error
              simp only [hen, hap, hw, Bool.true_eq_false, if_false] at h
              have hk : Effect me [g] s s' false := by split at h <;> exact effect_of_eq h
              simpa [hen, hap, hw] using hk
      · rw [if_pos hg] at h
        rw [beq_eq_false_iff_ne.mpr hg]
        exact effect_of_eq h
    | threw => exact effect_of_eq h
    | _ => cases h
  | unwrap kp st w =>
    cases ans with
    | key cmk =>
      simp only [UnlockAwait.resume] at h
      by_cases hg : g = s.lockGeneration
      · rw [if_neg (not_not.mpr hg)] at h
        obtain ⟨rfl, -⟩ := Prod.mk.inj (Option.some.inj h)
        exact .held cmk (by rw [hg]; exact List.mem_singleton_self _) rfl rfl rfl rfl
      · rw [if_pos hg] at h
        exact effect_of_eq h
    | threw =>
      obtain ⟨rfl, -⟩ := Prod.mk.inj (Option.some.inj h)
      simp only [Awaiting.denies]
      by_cases hg : g = s.lockGeneration
      · rw [if_pos hg, beq_iff_eq.mpr hg]
        exact effect_setState (by decide)
      · rw [if_neg hg, beq_eq_false_iff_ne.mpr hg]
        exact .kept rfl
    | _ => cases h

theorem PrepareAwait.resume_effect {a : PrepareAwait π} {f : Flow (Option (PrepareAwait π))}
    (h : a.resume g s ans = some (s', f)) :
    Effect me [g] s s' ((Awaiting.prepareForSession g a).denies s.lockGeneration ans) := by
  cases a with
  | unlockEnded o =>
    cases ans with
    | done =>
      cases o with
      | returned r => cases r <;> exact effect_of_eq h
      | _ => exact effect_of_eq h
    | _ => cases o with
      | returned r => cases r <;> cases h
      | _ => cases h
  | load =>
    cases ans with
    | keyPair kp => cases kp <;> exact effect_of_eq h
    | threw => exact effect_of_eq h
    | _ => cases h
  | extractPublicKey kp => cases ans <;> first | exact effect_of_eq h | cases h
  | fetchStatus pub =>
    cases ans with
    | status st =>
      simp only [PrepareAwait.resume] at h
      simp only [Awaiting.denies]
      by_cases hg : g = s.lockGeneration
      · rw [if_neg (not_not.mpr hg)] at h
        rw [beq_iff_eq.mpr hg]
        split at h
        · obtain ⟨rfl, -⟩ := Prod.mk.inj (Option.some.inj h)
          exact effect_setState (by decide)
        · split at h
          all_goals
            obtain ⟨rfl, -⟩ := Prod.mk.inj (Option.some.inj h)
            exact effect_setState (by decide)
      · rw [if_pos hg] at h
        rw [beq_eq_false_iff_ne.mpr hg]
        exact effect_of_eq h
    | threw => exact effect_of_eq h
    | _ => cases h

theorem RecoverAwait.resume_effect {base64 argonParams : String → Bool} {a : RecoverAwait}
    {f : Flow (Option RecoverAwait)} (h : a.resume base64 argonParams me g s ans = some (s', f)) :
    Effect me [g] s s' false := by
  cases a with
  | fetchRecoveryWrap m =>
    cases ans with
    | recoveryWrap w =>
      cases w with
      | none => exact effect_of_eq h
      | some w =>
        simp only [RecoverAwait.resume] at h
        split at h <;> exact effect_of_eq h
    | threw => exact effect_of_eq h
    | _ => cases h
  | unwrap w =>
    cases ans with
    | key cmk =>
      simp only [RecoverAwait.resume] at h
      by_cases hg : g = s.lockGeneration
      · rw [if_neg (not_not.mpr hg)] at h
        obtain ⟨rfl, -⟩ := Prod.mk.inj (Option.some.inj h)
        exact effect_hold cmk hg
      · rw [if_pos hg] at h
        exact effect_of_eq h
    | threw => exact effect_of_eq h
    | _ => cases h

variable {d : Decoders}

theorem Awaiting.resume_effect {a : Awaiting κ π} {c : Call κ π} (h : a.resume d me s ans = some (s', c)) :
    Effect me a.captured s s' (a.denies s.lockGeneration ans) := by
  cases a with
  | enable g a =>
    obtain ⟨⟨t, f⟩, hf, he⟩ := Option.map_eq_some_iff.mp h
    obtain ⟨rfl, -⟩ := Prod.mk.inj he
    exact a.resume_effect hf
  | unlock c g a =>
    obtain ⟨⟨t, f⟩, hf, he⟩ := Option.map_eq_some_iff.mp h
    obtain ⟨rfl, -⟩ := Prod.mk.inj he
    refine (a.resume_effect (c := c) hf).mono ?_
    cases c <;> simp [Awaiting.captured]
  | prepareForSession g a =>
    obtain ⟨⟨t, f⟩, hf, he⟩ := Option.map_eq_some_iff.mp h
    obtain ⟨rfl, -⟩ := Prod.mk.inj he
    exact a.resume_effect hf
  | recover g a =>
    obtain ⟨⟨t, f⟩, hf, he⟩ := Option.map_eq_some_iff.mp h
    obtain ⟨rfl, -⟩ := Prod.mk.inj he
    exact a.resume_effect hf
  | trust r a =>
    obtain ⟨f, hf, he⟩ := Option.map_eq_some_iff.mp h
    exact .kept (Prod.mk.inj he).1.symm

theorem Awaiting.resume_captured {a a' : Awaiting κ π} (h : a.resume d me s ans = some (s', .suspended a')) :
    a'.captured ⊆ a.captured := by
  cases a with
  | enable g a =>
    obtain ⟨⟨t, f⟩, hf, he⟩ := Option.map_eq_some_iff.mp h
    cases f <;> cases he
    exact List.Subset.refl _
  | unlock c g a =>
    obtain ⟨⟨t, f⟩, hf, he⟩ := Option.map_eq_some_iff.mp h
    cases f <;> cases c <;> cases he
    all_goals simp [Awaiting.captured]
  | prepareForSession g a =>
    obtain ⟨⟨t, f⟩, hf, he⟩ := Option.map_eq_some_iff.mp h
    rcases f with (_ | n) | o <;> cases he
    all_goals simp [Awaiting.captured]
  | recover g a =>
    obtain ⟨⟨t, f⟩, hf, he⟩ := Option.map_eq_some_iff.mp h
    rcases f with (_ | n) | o <;> cases he
    all_goals simp [Awaiting.captured]
  | trust r a =>
    obtain ⟨f, hf, he⟩ := Option.map_eq_some_iff.mp h
    cases f <;> cases he
    exact List.Subset.refl _

theorem Operation.start_captured (op : Operation) (h : g ∈ (op.start (π := π) s).2.captured) :
    g = s.lockGeneration := by
  cases op <;> simpa [Operation.start, Awaiting.captured] using h

theorem Operation.start_service (s : EncryptionService κ) (op : Operation) : (op.start (π := π) s).1 = s ∨
      s.cmk = none ∧ (op.start (π := π) s).1 = s.setState .disabled := by
  cases op with
  | prepareForSession =>
    cases hc : s.cmk with
    | none => exact .inr ⟨rfl, by simp [Operation.start, EncryptionService.isUnlocked, hc]⟩
    | some k => exact .inl (by simp [Operation.start, EncryptionService.isUnlocked, hc])
  | _ => exact .inl rfl

/-! ## 2. What a step does to the world -/

variable {w w' : World κ π}

theorem step_cases {l : Label κ π} (h : step d w l = some w') :
    (l = .lock ∧ w' = { w with service := w.service.lock, begunAtLock := w.begun }) ∨
    (∃ op, l = .begin op ∧ w' = { w with
      service := (op.start (π := π) w.service).1
      calls := Function.update w.calls w.begun (some (.suspended (op.start w.service).2))
      begun := w.begun + 1 }) ∨ (∃ i ans a s' c, l = .resume i ans ∧ w.calls i = some (.suspended a) ∧
      a.resume d i w.service ans = some (s', c) ∧
      w' = { w with service := s', calls := Function.update w.calls i (some c) }) := by
  cases l with
  | lock => exact .inl ⟨rfl, (Option.some.inj h).symm⟩
  | begin op => exact .inr (.inl ⟨op, rfl, (Option.some.inj h).symm⟩)
  | resume i ans =>
    simp only [step] at h
    split at h
    · rename_i a ha
      obtain ⟨⟨s', c⟩, hr, he⟩ := Option.map_eq_some_iff.mp h
      exact .inr (.inr ⟨i, ans, a, s', c, rfl, ha, hr, he.symm⟩)
    · cases h

/-! ## 3. The key belongs to the session -/

/-- The invariant: a call begun before the last `lock` holds a past generation, so a key in
    memory was put there by a later one. -/
structure SessionInv (w : World κ π) : Prop where
  begunAtLock_le : w.begunAtLock ≤ w.begun
  key : w.service.isUnlocked = true → ∃ i, w.service.keyFrom = some i ∧ w.begunAtLock ≤ i
  captured_le : ∀ i a g, w.calls i = some (.suspended a) → g ∈ a.captured → g ≤ w.service.lockGeneration
  current : ∀ i a, w.calls i = some (.suspended a) → w.service.lockGeneration ∈ a.captured → w.begunAtLock ≤ i

theorem SessionInv.init : SessionInv (World.init : World κ π) where
  begunAtLock_le := Nat.le_refl 0
  key h := by cases h
  captured_le i a g h := by cases h
  current i a h := by cases h

theorem SessionInv.step {d : Decoders} {w w' : World κ π} {l : Label κ π} (hw : SessionInv w)
    (h : step d w l = some w') : SessionInv w' := by
  rcases step_cases h with ⟨rfl, rfl⟩ | ⟨op, rfl, rfl⟩ | ⟨i, ans, a, s', c, rfl, ha, hr, rfl⟩
  · -- lock: every generation in flight is now past
    refine ⟨Nat.le_refl _, fun hk => (by cases hk), fun i a g ha hg => ?_, fun i a ha hg => ?_⟩
    · exact Nat.le_succ_of_le (hw.captured_le i a g ha hg)
    · exact absurd (hw.captured_le i a _ ha hg) (Nat.not_succ_le_self _)
  · -- begin: the new call holds the current generation
    have hgen : (op.start (π := π) w.service).1.lockGeneration = w.service.lockGeneration := by
      rcases op.start_service (π := π) w.service with hs | ⟨-, hs⟩ <;> rw [hs]; rfl
    have hkey : (op.start (π := π) w.service).1.keyFrom = w.service.keyFrom ∧
        (op.start (π := π) w.service).1.isUnlocked = w.service.isUnlocked := by
      rcases op.start_service (π := π) w.service with hs | ⟨-, hs⟩ <;> rw [hs] <;> exact ⟨rfl, rfl⟩
    refine ⟨Nat.le_succ_of_le hw.begunAtLock_le, fun hk => ?_, fun i a g ha hg => ?_,
      fun i a ha hg => ?_⟩
    · rw [hkey.2] at hk
      simpa only [hkey.1] using hw.key hk
    · simp only [hgen]
      dsimp only at ha
      by_cases hi : i = w.begun
      · subst hi
        rw [Function.update_self] at ha
        cases ha
        exact Nat.le_of_eq (op.start_captured hg)
      · rw [Function.update_of_ne hi] at ha
        exact hw.captured_le i a g ha hg
    · simp only [hgen] at hg
      dsimp only at ha
      by_cases hi : i = w.begun
      · rw [hi]
        exact hw.begunAtLock_le
      · rw [Function.update_of_ne hi] at ha
        exact hw.current i a ha hg
  · -- resume: only a call that holds the current generation can have put the key there
    have heff := a.resume_effect hr
    have hgen : s'.lockGeneration = w.service.lockGeneration := by
      generalize a.denies w.service.lockGeneration ans = b at heff
      cases heff with
      | kept h => rw [h]
      | held _ _ _ _ _ hl => exact hl
      | denied _ _ _ hl => exact hl
    have hcalls : ∀ j a', Function.update w.calls i (some c) j = some (.suspended a') →
        ∃ a₀, w.calls j = some (.suspended a₀) ∧ a'.captured ⊆ a₀.captured := by
      intro j a' hj
      by_cases hi : j = i
      · subst hi
        rw [Function.update_self] at hj
        obtain rfl := Option.some.inj hj
        exact ⟨a, ha, a.resume_captured hr⟩
      · rw [Function.update_of_ne hi] at hj
        exact ⟨a', hj, List.Subset.refl _⟩
    refine ⟨hw.begunAtLock_le, fun hk => ?_, fun j a' g hj hg => ?_, fun j a' hj hg => ?_⟩
    · generalize a.denies w.service.lockGeneration ans = b at heff
      cases heff with
      | kept h => exact h ▸ hw.key (h ▸ hk)
      | held _ hg _ hf _ _ => exact ⟨i, hf, hw.current i a ha hg⟩
      | denied hc hf _ _ =>
        simp only [EncryptionService.isUnlocked, hc] at hk
        simpa only [hf] using hw.key hk
    · obtain ⟨a₀, h₀, hsub⟩ := hcalls j a' hj
      simpa only [hgen] using hw.captured_le j a₀ g h₀ (hsub hg)
    · obtain ⟨a₀, h₀, hsub⟩ := hcalls j a' hj
      simp only [hgen] at hg
      exact hw.current j a₀ h₀ (hsub hg)

/-- How many calls the labels begin. -/
def begins : List (Label κ π) → ℕ
  | [] => 0
  | .begin _ :: tr => begins tr + 1
  | _ :: tr => begins tr

variable {tr : List (Label κ π)}

theorem exec_sessionInv (hw : SessionInv w) (h : exec (step d) w tr = some w') : SessionInv w' :=
  (run_iff_exec.mpr h).invariant hw fun _ _ _ hI hs => hI.step hs

theorem exec_begun (h : exec (step d) w tr = some w') : w'.begun = w.begun + begins tr := by
  induction tr generalizing w with
  | nil => cases h; rfl
  | cons l tr ih =>
    obtain ⟨t, ht, h'⟩ := Option.bind_eq_some_iff.mp h
    rw [ih h']
    rcases step_cases ht with ⟨rfl, rfl⟩ | ⟨op, rfl, rfl⟩ | ⟨i, ans, a, s', c, rfl, -, -, rfl⟩
    · rfl
    · simp only [begins]
      omega
    · rfl

theorem exec_begunAtLock (hw : SessionInv w) (h : exec (step d) w tr = some w') :
    w.begunAtLock ≤ w'.begunAtLock := by
  induction tr generalizing w with
  | nil => cases h; exact Nat.le_refl _
  | cons l tr ih =>
    obtain ⟨t, ht, h'⟩ := Option.bind_eq_some_iff.mp h
    refine Nat.le_trans ?_ (ih (hw.step ht) h')
    rcases step_cases ht with ⟨rfl, rfl⟩ | ⟨op, rfl, rfl⟩ | ⟨i, ans, a, s', c, rfl, -, -, rfl⟩
    · exact hw.begunAtLock_le
    · exact Nat.le_refl _
    · exact Nat.le_refl _

theorem key_begun_after_lock {before after : List (Label κ π)}
    (h : exec (step d) .init (before ++ .lock :: after) = some w) (hk : w.service.isUnlocked = true) :
    ∃ i, w.service.keyFrom = some i ∧ begins before ≤ i := by
  obtain ⟨u, hu, h'⟩ := Option.bind_eq_some_iff.mp ((exec_append ..).symm.trans h)
  obtain ⟨v, hv, h''⟩ := Option.bind_eq_some_iff.mp h'
  have huI := exec_sessionInv .init hu
  have hvI := huI.step hv
  obtain ⟨i, hi, hle⟩ := (exec_sessionInv hvI h'').key hk
  refine ⟨i, hi, Nat.le_trans ?_ hle⟩
  calc begins before = u.begun := by rw [exec_begun hu]; exact (Nat.zero_add _).symm
    _ = v.begunAtLock := by cases hv; rfl
    _ ≤ w.begunAtLock := exec_begunAtLock hvI h''

/-! ## 4. The state shown and the key held -/

/-- The state says `unlocked` exactly when the key is held. -/
def StateTellsKey (w : World κ π) : Prop := w.service.state = .unlocked ↔ w.service.isUnlocked = true

/-- The condition on a step: an answer that denies a call the key comes while no key is held. -/
def DeniedWithoutKey (w : World κ π) : Label κ π → Prop
  | .resume i ans => ∀ a, w.calls i = some (.suspended a) →
      a.denies w.service.lockGeneration ans = true → w.service.isUnlocked = false
  | _ => True

theorem stateTellsKey_step {l : Label κ π} (hw : StateTellsKey w) (h : step d w l = some w') :
    StateTellsKey w' ↔ DeniedWithoutKey w l := by
  rcases step_cases h with ⟨rfl, rfl⟩ | ⟨op, rfl, rfl⟩ | ⟨i, ans, a, s', c, rfl, ha, hr, rfl⟩
  · refine ⟨fun _ => trivial, fun _ => ⟨fun hs => ?_, fun hk => by cases hk⟩⟩
    -- the lock leaves no `unlocked` behind
    simp only [EncryptionService.lock] at hs
    split at hs
    · cases hs
    · contradiction
  · refine ⟨fun _ => trivial, fun _ => ?_⟩
    rcases op.start_service (π := π) w.service with hs | ⟨hc, hs⟩
    · simpa only [StateTellsKey, hs] using hw
    · simp [StateTellsKey, hs, EncryptionService.setState, EncryptionService.isUnlocked, hc]
  · have hone : DeniedWithoutKey w (.resume i ans) ↔
        (a.denies w.service.lockGeneration ans = true → w.service.isUnlocked = false) := by
      constructor
      · exact fun hC => hC a ha
      · intro hC a' ha'
        obtain rfl : a = a' := by
          rw [ha] at ha'
          cases ha'
          rfl
        exact hC
    rw [hone]
    have heff := a.resume_effect hr
    generalize a.denies w.service.lockGeneration ans = b at heff
    cases heff with
    | kept h => subst h; exact ⟨fun _ hb => (nomatch hb), fun _ => hw⟩
    | held cmk _ hc _ hs _ =>
      refine ⟨fun _ hb => (nomatch hb), fun _ => ?_⟩
      simp [StateTellsKey, EncryptionService.isUnlocked, hc, hs]
    | denied hc _ hs _ =>
      -- the state shown now denies the key: right only if there is none
      simp [StateTellsKey, EncryptionService.isUnlocked, hc, hs]

/-- The key stays within its session all along the calls `tr` of a fresh service: a held key was put there
    by a call begun after each `lock` so far, and the state shown is `unlocked` exactly when the key is
    held. -/
def KeyWithinSession (d : Decoders) (tr : List (Label κ π)) : Prop :=
  ∀ pre w, pre <+: tr → exec (step d) .init pre = some w →
    (∀ before after, pre = before ++ .lock :: after → w.service.isUnlocked = true →
      ∃ i, w.service.keyFrom = some i ∧ begins before ≤ i) ∧
    (w.service.state = .unlocked ↔ w.service.isUnlocked = true)

/-- **The key stays within its session exactly if no call is denied the key while one is held.** -/
theorem keyWithinSession_iff (d : Decoders) (tr : List (Label κ π)) :
    KeyWithinSession d tr ↔ AllMeet (step d) DeniedWithoutKey .init tr := by
  have hstart : StateTellsKey (World.init : World κ π) := ⟨fun h => (nomatch h), fun h => (nomatch h)⟩
  rw [← always_iff_allMeet (I := fun _ => True) (fun _ _ _ _ _ => trivial)
    (fun _ _ _ _ hP hs => stateTellsKey_step hP hs) trivial hstart, always_iff_prefix]
  constructor
  · intro h pre w hpre hex
    exact (h pre w hpre hex).2
  · intro h pre w hpre hex
    refine ⟨fun before after he hk => ?_, h pre w hpre hex⟩
    subst he
    exact key_begun_after_lock hex hk

/-- `unlock` waits for the status while `enable` turns encryption on and puts its key there; then
    the older status arrives, and says off. -/
def deniedRun : List (Label Unit Unit) :=
  [.begin .unlock, .resume 0 (.keyPair (some ())), .resume 0 (.publicKey "cHVi"),
   .begin (.enable .recoveryKey "c2VjcmV0"), .resume 1 (.key ()), .resume 1 (.keyPair (some ())),
   .resume 1 (.publicKey "cHVi"), .resume 1 (.wrapped ⟨"ZGV2", some "ZXBo"⟩),
   .resume 1 (.wrapped ⟨"cmVj", none⟩), .resume 1 .done, .resume 1 (.stored none),
   .resume 0 (.status { enabled := false, deviceRegistered := false, deviceApproved := false })]

theorem denied_while_held : ¬ KeyWithinSession ⟨fun _ => true, fun _ => true⟩ deniedRun := by
  intro h
  have hlast := (h deniedRun _ List.prefix_rfl rfl).2.mpr rfl
  cases hlast

end TraxJourney.Crypto
