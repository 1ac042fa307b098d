/-
  File:      Jobs/UpstreamSlots.lean
  Subject:   The limiter of concurrent requests to one upstream host: `slot` from
             `src/jobs/upstream_slots.py`, and any number of calls of it, interleaved at every
             store command.

  * **`slots_bounded`** -- as long as no entry is added before one that is held, at most `limit`
    calls hold a slot.

  A call is named by its token. Each call has a clock of its own, so that the calls of one process
  may read one clock and those of two processes need not agree. Without a broker, and for a limit
  below 1, `slot` issues no command and holds nothing.
-/
import TraxJourney.Lib.Runs
import TraxJourney.Lib.SortedSet

namespace TraxJourney.Jobs

open Lib

variable {ι τ : Type*} [LinearOrder ι] [LinearOrder τ] [Sub τ]

/-! ## 1. One call of `slot` -/

/-- Where a call stands: the command it issues next, with the time it has read. -/
inductive Phase (τ : Type*) where
  | reading
  | purging (now : τ)
  | adding (now : τ)
  | expiring (now : τ)
  | ranking (now : τ)
  | refused
  | deciding
  | held
  | unpaced
  | timedOut
  | releasing
  | done
deriving DecidableEq

/-- After `except Exception`: in the loop the work goes on without a slot, and a release that
    failed leaves the entry to age out. -/
def Phase.afterError : Phase τ → Phase τ
  | .releasing => .done
  | _ => .unpaced

section Slot

variable (limit : ℕ) (leaseTtlS : τ) (token : ι)

/-- The store command that a call issues in its phase: what it does to the set, and where the
    call goes on. -/
def Phase.command (z : SortedSet ι τ) : Phase τ → Option (Phase τ × SortedSet ι τ)
  | .purging now => some (.adding now, z.removeThrough (now - leaseTtlS))
  | .adding now => some (.expiring now, z.add token now)
  | .expiring now => some (.ranking now, z)
  | .ranking _ =>
    match z.rank token with
    | some rank => some (if rank < limit then .held else .refused, z)
    | none => some (.refused, z)
  | .refused => some (.deciding, z.remove token)
  | .releasing => some (.done, z.remove token)
  | _ => none

/-- A call: the last reading of its clock, and where it stands. -/
structure Call (τ : Type*) where
  clock : Option τ
  phase : Phase τ

/-- What happens in a call. `failed` is a command that raises; `performed` tells whether the store
    had carried it out. -/
inductive Command (τ : Type*) where
  | readsTime (now : τ)
  | runs
  | failed (performed : Bool)
  | sleeps
  | givesUp
  | leavesBody

/-- A clock never runs backwards. -/
def Call.mayRead (call : Call τ) (now : τ) : Prop := ∀ t, call.clock = some t → t ≤ now

instance (call : Call τ) (now : τ) : Decidable (call.mayRead now) :=
  match h : call.clock with
  | none => isTrue (by simp [Call.mayRead, h])
  | some t => decidable_of_iff (t ≤ now) (by simp [Call.mayRead, h])

def Command.effect (call : Call τ) (z : SortedSet ι τ) : Command τ → Option (Call τ × SortedSet ι τ)
  | .readsTime now =>
    if call.phase = .reading ∧ call.mayRead now then some (⟨some now, .purging now⟩, z) else none
  | .runs => (call.phase.command limit leaseTtlS token z).map fun r => ({ call with phase := r.1 }, r.2)
  | .failed performed => (call.phase.command limit leaseTtlS token z).map fun r =>
    ({ call with phase := call.phase.afterError }, if performed then r.2 else z)
  | .sleeps => if call.phase = .deciding then some ({ call with phase := .reading }, z) else none
  | .givesUp => if call.phase = .deciding then some ({ call with phase := .timedOut }, z) else none
  | .leavesBody =>
    match call.phase with
    | .held => some ({ call with phase := .releasing }, z)
    | .unpaced => some ({ call with phase := .done }, z)
    | .timedOut => some ({ call with phase := .done }, z)
    | _ => none

end Slot

/-! ## 2. Any number of calls -/

/-- The calls, by their tokens, and the set of one upstream host. -/
structure System (ι τ : Type*) where
  calls : ι → Call τ
  leases : SortedSet ι τ

/-- An event in a call, or the end of the key's expiry. -/
inductive Label (ι τ : Type*) where
  | call (token : ι) (c : Command τ)
  | keyExpires

def System.start (leases : SortedSet ι τ) : System ι τ := ⟨fun _ => ⟨none, .reading⟩, leases⟩

def step (limit : ℕ) (leaseTtlS : τ) (w : System ι τ) : Label ι τ → Option (System ι τ)
  | .call token c => (c.effect limit leaseTtlS token (w.calls token) w.leases).map fun r =>
    ⟨Function.update w.calls token r.1, r.2⟩
  | .keyExpires => some ⟨w.calls, Table.empty⟩

/-- The call is in the body with a slot, and its entry has not been reclaimed. -/
def Holds (w : System ι τ) (token : ι) : Prop :=
  (w.calls token).phase = .held ∧ ∃ e ∈ w.leases, e.member = token

/-- An entry that is added ranks behind every entry that is held. -/
def InOrder (w : System ι τ) : Label ι τ → Prop
  | .call token _ => ∀ now, (w.calls token).phase = .adding now →
      ∀ e ∈ w.leases, (w.calls e.member).phase = .held → e.place < Entry.place ⟨token, now⟩
  | .keyExpires => True

/-! ## 3. What one command can do -/

variable {limit : ℕ} {leaseTtlS : τ} {w w' : System ι τ} {token : ι}

/-- What an event in a call leaves behind: entries only go, or the own entry comes; and a call is
    in the body with a slot afterwards only if its entry ranked below the limit. -/
inductive Moved (limit : ℕ) (token : ι) (call : Call τ) (z : SortedSet ι τ) :
    Phase τ → SortedSet ι τ → Prop
  | fewer {p z'} (hp : p ≠ .held) (hsub : ∀ e ∈ z', e ∈ z) : Moved limit token call z p z'
  | added {p now} (hp : p ≠ .held) (hcall : call.phase = .adding now) :
      Moved limit token call z p (z.add token now)
  | admitted {p rank} (hrank : z.rank token = some rank) (hlt : rank < limit) : Moved limit token call z p z

theorem command_moved {call : Call τ} {z z' : SortedSet ι τ} {p : Phase τ}
    (h : call.phase.command limit leaseTtlS token z = some (p, z')) :
    Moved limit token call z p z' := by
  cases hc : call.phase with
  | purging now =>
    rw [hc] at h
    cases h
    exact .fewer nofun fun e he => SortedSet.mem_of_mem_removeThrough he
  | adding now =>
    rw [hc] at h
    cases h
    exact .added nofun hc
  | expiring now =>
    rw [hc] at h
    cases h
    exact .fewer nofun fun _ he => he
  | ranking now =>
    rw [hc] at h
    simp only [Phase.command] at h
    split at h
    · rename_i rank hrank
      cases h
      split
      · rename_i hlt
        exact .admitted hrank hlt
      · exact .fewer nofun fun _ he => he
    · cases h
      exact .fewer nofun fun _ he => he
  | refused =>
    rw [hc] at h
    cases h
    exact .fewer nofun fun e he => SortedSet.mem_of_mem_remove he
  | releasing =>
    rw [hc] at h
    cases h
    exact .fewer nofun fun e he => SortedSet.mem_of_mem_remove he
  | reading => simp [hc, Phase.command] at h
  | deciding => simp [hc, Phase.command] at h
  | held => simp [hc, Phase.command] at h
  | unpaced => simp [hc, Phase.command] at h
  | timedOut => simp [hc, Phase.command] at h
  | done => simp [hc, Phase.command] at h

omit [LinearOrder τ] [Sub τ] in
theorem Phase.afterError_ne_held (p : Phase τ) : p.afterError ≠ .held := by
  cases p <;> exact nofun

theorem effect_moved {call call' : Call τ} {z z' : SortedSet ι τ} {c : Command τ}
    (h : c.effect limit leaseTtlS token call z = some (call', z')) :
    Moved limit token call z call'.phase z' := by
  have hstay : ∀ p : Phase τ, p ≠ .held → Moved limit token call z p z := fun _ hp => .fewer hp fun _ he => he
  cases c with
  | runs =>
    obtain ⟨⟨p, z₁⟩, hcmd, he⟩ := Option.map_eq_some_iff.mp h
    cases he
    exact command_moved hcmd
  | failed performed =>
    obtain ⟨⟨p, z₁⟩, hcmd, he⟩ := Option.map_eq_some_iff.mp h
    cases he
    have hne := call.phase.afterError_ne_held
    cases performed with
    | false => exact hstay _ hne
    | true =>
      cases command_moved hcmd with
      | fewer _ hsub => exact .fewer hne hsub
      | added _ hcall => exact .added hne hcall
      | admitted _ _ => exact hstay _ hne
  | readsTime | sleeps | givesUp | leavesBody =>
    simp only [Command.effect] at h
    split at h <;> cases h <;> exact hstay _ nofun

/-! ## 4. What is held ranks low -/

/-- Fewer than `limit` entries rank before one that is held. -/
def RanksLow (limit : ℕ) (w : System ι τ) : Prop :=
  ∀ e ∈ w.leases, (w.calls e.member).phase = .held → w.leases.below e < limit

theorem RanksLow.step {l : Label ι τ} (hw : RanksLow limit w) (hin : InOrder w l)
    (h : step limit leaseTtlS w l = some w') : RanksLow limit w' := by
  cases l with
  | keyExpires =>
    cases h
    intro e he
    exact absurd he Table.not_mem_empty
  | call token c =>
    obtain ⟨⟨call', z'⟩, heff, hw'⟩ := Option.map_eq_some_iff.mp h
    cases hw'
    have hmoved := effect_moved heff
    intro e he hheld
    dsimp only at he hheld ⊢
    by_cases hm : e.member = token
    · -- the entry of the call that moved: it was ranked just now
      rw [hm, Function.update_self] at hheld
      cases hmoved with
      | fewer hp _ => exact absurd hheld hp
      | added hp _ => exact absurd hheld hp
      | admitted hrank hlt =>
        rw [← hm] at hrank
        rw [SortedSet.rank_eq_some he hrank]
        exact hlt
    · -- the entry of another call: it was held before
      rw [Function.update_of_ne hm] at hheld
      have hfewer : ∀ z' : SortedSet ι τ, (∀ a ∈ z', a.place < e.place → a ∈ w.leases) →
          e ∈ w.leases → z'.below e < limit := by
        intro z' hsub hold
        have hbelow := SortedSet.below_le (z := w.leases) hsub
        have hlow := hw e hold hheld
        omega
      cases hmoved with
      | fewer _ hsub => exact hfewer z' (fun a ha _ => hsub a ha) (hsub e he)
      | @added now _ hcall =>
        have hold : e ∈ w.leases := by
          rcases SortedSet.mem_add.mp he with rfl | ⟨hmem, -⟩
          · exact absurd rfl hm
          · exact hmem
        have hbehind : e.place < Entry.place ⟨token, now⟩ := hin now hcall e hold hheld
        refine hfewer _ (fun a ha hlt => ?_) hold
        rcases SortedSet.mem_add.mp ha with rfl | ⟨hmem, -⟩
        · exact absurd hlt (lt_asymm hbehind)
        · exact hmem
      | admitted _ _ => exact hw e he hheld

omit [Sub τ] in
theorem RanksLow.start (z : SortedSet ι τ) : RanksLow limit (System.start z) := by
  intro e _ hheld
  cases hheld

omit [Sub τ] in
theorem RanksLow.card_le (hw : RanksLow limit w) {tokens : Finset ι}
    (hheld : ∀ token ∈ tokens, Holds w token) : tokens.card ≤ limit := by
  refine SortedSet.card_le_of_below (z := w.leases) fun token ht => ?_
  obtain ⟨hphase, e, he, rfl⟩ := hheld token ht
  exact ⟨e, he, rfl, hw e he hphase⟩

/-! ## 5. At most `limit` slots -/

/-- **At most `limit` calls hold a slot**, at every moment of a run in which no entry is added
    before one that is held: whatever the clocks read, wherever commands fail, and whatever the
    set holds at the start. -/
theorem slots_bounded {z : SortedSet ι τ} {tr : List (Label ι τ)} {tokens : Finset ι}
    (h : Run (Meeting (Steps (step limit leaseTtlS)) InOrder) (System.start z) tr w)
    (hheld : ∀ token ∈ tokens, Holds w token) : tokens.card ≤ limit := by
  have hlow : RanksLow limit w := h.invariant (RanksLow.start z) fun _ _ _ hw hs => hw.step hs.2 hs.1
  exact hlow.card_le hheld

/-- The commands of a call up to the rank, with the clock at `now`. -/
def claimed (token : ℕ) (now : ℤ) : List (Label ℕ ℤ) :=
  [.call token (.readsTime now), .call token .runs, .call token .runs, .call token .runs,
    .call token .runs]

instance (w : System ℕ ℤ) (l : Label ℕ ℤ) : Decidable (InOrder w l) :=
  match l with
  | .keyExpires => isTrue trivial
  | .call token _ =>
    match h : (w.calls token).phase with
    | .adding now => decidable_of_iff (∀ e ∈ w.leases.rows, (w.calls e.member).phase = .held →
          e.place < Entry.place ⟨token, now⟩)
        (by simp only [InOrder, h, Phase.adding.injEq, forall_eq', Table.mem_def])
    | .reading | .purging _ | .expiring _ | .ranking _ | .refused | .deciding | .held | .unpaced
    | .timedOut | .releasing | .done => isTrue (by simp [InOrder, h])

/-- One slot: call 1 holds it, call 2 is refused meanwhile and tries again once it is free. -/
def handedOver : List (Label ℕ ℤ) :=
  claimed 1 100 ++ claimed 2 101 ++
    ([.call 2 .runs, .call 2 .sleeps, .call 1 .leavesBody, .call 1 .runs] : List (Label ℕ ℤ)) ++
    claimed 2 102

theorem slots_bounded_handedOver : ∃ w : System ℕ ℤ,
    Run (Meeting (Steps (step 1 60)) InOrder) (System.start Table.empty) handedOver w ∧
      Holds w 2 ∧ ∀ tokens : Finset ℕ, (∀ token ∈ tokens, Holds w token) → tokens.card ≤ 1 := by
  have hmeet : AllMeet (step 1 60) InOrder (System.start Table.empty) handedOver := by decide +kernel
  have hend : (exec (step 1 60) (System.start Table.empty) handedOver).map
      (fun w => ((w.calls 2).phase, w.leases.rows)) = some (.held, [⟨2, 102⟩]) := by decide +kernel
  obtain ⟨w, hw, he⟩ := Option.map_eq_some_iff.mp hend
  obtain ⟨hphase, hrows⟩ := Prod.mk.inj he
  have hrun := run_of_allMeet hw hmeet
  have hmem : (⟨2, 102⟩ : Entry ℕ ℤ) ∈ w.leases := by simp [Table.mem_def, hrows]
  exact ⟨w, hrun, ⟨hphase, _, hmem, rfl⟩, fun _ hheld => slots_bounded hrun hheld⟩

/-- Call 1 reads the clock first and adds its entry last. -/
def overtaken : List (Label ℕ ℤ) :=
  (.call 1 (.readsTime 100) :: claimed 2 101 : List (Label ℕ ℤ)) ++
    ([.call 1 .runs, .call 1 .runs, .call 1 .runs, .call 1 .runs] : List (Label ℕ ℤ))

/-- **One slot is held twice**: call 1 read the clock before call 2 and adds its entry after call
    2 was admitted, so that it ranks first. -/
theorem slots_fail_overtaken : ¬ ∀ (limit : ℕ) (leaseTtlS : ℤ) (tr : List (Label ℕ ℤ))
    (w : System ℕ ℤ) (tokens : Finset ℕ), 1 ≤ limit →
    Run (Steps (step limit leaseTtlS)) (System.start Table.empty) tr w →
    (∀ token ∈ tokens, Holds w token) → tokens.card ≤ limit := by
  intro hall
  have hend : (exec (step 1 60) (System.start Table.empty) overtaken).map
      (fun w => ((w.calls 1).phase, (w.calls 2).phase, w.leases.rows)) =
        some (.held, .held, [⟨2, 101⟩, ⟨1, 100⟩]) := by decide +kernel
  obtain ⟨w, hw, he⟩ := Option.map_eq_some_iff.mp hend
  obtain ⟨h1, h2⟩ := Prod.mk.inj he
  obtain ⟨h2, hrows⟩ := Prod.mk.inj h2
  have hm1 : (⟨1, 100⟩ : Entry ℕ ℤ) ∈ w.leases := by simp [Table.mem_def, hrows]
  have hm2 : (⟨2, 101⟩ : Entry ℕ ℤ) ∈ w.leases := by simp [Table.mem_def, hrows]
  have hheld : ∀ token ∈ ({1, 2} : Finset ℕ), Holds w token := by
    intro token ht
    rcases Finset.mem_insert.mp ht with rfl | ht
    · exact ⟨h1, _, hm1, rfl⟩
    · rw [Finset.mem_singleton.mp ht]
      exact ⟨h2, _, hm2, rfl⟩
  have htwo := hall 1 60 overtaken w {1, 2} (Nat.le_refl 1) (run_iff_exec.mpr hw) hheld
  exact absurd htwo (by decide)

end TraxJourney.Jobs
