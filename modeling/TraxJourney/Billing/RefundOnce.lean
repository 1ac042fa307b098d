/-
  File:      Billing/RefundOnce.lean
  Subject:   Withdrawal refunds over any interleaving of runs: what is made, written and sent at most
             once, and when.

  * **`refunded_once`** -- in every run whose calls are all made so, a final row is never sent again,
    and the rest holds, too.
-/
import TraxJourney.Billing.Permitted

namespace TraxJourney.Billing.Withdrawal

open Lib

variable {ι : Type}

/-! ## 1. Runs -/

abbrev World (ι : Type) := Clients ι (Option Claim × Session Unit) Store

/-- Every client before its task, over an empty ledger; the provider may know keys already. -/
def start (tasks : ι → Task) (known : Table Request Request.key) : World ι where
  locals c := (none, (tasks c).program)
  store := ⟨Table.empty, known, 0⟩

def step [DecidableEq ι] : World ι → ι × Label → Option (World ι) := Clients.step (turn rules exe)

/-- The row that the client is about to ask the provider for. -/
def asked (c : Option Claim × Session Unit) : Option String :=
  match c.2 with
  | .op o _ => o.asks
  | _ => none

def SendsNoFinal (w : World ι) (c : ι) : Prop :=
  ∀ i r, asked (w.locals c) = some i → w.store.row i = some r → r.state.final = false

/-- The row that the client is about to ask the provider for is under its claim. -/
def held (c : Option Claim × Session Unit) (s : Store) : Bool :=
  match asked c, c.1 with
  | none, _ => true
  | some _, none => false
  | some i, some claim => (s.row i).any fun r => r.claimToken == some claim.token

/-- The condition on a step. -/
def ClaimHeld (w : World ι) (l : ι × Label) : Prop := held (w.locals l.1) w.store = true

instance (w : World ι) (l : ι × Label) : Decidable (ClaimHeld w l) := inferInstanceAs (Decidable (_ = true))

/-! ## 2. What holds of every run -/

def OneNote (s : Store) : Prop :=
  ∀ q ∈ s.requests, ∀ q' ∈ s.requests, q.note.isSome → q'.note.isSome →
    q.key.refundKey = q'.key.refundKey → q = q'

/-- The row of `i`, once priced, keeps its amount and never records more; once final, it stays so. -/
def Stands (i : String) (r : SubscriptionRefund) (s : Store) : Prop :=
  0 ≤ r.amount ∨ r.state.final = true → ∃ r', s.row i = some r' ∧
    (0 ≤ r.amount → r'.amount = r.amount ∧ r'.refunded + r'.owed ≤ r.amount) ∧
    (r.state.final = true → r'.state.final = true)

/-- The client still has the claim `c`. -/
def Holds (w : World ι) (client : ι) (c : Claim) : Prop :=
  ∃ c', (w.locals client).1 = some c' ∧ c'.token = c.token ∧ c'.row.subscriptionId = c.row.subscriptionId

/-- The claim `c` of the client was replaced: its row is not under it any more, and no step of the
    client under that claim writes the ledger. -/
def Gone [DecidableEq ι] (w : World ι) (client : ι) (c : Claim) : Prop :=
  Replaced c.row.subscriptionId c.token w.store ∧
  ∀ l w', Holds w client c → step w (client, l) = some w' → Holds w' client c →
    w'.store.ledger = w.store.ledger

section Runs

variable {tasks : ι → Task} {known : Table Request Request.key} {w w' : World ι} {tr : List (ι × Label)}

abbrev Good (w : World ι) : Prop := Coherent rules Store.Ok Knows Apart w

theorem good_start (hknown : ∀ q ∈ known, q.note = none) : Good (start tasks known) where
  store := by
    have hrow : ∀ i, (start tasks known).store.row i = none := fun i =>
      Table.get_eq_none.mpr fun _ hr => absurd hr Table.not_mem_empty
    refine ⟨fun i r hr => ?_, fun i r t hr => ?_, fun i r a hr => ?_, fun key q note hq hn => ?_⟩
    · rw [hrow] at hr
      cases hr
    · rw [hrow] at hr
      cases hr
    · rw [hrow] at hr
      cases hr
    · rw [hknown q (Table.get_eq_some.mp hq).1] at hn
      cases hn
  knows _ _ hc := by cases hc
  safe c := (tasks c).program_permitted none
  apart _ _ _ _ _ hc := by cases hc

variable [DecidableEq ι]

theorem good_step {l : ι × Label} (hw : Good w) (h : step w l = some w') : Good w' := sound.step hw h

theorem good_run (hw : Good w) (h : Run (Steps step) w tr w') : Good w' := sound.run hw h

theorem step_effect {client : ι} {l : Label} (hw : Good w) (h : step w (client, l) = some w') :
    ∃ o next a, (w.locals client).2 = .op o next ∧ allows (w.locals client).1 o ∧
      Effect (w.locals client).1 o a w.store w'.store ∧
      w'.locals = Function.update w.locals client (learn (w.locals client).1 o a, next a) := by
  obtain ⟨c', s', hturn, rfl⟩ := Clients.step_cases h
  obtain ⟨o, next, a, hprog, hexe, rfl⟩ := turn_cases hturn
  have hsafe := hw.safe client
  rw [hprog] at hsafe
  exact ⟨o, next, a, hprog, hsafe.1, effect hw.store (hw.knows client) hsafe.1 hexe, rfl⟩

theorem evolves_run (hw : Good w) (h : Run (Steps step) w tr w') : Evolves w.store w'.store := by
  refine (h.invariant (I := fun v => Good v ∧ Evolves w.store v.store) ⟨hw, .refl _⟩ ?_).2
  rintro v ⟨client, l⟩ v' ⟨hv, he⟩ hs
  obtain ⟨_, _, _, _, _, heff, _⟩ := step_effect hv hs
  exact ⟨good_step hv hs, he.trans heff.evolves⟩

omit [DecidableEq ι] in
theorem oneNote (hw : Good w) : OneNote w.store := by
  intro q hq q' hq' hn hn' hk
  obtain ⟨note, hnote⟩ := Option.isSome_iff_exists.mp hn
  obtain ⟨note', hnote'⟩ := Option.isSome_iff_exists.mp hn'
  have hget : w.store.requests.get q.key = some q := Table.get_eq_some.mpr ⟨hq, rfl⟩
  have hget' : w.store.requests.get q'.key = some q' := Table.get_eq_some.mpr ⟨hq', rfl⟩
  exact Table.eq_of_key hq hq' (hw.store.one_note hget hget' hnote hnote' hk)

theorem stands {i : String} {r : SubscriptionRefund} (hw : Good w) (hr : w.store.row i = some r)
    (h : Run (Steps step) w tr w') : Stands i r w'.store := by
  intro hfix
  obtain ⟨r', hr', hl⟩ := (evolves_run hw h).rows i r hr hfix
  have hsum := ((good_run hw h).store.rows i r' hr').sum
  refine ⟨r', hr', fun ha => ?_, hl.final⟩
  have hamount := (hl.amount ha).1
  rw [hamount] at hsum
  exact ⟨hamount, by omega⟩

theorem gone {client : ι} {c : Claim} (hw : Good w) (hc : (w.locals client).1 = some c)
    (hr : Replaced c.row.subscriptionId c.token w.store) (h : Run (Steps step) w tr w') :
    Gone w' client c := by
  have hissued : c.token < w.store.tokens := (hw.knows client c hc).issued
  have hlater : Good w' ∧ c.token < w'.store.tokens ∧ Replaced c.row.subscriptionId c.token w'.store := by
    refine h.invariant (I := fun v => Good v ∧ c.token < v.store.tokens ∧
      Replaced c.row.subscriptionId c.token v.store) ⟨hw, hissued, hr⟩ ?_
    rintro v ⟨other, l⟩ v' ⟨hv, ht, hr⟩ hs
    obtain ⟨_, _, _, _, _, heff, _⟩ := step_effect hv hs
    exact ⟨good_step hv hs, Nat.lt_of_lt_of_le ht heff.evolves.tokens, heff.old _ _ ht hr⟩
  obtain ⟨hw', _, hr'⟩ := hlater
  refine ⟨hr', fun l w'' hhold hs hhold' => ?_⟩
  obtain ⟨o, next, a, -, -, heff, hlocals⟩ := step_effect hw' hs
  obtain ⟨c1, hc1, ht1, hi1⟩ := hhold
  obtain ⟨c2, hc2, ht2, -⟩ := hhold'
  rw [hlocals, Function.update_self] at hc2
  refine heff.fenced c1 c2 hc1 hc2 (ht2.trans ht1.symm) ?_
  rw [hi1, ht1]
  exact hr'

omit [DecidableEq ι] in
theorem sends_no_final {client : ι} {l : Label} (hw : Good w) (hheld : ClaimHeld w (client, l)) :
    SendsNoFinal w client := by
  intro i r hasked hr
  have hheld : held (w.locals client) w.store = true := hheld
  unfold held at hheld
  rw [hasked] at hheld
  cases hc : (w.locals client).1 with
  | none =>
    rw [hc] at hheld
    cases hheld
  | some c =>
    rw [hc] at hheld
    dsimp only at hheld
    rw [hr, Option.any_some] at hheld
    rw [pending_of_token (hw.store.rows i r hr) (eq_of_beq hheld)]
    rfl

end Runs

/-! ## 3. At most once -/

/-- **Refunds are made at most once** in every run whose calls to the provider are all made while the
    row is under the caller's claim: one note for each refund key; nothing sent for a final row;
    nothing written by a run whose claim was replaced; and a row that, once priced, never records
    more than the amount fixed then, and once final stays so. -/
theorem refunded_once [DecidableEq ι] {tasks : ι → Task} {known : Table Request Request.key}
    {w : World ι} {tr : List (ι × Label)} (hknown : ∀ q ∈ known, q.note = none)
    (h : Run (Meeting (Steps step) ClaimHeld) (start tasks known) tr w) :
    OneNote w.store ∧
    (∀ l w', Meeting (Steps step) ClaimHeld w l w' → SendsNoFinal w l.1) ∧
    (∀ client c, (w.locals client).1 = some c → Replaced c.row.subscriptionId c.token w.store →
      ∀ tr' w', Run (Meeting (Steps step) ClaimHeld) w tr' w' → Gone w' client c) ∧
    (∀ i r, w.store.row i = some r → (r.amount < 0 → r.refunded + r.owed = 0) ∧
      ∀ tr' w', Run (Meeting (Steps step) ClaimHeld) w tr' w' → Stands i r w'.store) := by
  have hsteps : ∀ {v v' : World ι} {t}, Run (Meeting (Steps step) ClaimHeld) v t v' →
      Run (Steps step) v t v' := fun h => h.mono fun _ _ _ hs => hs.1
  have hw : Good w := good_run (good_start hknown) (hsteps h)
  refine ⟨oneNote hw, fun l w' hs => sends_no_final hw hs.2, fun client c hc hr tr' w' h' => ?_,
    fun i r hrow => ⟨fun ha => ?_, fun tr' w' h' => stands hw hrow (hsteps h')⟩⟩
  · exact gone hw hc hr (hsteps h')
  · have hsound := hw.store.rows i r hrow
    have hsum := hsound.sum
    have h0 := hsound.refunded
    have h1 := hsound.owed
    omega

/-- Two settlements of one subscription. -/
def racing : Bool → Task := fun _ => .settle "cus_1" "sub_1" 86400 90000

/-- An invoice of 200 cents, half used when the subscription ended. -/
def halfUsed : RefundBasis := ⟨90000, "in_1", 200, "eur", 86400, 93600, 200⟩

/-- Half of what is left was paid from the customer's balance. -/
def partlyPaid : InvoiceReading := ⟨50, 200, some 0, 0⟩

def note : CreditNote := { id := "cn_1", refundId := "re_1" }

/-- The first run up to its note, whose answer is lost; the second takes the row over. -/
def takenOver : List (Bool × Label) :=
  [(false, .claims 90000 true), (false, .plain), (false, .basis halfUsed), (false, .plain),
    (false, .reading partlyPaid), (false, .plain), (false, .plain),
    (false, .executes (.ok note) true), (true, .claims 91000 true), (true, .plain), (true, .plain),
    (true, .plain)]

/-- What the ledger and the provider record: of each row whether it is final, what was refunded and
    what is owed; and the amounts of the notes. -/
def recorded (w : World Bool) : List (Bool × ℤ × ℤ) × List ℤ :=
  (w.store.ledger.rows.map fun r => (r.state.final, r.refunded, r.owed),
    (w.store.requests.rows.filter fun q => q.note.isSome).map (·.amount))

theorem refunded_once_taken_over : ∃ w, recorded w = ([(true, 50, 50)], [50]) ∧ OneNote w.store ∧
    ∀ i r, w.store.row i = some r → ∀ tr' w', Run (Meeting (Steps step) ClaimHeld) w tr' w' →
      Stands i r w'.store := by
  have hmeet : AllMeet step ClaimHeld (start racing Table.empty) takenOver := by decide +kernel
  have hend : (exec step (start racing Table.empty) takenOver).map recorded =
      some ([(true, 50, 50)], [50]) := by decide +kernel
  obtain ⟨w, hw, he⟩ := Option.map_eq_some_iff.mp hend
  have h := refunded_once (fun _ hq => absurd hq Table.not_mem_empty) (run_of_allMeet hw hmeet)
  exact ⟨w, he, h.1, fun i r hr => (h.2.2.2 i r hr).2⟩

/-- The first run up to the request for its note; meanwhile its claim expires, and the second run is
    refused the note for good and finishes the row as owed. -/
def stalled : List (Bool × Label) :=
  [(false, .claims 90000 true), (false, .plain), (false, .basis halfUsed), (false, .plain),
    (false, .reading partlyPaid), (false, .plain), (false, .plain), (true, .claims 91000 true),
    (true, .plain), (true, .plain), (true, .fails (.permanent "charge_disputed")), (true, .plain)]

/-- What the first run asks the provider for next, and whether that row is final. -/
def calling (w : World Bool) : Option String × Option Bool :=
  (asked (w.locals false), (w.store.row "sub_1").map fun r => r.state.final)

/-- **A claim that expires while its run is at the provider**: the row is final before the note is made. -/
theorem refunded_once_lease_expired : ∃ w w', Run (Steps step) (start racing Table.empty) stalled w ∧
    Steps step w (false, .executes (.ok note) false) w' ∧ ¬ SendsNoFinal w false ∧
    recorded w = ([(true, 0, 100)], []) ∧ recorded w' = ([(true, 0, 100)], [50]) := by
  have hend : (exec step (start racing Table.empty) stalled).map calling =
      some (some "sub_1", some true) := by decide +kernel
  have hledger : (exec step (start racing Table.empty) stalled).map recorded =
      some ([(true, 0, 100)], []) := by decide +kernel
  have hsend : ((exec step (start racing Table.empty) stalled).bind fun w =>
      (step w (false, .executes (.ok note) false)).map recorded) =
      some ([(true, 0, 100)], [50]) := by decide +kernel
  obtain ⟨w, hw, he⟩ := Option.map_eq_some_iff.mp hend
  rw [hw, Option.bind_some] at hsend
  rw [hw, Option.map_some] at hledger
  obtain ⟨w', hw', he'⟩ := Option.map_eq_some_iff.mp hsend
  have hasked : asked (w.locals false) = some "sub_1" := congrArg Prod.fst he
  have hfinal : (w.store.row "sub_1").map (fun r => r.state.final) = some true := congrArg Prod.snd he
  refine ⟨w, w', run_iff_exec.mpr hw, hw', fun hno => ?_, Option.some.inj hledger, he'⟩
  obtain ⟨r, hr, hf⟩ := Option.map_eq_some_iff.mp hfinal
  rw [hno "sub_1" r hasked hr] at hf
  cases hf

/-! ## 4. What the provider pays out -/

/-- **No credit note exceeds its row**: in every run, calls under a lost claim included, there is one note at
    most for each refund key, on the invoice of the row with that key, and of a part of the amount that the
    row has fixed. -/
theorem credited_within [DecidableEq ι] {tasks : ι → Task} {known : Table Request Request.key} {w : World ι}
    {tr : List (ι × Label)} (hknown : ∀ q ∈ known, q.note = none) (h : Run (Steps step) (start tasks known) tr w) :
    OneNote w.store ∧ ∀ q ∈ w.store.requests, q.note.isSome → ∃ i r, w.store.row i = some r ∧
      q.key.refundKey = refundKey i ∧ q.invoiceId = r.invoiceId ∧ 0 < q.amount ∧ q.amount ≤ r.amount := by
  have hw : Good w := good_run (good_start hknown) h
  refine ⟨oneNote hw, fun q hq hn => ?_⟩
  obtain ⟨note, hnote⟩ := Option.isSome_iff_exists.mp hn
  obtain ⟨i, r, hr, hkey, hcarries, hpos, -⟩ :=
    hw.store.notes q.key q note (Table.get_eq_some.mpr ⟨hq, rfl⟩) hnote
  have hfits := (hw.store.rows i r hr).split hpos.le
  exact ⟨i, r, hr, hkey, hcarries.1, hcarries.2 ▸ hpos, hcarries.2 ▸ hfits⟩

theorem credited_within_taken_over : ∃ w, recorded w = ([(true, 50, 50)], [50]) ∧ OneNote w.store := by
  have hend : (exec step (start racing Table.empty) takenOver).map recorded =
      some ([(true, 50, 50)], [50]) := by decide +kernel
  obtain ⟨w, hw, he⟩ := Option.map_eq_some_iff.mp hend
  exact ⟨w, he, (credited_within (fun _ hq => absurd hq Table.not_mem_empty) (run_iff_exec.mpr hw)).1⟩

end TraxJourney.Billing.Withdrawal
