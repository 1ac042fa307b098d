/-
  File:      Billing/Claims.lean
  Subject:   What holds of the refund ledger, whatever the runs do: the invariant of the store, what
             a run knows of the row it claimed, and what one write does to both.

  * `SubscriptionRefund.Sound` -- a row never records more than its amount, and a final row has no
    claim.
-/
import TraxJourney.Billing.Ledger

namespace TraxJourney.Billing.Withdrawal

open Lib

/-! ## 1. Rows -/

/-- What holds of every row. -/
structure SubscriptionRefund.Sound (r : SubscriptionRefund) : Prop where
  refunded : 0 ≤ r.refunded
  owed : 0 ≤ r.owed
  sum : r.refunded + r.owed ≤ max r.amount 0
  split : 0 ≤ r.toRefund → r.toRefund ≤ r.amount
  unsent : r.state = .pending → r.refunded = 0 ∧ r.refundId = ""
  pending : r.state = .pending → 0 ≤ r.toRefund → r.toRefund + r.owed ≤ r.amount
  attempt : 0 < r.attempt → 0 ≤ r.toRefund
  final : r.state.final = true → r.claimToken = none

/-- A row, and the same row later. -/
structure Later (r r' : SubscriptionRefund) : Prop where
  subscription : r'.subscriptionId = r.subscriptionId
  amount : 0 ≤ r.amount → r'.amount = r.amount ∧ r'.invoiceId = r.invoiceId
  split : 0 ≤ r.toRefund → r'.toRefund = r.toRefund
  attempt : r.attempt ≤ r'.attempt
  final : r.state.final = true → r'.state.final = true

variable {r r' r'' : SubscriptionRefund}

theorem Later.refl (r : SubscriptionRefund) : Later r r :=
  ⟨rfl, fun _ => ⟨rfl, rfl⟩, fun _ => rfl, Nat.le_refl _, id⟩

theorem Later.trans (h : Later r r') (h' : Later r' r'') : Later r r'' where
  subscription := h'.subscription.trans h.subscription
  amount hr := by
    obtain ⟨ha, hi⟩ := h.amount hr
    obtain ⟨ha', hi'⟩ := h'.amount (ha ▸ hr)
    exact ⟨ha'.trans ha, hi'.trans hi⟩
  split hr := by
    have hs := h.split hr
    exact (h'.split (hs ▸ hr)).trans hs
  attempt := Nat.le_trans h.attempt h'.attempt
  final hr := h'.final (h.final hr)

theorem pending_of_token {t : ℕ} (h : r.Sound) (ht : r.claimToken = some t) : r.state = .pending := by
  cases hs : r.state with
  | pending => rfl
  | done | owed | settled =>
    have hnone := h.final (by rw [hs]; rfl)
    rw [ht] at hnone
    cases hnone

/-- The row has an amount, or it is final: it is kept. -/
def Fixed (r : SubscriptionRefund) : Prop := 0 ≤ r.amount ∨ r.state.final = true

theorem Later.fixed (h : Later r r') (hr : Fixed r) : Fixed r' := by
  rcases hr with ha | hf
  · exact .inl ((h.amount ha).1 ▸ ha)
  · exact .inr (h.final hf)

/-- The request was made with the invoice and the amount that the row has fixed. -/
def Request.Carries (q : Request) (r : SubscriptionRefund) : Prop :=
  q.invoiceId = r.invoiceId ∧ q.amount = r.toRefund

theorem Later.carries {q : Request} (h : Later r r') (hr : r.Sound) (hs : 0 ≤ r.toRefund) :
    q.Carries r' ↔ q.Carries r := by
  have hle := hr.split hs
  unfold Request.Carries
  rw [(h.amount (by omega)).2, h.split hs]

/-! ## 2. The store, and what a run knows of it -/

structure Store.Ok (s : Store) : Prop where
  rows : ∀ i r, s.row i = some r → r.Sound
  tokens : ∀ i r t, s.row i = some r → r.claimToken = some t → t < s.tokens
  bumped : ∀ i r a, s.row i = some r → a < r.attempt →
    ∃ q, s.requests.get ⟨refundKey i, a⟩ = some q ∧ ¬ q.Carries r
  notes : ∀ key q note, s.requests.get key = some q → q.note = some note →
    ∃ i r, s.row i = some r ∧ key.refundKey = refundKey i ∧ q.Carries r ∧ 0 < r.toRefund ∧
      key.attempt ≤ r.attempt

/-- A claim as a run holds it: its token, its copy of the row, and whether the row's last key was
    found in use. -/
structure Claim where
  token : ℕ
  row : SubscriptionRefund
  conflict : Bool

structure Claim.Known (c : Claim) (s : Store) : Prop where
  issued : c.token < s.tokens
  held : ∀ r, s.row c.row.subscriptionId = some r → r.claimToken = some c.token → r = c.row
  seen : 0 ≤ c.row.amount → ∃ r, s.row c.row.subscriptionId = some r ∧ Later c.row r
  conflict : c.conflict = true → 0 ≤ c.row.toRefund ∧
    ∃ q, s.requests.get ⟨refundKey c.row.subscriptionId, c.row.attempt⟩ = some q ∧ ¬ q.Carries c.row

/-- What no step undoes. -/
structure Evolves (s s' : Store) : Prop where
  tokens : s.tokens ≤ s'.tokens
  rows : ∀ i r, s.row i = some r → Fixed r → ∃ r', s'.row i = some r' ∧ Later r r'
  requests : ∀ key q, s.requests.get key = some q →
    ∃ q', s'.requests.get key = some q' ∧ q'.invoiceId = q.invoiceId ∧ q'.amount = q.amount

/-- A row under the token is as it was. -/
def Spares (t : ℕ) (s s' : Store) : Prop :=
  ∀ i r, s'.row i = some r → r.claimToken = some t → s.row i = some r

variable {s s' s'' : Store} {c : Claim}

theorem Evolves.refl (s : Store) : Evolves s s :=
  ⟨Nat.le_refl _, fun _ r hr _ => ⟨r, hr, .refl r⟩, fun _ q hq => ⟨q, hq, rfl, rfl⟩⟩

theorem Evolves.trans (h : Evolves s s') (h' : Evolves s' s'') : Evolves s s'' where
  tokens := Nat.le_trans h.tokens h'.tokens
  rows i r hr hf := by
    obtain ⟨r', hr', hl⟩ := h.rows i r hr hf
    obtain ⟨r'', hr'', hl'⟩ := h'.rows i r' hr' (hl.fixed hf)
    exact ⟨r'', hr'', hl.trans hl'⟩
  requests key q hq := by
    obtain ⟨q', hq', hi, ha⟩ := h.requests key q hq
    obtain ⟨q'', hq'', hi', ha'⟩ := h'.requests key q' hq'
    exact ⟨q'', hq'', hi'.trans hi, ha'.trans ha⟩

theorem Claim.Known.mono (h : c.Known s) (he : Evolves s s') (hs : Spares c.token s s') : c.Known s' where
  issued := Nat.lt_of_lt_of_le h.issued he.tokens
  held r hr ht := h.held r (hs _ r hr ht) ht
  seen ha := by
    obtain ⟨r, hr, hl⟩ := h.seen ha
    obtain ⟨r', hr', hl'⟩ := he.rows _ r hr (hl.fixed (.inl ha))
    exact ⟨r', hr', hl.trans hl'⟩
  conflict hc := by
    obtain ⟨hpos, q, hq, hno⟩ := h.conflict hc
    obtain ⟨q', hq', hi, ha⟩ := he.requests _ q hq
    refine ⟨hpos, q', hq', ?_⟩
    unfold Request.Carries at hno ⊢
    rwa [hi, ha]

/-! ## 3. A row written -/

/-- The ledger with a row written, and some tokens given out. -/
def Store.write (s : Store) (r : SubscriptionRefund) (n : ℕ) : Store :=
  { s with ledger := s.ledger.put r, tokens := n }

variable {i : String}

theorem Store.write_row {n : ℕ} :
    (s.write r n).row i = if i = r.subscriptionId then some r else s.row i := Table.get_put

theorem Store.row_key (h : s.row i = some r) : r.subscriptionId = i := Table.key_of_get h

/-- What the row may be written over: no row, or an earlier state of it. -/
def Overwrites (s : Store) (r : SubscriptionRefund) : Prop :=
  ∀ old, s.row r.subscriptionId = some old → Later old r

theorem Evolves.write {n : ℕ} (hn : s.tokens ≤ n) (hr : Overwrites s r) : Evolves s (s.write r n) where
  tokens := hn
  rows i old hold _ := by
    rw [Store.write_row]
    split
    · rename_i hi
      subst hi
      exact ⟨r, rfl, hr old hold⟩
    · exact ⟨old, hold, .refl old⟩
  requests _ q hq := ⟨q, hq, rfl, rfl⟩

theorem Spares.write {t n : ℕ} (hr : r.claimToken ≠ some t) : Spares t s (s.write r n) := by
  intro i r' hr' ht
  rw [Store.write_row] at hr'
  split at hr'
  · cases hr'
    exact absurd ht hr
  · exact hr'

theorem Store.Ok.write {n : ℕ} (h : s.Ok) (hn : s.tokens ≤ n) (hr : r.Sound)
    (ht : ∀ t, r.claimToken = some t → t < n) (hover : Overwrites s r)
    (hb : ∀ a < r.attempt, ∃ q, s.requests.get ⟨refundKey r.subscriptionId, a⟩ = some q ∧ ¬ q.Carries r) :
    (s.write r n).Ok where
  rows i r' hr' := by
    rw [Store.write_row] at hr'
    split at hr'
    · cases hr'
      exact hr
    · exact h.rows i r' hr'
  tokens i r' t hr' ht' := by
    rw [Store.write_row] at hr'
    split at hr'
    · cases hr'
      exact ht t ht'
    · exact Nat.lt_of_lt_of_le (h.tokens i r' t hr' ht') hn
  bumped i r' a hr' ha := by
    rw [Store.write_row] at hr'
    split at hr'
    · rename_i hi
      cases hr'
      subst hi
      exact hb a ha
    · exact h.bumped i r' a hr' ha
  notes key q note hq hnote := by
    obtain ⟨i, old, hold, hkey, hc, hpos, hle⟩ := h.notes key q note hq hnote
    obtain ⟨r', hr', hl⟩ := (Evolves.write hn hover).rows i old hold
      (.inl (by have := (h.rows i old hold).split (le_of_lt hpos); omega))
    refine ⟨i, r', hr', hkey, ?_, ?_, Nat.le_trans hle hl.attempt⟩
    · exact (hl.carries (h.rows i old hold) (le_of_lt hpos)).mpr hc
    · rwa [hl.split (le_of_lt hpos)]

theorem Store.Ok.bumped_later (h : s.Ok) (hr : s.row r'.subscriptionId = some r) (hl : Later r r')
    (ha : r'.attempt = r.attempt) :
    ∀ a < r'.attempt, ∃ q, s.requests.get ⟨refundKey r'.subscriptionId, a⟩ = some q ∧ ¬ q.Carries r' := by
  intro a hlt
  rw [ha] at hlt
  obtain ⟨q, hq, hno⟩ := h.bumped _ r a hr hlt
  have hsound := h.rows _ r hr
  have hs : 0 ≤ r.toRefund := hsound.attempt (by omega)
  exact ⟨q, hq, fun hc => hno ((hl.carries hsound hs).mp hc)⟩

/-! ## 4. A row dropped -/

def Store.drop (s : Store) (i : String) : Store := { s with ledger := s.ledger.erase i }

variable {j : String}

theorem Store.drop_row : (s.drop j).row i = if i = j then none else s.row i := Table.get_erase

theorem Store.drop_some (h : (s.drop j).row i = some r) : s.row i = some r := by
  rw [Store.drop_row] at h
  split at h
  · cases h
  · exact h

theorem Evolves.drop (hj : ∀ r, s.row j = some r → ¬ Fixed r) : Evolves s (s.drop j) where
  tokens := Nat.le_refl _
  rows i r hr hf := by
    rw [Store.drop_row]
    split
    · rename_i hi
      subst hi
      exact absurd hf (hj r hr)
    · exact ⟨r, hr, .refl r⟩
  requests _ q hq := ⟨q, hq, rfl, rfl⟩

theorem Store.Ok.drop (h : s.Ok) (hj : ∀ r, s.row j = some r → ¬ Fixed r) : (s.drop j).Ok where
  rows i r hr := h.rows i r (drop_some hr)
  tokens i r t hr ht := h.tokens i r t (drop_some hr) ht
  bumped i r a hr ha := h.bumped i r a (drop_some hr) ha
  notes key q note hq hnote := by
    obtain ⟨i, r, hr, hkey, hc, hpos, hle⟩ := h.notes key q note hq hnote
    have hfix : Fixed r := .inl (by have := (h.rows i r hr).split (le_of_lt hpos); omega)
    refine ⟨i, r, ?_, hkey, hc, hpos, hle⟩
    rw [Store.drop_row, if_neg]
    · exact hr
    · rintro rfl
      exact hj r hr hfix

/-! ## 5. A request recorded -/

def Store.record (s : Store) (q : Request) : Store := { s with requests := s.requests.put q }

theorem Evolves.record {q : Request}
    (hq : ∀ p, s.requests.get q.key = some p → q.invoiceId = p.invoiceId ∧ q.amount = p.amount) :
    Evolves s (s.record q) where
  tokens := Nat.le_refl _
  rows _ r hr _ := ⟨r, hr, .refl r⟩
  requests key p hp := by
    have hget : (s.record q).requests.get key = if key = q.key then some q else s.requests.get key :=
      Table.get_put
    rw [hget]
    split
    · rename_i hk
      subst hk
      exact ⟨q, rfl, hq p hp⟩
    · exact ⟨p, hp, rfl, rfl⟩

theorem Store.Ok.record {q : Request} (h : s.Ok)
    (hq : ∀ p, s.requests.get q.key = some p → q.invoiceId = p.invoiceId ∧ q.amount = p.amount)
    (hnote : ∀ note, q.note = some note → ∃ i r, s.row i = some r ∧
      q.key.refundKey = refundKey i ∧ q.Carries r ∧ 0 < r.toRefund ∧ q.key.attempt ≤ r.attempt) :
    (s.record q).Ok where
  rows := h.rows
  tokens := h.tokens
  bumped i r a hr ha := by
    obtain ⟨p, hp, hno⟩ := h.bumped i r a hr ha
    obtain ⟨p', hp', hi, hamt⟩ := (Evolves.record hq).requests _ p hp
    refine ⟨p', hp', ?_⟩
    unfold Request.Carries at hno ⊢
    rwa [hi, hamt]
  notes key p note hp hn := by
    have hget : (s.record q).requests.get key = if key = q.key then some q else s.requests.get key :=
      Table.get_put
    rw [hget] at hp
    split at hp
    · rename_i hk
      cases hp
      subst hk
      exact hnote note hn
    · exact h.notes key p note hp hn

/-- **At most one note for a refund key**, void or not: two keys that made a note are one. -/
theorem Store.Ok.one_note {k k' : IdempotencyKey} {q q' : Request} {note note' : CreditNote}
    (h : s.Ok) (hq : s.requests.get k = some q) (hq' : s.requests.get k' = some q')
    (hn : q.note = some note) (hn' : q'.note = some note') (hk : k.refundKey = k'.refundKey) :
    k = k' := by
  obtain ⟨i, r, hr, hkey, hc, hpos, hle⟩ := h.notes k q note hq hn
  obtain ⟨j, r', hr', hkey', hc', hpos', hle'⟩ := h.notes k' q' note' hq' hn'
  obtain rfl : i = j := refundKey_inj.mp (hkey.symm.trans (hk.trans hkey'))
  obtain rfl : r = r' := Option.some.inj (hr.symm.trans hr')
  -- below the row's attempt every key is known with other parameters than the row's
  have hlast : ∀ (k : IdempotencyKey) (q : Request), s.requests.get k = some q →
      k.refundKey = refundKey i → q.Carries r → k.attempt ≤ r.attempt → k.attempt = r.attempt := by
    intro k q hq hkey hc hle
    by_contra hne
    obtain ⟨p, hp, hno⟩ := h.bumped i r k.attempt hr (by omega)
    have hke : k = ⟨refundKey i, k.attempt⟩ := by rw [← hkey]
    rw [← hke, hq] at hp
    cases hp
    exact hno hc
  have hlast' : k = ⟨refundKey i, r.attempt⟩ := by rw [← hkey, ← hlast k q hq hkey hc hle]
  rw [hlast', ← hkey', ← hlast k' q' hq' hkey' hc' hle']

end TraxJourney.Billing.Withdrawal
