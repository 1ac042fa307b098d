/-
  File:      Lib/Newest.lean
  Subject:   A register that takes only newer events, fed in any order and with redeliveries.

  * **`taken_chain`**, **`chain_taken`** -- what is taken of the deliveries of a set of events is a
    chain of it, and every chain is taken in some order.
-/
import Mathlib.Order.Lattice
import Mathlib.Data.List.Basic

namespace TraxJourney.Lib

variable {ε τ σ : Type*} [LinearOrder τ] (time : ε → τ) (opens : ε → Bool)

/-! ## 1. What is taken -/

/-- The events newer than `t` and than all delivered before them. -/
def newer (t : τ) : List ε → List ε
  | [] => []
  | e :: ds => if t < time e then e :: newer (time e) ds else newer t ds

/-- What a register takes that nothing has opened yet. -/
def taken : List ε → List ε
  | [] => []
  | e :: ds => if opens e then e :: newer time (time e) ds else taken ds

/-- The deliveries `ds` bring exactly the events of `es`, each at least once. -/
def Delivers (es ds : List ε) : Prop := (∀ e ∈ ds, e ∈ es) ∧ ∀ e ∈ es, e ∈ ds

instance [DecidableEq ε] (es ds : List ε) : Decidable (Delivers es ds) := inferInstanceAs (Decidable (_ ∧ _))

/-- Events of `es` that the register can take in this order, and nothing else. -/
structure Chain (es : List ε) (c : List ε) : Prop where
  mem : ∀ e ∈ c, e ∈ es
  increasing : c.Pairwise fun e e' => time e < time e'
  opening : ∀ e, c.head? = some e → opens e = true
  closed : ∀ e ∈ es, opens e = true → ∃ m ∈ c, time e ≤ time m

variable {time opens} {es ds c : List ε} {e m : ε} {t : τ}

/-! ## 2. Deliveries make chains -/

theorem newer_mem (h : e ∈ newer time t ds) : e ∈ ds ∧ t < time e := by
  induction ds generalizing t with
  | nil => cases h
  | cons d ds ih =>
    unfold newer at h
    split at h
    · rename_i hlt
      rcases List.mem_cons.mp h with rfl | h
      · exact ⟨List.mem_cons_self, hlt⟩
      · obtain ⟨hm, hd⟩ := ih h
        exact ⟨List.mem_cons_of_mem _ hm, lt_trans hlt hd⟩
    · obtain ⟨hm, hd⟩ := ih h
      exact ⟨List.mem_cons_of_mem _ hm, hd⟩

theorem newer_increasing : (newer time t ds).Pairwise fun e e' => time e < time e' := by
  induction ds generalizing t with
  | nil => exact .nil
  | cons d ds ih =>
    unfold newer
    split
    · exact List.pairwise_cons.mpr ⟨fun e he => (newer_mem he).2, ih⟩
    · exact ih

theorem newer_covers (h : e ∈ ds) : time e ≤ t ∨ ∃ m ∈ newer time t ds, time e ≤ time m := by
  induction ds generalizing t with
  | nil => cases h
  | cons d ds ih =>
    unfold newer
    rcases List.mem_cons.mp h with rfl | h
    · split
      · exact .inr ⟨e, List.mem_cons_self, le_rfl⟩
      · rename_i hle
        exact .inl (not_lt.mp hle)
    · split
      · rcases ih (t := time d) h with hd | ⟨m, hm, hle⟩
        · exact .inr ⟨d, List.mem_cons_self, hd⟩
        · exact .inr ⟨m, List.mem_cons_of_mem _ hm, hle⟩
      · exact ih h

theorem taken_mem (h : e ∈ taken time opens ds) : e ∈ ds := by
  induction ds with
  | nil => cases h
  | cons d ds ih =>
    unfold taken at h
    split at h
    · rcases List.mem_cons.mp h with rfl | h
      · exact List.mem_cons_self
      · exact List.mem_cons_of_mem _ (newer_mem h).1
    · exact List.mem_cons_of_mem _ (ih h)

theorem taken_chain (h : Delivers es ds) : Chain time opens es (taken time opens ds) := by
  refine ⟨fun e he => h.1 e (taken_mem he), ?_, ?_, fun e he ho => ?_⟩
  · clear h
    induction ds with
    | nil => exact .nil
    | cons d ds ih =>
      unfold taken
      split
      · exact List.pairwise_cons.mpr ⟨fun e he => (newer_mem he).2, newer_increasing⟩
      · exact ih
  · clear h
    induction ds with
    | nil => intro e he; cases he
    | cons d ds ih =>
      unfold taken
      split
      · rename_i hd
        intro e he
        cases he
        exact hd
      · exact ih
  · have hin := h.2 e he
    clear h he
    induction ds with
    | nil => cases hin
    | cons d ds ih =>
      unfold taken
      split
      · rcases List.mem_cons.mp hin with rfl | hin
        · exact ⟨e, List.mem_cons_self, le_rfl⟩
        · rcases newer_covers (t := time d) hin with hd | ⟨m, hm, hle⟩
          · exact ⟨d, List.mem_cons_self, hd⟩
          · exact ⟨m, List.mem_cons_of_mem _ hm, hle⟩
      · rename_i hd
        rcases List.mem_cons.mp hin with rfl | hin
        · exact absurd ho hd
        · exact ih hin

/-! ## 3. Every chain is delivered in some order -/

theorem newer_append_increasing (h : (t :: c.map time).Pairwise (· < ·)) :
    newer time t (c ++ ds) = c ++ newer time ((c.map time).getLastD t) ds := by
  induction c generalizing t with
  | nil => rfl
  | cons e c ih =>
    obtain ⟨hall, hc⟩ := List.pairwise_cons.mp h
    have hlt : t < time e := hall (time e) List.mem_cons_self
    rw [List.cons_append, newer, if_pos hlt, ih hc, List.map_cons, List.getLastD_cons]
    rfl

theorem newer_nil (h : ∀ e ∈ ds, time e ≤ t) : newer time t ds = [] := by
  induction ds with
  | nil => rfl
  | cons d ds ih =>
    rw [newer, if_neg (not_lt.mpr (h d List.mem_cons_self))]
    exact ih fun e he => h e (List.mem_cons_of_mem _ he)

theorem taken_append_closed {us : List ε} (time : ε → τ) (ds : List ε) (h : ∀ e ∈ us, opens e = false) :
    taken time opens (us ++ ds) = taken time opens ds := by
  induction us with
  | nil => rfl
  | cons u us ih =>
    rw [List.cons_append, taken, h u List.mem_cons_self, if_neg Bool.false_ne_true]
    exact ih fun e he => h e (List.mem_cons_of_mem _ he)

theorem le_getLastD (h : (t :: c.map time).Pairwise (· < ·)) :
    t ≤ (c.map time).getLastD t ∧ ∀ m ∈ c, time m ≤ (c.map time).getLastD t := by
  induction c generalizing t with
  | nil => exact ⟨le_rfl, fun m hm => nomatch hm⟩
  | cons e c ih =>
    obtain ⟨hall, hc⟩ := List.pairwise_cons.mp h
    obtain ⟨h1, h2⟩ := ih hc
    rw [List.map_cons, List.getLastD_cons]
    refine ⟨le_trans (le_of_lt (hall (time e) List.mem_cons_self)) h1, fun m hm => ?_⟩
    rcases List.mem_cons.mp hm with rfl | hm
    · exact h1
    · exact h2 m hm

theorem chain_taken (h : Chain time opens es c) : ∃ ds, Delivers es ds ∧ taken time opens ds = c := by
  cases c with
  | nil =>
    refine ⟨es, ⟨fun _ he => he, fun _ he => he⟩, ?_⟩
    have hclosed : ∀ e ∈ es, opens e = false := by
      intro e he
      by_contra ho
      obtain ⟨m, hm, -⟩ := h.closed e he (by simpa using ho)
      cases hm
    have := taken_append_closed time [] hclosed
    rwa [List.append_nil] at this
  | cons e c =>
    have hinc : (time e :: c.map time).Pairwise (· < ·) := by
      have := h.increasing
      rw [← List.pairwise_map] at this
      exact this
    obtain ⟨hfirst, hlast⟩ := le_getLastD hinc
    generalize htop : (c.map time).getLastD (time e) = top at hfirst hlast
    refine ⟨es.filter (fun d => top < time d) ++ ((e :: c) ++ es.filter fun d => time d ≤ top),
      ⟨fun d hd => ?_, fun d hd => ?_⟩, ?_⟩
    · rcases List.mem_append.mp hd with hd | hd
      · exact List.mem_of_mem_filter hd
      · rcases List.mem_append.mp hd with hd | hd
        · exact h.mem d hd
        · exact List.mem_of_mem_filter hd
    · rcases lt_or_ge top (time d) with hlt | hge
      · exact List.mem_append_left _ (List.mem_filter.mpr ⟨hd, decide_eq_true hlt⟩)
      · exact List.mem_append_right _ (List.mem_append_right _ (List.mem_filter.mpr ⟨hd, decide_eq_true hge⟩))
    · rw [taken_append_closed]
      · rw [List.cons_append, taken, if_pos (h.opening e rfl), newer_append_increasing hinc, htop,
          newer_nil, List.append_nil]
        exact fun d hd => of_decide_eq_true (List.mem_filter.mp hd).2
      · intro d hd
        obtain ⟨hin, hlt⟩ := List.mem_filter.mp hd
        by_contra ho
        obtain ⟨m, hm, hle⟩ := h.closed d hin (by simpa using ho)
        refine absurd (of_decide_eq_true hlt) (not_lt.mpr (le_trans hle ?_))
        rcases List.mem_cons.mp hm with rfl | hm
        · exact hfirst
        · exact hlast m hm

/-! ## 4. The state of the register -/

/-- **The register holds what the events taken make of it**, where `L s m` is that `m` was the
    last event taken in state `s`. -/
theorem foldl_taken {f app : σ → ε → σ} {L : σ → ε → Prop} {s : σ} {P : ε → Prop}
    (hclosed : ∀ e, P e → f s e = if opens e then app s e else s)
    (hopen : ∀ e, P e → opens e = true → L (app s e) e)
    (hnext : ∀ s m e, P m → P e → L s m → f s e = if time m < time e then app s e else s)
    (hlast : ∀ s m e, P m → P e → L s m → time m < time e → L (app s e) e)
    (hds : ∀ e ∈ ds, P e) : ds.foldl f s = (taken time opens ds).foldl app s := by
  have hopened : ∀ (ds : List ε) (s : σ) (m : ε), P m → L s m → (∀ e ∈ ds, P e) →
      ds.foldl f s = (newer time (time m) ds).foldl app s := by
    intro ds
    induction ds with
    | nil => intros; rfl
    | cons d ds ih =>
      intro s m hm hl hds
      have hd := hds d List.mem_cons_self
      have hds' : ∀ e ∈ ds, P e := fun e he => hds e (List.mem_cons_of_mem _ he)
      rw [List.foldl_cons, hnext s m d hm hd hl, newer]
      split
      · rename_i hlt
        exact ih _ d hd (hlast s m d hm hd hl hlt) hds'
      · exact ih s m hm hl hds'
  induction ds with
  | nil => rfl
  | cons d ds ih =>
    have hd := hds d List.mem_cons_self
    have hds' : ∀ e ∈ ds, P e := fun e he => hds e (List.mem_cons_of_mem _ he)
    rw [List.foldl_cons, hclosed d hd, taken]
    by_cases ho : opens d = true
    · rw [if_pos ho, if_pos ho]
      exact hopened ds _ d hd (hopen d hd ho) hds'
    · rw [if_neg ho, if_neg ho]
      exact ih hds'

end TraxJourney.Lib
