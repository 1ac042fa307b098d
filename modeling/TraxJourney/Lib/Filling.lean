/-
  File:      Lib/Filling.lean
  Subject:   A total shared out in proportion to weights, no share below one bound or above another: the
             one scale at which the shares add up, by bisection.

  * **`filled_solved`**, `filled_solved_near` -- the scale solved from the shares at the end of the
    interval: exact where no bound is met inside it, else off by no more than the interval allows.
-/
import Mathlib.Tactic.FieldSimp
import Mathlib.Tactic.Linarith
import Mathlib.Tactic.Positivity
import Mathlib.Tactic.Ring
import TraxJourney.Lib.Doubles

namespace TraxJourney.Lib

open Numerals

section Clamp

variable {K : Type*} [LinearOrder K] {lo hi x y : K}

/-! ## 1. Between two bounds -/

def clamp (lo hi x : K) : K := min hi (max lo x)

theorem clamp_mono (h : x ≤ y) : clamp lo hi x ≤ clamp lo hi y := min_le_min_left hi (max_le_max_left lo h)

theorem clamp_between (h : lo ≤ hi) : lo ≤ clamp lo hi x ∧ clamp lo hi x ≤ hi :=
  ⟨le_min h (le_max_left lo x), min_le_left _ _⟩

theorem clamp_of_le (h : lo ≤ hi) (hx : x ≤ lo) : clamp lo hi x = lo := by
  rw [clamp, max_eq_left hx, min_eq_right h]

theorem clamp_of_ge (hx : hi ≤ x) : clamp lo hi x = hi := min_eq_left (hx.trans (le_max_right lo x))

theorem clamp_of_between (hlo : lo ≤ x) (hhi : x ≤ hi) : clamp lo hi x = x := by
  rw [clamp, max_eq_right hlo, min_eq_right hhi]

end Clamp

variable {K : Type*} [Field K] [LinearOrder K] [IsStrictOrderedRing K]
  {lo hi x y lam mu total : K} {ws : List K}

theorem clamp_sub_le (h : x ≤ y) : clamp lo hi y - clamp lo hi x ≤ y - x := by
  unfold clamp
  rcases le_total hi (max lo x) with hx | hx
  · rw [min_eq_left hx, min_eq_left (hx.trans (max_le_max_left lo h)), sub_self]
    exact sub_nonneg.mpr h
  · rw [min_eq_right hx]
    have hy : min hi (max lo y) ≤ max lo y := min_le_right _ _
    have hmax : max lo y ≤ max lo x + (y - x) := by
      refine max_le ?_ ?_
      · linarith [le_max_left lo x]
      · linarith [le_max_right lo x]
    linarith

/-! ## 2. What the shares add up to -/

def filled (ws : List K) (lo hi lam : K) : K := (ws.map fun w => clamp lo hi (lam * w)).sum

variable (lo hi) in
theorem filled_mono (hw : ∀ w ∈ ws, 0 ≤ w) (h : lam ≤ mu) : filled ws lo hi lam ≤ filled ws lo hi mu :=
  List.sum_le_sum fun w hmem => clamp_mono (mul_le_mul_of_nonneg_right h (hw w hmem))

omit [IsStrictOrderedRing K] in
theorem filled_le [IsOrderedAddMonoid K] (ws : List K) (lo hi lam : K) :
    filled ws lo hi lam ≤ ws.length * hi := by
  unfold filled
  have hsum := List.sum_le_card_nsmul (ws.map fun w => clamp lo hi (lam * w)) hi fun x hx => by
    obtain ⟨w, -, heq⟩ := List.mem_map.mp hx
    rw [← heq]
    exact min_le_left _ _
  rwa [List.length_map, nsmul_eq_mul] at hsum

variable (lo hi) in
theorem filled_sub_le (hw : ∀ w ∈ ws, 0 ≤ w) (h : lam ≤ mu) :
    filled ws lo hi mu - filled ws lo hi lam ≤ (mu - lam) * ws.sum := by
  induction ws with
  | nil => simp [filled]
  | cons w ws ih =>
    have hrest := ih fun x hx => hw x (List.mem_cons_of_mem w hx)
    have hle := mul_le_mul_of_nonneg_right h (hw w List.mem_cons_self)
    have hone : clamp lo hi (mu * w) - clamp lo hi (lam * w) ≤ mu * w - lam * w := clamp_sub_le hle
    unfold filled at hrest ⊢
    rw [List.map_cons, List.map_cons, List.sum_cons, List.sum_cons, List.sum_cons, mul_add, sub_mul]
    linarith

/-! ## 3. Bisection -/

/-- The interval halved `n` times: from the middle on where the test holds there, else up to it. -/
def bisect (below : K → Bool) : ℕ → K × K → K × K
  | 0, r => r
  | n + 1, r =>
    let mid := (r.1 + r.2) / 2
    bisect below n (if below mid then (mid, r.2) else (r.1, mid))

theorem bisect_spec (below : K → Bool) (n : ℕ) {r : K × K} (hlo : below r.1 = true)
    (hhi : below r.2 = false) :
    below (bisect below n r).1 = true ∧ below (bisect below n r).2 = false ∧
      (bisect below n r).2 - (bisect below n r).1 = (r.2 - r.1) / 2 ^ n := by
  induction n generalizing r with
  | zero => exact ⟨hlo, hhi, by rw [bisect, pow_zero, div_one]⟩
  | succ n ih =>
    have hhalf : ∀ d : K, d / 2 / 2 ^ n = d / 2 ^ (n + 1) := by
      intro d
      rw [div_div, pow_succ']
    rw [bisect]
    split
    case isTrue hmid =>
      obtain ⟨h1, h2, hlength⟩ := ih (r := ((r.1 + r.2) / 2, r.2)) hmid hhi
      refine ⟨h1, h2, hlength.trans ?_⟩
      rw [← hhalf]
      congr 1
      ring
    case isFalse hmid =>
      obtain ⟨h1, h2, hlength⟩ := ih (r := (r.1, (r.1 + r.2) / 2)) hlo (Bool.eq_false_iff.mpr hmid)
      refine ⟨h1, h2, hlength.trans ?_⟩
      rw [← hhalf]
      congr 1
      ring

omit [LinearOrder K] [IsStrictOrderedRing K] in
theorem bisect_of_below {below : K → Bool} (n : ℕ) (r : K × K) (h : ∀ x, below x = true) :
    (bisect below n r).2 = r.2 := by
  induction n generalizing r with
  | zero => rfl
  | succ n ih =>
    rw [bisect]
    rw [if_pos (h _), ih]

/-! ## 4. The piece that holds the total -/

/-- One weight: the shares at a bound, and the weights of the others. -/
def addPiece (lo hi lam : K) (s : K × K) (w : K) : K × K :=
  let x := lam * w
  if x ≤ lo then (s.1 + lo, s.2)
  else if hi ≤ x then (s.1 + hi, s.2)
  else (s.1, s.2 + w)

def pieces (ws : List K) (lo hi lam : K) : K × K := ws.foldl (addPiece lo hi lam) (0, 0)

/-- At another scale the shares are on the same piece. -/
structure SamePiece (lo hi lam mu : K) (w : K) : Prop where
  low : lam * w ≤ lo → mu * w ≤ lo
  high : hi ≤ lam * w → hi ≤ mu * w
  free : lo < lam * w → lam * w < hi → lo ≤ mu * w ∧ mu * w ≤ hi

omit [IsStrictOrderedRing K] in
theorem filled_eq_pieces (h : lo ≤ hi) (hsame : ∀ w ∈ ws, SamePiece lo hi lam mu w) :
    filled ws lo hi mu = (pieces ws lo hi lam).1 + mu * (pieces ws lo hi lam).2 := by
  have hfold : ∀ (vs : List K) (s : K × K), (∀ w ∈ vs, SamePiece lo hi lam mu w) →
      (vs.foldl (addPiece lo hi lam) s).1 + mu * (vs.foldl (addPiece lo hi lam) s).2 =
        s.1 + mu * s.2 + filled vs lo hi mu := by
    intro vs
    induction vs with
    | nil => intro s _; simp [filled]
    | cons w vs ih =>
      intro s hvs
      have hw := hvs w List.mem_cons_self
      rw [List.foldl_cons, ih _ fun x hx => hvs x (List.mem_cons_of_mem w hx)]
      unfold filled addPiece
      rw [List.map_cons, List.sum_cons]
      dsimp only
      split
      case isTrue hle =>
        rw [clamp_of_le h (hw.low hle)]
        ring
      case isFalse hlo =>
        split
        case isTrue hge =>
          rw [clamp_of_ge (hw.high hge)]
          ring
        case isFalse hhi =>
          obtain ⟨hlo', hhi'⟩ := hw.free (not_le.mp hlo) (not_le.mp hhi)
          rw [clamp_of_between hlo' hhi']
          ring
  have hall := hfold ws (0, 0) hsame
  rw [pieces, hall]
  ring

omit [IsStrictOrderedRing K] in
theorem samePiece_self (lo hi lam w : K) : SamePiece lo hi lam lam w :=
  ⟨fun h => h, fun h => h, fun hlo hhi => ⟨hlo.le, hhi.le⟩⟩

variable (lo hi lam) in
theorem pieces_free (hw : ∀ w ∈ ws, 0 ≤ w) :
    ((pieces ws lo hi lam).2 = 0 ∨ ∃ w ∈ ws, w ≤ (pieces ws lo hi lam).2) ∧
      0 ≤ (pieces ws lo hi lam).2 ∧ (pieces ws lo hi lam).2 ≤ ws.sum := by
  have hfold : ∀ (vs : List K) (s : K × K), (∀ w ∈ vs, 0 ≤ w) → ((vs.foldl (addPiece lo hi lam) s).2 = s.2 ∨
        ∃ w ∈ vs, s.2 + w ≤ (vs.foldl (addPiece lo hi lam) s).2) ∧
      s.2 ≤ (vs.foldl (addPiece lo hi lam) s).2 ∧
      (vs.foldl (addPiece lo hi lam) s).2 ≤ s.2 + vs.sum := by
    intro vs
    induction vs with
    | nil => intro s _; simp
    | cons w vs ih =>
      intro s hvs
      have hw := hvs w List.mem_cons_self
      rw [List.foldl_cons, List.sum_cons]
      obtain ⟨hcases, hleast, hmost⟩ :=
        ih (addPiece lo hi lam s w) fun x hx => hvs x (List.mem_cons_of_mem w hx)
      have hstep : (addPiece lo hi lam s w).2 = s.2 ∨ (addPiece lo hi lam s w).2 = s.2 + w := by
        unfold addPiece
        dsimp only
        split
        · exact Or.inl rfl
        · split
          · exact Or.inl rfl
          · exact Or.inr rfl
      rcases hstep with hsame | hmore
      · rw [hsame] at hcases hleast hmost
        refine ⟨hcases.imp_right fun hex => ?_, hleast, by linarith⟩
        obtain ⟨x, hx, hle⟩ := hex
        exact ⟨x, List.mem_cons_of_mem w hx, hle⟩
      · rw [hmore] at hleast hmost
        exact ⟨Or.inr ⟨w, List.mem_cons_self, hleast⟩, by linarith, by linarith⟩
  have hall := hfold ws (0, 0) hw
  simp only [zero_add] at hall
  exact hall

/-! ## 5. The scale solved -/

/-- `(total - pinned) / free`, or the scale itself where no share is between the bounds. -/
def solved (ws : List K) (lo hi lam total : K) : K :=
  if 0 < (pieces ws lo hi lam).2 then
    (total - (pieces ws lo hi lam).1) / (pieces ws lo hi lam).2
  else lam

/-- No share comes to a bound, or leaves one, between the scales `lam` and `mu`. -/
def NoBoundMet (ws : List K) (lo hi lam mu : K) : Prop :=
  ∀ w ∈ ws, (hi ≤ mu * w → hi ≤ lam * w) ∧ (lo < mu * w → lo ≤ lam * w)

theorem filled_solved (h : lo ≤ hi) (hw : ∀ w ∈ ws, 0 ≤ w) (hle : lam ≤ mu)
    (hbelow : filled ws lo hi lam < total) (habove : total ≤ filled ws lo hi mu)
    (hapart : NoBoundMet ws lo hi lam mu) :
    filled ws lo hi (solved ws lo hi mu total) = total := by
  have hpiece : ∀ nu, lam ≤ nu → nu ≤ mu →
      filled ws lo hi nu = (pieces ws lo hi mu).1 + nu * (pieces ws lo hi mu).2 := by
    intro nu hlam hmu
    refine filled_eq_pieces h fun w hmem => ?_
    have hlamw := mul_le_mul_of_nonneg_right hlam (hw w hmem)
    have hmuw := mul_le_mul_of_nonneg_right hmu (hw w hmem)
    obtain ⟨hhigh, hlow⟩ := hapart w hmem
    exact ⟨hmuw.trans, fun hge => (hhigh hge).trans hlamw,
      fun hlo hhi => ⟨(hlow hlo).trans hlamw, hmuw.trans hhi.le⟩⟩
  obtain ⟨-, hfree, -⟩ := pieces_free lo hi mu hw
  rw [hpiece lam le_rfl hle] at hbelow
  rw [hpiece mu hle le_rfl] at habove
  have hpos : 0 < (pieces ws lo hi mu).2 := by
    rcases hfree.eq_or_lt with hzero | hpos
    · rw [← hzero] at hbelow habove
      linarith
    · exact hpos
  rw [solved, if_pos hpos, hpiece _ ?_ ?_, div_mul_cancel₀ _ hpos.ne', add_sub_cancel]
  · rw [le_div_iff₀ hpos]
    linarith
  · rw [div_le_iff₀ hpos]
    linarith

theorem filled_solved_near {least : K} (h : lo ≤ hi) (hleast : 0 < least) (hw : ∀ w ∈ ws, least ≤ w)
    (hbelow : filled ws lo hi lam < total) (habove : total ≤ filled ws lo hi mu) (hle : lam ≤ mu) :
    |filled ws lo hi (solved ws lo hi mu total) - total| ≤ (mu - lam) * ws.sum * (ws.sum / least) := by
  have hnonneg : ∀ w ∈ ws, 0 ≤ w := fun w hmem => hleast.le.trans (hw w hmem)
  have hgap := filled_sub_le lo hi hnonneg hle
  have hgap' : filled ws lo hi mu - total ≤ (mu - lam) * ws.sum := by linarith
  have hone : 1 ≤ ws.sum / least := by
    rw [one_le_div hleast]
    cases ws with
    | nil =>
      simp only [filled, List.map_nil, List.sum_nil] at hbelow habove
      linarith
    | cons w ws =>
      have hrest := List.sum_nonneg fun x hx => hnonneg x (List.mem_cons_of_mem w hx)
      have hfirst := hw w List.mem_cons_self
      rw [List.sum_cons]
      linarith
  have hmore : (mu - lam) * ws.sum ≤ (mu - lam) * ws.sum * (ws.sum / least) :=
    le_mul_of_one_le_right (by linarith) hone
  obtain ⟨hcases, hfree, -⟩ := pieces_free lo hi mu hnonneg
  unfold solved
  split
  case isFalse =>
    rw [abs_of_nonneg (by linarith)]
    exact hgap'.trans hmore
  case isTrue hpos =>
    have hleastfree : least ≤ (pieces ws lo hi mu).2 := by
      rcases hcases with hzero | hsome
      · rw [hzero] at hpos
        exact absurd hpos (lt_irrefl 0)
      · obtain ⟨w, hmem, hle'⟩ := hsome
        exact (hw w hmem).trans hle'
    have hpiece : filled ws lo hi mu = (pieces ws lo hi mu).1 + mu * (pieces ws lo hi mu).2 :=
      filled_eq_pieces h fun w _ => samePiece_self lo hi mu w
    -- the solved scale is below the upper end, by what is too much over the free weights
    have hback : mu - (total - (pieces ws lo hi mu).1) / (pieces ws lo hi mu).2 =
        (filled ws lo hi mu - total) / (pieces ws lo hi mu).2 := by
      rw [hpiece]
      field_simp
      ring
    have hstep : mu - (total - (pieces ws lo hi mu).1) / (pieces ws lo hi mu).2 ≤
        (mu - lam) * ws.sum / least := by
      rw [hback]
      calc (filled ws lo hi mu - total) / (pieces ws lo hi mu).2
          ≤ (filled ws lo hi mu - total) / least := div_le_div_of_nonneg_left (by linarith) hleast hleastfree
        _ ≤ (mu - lam) * ws.sum / least := div_le_div_of_nonneg_right hgap' hleast.le
    have hbelow' : (total - (pieces ws lo hi mu).1) / (pieces ws lo hi mu).2 ≤ mu := by
      rw [← sub_nonneg, hback]
      exact div_nonneg (by linarith) hpos.le
    have hmove := filled_sub_le lo hi hnonneg hbelow'
    have hdown := filled_mono lo hi hnonneg hbelow'
    have hmove' := mul_le_mul_of_nonneg_right hstep (List.sum_nonneg hnonneg)
    have hsame : (mu - lam) * ws.sum / least * ws.sum = (mu - lam) * ws.sum * (ws.sum / least) := by ring
    rw [abs_le]
    constructor
    · linarith
    · linarith

end TraxJourney.Lib
