/-
  File:      Lib/Forest.lean
  Subject:   Rows that name a parent by its number: the forest they make, and the removal of a row with
             everything under it.

  * `Hangs rows q x` -- from `x` the parents lead to the number `q`;
    **`mem_removeFrom`** -- what hangs from the queue is removed, and nothing else.
-/
import Mathlib.Data.List.Nodup
import Mathlib.Data.List.Perm.Subperm

namespace TraxJourney.Lib

/-- The number of a row, and that of its parent. -/
structure Parents (α : Type*) where
  key : α → ℕ
  parent : α → Option ℕ

namespace Parents

variable {α : Type*} (P : Parents α) {rows rows' front : List α} {r x y z : α} {n m q : ℕ}

/-! ## 1. The forest -/

def children (rows : List α) (k : ℕ) : List α := rows.filter fun r => decide (P.parent r = some k)

/-- No row has the number of its parent. -/
def isTop (rows : List α) (r : α) : Bool := (P.parent r).all fun p => !rows.any fun s => decide (P.key s = p)

/-- A row, and what hangs under it. -/
def below (rows : List α) : ℕ → α → List α
  | 0, r => [r]
  | n + 1, r => r :: (P.children rows (P.key r)).flatMap (below rows n)

/-- `y` is the parent of `x`. -/
def Under (rows : List α) (x y : α) : Prop := y ∈ rows ∧ P.parent x = some (P.key y)

/-- From `x` the parents lead to `y`. -/
def Up (rows : List α) : α → α → Prop := Relation.ReflTransGen (P.Under rows)

structure Ordered (rows : List α) : Prop where
  unique : (rows.map P.key).Nodup
  before : ∀ x ∈ rows, ∀ y, P.Under rows x y → P.key y < P.key x

variable {P}

theorem mem_children : x ∈ P.children rows q ↔ x ∈ rows ∧ P.parent x = some q := by
  unfold children
  rw [List.mem_filter, decide_eq_true_iff]

theorem isTop_iff : P.isTop rows r = true ↔ ∀ y, ¬ P.Under rows r y := by
  unfold isTop Under
  cases P.parent r with
  | none => simp
  | some p =>
    rw [Option.all_some, Bool.not_eq_true', List.any_eq_false]
    constructor
    · intro h y hy
      exact h y hy.1 (decide_eq_true (Option.some.inj hy.2).symm)
    · intro h y hy hkey
      exact h y ⟨hy, congrArg some (of_decide_eq_true hkey).symm⟩

theorem eq_of_key (hrows : (rows.map P.key).Nodup) (hx : x ∈ rows) (hy : y ∈ rows)
    (h : P.key x = P.key y) : x = y :=
  List.inj_on_of_nodup_map hrows hx hy h

theorem Under.unique (hrows : (rows.map P.key).Nodup) (hy : P.Under rows x y)
    (hz : P.Under rows x z) : y = z :=
  eq_of_key hrows hy.1 hz.1 (Option.some.inj (hy.2.symm.trans hz.2))

theorem Up.mem (h : P.Up rows x y) (hx : x ∈ rows) : y ∈ rows := by
  induction h with
  | refl => exact hx
  | tail _ hyz _ => exact hyz.1

theorem Up.le (hrows : P.Ordered rows) (h : P.Up rows x y) (hx : x ∈ rows) : P.key y ≤ P.key x := by
  induction h with
  | refl => exact Nat.le_refl _
  | @tail y z hxy hyz ih =>
    have hy : y ∈ rows := Up.mem hxy hx
    exact Nat.le_trans (Nat.le_of_lt (hrows.before y hy z hyz)) ih

theorem Up.total (hrows : (rows.map P.key).Nodup) (hy : P.Up rows x y) (hz : P.Up rows x z) :
    P.Up rows y z ∨ P.Up rows z y :=
  Relation.ReflTransGen.total_of_right_unique (fun _ _ _ h h' => h.unique hrows h') hy hz

theorem up_of_mem_below (hr : r ∈ rows) (hx : x ∈ P.below rows n r) : x ∈ rows ∧ P.Up rows x r := by
  induction n generalizing r with
  | zero =>
    rw [below, List.mem_singleton] at hx
    subst hx
    exact ⟨hr, .refl⟩
  | succ n ih =>
    rw [below, List.mem_cons, List.mem_flatMap] at hx
    rcases hx with rfl | ⟨c, hc, hx⟩
    · exact ⟨hr, .refl⟩
    · obtain ⟨hc, hparent⟩ := mem_children.mp hc
      obtain ⟨hmem, hup⟩ := ih hc hx
      exact ⟨hmem, hup.tail ⟨hr, hparent⟩⟩

theorem countP_lt {p q : α → Bool} (hx : x ∈ rows) (hpq : ∀ y, p y = true → q y = true)
    (hp : p x = false) (hq : q x = true) : rows.countP p < rows.countP q := by
  obtain ⟨l, l', rfl⟩ := List.append_of_mem hx
  have hfirst : l.countP p ≤ l.countP q := List.countP_mono_left fun y _ => hpq y
  have hsecond : l'.countP p ≤ l'.countP q := List.countP_mono_left fun y _ => hpq y
  have hnot : ¬ p x = true := by rw [hp]; exact Bool.false_ne_true
  rw [List.countP_append, List.countP_append, List.countP_cons_of_neg hnot, List.countP_cons_of_pos hq]
  omega

/-- How many rows are numbered from one row to another. -/
def between (P : Parents α) (rows : List α) (r x : α) : ℕ :=
  rows.countP fun s => decide (P.key r < P.key s ∧ P.key s ≤ P.key x)

theorem mem_below_of_up (hrows : P.Ordered rows) (h : P.Up rows x r) (hx : x ∈ rows)
    (hn : between P rows r x ≤ n) : x ∈ P.below rows n r := by
  induction h generalizing n with
  | refl => cases n <;> exact List.mem_cons_self
  | @tail c r hxc hcr ih =>
    have hc : c ∈ rows := Up.mem hxc hx
    have hlt := hrows.before c hc r hcr
    have hle : P.key c ≤ P.key x := Up.le hrows hxc hx
    have hless : between P rows c x < between P rows r x := by
      refine countP_lt hc (fun s hs => ?_) (by simp) (decide_eq_true ⟨hlt, hle⟩)
      have hboth := of_decide_eq_true hs
      exact decide_eq_true ⟨Nat.lt_trans hlt hboth.1, hboth.2⟩
    cases n with
    | zero => omega
    | succ n =>
      rw [below, List.mem_cons, List.mem_flatMap]
      exact .inr ⟨c, mem_children.mpr ⟨hc, hcr.2⟩, ih (by omega)⟩

theorem disjoint_below (hrows : P.Ordered rows) (hx : x ∈ rows) (hy : y ∈ rows)
    (hxy : ¬ P.Up rows x y) (hyx : ¬ P.Up rows y x) :
    List.Disjoint (P.below rows n x) (P.below rows n y) := by
  intro z hzx hzy
  obtain ⟨-, hupx⟩ := up_of_mem_below hx hzx
  obtain ⟨-, hupy⟩ := up_of_mem_below hy hzy
  exact (hupx.total hrows.unique hupy).elim hxy hyx

theorem nodup_flatMap_below (hrows : P.Ordered rows)
    (hbelow : ∀ x ∈ front, (P.below rows n x).Nodup) (hsub : ∀ x ∈ front, x ∈ rows)
    (hfront : front.Nodup) (hapart : ∀ x ∈ front, ∀ y ∈ front, P.Up rows x y → x = y) :
    (front.flatMap (P.below rows n)).Nodup := by
  rw [List.nodup_flatMap]
  refine ⟨hbelow, List.Pairwise.imp_of_mem (fun {x y} hx hy hne => ?_) hfront⟩
  exact disjoint_below hrows (hsub x hx) (hsub y hy) (fun h => hne (hapart x hx y hy h)) fun h =>
    hne (hapart y hy x hx h).symm

theorem nodup_rows (hrows : P.Ordered rows) : rows.Nodup := List.Nodup.of_map _ hrows.unique

theorem nodup_below (hrows : P.Ordered rows) (hr : r ∈ rows) : (P.below rows n r).Nodup := by
  induction n generalizing r with
  | zero => exact List.nodup_singleton r
  | succ n ih =>
    have hchild : ∀ c ∈ P.children rows (P.key r), c ∈ rows ∧ P.Under rows c r := fun c hc =>
      ⟨(mem_children.mp hc).1, hr, (mem_children.mp hc).2⟩
    have hlt : ∀ c ∈ P.children rows (P.key r), P.key r < P.key c := fun c hc =>
      hrows.before c (hchild c hc).1 r (hchild c hc).2
    rw [below, List.nodup_cons]
    constructor
    · intro hmem
      obtain ⟨c, hc, hrc⟩ := List.mem_flatMap.mp hmem
      obtain ⟨-, hup⟩ := up_of_mem_below (hchild c hc).1 hrc
      exact absurd (hup.le hrows hr) (Nat.not_le.mpr (hlt c hc))
    · refine nodup_flatMap_below hrows (fun c hc => ih (hchild c hc).1) (fun c hc => (hchild c hc).1)
        ((nodup_rows hrows).filter _) fun c hc d hd hup => ?_
      -- else the parent of both would be under one of them
      rcases Relation.ReflTransGen.cases_head hup with heq | ⟨e, hce, hed⟩
      · exact heq
      · obtain rfl := hce.unique hrows.unique (hchild c hc).2
        exact absurd (Up.le hrows hed hr) (Nat.not_le.mpr (hlt d hd))

theorem exists_top (hrows : P.Ordered rows) (hx : x ∈ rows) :
    ∃ t ∈ rows, P.isTop rows t = true ∧ P.Up rows x t := by
  induction hk : P.key x using Nat.strongRecOn generalizing x with
  | _ k ih =>
    by_cases htop : P.isTop rows x = true
    · exact ⟨x, hx, htop, .refl⟩
    · rw [isTop_iff, not_forall] at htop
      obtain ⟨y, hy⟩ := htop
      have hxy := not_not.mp hy
      obtain ⟨t, ht, htop, hup⟩ := ih (P.key y) (hk ▸ hrows.before x hx y hxy) hxy.1 rfl
      exact ⟨t, ht, htop, .head hxy hup⟩

theorem perm_below (hrows : P.Ordered rows) :
    ((rows.filter fun r => P.isTop rows r).flatMap (P.below rows rows.length)).Perm rows := by
  have htop : ∀ t ∈ rows.filter fun r => P.isTop rows r, t ∈ rows ∧ P.isTop rows t = true :=
    fun t ht => List.mem_filter.mp ht
  have hnodup := nodup_flatMap_below (n := rows.length) hrows
    (fun t ht => nodup_below hrows (htop t ht).1) (fun t ht => (htop t ht).1)
    ((nodup_rows hrows).filter _) fun t ht u hu hup => by
      rcases Relation.ReflTransGen.cases_head hup with heq | ⟨e, hte, -⟩
      · exact heq
      · exact absurd hte (isTop_iff.mp (htop t ht).2 e)
  rw [List.perm_ext_iff_of_nodup hnodup (nodup_rows hrows)]
  intro x
  rw [List.mem_flatMap]
  constructor
  · intro ⟨t, ht, hx⟩
    exact (up_of_mem_below (htop t ht).1 hx).1
  · intro hx
    obtain ⟨t, ht, htop', hup⟩ := exists_top hrows hx
    exact ⟨t, List.mem_filter.mpr ⟨ht, htop'⟩, mem_below_of_up hrows hup hx List.countP_le_length⟩

/-! ## 2. Removal -/

/-- What is left when the row of a number and those that name it as their parent are gone. -/
def without (P : Parents α) (rows : List α) (q : ℕ) : List α :=
  rows.filter fun r => !decide (P.parent r = some q) && !decide (P.key r = q)

/-- The numbers of the queue, one after another: the row and its children go, and the numbers of these
    join the queue. Nothing where the turns run out. -/
def removeFrom (P : Parents α) : ℕ → List α → List ℕ → Option (List α)
  | _, rows, [] => some rows
  | 0, _, _ :: _ => none
  | n + 1, rows, current :: queue =>
    removeFrom P n (without P rows current) (queue ++ (P.children rows current).map P.key)

/-- From `x` the parents lead to the number `q`, its own at first. -/
inductive Hangs (P : Parents α) (rows : List α) (q : ℕ) : α → Prop where
  | self {x : α} : P.key x = q → Hangs P rows q x
  | child {x : α} : P.parent x = some q → Hangs P rows q x
  | step {x y : α} : P.Under rows x y → Hangs P rows q y → Hangs P rows q x

theorem mem_without : x ∈ without P rows q ↔ x ∈ rows ∧ P.parent x ≠ some q ∧ P.key x ≠ q := by
  unfold without
  rw [List.mem_filter, Bool.and_eq_true, Bool.not_eq_true', Bool.not_eq_true',
    decide_eq_false_iff_not, decide_eq_false_iff_not]

theorem length_without (rows : List α) (q : ℕ) :
    (without P rows q).length + (P.children rows q).length ≤ rows.length := by
  induction rows with
  | nil => exact Nat.le_refl _
  | cons r rows ih =>
    unfold without children at ih ⊢
    rw [List.filter_cons, List.filter_cons, List.length_cons]
    by_cases hparent : P.parent r = some q
    · simp [hparent]
      omega
    · by_cases hkey : P.key r = q
      · simp [hparent, hkey]
        omega
      · simp [hparent, hkey]
        omega

theorem removeFrom_some {queue : List ℕ} (h : 2 * rows.length + queue.length ≤ n) :
    ∃ rows', removeFrom P n rows queue = some rows' := by
  induction n generalizing rows queue with
  | zero =>
    cases queue with
    | nil => exact ⟨rows, rfl⟩
    | cons q queue => simp at h
  | succ n ih =>
    cases queue with
    | nil => exact ⟨rows, rfl⟩
    | cons q queue =>
      have hless := length_without (P := P) rows q
      refine ih ?_
      rw [List.length_cons] at h
      rw [List.length_append, List.length_map]
      omega

theorem Hangs.mono (h : Hangs P (without P rows q) m x) : Hangs P rows m x := by
  induction h with
  | self h => exact .self h
  | child h => exact .child h
  | step hxy _ ih => exact .step ⟨(mem_without.mp hxy.1).1, hxy.2⟩ ih

theorem removeFrom_sublist {queue : List ℕ} (h : removeFrom P n rows queue = some rows') :
    rows'.Sublist rows := by
  induction n generalizing rows queue with
  | zero =>
    cases queue with
    | nil =>
      obtain rfl := Option.some.inj h
      exact List.Sublist.refl rows
    | cons q queue => cases h
  | succ n ih =>
    cases queue with
    | nil =>
      obtain rfl := Option.some.inj h
      exact List.Sublist.refl rows
    | cons q queue =>
      have hrest : rows'.Sublist (without P rows q) := ih h
      exact hrest.trans List.filter_sublist

theorem Hangs.trans (hrows : (rows.map P.key).Nodup) (hy : y ∈ rows) (hyq : Hangs P rows q y)
    (h : Hangs P rows (P.key y) x) (hx : x ∈ rows) : Hangs P rows q x := by
  induction h with
  | self h => exact eq_of_key hrows hx hy h ▸ hyq
  | child h => exact .step ⟨hy, h⟩ hyq
  | step hxz _ ih => exact .step hxz (ih hxz.1)

theorem hangs_turn (hrows : (rows.map P.key).Nodup) (queue : List ℕ) (hx : x ∈ without P rows q) :
    (∃ k ∈ queue ++ (P.children rows q).map P.key, Hangs P (without P rows q) k x) ↔
      ∃ k ∈ q :: queue, Hangs P rows k x := by
  have hmem : x ∈ rows := (mem_without.mp hx).1
  constructor
  · intro ⟨k, hk, hangs⟩
    rcases List.mem_append.mp hk with hk | hk
    · exact ⟨k, List.mem_cons_of_mem _ hk, hangs.mono⟩
    · obtain ⟨c, hc, rfl⟩ := List.mem_map.mp hk
      obtain ⟨hc, hparent⟩ := mem_children.mp hc
      exact ⟨q, List.mem_cons_self, .trans hrows hc (.child hparent) hangs.mono hmem⟩
  · intro ⟨k, hk, hangs⟩
    have hnot : ∀ y ∈ without P rows q, P.parent y ≠ some q ∧ P.key y ≠ q := fun y hy => (mem_without.mp hy).2
    induction hangs with
    | @self y h =>
      rcases List.mem_cons.mp hk with rfl | hk
      · exact absurd h (hnot y hx).2
      · exact ⟨k, List.mem_append_left _ hk, .self h⟩
    | @child y h =>
      rcases List.mem_cons.mp hk with rfl | hk
      · exact absurd h (hnot y hx).1
      · exact ⟨k, List.mem_append_left _ hk, .child h⟩
    | @step y z hyz _ ih =>
      by_cases hz : z ∈ without P rows q
      · obtain ⟨k', hk', hangs'⟩ := ih hz hyz.1
        exact ⟨k', hk', .step ⟨hz, hyz.2⟩ hangs'⟩
      · have hparent : P.parent z = some q := by
          by_contra hparent
          refine hz (mem_without.mpr ⟨hyz.1, hparent, fun hkey => ?_⟩)
          exact (hnot y hx).1 (hkey ▸ hyz.2)
        exact ⟨P.key z, List.mem_append_right _ (List.mem_map_of_mem (mem_children.mpr ⟨hyz.1, hparent⟩)),
          .child hyz.2⟩

theorem mem_removeFrom {queue : List ℕ} (hrows : (rows.map P.key).Nodup)
    (h : removeFrom P n rows queue = some rows') :
    x ∈ rows' ↔ x ∈ rows ∧ ¬ ∃ q ∈ queue, Hangs P rows q x := by
  induction n generalizing rows queue with
  | zero =>
    cases queue with
    | nil =>
      obtain rfl := Option.some.inj h
      simp
    | cons q queue => cases h
  | succ n ih =>
    cases queue with
    | nil =>
      obtain rfl := Option.some.inj h
      simp
    | cons q queue =>
      have hnodup : ((without P rows q).map P.key).Nodup := hrows.sublist (List.filter_sublist.map P.key)
      rw [ih hnodup h]
      constructor
      · intro ⟨hx, hnone⟩
        rw [hangs_turn hrows _ hx] at hnone
        exact ⟨(mem_without.mp hx).1, hnone⟩
      · intro ⟨hx, hnone⟩
        have hstays : x ∈ without P rows q := mem_without.mpr ⟨hx,
          fun hparent => hnone ⟨q, List.mem_cons_self, .child hparent⟩,
          fun hkey => hnone ⟨q, List.mem_cons_self, .self hkey⟩⟩
        rw [hangs_turn hrows _ hstays]
        exact ⟨hstays, hnone⟩

theorem hangs_iff_up (hrows : (rows.map P.key).Nodup) (hx : x ∈ rows) (hr : r ∈ rows) :
    Hangs P rows (P.key r) x ↔ P.Up rows x r := by
  constructor
  · intro h
    induction h with
    | self h => exact eq_of_key hrows hx hr h ▸ .refl
    | child h => exact .single ⟨hr, h⟩
    | step hxy _ ih => exact .head hxy (ih hxy.1)
  · intro h
    induction h using Relation.ReflTransGen.head_induction_on with
    | refl => exact .self rfl
    | head hxy _ ih => exact .step hxy (ih hxy.1)

end Parents

end TraxJourney.Lib
