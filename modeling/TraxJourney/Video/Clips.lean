/-
  File:      Video/Clips.lean
  Subject:   Legs grouped into clips: `group_clips` from `src/video/pacing.py`, and the plain merge that
             it is to be the same as.

  * **`groupClips_plain`** -- the clips are those of the plain merge: consecutive runs of the legs, at
    most as many as asked for, and at least one.

  Of a leg only what grouping reads is here. The arithmetic is a parameter: sums may be rounded in any
  way, as long as costs compare in a linear order, as doubles other than NaN do.
-/
import TraxJourney.Lib.Dict
import TraxJourney.Lib.Links
import Mathlib.Algebra.BigOperators.Group.List.Basic
import Mathlib.Algebra.Order.Ring.Rat
import Mathlib.Data.Prod.Lex

namespace TraxJourney.Video

open Lib

/-! ## 1. Legs and groups -/

/-- The operations on doubles that pacing uses. -/
structure Floats (K : Type*) where
  minusOne : K
  zero : K
  one : K
  half : K
  add : K → K → K
  mul : K → K → K
  sqrt : K → K
  sum : List K → K

structure Leg (K : Type*) where
  index : ℤ
  mode : String
  realS : K
  date : Option String

structure Clip (K : Type*) where
  legs : List (Leg K)

variable {K : Type*} [LinearOrder K] (F : Floats K)

def modeWeight (mode : String) : K := if mode = "flight" then F.half else F.one

def clipWeight (realS : K) (mode : String) : K := F.mul (F.sqrt (max realS F.zero)) (modeWeight F mode)

/-- `out[mode] = out.get(mode, 0.0) + s`. -/
def addSeconds (out : Dict String K) (mode : String) (s : K) : Dict String K :=
  out.put (mode, F.add ((out.find mode).getD F.zero) s)

def modeSeconds (legs : List (Leg K)) : Dict String K :=
  legs.foldl (fun out leg => addSeconds F out leg.mode leg.realS) .empty

/-- `_dominant`: the mode with the most time, the earliest on a tie. -/
def dominant (seconds : Dict String K) : String :=
  (seconds.rows.foldl (fun best ms => if best.2 < ms.2 then ms else best) ("", F.minusOne)).1

/-- What `group_clips` keeps of a run of legs. -/
structure Group (K : Type*) where
  legs : List (Leg K)
  seconds : Dict String K
  real : K
  mode : String

def Group.start (legs : List (Leg K)) : Group K :=
  let seconds := modeSeconds F legs
  ⟨legs, seconds, F.sum (seconds.rows.map Prod.snd), dominant F seconds⟩

def Group.merge (a b : Group K) : Group K :=
  let seconds := b.seconds.rows.foldl (fun out ms => addSeconds F out ms.1 ms.2) a.seconds
  ⟨a.legs ++ b.legs, seconds, F.add a.real b.real, dominant F seconds⟩

def cost (a b : Group K) : K :=
  let c := F.add (clipWeight F a.real a.mode) (clipWeight F b.real b.mode)
  if a.mode = b.mode then F.mul c F.half else c

/-- `groups[-1].append(leg)`, or a new group. -/
def addLeg (groups : List (List (Leg K))) (leg : Leg K) : List (List (Leg K)) :=
  let joins := (groups.getLast?.bind List.getLast?).any fun last =>
    decide (last.mode = leg.mode) && decide (last.date = leg.date)
  if joins then groups.dropLast ++ [groups.getLast?.getD [] ++ [leg]] else groups ++ [[leg]]

def mergeSameDay (legs : List (Leg K)) : List (List (Leg K)) := legs.foldl addLeg []

/-- `max(1, n_max)`. -/
def target (nMax : ℤ) : ℕ := (max 1 nMax).toNat

/-! ## 2. The plain merge -/

/-- The place and the cost of the cheapest pair of neighbours, the leftmost of them. -/
def cheapest : List (Group K) → Option (ℕ × K)
  | a :: b :: groups =>
    match cheapest (b :: groups) with
    | some (i, c) => if cost F a b ≤ c then some (0, cost F a b) else some (i + 1, c)
    | none => some (0, cost F a b)
  | _ => none

/-- The group at the place, and the one after it, become one. -/
def mergeAt : ℕ → List (Group K) → List (Group K)
  | 0, a :: b :: groups => a.merge F b :: groups
  | i + 1, a :: groups => a :: mergeAt i groups
  | _, groups => groups

/-- Merging until there are no more than `most`, `n` times at most. -/
def plainMerge (most : ℕ) : ℕ → List (Group K) → List (Group K)
  | 0, groups => groups
  | n + 1, groups =>
    if most < groups.length then
      match cheapest F groups with
      | some (i, _) => plainMerge most n (mergeAt F i groups)
      | none => groups
    else groups

def plainClips (legs : List (Leg K)) (nMax : ℤ) : List (Clip K) :=
  let groups := (mergeSameDay legs).map (Group.start F)
  (plainMerge F (target nMax) groups.length groups).map fun g => ⟨g.legs⟩

/-! ## 3. The code -/

/-- A heap entry: the cost, the index of the first leg, and the two groups with their stamps. -/
structure Entry (K : Type*) where
  cost : K
  index : ℤ
  a : ℕ
  sa : ℕ
  b : ℕ
  sb : ℕ
deriving DecidableEq

/-- Tuples compare from left to right. -/
def Entry.key (e : Entry K) : K ×ₗ ℤ ×ₗ ℕ ×ₗ ℕ ×ₗ ℕ ×ₗ ℕ :=
  toLex (e.cost, toLex (e.index, toLex (e.a, toLex (e.sa, toLex (e.b, e.sb)))))

/-- The arrays of `group_clips`, its heap and its count. -/
structure Merging (K : Type*) where
  groups : ℕ → Group K
  prev : ℕ → Option ℕ
  nxt : ℕ → Option ℕ
  stamp : ℕ → ℕ
  alive : ℕ → Bool
  heap : List (Entry K)
  count : ℕ

/-- `members[a][0].index`. -/
def Group.firstIndex (g : Group K) : ℤ := (g.legs.head?.map Leg.index).getD 0

/-- The entry of two neighbours as they now are. -/
def Merging.entry (st : Merging K) (a b : ℕ) : Entry K :=
  ⟨cost F (st.groups a) (st.groups b), (st.groups a).firstIndex, a, st.stamp a, b, st.stamp b⟩

/-- The state before the loop. -/
def Merging.start (groups : List (Group K)) : Merging K :=
  let n := groups.length
  let st : Merging K :=
    { groups := fun i => groups[i]?.getD (Group.start F [])
      prev := fun i => if i = 0 then none else some (i - 1)
      nxt := fun i => if i + 1 < n then some (i + 1) else none
      stamp := fun _ => 0
      alive := fun i => decide (i < n)
      heap := []
      count := n }
  { st with heap := (List.range (n - 1)).map fun a => st.entry F a (a + 1) }

def Merging.stale (st : Merging K) (e : Entry K) : Bool :=
  !(st.alive e.a && st.alive e.b) || decide (st.stamp e.a ≠ e.sa) || decide (st.stamp e.b ≠ e.sb) ||
    decide (st.nxt e.a ≠ some e.b)

def Merging.join (st : Merging K) (a b : ℕ) (heap : List (Entry K)) : Merging K :=
  { groups := Function.update st.groups a ((st.groups a).merge F (st.groups b))
    prev := unlinkPrev st.prev st.nxt a b
    nxt := unlinkNext st.nxt a b
    stamp := Function.update st.stamp a (st.stamp a + 1)
    alive := Function.update st.alive b false
    heap := heap
    count := st.count - 1 }

/-- `heapq.heappush` of the entries of a group with its neighbours. -/
def Merging.queue (st : Merging K) (a : ℕ) : Merging K :=
  { st with heap := st.heap ++ ((st.prev a).map fun p => st.entry F p a).toList ++
      ((st.nxt a).map fun q => st.entry F a q).toList }

/-- One turn of the loop; `none` where the heap is empty. -/
def turn (st : Merging K) : Option (Merging K) :=
  (popLeast Entry.key st.heap).map fun (e, heap) =>
    if st.stale e then { st with heap := heap }
    else (st.join F e.a e.b heap).queue F e.a

/-- `while count > target`. -/
def mergeLoop (most : ℕ) : ℕ → Merging K → Option (Merging K)
  | 0, st => if most < st.count then none else some st
  | fuel + 1, st => if most < st.count then (turn F st).bind (mergeLoop most fuel) else some st

def groupClips (legs : List (Leg K)) (nMax : ℤ) : Option (List (Clip K)) :=
  let groups := (mergeSameDay legs).map (Group.start F)
  let n := groups.length
  if n ≤ target nMax then some ((mergeSameDay legs).map Clip.mk)
  else (mergeLoop F (target nMax) (4 * n) (Merging.start F groups)).map fun st =>
    (follow st.nxt n 0).map fun i => ⟨(st.groups i).legs⟩

/-! ## 4. The leftmost cheapest pair -/

variable {F} {a b g : Group K} {groups left right : List (Group K)}

/-- No pair further left costs as little, and none costs less. -/
structure Cheapest (F : Floats K) (left : List (Group K)) (a b : Group K) (right : List (Group K)) :
    Prop where
  left : ∀ p ∈ (left ++ [a]).zip (left ++ [a]).tail, cost F a b < cost F p.1 p.2
  right : ∀ p ∈ (b :: right).zip right, cost F a b ≤ cost F p.1 p.2

theorem cheapest_of_all {P : K → Prop} {i : ℕ} {c : K} (h : cheapest F groups = some (i, c))
    (hall : ∀ p ∈ groups.zip groups.tail, P (cost F p.1 p.2)) : P c := by
  induction groups generalizing i c with
  | nil => cases h
  | cons g groups ih =>
    cases groups with
    | nil => cases h
    | cons g' groups =>
      have hfirst : P (cost F g g') := hall (g, g') List.mem_cons_self
      have hrest : ∀ p ∈ (g' :: groups).zip groups, P (cost F p.1 p.2) := fun p hp =>
        hall p (List.mem_cons_of_mem _ hp)
      rw [cheapest] at h
      split at h
      · rename_i j d hd
        split at h
        · cases h
          exact hfirst
        · cases h
          exact ih hd hrest
      · cases h
        exact hfirst

theorem cheapest_eq (h : Cheapest F left a b right) :
    cheapest F (left ++ a :: b :: right) = some (left.length, cost F a b) := by
  induction left with
  | nil =>
    rw [List.nil_append, cheapest]
    split
    · rename_i i c hc
      rw [if_pos (cheapest_of_all hc h.right)]
      rfl
    · rfl
  | cons g left ih =>
    have hrest : Cheapest F left a b right := by
      refine ⟨fun p hp => h.left p ?_, h.right⟩
      cases left with
      | nil => cases hp
      | cons g' left => exact List.mem_cons_of_mem _ hp
    cases left with
    | nil =>
      have hfirst : cost F a b < cost F g a := h.left (g, a) List.mem_cons_self
      have hthere := ih hrest
      rw [List.nil_append] at hthere
      show cheapest F (g :: a :: b :: right) = _
      rw [cheapest, hthere]
      exact if_neg (not_le.mpr hfirst)
    | cons g' left =>
      have hfirst : cost F a b < cost F g g' := h.left (g, g') List.mem_cons_self
      have hthere := ih hrest
      rw [List.cons_append] at hthere
      show cheapest F (g :: g' :: (left ++ a :: b :: right)) = _
      rw [cheapest, hthere]
      exact if_neg (not_le.mpr hfirst)

theorem mergeAt_eq : mergeAt F left.length (left ++ a :: b :: right) = left ++ a.merge F b :: right := by
  induction left with
  | nil => rfl
  | cons g left ih =>
    cases left with
    | nil => rfl
    | cons g' left =>
      show g :: mergeAt F (left.length + 1) (g' :: (left ++ a :: b :: right)) = _
      rw [← List.cons_append]
      exact congrArg (g :: ·) ih

/-! ## 5. Between two turns -/

variable (F) in
/-- What holds between two turns; `live` are the groups that are left, from left to right. -/
structure Standing (st : Merging K) (live : List ℕ) : Prop where
  head : live.head? = some 0
  increasing : live.Pairwise (· < ·)
  alive : ∀ i, st.alive i = true ↔ i ∈ live
  linked : Linked st.prev st.nxt none live
  count : st.count = live.length
  filled : ∀ i ∈ live, (st.groups i).legs ≠ []
  indexed : ∀ i ∈ live, ∀ j ∈ live, i ≤ j → (st.groups i).firstIndex ≤ (st.groups j).firstIndex
  pending : ∀ p ∈ live.zip live.tail, st.entry F p.1 p.2 ∈ st.heap
  stamps : ∀ e ∈ st.heap, e.sa ≤ st.stamp e.a ∧ e.sb ≤ st.stamp e.b
  current : ∀ e ∈ st.heap, e.sa = st.stamp e.a → e.sb = st.stamp e.b → e = st.entry F e.a e.b

variable {st st' : Merging K} {live : List ℕ} {e : Entry K} {heap : List (Entry K)}

theorem Entry.key_le {e f : Entry K} (h : e.key ≤ f.key) :
    e.cost < f.cost ∨ e.cost = f.cost ∧ (e.index < f.index ∨ e.index = f.index ∧ e.a ≤ f.a) := by
  unfold Entry.key at h
  rw [Prod.Lex.toLex_le_toLex, Prod.Lex.toLex_le_toLex, Prod.Lex.toLex_le_toLex] at h
  rcases h with h | ⟨hc, h | ⟨hi, h | ⟨ha, -⟩⟩⟩
  · exact .inl h
  · exact .inr ⟨hc, .inl h⟩
  · exact .inr ⟨hc, .inr ⟨hi, Nat.le_of_lt h⟩⟩
  · exact .inr ⟨hc, .inr ⟨hi, Nat.le_of_eq ha⟩⟩

theorem mem_zip_tail {p : ℕ × ℕ} : p ∈ live.zip live.tail ↔ ∃ l r, live = l ++ p.1 :: p.2 :: r := by
  induction live with
  | nil => simp
  | cons i live ih =>
    cases live with
    | nil =>
      refine ⟨fun h => absurd h List.not_mem_nil, ?_⟩
      rintro ⟨l, r, h⟩
      have hlen := congrArg List.length h
      simp at hlen
      omega
    | cons j live =>
      show p ∈ (i, j) :: (j :: live).zip live ↔ _
      rw [List.mem_cons]
      constructor
      · rintro (rfl | h)
        · exact ⟨[], live, rfl⟩
        · obtain ⟨l, r, h⟩ := ih.mp h
          exact ⟨i :: l, r, congrArg (i :: ·) h⟩
      · rintro ⟨l, r, h⟩
        cases l with
        | nil =>
          obtain ⟨rfl, rfl, -⟩ : i = p.1 ∧ j = p.2 ∧ live = r := by simpa using h
          exact .inl rfl
        | cons k l => exact .inr (ih.mpr ⟨l, r, (List.cons.inj h).2⟩)

theorem Standing.drop (h : Standing F st live) (he : st.stale e = true) :
    Standing F { st with heap := st.heap.erase e } live where
  head := h.head
  increasing := h.increasing
  alive := h.alive
  linked := h.linked
  count := h.count
  filled := h.filled
  indexed := h.indexed
  pending := by
    intro p hp
    have hmem := h.pending p hp
    refine (List.mem_erase_of_ne fun hsame => ?_).mpr hmem
    -- the entry of a pair of neighbours is not stale
    obtain ⟨l, r, hlive⟩ := mem_zip_tail.mp hp
    have hlinks := (hlive ▸ h.linked : Linked st.prev st.nxt none _).at.1
    have ha : st.alive p.1 = true := (h.alive _).mpr (by rw [hlive]; simp)
    have hb : st.alive p.2 = true := (h.alive _).mpr (by rw [hlive]; simp)
    change st.entry F p.1 p.2 = e at hsame
    rw [← hsame] at he
    simp [Merging.stale, Merging.entry, ha, hb, hlinks] at he
  stamps e' he' := h.stamps e' (List.mem_of_mem_erase he')
  current e' he' := h.current e' (List.mem_of_mem_erase he')

theorem firstIndex_merge (h : a.legs ≠ []) : (a.merge F b).firstIndex = a.firstIndex := by
  unfold Group.firstIndex Group.merge
  obtain ⟨leg, legs, hlegs⟩ := List.exists_cons_of_ne_nil h
  dsimp only
  rw [hlegs]
  rfl

variable {x y : ℕ}

theorem entry_join {i j : ℕ} (hi : i ≠ x) (hj : j ≠ x) :
    (st.join F x y heap).entry F i j = st.entry F i j := by
  unfold Merging.entry Merging.join
  dsimp only
  rw [Function.update_of_ne hi, Function.update_of_ne hj, Function.update_of_ne hi, Function.update_of_ne hj]

omit [LinearOrder K] in
theorem mem_zip_of_next {i j : ℕ} (h : Linked st.prev st.nxt none live) (hi : i ∈ live)
    (hnext : st.nxt i = some j) : (i, j) ∈ live.zip live.tail := by
  obtain ⟨l, r, rfl⟩ := List.append_of_mem hi
  have hhead := h.at.1
  rw [hnext] at hhead
  cases r with
  | nil => cases hhead
  | cons k r =>
    obtain rfl : j = k := Option.some.inj hhead
    exact mem_zip_tail.mpr ⟨l, r, rfl⟩

theorem mem_queue {f : Entry K} (hf : f ∈ ((st.join F x y heap).queue F x).heap) :
    f ∈ heap ∨ ∃ i j, f = (st.join F x y heap).entry F i j := by
  unfold Merging.queue at hf
  rw [List.mem_append, List.mem_append, Option.mem_toList, Option.mem_toList] at hf
  rcases hf with (hf | hf) | hf
  · exact .inl hf
  · obtain ⟨i, -, rfl⟩ := Option.map_eq_some_iff.mp hf
    exact .inr ⟨i, x, rfl⟩
  · obtain ⟨j, -, rfl⟩ := Option.map_eq_some_iff.mp hf
    exact .inr ⟨x, j, rfl⟩

theorem le_stamp_join (i : ℕ) : st.stamp i ≤ (st.join F x y heap).stamp i := by
  show _ ≤ Function.update st.stamp x (st.stamp x + 1) i
  by_cases hi : i = x
  · subst hi
    rw [Function.update_self]
    exact Nat.le_succ _
  · rw [Function.update_of_ne hi]

theorem ne_of_stamp_join {i n : ℕ} (hle : n ≤ st.stamp i) (heq : n = (st.join F x y heap).stamp i) :
    i ≠ x ∧ n = st.stamp i := by
  change n = Function.update st.stamp x (st.stamp x + 1) i at heq
  by_cases hi : i = x
  · subst hi
    rw [Function.update_self] at heq
    omega
  · rw [Function.update_of_ne hi] at heq
    exact ⟨hi, heq⟩

variable {l r : List ℕ}

theorem Standing.join (h : Standing F st (l ++ x :: y :: r)) :
    Standing F ((st.join F x y (st.heap.erase (st.entry F x y))).queue F x) (l ++ x :: r) := by
  have hnodup : (l ++ x :: y :: r).Nodup := h.increasing.imp fun hlt => Nat.ne_of_lt hlt
  have hsub : (l ++ x :: r).Sublist (l ++ x :: y :: r) :=
    (List.Sublist.refl l).append (List.Sublist.cons_cons x (List.sublist_cons_self y r))
  have hmem : ∀ {i}, i ∈ l ++ x :: r → i ∈ l ++ x :: y :: r := fun hi => hsub.subset hi
  have hxy : x ≠ y := by
    rw [List.nodup_append] at hnodup
    exact fun he => (List.nodup_cons.mp hnodup.2.1).1 (he ▸ List.mem_cons_self)
  have hgone : y ∉ l ++ x :: r := by
    have hperm : (l ++ x :: y :: r).Perm (y :: (l ++ x :: r)) := by
      have hcut : l ++ x :: y :: r = (l ++ [x]) ++ y :: r := by simp
      have hcut' : l ++ x :: r = (l ++ [x]) ++ r := by simp
      rw [hcut, hcut']
      exact List.perm_middle
    exact (List.nodup_cons.mp (hperm.nodup_iff.mp hnodup)).1
  have hfirst : ∀ i, ((Function.update st.groups x ((st.groups x).merge F (st.groups y))) i).firstIndex =
      (st.groups i).firstIndex := by
    intro i
    by_cases hi : i = x
    · subst hi
      rw [Function.update_self]
      exact firstIndex_merge (h.filled i (by simp))
    · rw [Function.update_of_ne hi]
  constructor
  case head =>
    have hhead := h.head
    cases l with
    | nil => exact hhead
    | cons i l => exact hhead
  case increasing => exact h.increasing.sublist hsub
  case alive =>
    intro i
    show Function.update st.alive y false i = true ↔ _
    by_cases hi : i = y
    · subst hi
      rw [Function.update_self]
      exact ⟨fun hf => absurd hf Bool.false_ne_true, fun hin => absurd hin hgone⟩
    · rw [Function.update_of_ne hi, h.alive]
      simp [hi]
  case linked => exact h.linked.unlink hnodup
  case count =>
    show st.count - 1 = _
    rw [h.count]
    simp
  case filled =>
    intro i hi
    show (Function.update st.groups x _ i).legs ≠ []
    by_cases hix : i = x
    · subst hix
      rw [Function.update_self]
      exact List.append_ne_nil_of_left_ne_nil (h.filled i (hmem hi)) _
    · rw [Function.update_of_ne hix]
      exact h.filled i (hmem hi)
  case indexed =>
    intro i hi j hj hij
    show (Function.update st.groups x _ i).firstIndex ≤ (Function.update st.groups x _ j).firstIndex
    rw [hfirst, hfirst]
    exact h.indexed i (hmem hi) j (hmem hj) hij
  case pending =>
    intro p hp
    have hlinked := h.linked.unlink hnodup
    obtain ⟨l', r', hlive⟩ := mem_zip_tail.mp hp
    show (st.join F x y _).entry F p.1 p.2 ∈ _
    unfold Merging.queue
    rw [List.mem_append, List.mem_append, Option.mem_toList, Option.mem_toList]
    have hnext : unlinkNext st.nxt x y p.1 = some p.2 := (hlive ▸ hlinked).at.1
    by_cases h1 : p.1 = x
    · refine .inr (Option.map_eq_some_iff.mpr ⟨p.2, ?_, by rw [h1]; rfl⟩)
      rw [← h1] at hnext ⊢
      exact hnext
    · by_cases h2 : p.2 = x
      · refine .inl (.inr (Option.map_eq_some_iff.mpr ⟨p.1, ?_, by rw [h2]; rfl⟩))
        have hcut : l ++ x :: r = (l' ++ [p.1]) ++ p.2 :: r' := by rw [hlive]; simp
        have hprev := (hcut ▸ hlinked).at.2
        rw [h2] at hprev
        exact hprev.trans (by simp)
      · refine .inl (.inl ?_)
        have hold : st.nxt p.1 = some p.2 := (Function.update_of_ne h1 _ _).symm.trans hnext
        have hin : p.1 ∈ l ++ x :: r := by rw [hlive]; simp
        have hentry := h.pending _ (mem_zip_of_next h.linked (hmem hin) hold)
        rw [entry_join h1 h2]
        exact (List.mem_erase_of_ne fun he => h1 (congrArg Entry.a he)).mpr hentry
  case stamps =>
    intro f hf
    rcases mem_queue hf with hold | ⟨i, j, rfl⟩
    · obtain ⟨ha, hb⟩ := h.stamps f (List.mem_of_mem_erase hold)
      exact ⟨ha.trans (le_stamp_join _), hb.trans (le_stamp_join _)⟩
    · exact ⟨le_refl _, le_refl _⟩
  case current =>
    intro f hf hsa hsb
    rcases mem_queue hf with hold | ⟨i, j, rfl⟩
    · have hmemory := List.mem_of_mem_erase hold
      obtain ⟨ha, hb⟩ := h.stamps f hmemory
      obtain ⟨hax, hsa⟩ := ne_of_stamp_join ha hsa
      obtain ⟨hbx, hsb⟩ := ne_of_stamp_join hb hsb
      exact (h.current f hmemory hsa hsb).trans (entry_join hax hbx).symm
    · rfl

omit [LinearOrder K] in
theorem mem_zip_groups {f : ℕ → Group K} {p : Group K × Group K}
    (hp : p ∈ (live.map f).zip (live.map f).tail) :
    ∃ q ∈ live.zip live.tail, p = (f q.1, f q.2) := by
  rw [← List.map_tail, List.zip_map] at hp
  obtain ⟨q, hq, rfl⟩ := List.mem_map.mp hp
  exact ⟨q, hq, rfl⟩

theorem Standing.cheapest (h : Standing F st (l ++ x :: y :: r))
    (hleast : ∀ f ∈ st.heap, (st.entry F x y).key ≤ f.key) :
    Cheapest F (l.map st.groups) (st.groups x) (st.groups y) (r.map st.groups) := by
  constructor
  case left =>
    intro p hp
    have hmap : l.map st.groups ++ [st.groups x] = (l ++ [x]).map st.groups := by simp
    rw [hmap] at hp
    obtain ⟨⟨i, j⟩, hq, rfl⟩ := mem_zip_groups hp
    obtain ⟨l', r', hcut⟩ := mem_zip_tail.mp hq
    dsimp only at hcut
    have hlive : l ++ x :: y :: r = l' ++ i :: j :: (r' ++ y :: r) := by
      have hcut' := congrArg (· ++ y :: r) hcut
      simpa using hcut'
    -- the pair stands left of the popped one
    have hx : x ∈ j :: r' := by
      have hlast := congrArg List.getLast? hcut
      rw [List.getLast?_append, List.getLast?_singleton, Option.some_or] at hlast
      have hlast' : (j :: r').getLast? = some x := by
        rw [hlast]
        simp [List.getLast?_eq_some_getLast]
      exact List.mem_of_getLast? hlast'
    have hix : i < x := by
      have hincreasing := h.increasing
      rw [hlive, List.pairwise_append, List.pairwise_cons] at hincreasing
      refine hincreasing.2.1.1 x ?_
      rw [← List.cons_append]
      exact List.mem_append_left _ hx
    have hentry := h.pending (i, j) (mem_zip_tail.mpr ⟨l', _, hlive⟩)
    have hfirst : (st.groups i).firstIndex ≤ (st.groups x).firstIndex :=
      h.indexed i (by rw [hlive]; simp) x (by simp) hix.le
    rcases Entry.key_le (hleast _ hentry) with hlt | ⟨-, hlt | ⟨-, hle⟩⟩
    · exact hlt
    · exact absurd hlt (not_lt.mpr hfirst)
    · exact absurd hle (not_le.mpr hix)
  case right =>
    intro p hp
    have hmap : st.groups y :: r.map st.groups = (y :: r).map st.groups := rfl
    rw [hmap] at hp
    obtain ⟨⟨i, j⟩, hq, rfl⟩ := mem_zip_groups hp
    obtain ⟨l', r', hcut⟩ := mem_zip_tail.mp hq
    dsimp only at hcut
    have hlive : l ++ x :: y :: r = (l ++ x :: l') ++ i :: j :: r' := by
      rw [hcut]
      simp
    have hentry := h.pending (i, j) (mem_zip_tail.mpr ⟨_, _, hlive⟩)
    rcases Entry.key_le (hleast _ hentry) with hlt | ⟨heq, -⟩
    · exact hlt.le
    · exact heq.le

theorem turn_standing (h : Standing F st live) (hmore : 1 < live.length) : ∃ st', turn F st = some st' ∧
      (Standing F st' live ∧ st'.groups = st.groups ∧ st'.heap.length + 1 = st.heap.length ∨
      ∃ l x y r, live = l ++ x :: y :: r ∧ Standing F st' (l ++ x :: r) ∧
        st'.heap.length ≤ st.heap.length + 1 ∧
        Cheapest F (l.map st.groups) (st.groups x) (st.groups y) (r.map st.groups) ∧
        (l ++ x :: r).map st'.groups =
          l.map st.groups ++ (st.groups x).merge F (st.groups y) :: r.map st.groups) := by
  obtain ⟨i, j, rest, rfl⟩ : ∃ i j rest, live = i :: j :: rest := by
    cases live with
    | nil => cases hmore
    | cons i live =>
      cases live with
      | nil => exact absurd hmore (by simp)
      | cons j rest => exact ⟨i, j, rest, rfl⟩
  obtain ⟨⟨e, heap⟩, hpop⟩ : ∃ p, popLeast Entry.key st.heap = some p :=
    popLeast_isSome (h.pending (i, j) List.mem_cons_self)
  obtain ⟨hmem, hleast, rfl⟩ := popLeast_some hpop
  unfold turn
  rw [hpop, Option.map_some]
  refine ⟨_, rfl, ?_⟩
  dsimp only
  split
  case isTrue hstale =>
    have herase := List.length_erase_of_mem hmem
    have hpos := List.length_pos_of_mem hmem
    refine .inl ⟨h.drop hstale, rfl, ?_⟩
    show (st.heap.erase e).length + 1 = _
    omega
  case isFalse hfresh =>
    obtain ⟨⟨⟨ha, -⟩, hsa, hsb⟩, hnext⟩ : ((st.alive e.a = true ∧ st.alive e.b = true) ∧
        st.stamp e.a = e.sa ∧ st.stamp e.b = e.sb) ∧ st.nxt e.a = some e.b := by
      simpa [Merging.stale, and_assoc] using hfresh
    have hpair := mem_zip_of_next h.linked ((h.alive _).mp ha) hnext
    obtain ⟨l, r, hlive⟩ := mem_zip_tail.mp hpair
    have hentry : e = st.entry F e.a e.b := h.current e hmem hsa.symm hsb.symm
    dsimp only at hlive
    rw [hlive] at h
    refine .inr ⟨l, e.a, e.b, r, hlive, ?_, ?_, h.cheapest (hentry ▸ hleast), ?_⟩
    · have hjoined := h.join
      rwa [← hentry] at hjoined
    · show (st.heap.erase e ++ _ ++ _).length ≤ _
      rw [List.length_append, List.length_append, List.length_erase_of_mem hmem]
      have hpos := List.length_pos_of_mem hmem
      have htoList : ∀ o : Option (Entry K), o.toList.length ≤ 1 := fun o => by
        cases o with
        | none => exact Nat.zero_le _
        | some _ => exact Nat.le_refl _
      have h1 := htoList ((unlinkPrev st.prev st.nxt e.a e.b e.a).map fun p =>
        (st.join F e.a e.b (st.heap.erase e)).entry F p e.a)
      have h2 := htoList ((unlinkNext st.nxt e.a e.b e.a).map fun q =>
        (st.join F e.a e.b (st.heap.erase e)).entry F e.a q)
      change _ + ((unlinkPrev st.prev st.nxt e.a e.b e.a).map fun p =>
        (st.join F e.a e.b (st.heap.erase e)).entry F p e.a).toList.length +
        ((unlinkNext st.nxt e.a e.b e.a).map fun q =>
        (st.join F e.a e.b (st.heap.erase e)).entry F e.a q).toList.length ≤ _
      omega
    · have hnodup : (l ++ e.a :: e.b :: r).Nodup := h.increasing.imp fun hlt => Nat.ne_of_lt hlt
      rw [List.nodup_append, List.nodup_cons] at hnodup
      have hsame : ∀ k, k ≠ e.a → Function.update st.groups e.a
          ((st.groups e.a).merge F (st.groups e.b)) k = st.groups k := fun k hk =>
        Function.update_of_ne hk _ _
      show (l ++ e.a :: r).map (Function.update st.groups e.a _) = _
      rw [List.map_append, List.map_cons, Function.update_self]
      congr 1
      · exact List.map_congr_left fun k hk => hsame k (hnodup.2.2 k hk e.a List.mem_cons_self)
      · congr 1
        exact List.map_congr_left fun k hk => hsame k fun he =>
          hnodup.2.1.1 (List.mem_cons_of_mem _ (he ▸ hk))

/-! ## 6. The loop -/

theorem plainMerge_done {most n : ℕ} (h : ¬ most < groups.length) : plainMerge F most n groups = groups := by
  cases n with
  | zero => rfl
  | succ n => exact if_neg h

theorem plainMerge_step {most n : ℕ} (hmore : most < (left ++ a :: b :: right).length)
    (h : Cheapest F left a b right) : plainMerge F most (n + 1) (left ++ a :: b :: right) =
      plainMerge F most n (left ++ a.merge F b :: right) := by
  rw [plainMerge, if_pos hmore, cheapest_eq h]
  dsimp only
  rw [mergeAt_eq]

theorem mergeLoop_plain {most fuel n : ℕ} (hmost : 1 ≤ most) (h : Standing F st live)
    (hfuel : st.heap.length + 3 * live.length ≤ fuel) (hn : live.length ≤ n) :
    ∃ st' live', mergeLoop F most fuel st = some st' ∧ Standing F st' live' ∧
      live'.length ≤ live.length ∧ live'.length ≤ most ∧
      live'.map st'.groups = plainMerge F most n (live.map st.groups) := by
  induction fuel generalizing st live n with
  | zero =>
    have hempty : live = [] := List.eq_nil_of_length_eq_zero (by omega)
    have hhead := h.head
    rw [hempty] at hhead
    cases hhead
  | succ fuel ih =>
    rw [mergeLoop, h.count]
    by_cases hmore : most < live.length
    · rw [if_pos hmore]
      obtain ⟨st₁, hturn, hcases⟩ := turn_standing h (by omega)
      rw [hturn, Option.bind_some]
      rcases hcases with ⟨hstands, hgroups, hheap⟩ | ⟨l, x, y, r, rfl, hstands, hheap, hcheapest, hgroups⟩
      · rw [← hgroups]
        exact ih hstands (by omega) hn
      · have hshorter : (l ++ x :: r).length + 1 = (l ++ x :: y :: r).length := by
          simp
          omega
        obtain ⟨n, rfl⟩ : ∃ m, n = m + 1 := ⟨n - 1, by omega⟩
        obtain ⟨st', live', hloop, hstands', hle, hmost', hplain⟩ := ih hstands (by omega)
          (show (l ++ x :: r).length ≤ n by omega)
        refine ⟨st', live', hloop, hstands', by omega, hmost', hplain.trans ?_⟩
        rw [hgroups, List.map_append, List.map_cons, List.map_cons, plainMerge_step _ hcheapest]
        simpa using hmore
    · rw [if_neg hmore]
      have hdone : ¬ most < (live.map st.groups).length := by rwa [List.length_map]
      exact ⟨st, live, rfl, h, le_refl _, not_lt.mp hmore, (plainMerge_done hdone).symm⟩

/-! ## 7. The start -/

theorem mem_zip_range {n : ℕ} {p : ℕ × ℕ} (hp : p ∈ (List.range n).zip (List.range n).tail) :
    p.2 = p.1 + 1 ∧ p.1 + 1 < n := by
  obtain ⟨l, r, hcut⟩ := mem_zip_tail.mp hp
  have h1 := congrArg (·[l.length]?) hcut
  have h2 := congrArg (·[l.length + 1]?) hcut
  have hlen := congrArg List.length hcut
  simp only [List.length_range, List.length_append, List.length_cons] at hlen
  simp [List.getElem?_range (show l.length < n by omega)] at h1
  simp [List.getElem?_range (show l.length + 1 < n by omega)] at h2
  omega

theorem start_standing {groups : List (Group K)} (hne : groups ≠ []) (hfilled : ∀ g ∈ groups, g.legs ≠ [])
    (hindexed : groups.Pairwise fun a b => a.firstIndex ≤ b.firstIndex) :
    Standing F (Merging.start F groups) (List.range groups.length) := by
  have hpos : 0 < groups.length := List.length_pos_of_ne_nil hne
  have hget : ∀ i, (hi : i < groups.length) → (Merging.start F groups).groups i = groups[i] := by
    intro i hi
    show groups[i]?.getD _ = _
    rw [List.getElem?_eq_getElem hi, Option.getD_some]
  have hheap : ∀ e, e ∈ (Merging.start F groups).heap ↔
      ∃ i < groups.length - 1, (Merging.start F groups).entry F i (i + 1) = e := by
    intro e
    show e ∈ (List.range (groups.length - 1)).map _ ↔ _
    rw [List.mem_map]
    constructor
    · rintro ⟨i, hi, rfl⟩
      exact ⟨i, List.mem_range.mp hi, rfl⟩
    · rintro ⟨i, hi, rfl⟩
      exact ⟨i, List.mem_range.mpr hi, rfl⟩
  constructor
  case head => simp [List.head?_range, Nat.pos_iff_ne_zero.mp hpos]
  case increasing => exact List.pairwise_lt_range
  case alive =>
    intro i
    show decide (i < groups.length) = true ↔ _
    rw [decide_eq_true_eq, List.mem_range]
  case linked =>
    have hlinked : Linked (Merging.start F groups).prev (Merging.start F groups).nxt _
        (List.range' 0 groups.length) :=
      linked_range (Nat.zero_add groups.length) (fun _ => rfl) fun _ => rfl
    rwa [if_pos rfl, ← List.range_eq_range'] at hlinked
  case count => exact List.length_range.symm
  case filled =>
    intro i hi
    rw [hget i (List.mem_range.mp hi)]
    exact hfilled _ (List.getElem_mem _)
  case indexed =>
    intro i hi j hj hij
    rw [hget i (List.mem_range.mp hi), hget j (List.mem_range.mp hj)]
    rcases Nat.eq_or_lt_of_le hij with rfl | hlt
    · exact le_refl _
    · exact List.pairwise_iff_getElem.mp hindexed i j _ _ hlt
  case pending =>
    intro p hp
    obtain ⟨hnext, hlt⟩ := mem_zip_range hp
    exact (hheap _).mpr ⟨p.1, by omega, by rw [hnext]⟩
  case stamps =>
    intro e he
    obtain ⟨i, -, rfl⟩ := (hheap e).mp he
    exact ⟨le_refl _, le_refl _⟩
  case current =>
    intro e he _ _
    obtain ⟨i, -, rfl⟩ := (hheap e).mp he
    rfl

/-! ## 8. Runs of legs -/

variable {legs : List (Leg K)} {runs : List (List (Leg K))}

omit [LinearOrder K] in
theorem addLeg_spec (leg : Leg K) (h : ∀ g ∈ runs, g ≠ []) :
    (addLeg runs leg).flatten = runs.flatten ++ [leg] ∧ ∀ g ∈ addLeg runs leg, g ≠ [] := by
  unfold addLeg
  dsimp only
  split
  case isTrue hjoins =>
    obtain ⟨last, hlast, -⟩ := (Option.any_eq_true _ _).mp hjoins
    obtain ⟨run, hrun, -⟩ := Option.bind_eq_some_iff.mp hlast
    have hcut : runs = runs.dropLast ++ [run] := (List.dropLast_append_getLast? run hrun).symm
    rw [hrun, Option.getD_some]
    constructor
    · conv_rhs => rw [hcut]
      simp
    · intro g hg
      rcases List.mem_append.mp hg with hg | hg
      · exact h g (List.dropLast_subset _ hg)
      · rw [List.mem_singleton.mp hg]
        exact List.append_ne_nil_of_right_ne_nil _ (List.cons_ne_nil _ _)
  case isFalse =>
    constructor
    · simp
    · intro g hg
      rcases List.mem_append.mp hg with hg | hg
      · exact h g hg
      · rw [List.mem_singleton.mp hg]
        exact List.cons_ne_nil _ _

omit [LinearOrder K] in
theorem mergeSameDay_spec (legs : List (Leg K)) :
    (mergeSameDay legs).flatten = legs ∧ ∀ g ∈ mergeSameDay legs, g ≠ [] := by
  have hfold : ∀ (legs : List (Leg K)) (runs : List (List (Leg K))), (∀ g ∈ runs, g ≠ []) →
      (legs.foldl addLeg runs).flatten = runs.flatten ++ legs ∧ ∀ g ∈ legs.foldl addLeg runs, g ≠ [] := by
    intro legs
    induction legs with
    | nil => exact fun runs h => ⟨(List.append_nil _).symm, h⟩
    | cons leg legs ih =>
      intro runs h
      obtain ⟨hflat, hfilled⟩ := addLeg_spec leg h
      obtain ⟨hrest, hall⟩ := ih (addLeg runs leg) hfilled
      refine ⟨hrest.trans ?_, hall⟩
      rw [hflat, List.append_assoc]
      rfl
  exact hfold legs [] fun g hg => absurd hg List.not_mem_nil

theorem firstIndex_ascends (h : legs.Pairwise fun a b => a.index ≤ b.index) :
    ((mergeSameDay legs).map (Group.start F)).Pairwise fun a b => a.firstIndex ≤ b.firstIndex := by
  obtain ⟨hflat, hfilled⟩ := mergeSameDay_spec legs
  rw [← hflat, List.pairwise_flatten] at h
  refine List.pairwise_map.mpr (List.Pairwise.imp_of_mem (fun {a b} ha hb hab => ?_) h.2)
  obtain ⟨x, xs, rfl⟩ := List.exists_cons_of_ne_nil (hfilled a ha)
  obtain ⟨y, ys, rfl⟩ := List.exists_cons_of_ne_nil (hfilled b hb)
  exact hab x List.mem_cons_self y List.mem_cons_self

def legsOf (groups : List (Group K)) : List (Leg K) := groups.flatMap Group.legs

theorem mergeAt_legs (i : ℕ) (h : ∀ g ∈ groups, g.legs ≠ []) :
    legsOf (mergeAt F i groups) = legsOf groups ∧ ∀ g ∈ mergeAt F i groups, g.legs ≠ [] := by
  induction groups generalizing i with
  | nil =>
    cases i with
    | zero => exact ⟨rfl, h⟩
    | succ i => exact ⟨rfl, h⟩
  | cons a groups ih =>
    cases i with
    | zero =>
      cases groups with
      | nil => exact ⟨rfl, h⟩
      | cons b groups =>
        refine ⟨by simp [mergeAt, legsOf, Group.merge], fun g hg => ?_⟩
        rcases List.mem_cons.mp hg with rfl | hg
        · exact List.append_ne_nil_of_left_ne_nil (h a List.mem_cons_self) _
        · exact h g (List.mem_cons_of_mem _ (List.mem_cons_of_mem _ hg))
    | succ i =>
      obtain ⟨hlegs, hall⟩ := ih i fun g hg => h g (List.mem_cons_of_mem _ hg)
      refine ⟨congrArg (a.legs ++ ·) hlegs, fun g hg => ?_⟩
      rcases List.mem_cons.mp hg with rfl | hg
      · exact h g List.mem_cons_self
      · exact hall g hg

theorem plainMerge_legs {most n : ℕ} (h : ∀ g ∈ groups, g.legs ≠ []) :
    legsOf (plainMerge F most n groups) = legsOf groups ∧ ∀ g ∈ plainMerge F most n groups, g.legs ≠ [] := by
  induction n generalizing groups with
  | zero => exact ⟨rfl, h⟩
  | succ n ih =>
    rw [plainMerge]
    split
    · split
      · rename_i i _ _
        obtain ⟨hlegs, hall⟩ := mergeAt_legs (F := F) i h
        obtain ⟨hrest, hfilled⟩ := ih hall
        exact ⟨hrest.trans hlegs, hfilled⟩
      · exact ⟨rfl, h⟩
    · exact ⟨rfl, h⟩

theorem groupClips_loop (nMax : ℤ) (hnumbered : legs.Pairwise fun a b => a.index ≤ b.index)
    (hmore : target nMax < ((mergeSameDay legs).map (Group.start F)).length) :
    groupClips F legs nMax = some (plainClips F legs nMax) ∧
      (plainClips F legs nMax).length ≤ target nMax := by
  have hmost : 1 ≤ target nMax := by
    unfold target
    omega
  have hfilled : ∀ g ∈ (mergeSameDay legs).map (Group.start F), g.legs ≠ [] := by
    intro g hg
    obtain ⟨run, hrun, rfl⟩ := List.mem_map.mp hg
    exact (mergeSameDay_spec legs).2 run hrun
  have hne : (mergeSameDay legs).map (Group.start F) ≠ [] :=
    List.ne_nil_of_length_pos (Nat.lt_of_le_of_lt (Nat.zero_le _) hmore)
  have hstart : Standing F (Merging.start F ((mergeSameDay legs).map (Group.start F))) _ :=
    start_standing hne hfilled (firstIndex_ascends hnumbered)
  unfold groupClips plainClips
  dsimp only
  rw [if_neg (not_le.mpr hmore)]
  generalize (mergeSameDay legs).map (Group.start F) = groups at *
  have hfuel : (Merging.start F groups).heap.length + 3 * (List.range groups.length).length ≤
      4 * groups.length := by
    show ((List.range (groups.length - 1)).map _).length + _ ≤ _
    rw [List.length_map, List.length_range, List.length_range]
    omega
  obtain ⟨st', live', hloop, hstands, hle, hmost', hplain⟩ :=
    mergeLoop_plain hmost hstart hfuel List.length_range.le
  have hgroups : (List.range groups.length).map (Merging.start F groups).groups = groups := by
    refine List.ext_getElem (by simp) fun i h1 h2 => ?_
    rw [List.getElem_map, List.getElem_range]
    show groups[i]?.getD _ = _
    rw [List.getElem?_eq_getElem h2, Option.getD_some]
  rw [hgroups] at hplain
  obtain ⟨rest, rfl⟩ : ∃ rest, live' = 0 :: rest := by
    have hhead := hstands.head
    cases live' with
    | nil => cases hhead
    | cons i rest => exact ⟨rest, congrArg (· :: rest) (Option.some.inj hhead)⟩
  rw [List.length_range] at hle
  rw [hloop, Option.map_some, follow_linked hstands.linked hle, ← hplain, List.map_map, List.length_map]
  exact ⟨rfl, hmost'⟩

theorem groupClips_eq (F : Floats K) (legs : List (Leg K)) (nMax : ℤ)
    (hnumbered : legs.Pairwise fun a b => a.index ≤ b.index) :
    groupClips F legs nMax = some (plainClips F legs nMax) ∧
      (plainClips F legs nMax).length ≤ target nMax := by
  by_cases hmore : target nMax < ((mergeSameDay legs).map (Group.start F)).length
  · exact groupClips_loop nMax hnumbered hmore
  · unfold groupClips plainClips
    dsimp only
    rw [if_pos (not_lt.mp hmore), plainMerge_done hmore, List.map_map, List.length_map]
    rw [List.length_map] at hmore
    exact ⟨rfl, not_lt.mp hmore⟩

theorem plainClips_runs (F : Floats K) (legs : List (Leg K)) (nMax : ℤ) :
    (plainClips F legs nMax).flatMap Clip.legs = legs ∧ ∀ c ∈ plainClips F legs nMax, c.legs ≠ [] := by
  obtain ⟨hflat, hruns⟩ := mergeSameDay_spec legs
  have hfilled : ∀ g ∈ (mergeSameDay legs).map (Group.start F), g.legs ≠ [] := by
    intro g hg
    obtain ⟨run, hrun, rfl⟩ := List.mem_map.mp hg
    exact hruns run hrun
  obtain ⟨hlegs, hall⟩ : legsOf (plainMerge F (target nMax) _ _) = _ ∧ _ :=
    plainMerge_legs (n := ((mergeSameDay legs).map (Group.start F)).length) hfilled
  constructor
  · unfold plainClips
    dsimp only
    rw [List.flatMap_map]
    refine Eq.trans hlegs (Eq.trans ?_ hflat)
    unfold legsOf
    rw [List.flatMap_map]
    exact List.flatMap_id
  · intro c hc
    obtain ⟨g, hg, rfl⟩ := List.mem_map.mp hc
    exact hall g hg

/-- **The clips are those of the plain merge**, of legs numbered from left to right: they are consecutive
    runs of the legs, none of them empty, and at most as many as asked for, or one. -/
theorem groupClips_plain (F : Floats K) (legs : List (Leg K)) (nMax : ℤ)
    (hnumbered : legs.Pairwise fun a b => a.index ≤ b.index) :
    groupClips F legs nMax = some (plainClips F legs nMax) ∧
      (plainClips F legs nMax).flatMap Clip.legs = legs ∧
      (∀ c ∈ plainClips F legs nMax, c.legs ≠ []) ∧
      ((plainClips F legs nMax).length : ℤ) ≤ max 1 nMax := by
  obtain ⟨heq, hmost⟩ := groupClips_eq F legs nMax hnumbered
  obtain ⟨hflat, hfilled⟩ := plainClips_runs F legs nMax
  have htarget : ((target nMax : ℕ) : ℤ) = max 1 nMax := by
    unfold target
    omega
  refine ⟨heq, hflat, hfilled, ?_⟩
  rw [← htarget]
  exact Int.ofNat_le.mpr hmost

/-- Rationals, with the root of a square. -/
def rationals : Floats ℚ where
  minusOne := -1
  zero := 0
  one := 1
  half := 1 / 2
  add := (· + ·)
  mul := (· * ·)
  sqrt q := (Nat.sqrt q.num.toNat : ℚ) / (Nat.sqrt q.den : ℚ)
  sum := List.sum

/-- Two rides of one day, a short walk, a flight and a ride. -/
def fiveLegs : List (Leg ℚ) :=
  [⟨0, "ride", 400, some "2024-07-01"⟩, ⟨1, "ride", 500, some "2024-07-01"⟩,
    ⟨2, "hike", 100, some "2024-07-02"⟩, ⟨3, "flight", 3600, none⟩,
    ⟨4, "ride", 900, some "2024-07-03"⟩]

/-- The rides of the first day are one run; the pairs on both sides of the walk cost the same, and the
    left one merges. -/
theorem groupClips_plain_fiveLegs :
    (plainClips rationals fiveLegs 3).map (fun c => c.legs.map Leg.index) = [[0, 1, 2], [3], [4]] ∧
      groupClips rationals fiveLegs 3 = some (plainClips rationals fiveLegs 3) :=
  ⟨by decide +kernel, (groupClips_plain rationals fiveLegs 3 (by decide)).1⟩

end TraxJourney.Video
