/-
  File:      Photos/OrderRuns.lean
  Subject:   What holds of a memory's photos over every sequence of placements, removals, replacements
             and clears under the photo lock.

  * **`photo_order`** -- the results together; `same_hash_order` -- of two downloads with one hash the
    first is placed, so there the order does matter.
-/
import TraxJourney.Lib.Runs
import TraxJourney.Photos.Order

namespace TraxJourney.Photos

open Lib

/-! ## 1. Runs -/

/-- What is done under the photo lock. -/
inductive Action where
  | place (p : Placement)
  | remove (uuid : Text)
  | replace (old new : Text)
  | clear

/-- A memory, and its photos in the order in which they were placed. -/
structure Album where
  memory : Memory
  placed : List Text

def step (s : Album) : Action → Album
  | .place p =>
    let written := writeMemoryPhoto s.memory p
    { memory := written.1, placed := if written.2 then s.placed ++ [p.uuid] else s.placed }
  | .remove uuid => { memory := deletePhoto s.memory uuid, placed := s.placed.filter fun p => p ≠ uuid }
  | .replace old new =>
    let written := replacePhoto s.memory old new
    { memory := written.1
      placed := if written.2 then s.placed.map fun p => if p = old then new else p else s.placed }
  | .clear => { memory := clearMemoryPhotos s.memory, placed := [] }

/-- No photos; whatever is kept of an order. -/
def start (order : Option Json) : Album :=
  { memory := { photos := [], photoOrderJson := order }, placed := [] }

def run (order : Option Json) (actions : List Action) : Album := actions.foldl step (start order)

theorem run_append (order : Option Json) (actions : List Action) (a : Action) :
    run order (actions ++ [a]) = step (run order actions) a := by
  unfold run
  rw [List.foldl_append]
  rfl

def Action.newUuids : Action → List Text
  | .place p => [p.uuid]
  | .replace _ new => [new]
  | _ => []

/-- Every uuid is new, and none is the empty text. -/
def Fresh (actions : List Action) : Prop :=
  (actions.flatMap Action.newUuids).Nodup ∧ ∀ u ∈ actions.flatMap Action.newUuids, u ≠ .valid ""

variable {actions : List Action} {a : Action}

theorem Fresh.append (h : Fresh (actions ++ [a])) :
    Fresh actions ∧ ∀ u ∈ a.newUuids, u ∉ actions.flatMap Action.newUuids ∧ u ≠ .valid "" := by
  obtain ⟨hnodup, hproper⟩ := h
  rw [List.flatMap_append, List.flatMap_singleton] at hnodup hproper
  have hparts := List.nodup_append.mp hnodup
  exact ⟨⟨hparts.1, fun u hu => hproper u (List.mem_append_left _ hu)⟩,
    fun u hu => ⟨fun hold => hparts.2.2 u hold u hu rfl, hproper u (List.mem_append_right _ hu)⟩⟩

/-! ## 2. What each write does -/

theorem state_written (photos : List Text) (s : OrderState) :
    (Memory.state { photos := photos, photoOrderJson := some (dumpState s) }).Same s :=
  loadState_dumpState s

/-- A placement that is carried out. -/
structure Placed (m : Memory) (p : Placement) (m' : Memory) : Prop where
  photos : m'.photos = insertRanked m.state.rank (rankOf p.order) p.uuid m.listed
  epoch : m'.state.epoch = m.state.epoch
  ranks : ∀ k, m'.state.ranks.find k = if k = p.uuid then p.order else m.state.ranks.find k
  hashes : ∀ k, m'.state.hashes.find k = if k = p.uuid then p.contentHash else m.state.hashes.find k
  noHash : ∀ h ∈ p.contentHash, ∀ q ∈ m.listed, m.state.hashes.find q ≠ some h

def Refused (m : Memory) (p : Placement) : Prop :=
  (∃ e ∈ p.epoch, e ≠ m.state.epoch) ∨ ∃ h ∈ p.contentHash, ∃ q ∈ m.listed, m.state.hashes.find q = some h

theorem refused_iff (m : Memory) (p : Placement) : (p.epoch.any (fun epoch => m.state.epoch ≠ epoch) ||
      p.contentHash.any (hasHash m.state m.listed)) = true ↔ Refused m p := by
  rw [Bool.or_eq_true, Option.any_eq_true, Option.any_eq_true]
  refine or_congr (exists_congr fun e => and_congr_right fun _ => ?_)
    (exists_congr fun h => and_congr_right fun _ => ?_)
  · rw [decide_eq_true_iff]
    exact ne_comm
  · unfold hasHash
    rw [List.any_eq_true]
    exact exists_congr fun q => and_congr_right fun _ => decide_eq_true_iff

variable {m : Memory} {p : Placement}

theorem writeMemoryPhoto_refused (h : Refused m p) :
    writeMemoryPhoto m p = (m, false) :=
  if_pos ((refused_iff m p).mpr h)

theorem writeMemoryPhoto_placed (hnew : p.uuid ∉ m.listed) (h : ¬ Refused m p) :
    (writeMemoryPhoto m p).2 = true ∧ Placed m p (writeMemoryPhoto m p).1 := by
  unfold writeMemoryPhoto
  rw [if_neg (mt (refused_iff m p).mp h), place_eq hnew]
  have hsame := state_written (insertRanked m.state.rank (rankOf p.order) p.uuid m.listed) { m.state with
      ranks := m.state.ranks.store p.uuid p.order
      hashes := m.state.hashes.store p.uuid p.contentHash }
  refine ⟨rfl, rfl, hsame.epoch, fun k => (hsame.ranks k).trans Table.find_store,
    fun k => (hsame.hashes k).trans Table.find_store, fun hash hhash q hq heq => ?_⟩
  exact h (.inr ⟨hash, hhash, q, hq, heq⟩)

theorem writeMemoryPhoto_cases (hnew : p.uuid ∉ m.listed) :
    writeMemoryPhoto m p = (m, false) ∨
      (writeMemoryPhoto m p).2 = true ∧ Placed m p (writeMemoryPhoto m p).1 := by
  by_cases h : Refused m p
  · exact .inl (writeMemoryPhoto_refused h)
  · exact .inr (writeMemoryPhoto_placed hnew h)

structure Removed (m : Memory) (uuid : Text) (m' : Memory) : Prop where
  photos : m'.photos = m.photos.filter fun p => p ≠ uuid
  epoch : m'.state.epoch = m.state.epoch
  ranks : ∀ k, k ≠ uuid → m'.state.ranks.find k = m.state.ranks.find k
  hashes : ∀ k, k ≠ uuid → m'.state.hashes.find k = m.state.hashes.find k

theorem deletePhoto_removed (m : Memory) (uuid : Text) : Removed m uuid (deletePhoto m uuid) := by
  unfold deletePhoto
  split
  · rename_i hnone
    refine ⟨(List.filter_eq_self.mpr fun p hp => ?_).symm, rfl, fun _ _ => rfl, fun _ _ => rfl⟩
    exact decide_eq_true fun heq : p = uuid => hnone (heq ▸ hp)
  · have hsame := state_written (m.photos.filter fun p => p ≠ uuid)
      { m.state with ranks := m.state.ranks.erase uuid, hashes := m.state.hashes.erase uuid }
    refine ⟨rfl, hsame.epoch, fun k hk => ?_, fun k hk => ?_⟩
    · exact ((hsame.ranks k).trans Table.find_erase).trans (if_neg hk)
    · exact ((hsame.hashes k).trans Table.find_erase).trans (if_neg hk)

structure Replaced (m : Memory) (old new : Text) (m' : Memory) : Prop where
  photos : m'.photos = m.listed.set (m.listed.idxOf old) new
  epoch : m'.state.epoch = m.state.epoch
  ranks : ∀ k, m'.state.ranks.find k = if k = new then m.state.ranks.find old
    else if k = old then none else m.state.ranks.find k
  hashes : ∀ k, m'.state.hashes.find k = if k = new then m.state.hashes.find old
    else if k = old then none else m.state.hashes.find k

theorem replacePhoto_replaced {old : Text} (h : old ∈ m.listed) (new : Text) :
    (replacePhoto m old new).2 = true ∧ Replaced m old new (replacePhoto m old new).1 := by
  unfold replacePhoto replace
  rw [if_neg (not_not.mpr h)]
  have hsame := state_written (m.listed.set (m.listed.idxOf old) new) { m.state with
      ranks := (m.state.ranks.erase old).store new (m.state.ranks.find old)
      hashes := (m.state.hashes.erase old).store new (m.state.hashes.find old) }
  refine ⟨rfl, rfl, hsame.epoch, fun k => ?_, fun k => ?_⟩
  · rw [← Table.find_erase, ← Table.find_store]
    exact hsame.ranks k
  · rw [← Table.find_erase, ← Table.find_store]
    exact hsame.hashes k

theorem replacePhoto_missing {old : Text} (h : old ∉ m.listed) (new : Text) :
    replacePhoto m old new = (m, false) := by
  unfold replacePhoto replace
  rw [if_pos h]

/-! ## 3. The invariant -/

/-- What holds of a memory after some actions. -/
structure Kept (actions : List Action) (s : Album) : Prop where
  nodup : s.memory.photos.Nodup
  perm : s.memory.photos.Perm s.placed
  ranked : Ranked s.memory.state.rank s.placed s.memory.photos
  /-- no two photos have one hash -/
  hashes : s.memory.photos.Pairwise fun p q => ∀ h, s.memory.state.hashes.find p = some h →
    s.memory.state.hashes.find q ≠ some h
  used : ∀ p ∈ s.memory.photos, p ∈ actions.flatMap Action.newUuids
  proper : ∀ p ∈ s.memory.photos, p ≠ .valid ""
  /-- the rank and the hash that a photo was placed with -/
  told : ∀ p, .place p ∈ actions → p.uuid ∈ s.memory.photos →
    s.memory.state.ranks.find p.uuid = p.order ∧ s.memory.state.hashes.find p.uuid = p.contentHash

variable {s : Album}

theorem Kept.listed (h : Kept actions s) :
    s.memory.listed = s.memory.photos :=
  List.filter_eq_self.mpr fun p hp => decide_eq_true (h.proper p hp)

theorem kept_start (order : Option Json) : Kept [] (start order) where
  nodup := List.nodup_nil
  perm := List.Perm.nil
  ranked := List.Pairwise.nil
  hashes := List.Pairwise.nil
  used := fun _ h => absurd h List.not_mem_nil
  proper := fun _ h => absurd h List.not_mem_nil
  told := fun _ h => absurd h List.not_mem_nil

theorem Kept.unchanged (h : Kept actions s)
    (hnew : ∀ p, a = .place p → p.uuid ∉ s.memory.photos) : Kept (actions ++ [a]) s where
  nodup := h.nodup
  perm := h.perm
  ranked := h.ranked
  hashes := h.hashes
  used := fun p hp => by
    rw [List.flatMap_append]
    exact List.mem_append_left _ (h.used p hp)
  proper := h.proper
  told := fun p hp hmem => by
    rcases List.mem_append.mp hp with hold | hlast
    · exact h.told p hold hmem
    · exact absurd hmem (hnew p (List.mem_singleton.mp hlast).symm)

theorem kept_place (h : Kept actions s) (hnew : p.uuid ∉ actions.flatMap Action.newUuids)
    (hproper : p.uuid ≠ .valid "") :
    Kept (actions ++ [.place p]) (step s (.place p)) := by
  have hout : p.uuid ∉ s.memory.photos := fun hmem => hnew (h.used _ hmem)
  rcases writeMemoryPhoto_cases (h.listed.symm ▸ hout) with hrefused | ⟨hdone, hplaced⟩
  · have hstep : step s (.place p) = s := by
      unfold step
      dsimp only
      rw [hrefused]
      rfl
    rw [hstep]
    refine h.unchanged fun q hq => ?_
    cases hq
    exact hout
  · have hstep : step s (.place p) =
        { memory := (writeMemoryPhoto s.memory p).1, placed := s.placed ++ [p.uuid] } := by
      unfold step
      dsimp only
      rw [hdone]
      rfl
    rw [hstep]
    generalize (writeMemoryPhoto s.memory p).1 = m at hplaced
    have hphotos := hplaced.photos
    rw [h.listed] at hphotos
    have hperm : m.photos.Perm (p.uuid :: s.memory.photos) := hphotos ▸ perm_insertRanked _ _ _ _
    have hmem : ∀ q, q ∈ m.photos ↔ q = p.uuid ∨ q ∈ s.memory.photos := fun q => by
      rw [hperm.mem_iff, List.mem_cons]
    have hothers : ∀ q ∈ s.memory.photos, q ≠ p.uuid := fun q hq heq => hout (heq ▸ hq)
    have hrank : ∀ q ∈ s.memory.photos, m.state.rank q = s.memory.state.rank q := fun q hq => by
      unfold OrderState.rank
      rw [hplaced.ranks, if_neg (hothers q hq)]
    have hrankNew : m.state.rank p.uuid = rankOf p.order := by
      unfold OrderState.rank
      rw [hplaced.ranks, if_pos rfl]
    have hhash : ∀ q ∈ s.memory.photos, m.state.hashes.find q = s.memory.state.hashes.find q :=
      fun q hq => (hplaced.hashes q).trans (if_neg (hothers q hq))
    have hhashNew : m.state.hashes.find p.uuid = p.contentHash := (hplaced.hashes p.uuid).trans (if_pos rfl)
    refine ⟨hperm.nodup_iff.mpr (List.nodup_cons.mpr ⟨hout, h.nodup⟩), ?_, ?_, ?_, fun q hq => ?_,
      fun q hq => ?_, fun q hq hin => ?_⟩
    case refine_1 => exact hperm.trans ((h.perm.cons _).trans (List.perm_append_singleton _ _).symm)
    case refine_2 =>
      have hranked : Ranked m.state.rank s.placed s.memory.photos := h.ranked.congr hrank
      have hinsert := hranked.insert (u := p.uuid) fun q hq => h.perm.mem_iff.mp hq
      have hsame : insertRanked m.state.rank (m.state.rank p.uuid) p.uuid s.memory.photos = m.photos := by
        rw [hphotos, hrankNew]
        exact insertRanked_congr hrank
      exact hsame ▸ hinsert
    case refine_3 =>
      have hpairs : (p.uuid :: s.memory.photos).Pairwise fun q r => ∀ hash,
          m.state.hashes.find q = some hash → m.state.hashes.find r ≠ some hash := by
        refine List.pairwise_cons.mpr ⟨fun q hq hash hp => ?_, ?_⟩
        · rw [hhash q hq]
          rw [hhashNew] at hp
          exact hplaced.noHash hash hp q (h.listed.symm ▸ hq)
        · refine List.Pairwise.imp_of_mem (fun hq hr hqr hash => ?_) h.hashes
          rw [hhash _ hq, hhash _ hr]
          exact hqr hash
      exact hpairs.perm hperm.symm fun hqr hash hr hq => hqr hash hq hr
    case refine_4 =>
      rw [List.flatMap_append, List.mem_append]
      exact ((hmem q).mp hq).symm.imp (h.used q) fun heq => by
        rw [heq]
        exact List.mem_singleton_self _
    case refine_5 =>
      rcases (hmem q).mp hq with rfl | hold
      · exact hproper
      · exact h.proper q hold
    case refine_6 =>
      rcases (hmem q.uuid).mp hin with hsame | hold
      · -- the only placement of that uuid is this one
        rcases List.mem_append.mp hq with hearlier | hlast
        · exact absurd (List.mem_flatMap.mpr ⟨_, hearlier, hsame ▸ List.mem_singleton_self _⟩) hnew
        · cases List.mem_singleton.mp hlast
          exact ⟨(hplaced.ranks _).trans (if_pos rfl), hhashNew⟩
      · have hearlier : .place q ∈ actions := by
          rcases List.mem_append.mp hq with hearlier | hlast
          · exact hearlier
          · cases List.mem_singleton.mp hlast
            exact absurd hold hout
        obtain ⟨hr, hh⟩ := h.told q hearlier hold
        exact ⟨((hplaced.ranks _).trans (if_neg (hothers _ hold))).trans hr, (hhash _ hold).trans hh⟩

theorem kept_remove {uuid : Text} (h : Kept actions s) :
    Kept (actions ++ [.remove uuid]) (step s (.remove uuid)) := by
  have hremoved := deletePhoto_removed s.memory uuid
  show Kept _ { memory := deletePhoto s.memory uuid, placed := s.placed.filter fun p => p ≠ uuid }
  generalize deletePhoto s.memory uuid = m at hremoved
  have hmem : ∀ q ∈ m.photos, q ∈ s.memory.photos ∧ q ≠ uuid := by
    intro q hq
    rw [hremoved.photos] at hq
    obtain ⟨hin, hne⟩ := List.mem_filter.mp hq
    exact ⟨hin, of_decide_eq_true hne⟩
  have hsublist : m.photos.Sublist s.memory.photos := hremoved.photos ▸ List.filter_sublist
  refine ⟨hsublist.nodup h.nodup, ?_, ?_, ?_, fun q hq => ?_, fun q hq => h.proper q (hmem q hq).1,
    fun q hq hin => ?_⟩
  case refine_1 => exact hremoved.photos ▸ h.perm.filter _
  case refine_2 =>
    have hranked := h.ranked.filter fun p => p ≠ uuid
    rw [← hremoved.photos] at hranked
    refine hranked.congr fun q hq => ?_
    unfold OrderState.rank
    rw [hremoved.ranks q (hmem q hq).2]
  case refine_3 =>
    refine List.Pairwise.imp_of_mem (fun hq hr hqr hash => ?_) (h.hashes.sublist hsublist)
    rw [hremoved.hashes _ (hmem _ hq).2, hremoved.hashes _ (hmem _ hr).2]
    exact hqr hash
  case refine_4 =>
    rw [List.flatMap_append]
    exact List.mem_append_left _ (h.used q (hmem q hq).1)
  case refine_5 =>
    have hearlier : .place q ∈ actions := by
      rcases List.mem_append.mp hq with hearlier | hlast
      · exact hearlier
      · exact nomatch List.mem_singleton.mp hlast
    rw [hremoved.ranks _ (hmem _ hin).2, hremoved.hashes _ (hmem _ hin).2]
    exact h.told q hearlier (hmem _ hin).1

theorem kept_replace {old new : Text} (h : Kept actions s) (hnew : new ∉ actions.flatMap Action.newUuids)
    (hproper : new ≠ .valid "") :
    Kept (actions ++ [.replace old new]) (step s (.replace old new)) := by
  have hout : new ∉ s.memory.photos := fun hmem => hnew (h.used _ hmem)
  by_cases hold : old ∈ s.memory.photos
  · obtain ⟨hdone, hreplaced⟩ := replacePhoto_replaced (h.listed.symm ▸ hold) new
    have hstep : step s (.replace old new) =
        { memory := (replacePhoto s.memory old new).1
          placed := s.placed.map fun p => if p = old then new else p } := by
      unfold step
      dsimp only
      rw [hdone]
      rfl
    rw [hstep]
    generalize (replacePhoto s.memory old new).1 = m at hreplaced
    have hphotos : m.photos = s.memory.photos.map fun p => if p = old then new else p := by
      rw [hreplaced.photos, h.listed, set_idxOf h.nodup hold]
    have hothers : ∀ q ∈ s.memory.photos, q ≠ new := fun q hq heq => hout (heq ▸ hq)
    -- a photo has the rank and the hash of the one whose place it has
    have hfind : ∀ {ν : Type} (d d' : Dict Text ν), (∀ k, d'.find k = if k = new then d.find old
        else if k = old then none else d.find k) → ∀ q ∈ s.memory.photos,
          d'.find (if q = old then new else q) = d.find q := by
      intro ν d d' hd q hq
      by_cases hq' : q = old
      · rw [if_pos hq', hd, if_pos rfl, hq']
      · rw [if_neg hq', hd, if_neg (hothers q hq), if_neg hq']
    have hranks := hfind _ _ hreplaced.ranks
    have hhashes := hfind _ _ hreplaced.hashes
    have hinj : ∀ q ∈ s.memory.photos, ∀ r ∈ s.memory.photos,
        (if q = old then new else q) = (if r = old then new else r) → q = r := by
      intro q hq r hr heq
      split at heq <;> split at heq
      · rename_i hqo hro
        exact hqo.trans hro.symm
      · exact absurd heq.symm (hothers r hr)
      · exact absurd heq (hothers q hq)
      · exact heq
    have hmem : ∀ q ∈ m.photos, q = new ∨ q ∈ s.memory.photos ∧ q ≠ old := by
      intro q hq
      rw [hphotos] at hq
      obtain ⟨r, hr, rfl⟩ := List.mem_map.mp hq
      by_cases hro : r = old
      · exact .inl (if_pos hro)
      · rw [if_neg hro]
        exact .inr ⟨hr, hro⟩
    refine ⟨?_, hphotos ▸ h.perm.map _, ?_, ?_, fun q hq => ?_, fun q hq => ?_, fun q hq hin => ?_⟩
    case refine_1 => exact hphotos ▸ List.Nodup.map_on hinj h.nodup
    case refine_2 =>
      rw [hphotos]
      refine h.ranked.map fun q hq => ?_
      unfold OrderState.rank
      rw [hranks q hq]
    case refine_3 =>
      rw [hphotos, List.pairwise_map]
      refine List.Pairwise.imp_of_mem (fun hq hr hqr hash => ?_) h.hashes
      rw [hhashes _ hq, hhashes _ hr]
      exact hqr hash
    case refine_4 =>
      rw [List.flatMap_append, List.mem_append]
      rcases hmem q hq with rfl | ⟨hin, -⟩
      · exact .inr (List.mem_singleton_self _)
      · exact .inl (h.used q hin)
    case refine_5 =>
      rcases hmem q hq with rfl | ⟨hin, -⟩
      · exact hproper
      · exact h.proper q hin
    case refine_6 =>
      have hearlier : .place q ∈ actions := by
        rcases List.mem_append.mp hq with hearlier | hlast
        · exact hearlier
        · exact nomatch List.mem_singleton.mp hlast
      rcases hmem q.uuid hin with hsame | ⟨hin', hne⟩
      · exact absurd (List.mem_flatMap.mpr ⟨_, hearlier, hsame ▸ List.mem_singleton_self _⟩) hnew
      · have hr := hranks _ hin'
        have hh := hhashes _ hin'
        rw [if_neg hne] at hr hh
        rw [hr, hh]
        exact h.told q hearlier hin'
  · have hstep : step s (.replace old new) = s := by
      unfold step
      dsimp only
      rw [replacePhoto_missing (h.listed.symm ▸ hold)]
      rfl
    rw [hstep]
    exact h.unchanged fun q hq => nomatch hq

theorem kept_clear : Kept (actions ++ [.clear]) (step s .clear) where
  nodup := List.nodup_nil
  perm := List.Perm.nil
  ranked := List.Pairwise.nil
  hashes := List.Pairwise.nil
  used := fun _ h => absurd h List.not_mem_nil
  proper := fun _ h => absurd h List.not_mem_nil
  told := fun _ _ h => absurd h List.not_mem_nil

theorem kept_step (h : Kept actions s)
    (hnew : ∀ u ∈ a.newUuids, u ∉ actions.flatMap Action.newUuids ∧ u ≠ .valid "") :
    Kept (actions ++ [a]) (step s a) := by
  cases a with
  | place p =>
    obtain ⟨hout, hproper⟩ := hnew p.uuid (List.mem_singleton_self _)
    exact kept_place h hout hproper
  | remove uuid => exact kept_remove h
  | replace old new =>
    obtain ⟨hout, hproper⟩ := hnew new (List.mem_singleton_self _)
    exact kept_replace h hout hproper
  | clear => exact kept_clear

theorem kept_run (order : Option Json) (hfresh : Fresh actions) :
    Kept actions (run order actions) := by
  have hrun := run_foldl step (start order) actions
  revert hfresh
  refine Run.trace_invariant (I := fun tr s => Fresh tr → Kept tr s) (fun _ => kept_start order) ?_ hrun
  rintro tr s a _ - ih rfl hfresh
  obtain ⟨hearlier, hnew⟩ := hfresh.append
  exact kept_step (ih hearlier) hnew

/-! ## 4. Epochs -/

theorem epoch_writeMemoryPhoto (m : Memory) (p : Placement) :
    (writeMemoryPhoto m p).1.state.epoch = m.state.epoch := by
  unfold writeMemoryPhoto place
  split
  · rfl
  · split
    · rfl
    · rename_i photos state hplace
      split at hplace
      · cases hplace
      · cases hplace
        exact (state_written _ _).epoch

theorem epoch_step (s : Album) (a : Action) : (step s a).memory.state.epoch = s.memory.state.epoch ∨
      a = .clear ∧ (step s a).memory.state.epoch = s.memory.state.epoch + 1 := by
  cases a with
  | place p => exact .inl (epoch_writeMemoryPhoto s.memory p)
  | remove uuid => exact .inl (deletePhoto_removed s.memory uuid).epoch
  | replace old new =>
    left
    show (replacePhoto s.memory old new).1.state.epoch = _
    by_cases h : old ∈ s.memory.listed
    · exact (replacePhoto_replaced h new).2.epoch
    · rw [replacePhoto_missing h]
  | clear => exact .inr ⟨rfl, (state_written [] (clear s.memory.state)).epoch⟩

theorem epoch_run (actions : List Action) (s : Album) :
    s.memory.state.epoch ≤ (actions.foldl step s).memory.state.epoch ∧
      (.clear ∈ actions → s.memory.state.epoch < (actions.foldl step s).memory.state.epoch) := by
  induction actions generalizing s with
  | nil => exact ⟨le_rfl, fun h => absurd h List.not_mem_nil⟩
  | cons a actions ih =>
    obtain ⟨hle, hlt⟩ := ih (step s a)
    rw [List.foldl_cons]
    rcases epoch_step s a with hsame | ⟨rfl, hmore⟩
    · refine ⟨hsame ▸ hle, fun hclear => ?_⟩
      rcases List.mem_cons.mp hclear with rfl | hrest
      · have hgrown : (step s .clear).memory.state.epoch = s.memory.state.epoch + 1 :=
          (state_written [] (clear s.memory.state)).epoch
        omega
      · have hgrown := hlt hrest
        omega
    · exact ⟨by omega, fun _ => by omega⟩

/-! ## 5. Placements only -/

def placements (ps : List Placement) : List Action := ps.map .place

/-- A placement was not queued under another epoch. -/
def isCurrent (order : Option Json) (p : Placement) : Bool :=
  p.epoch.all fun epoch => decide (epoch = (loadState order).epoch)

theorem mem_newUuids {ps : List Placement} {u : Text}
    (h : u ∈ (placements ps).flatMap Action.newUuids) : ∃ p ∈ ps, p.uuid = u := by
  obtain ⟨a, ha, hu⟩ := List.mem_flatMap.mp h
  obtain ⟨p, hp, rfl⟩ := List.mem_map.mp ha
  exact ⟨p, hp, (List.mem_singleton.mp hu).symm⟩

theorem run_placements (order : Option Json) {ps : List Placement} (hfresh : Fresh (placements ps))
    (hhashes : (ps.filterMap (·.contentHash)).Nodup) :
    (run order (placements ps)).placed = (ps.filter (isCurrent order)).map (·.uuid) ∧
      (run order (placements ps)).memory.state.epoch = (loadState order).epoch := by
  induction ps using List.reverseRecOn with
  | nil => exact ⟨rfl, rfl⟩
  | append_singleton ps p ih =>
    have hsplit : placements (ps ++ [p]) = placements ps ++ [.place p] := List.map_append
    rw [hsplit] at hfresh ⊢
    obtain ⟨hearlier, hnew⟩ := hfresh.append
    obtain ⟨hout, -⟩ := hnew p.uuid (List.mem_singleton_self _)
    rw [List.filterMap_append] at hhashes
    obtain ⟨hnodup, -, hdisjoint⟩ := List.nodup_append.mp hhashes
    obtain ⟨hplaced, hepoch⟩ := ih hearlier hnodup
    have hkept := kept_run order hearlier
    -- no photo of the list has the hash
    have hrefused : Refused (run order (placements ps)).memory p ↔ isCurrent order p = false := by
      have hnone : ¬ ∃ h ∈ p.contentHash, ∃ q ∈ (run order (placements ps)).memory.listed,
          (run order (placements ps)).memory.state.hashes.find q = some h := by
        rintro ⟨h, hh, q, hq, hfind⟩
        rw [hkept.listed] at hq
        obtain ⟨q', hq', rfl⟩ := mem_newUuids (hkept.used q hq)
        rw [(hkept.told q' (List.mem_map_of_mem hq') hq).2] at hfind
        exact hdisjoint h (List.mem_filterMap.mpr ⟨q', hq', hfind⟩) h
          (List.mem_filterMap.mpr ⟨p, List.mem_singleton_self _, hh⟩) rfl
      unfold Refused isCurrent
      rw [or_iff_left hnone, hepoch]
      cases p.epoch <;> simp
    rw [run_append, List.filter_append, List.map_append, ← hplaced, ← hepoch]
    have hphoto : p.uuid ∉ (run order (placements ps)).memory.listed := fun hmem =>
      hout (hkept.used _ (hkept.listed ▸ hmem))
    refine ⟨?_, epoch_writeMemoryPhoto _ p⟩
    show (if (writeMemoryPhoto (run order (placements ps)).memory p).2 then _ else _) = _
    cases hcurrent : isCurrent order p with
    | false =>
      rw [writeMemoryPhoto_refused (hrefused.mpr hcurrent)]
      simp [hcurrent]
    | true =>
      have hnot : ¬ Refused (run order (placements ps)).memory p := by
        rw [hrefused, hcurrent]
        exact Bool.noConfusion
      rw [(writeMemoryPhoto_placed hphoto hnot).1]
      simp [hcurrent]

theorem placements_any_order (order : Option Json) {ps qs : List Placement} (hperm : ps.Perm qs)
    (hfresh : Fresh (placements ps)) (hranks : (ps.map (·.order)).Nodup)
    (hhashes : (ps.filterMap (·.contentHash)).Nodup) :
    (run order (placements ps)).memory.photos = (run order (placements qs)).memory.photos := by
  have huuids : ((placements ps).flatMap Action.newUuids).Perm
      ((placements qs).flatMap Action.newUuids) := (hperm.map _).flatMap_right _
  have hfresh' : Fresh (placements qs) :=
    ⟨huuids.nodup_iff.mp hfresh.1, fun u hu => hfresh.2 u (huuids.mem_iff.mpr hu)⟩
  have hhashes' : (qs.filterMap (·.contentHash)).Nodup := (hperm.filterMap _).nodup_iff.mp hhashes
  have hkept := kept_run order hfresh
  have hkept' := kept_run order hfresh'
  have hplaced := (run_placements order hfresh hhashes).1
  have hplaced' := (run_placements order hfresh' hhashes').1
  have hphotos : (run order (placements ps)).memory.photos.Perm
      (run order (placements qs)).memory.photos := by
    refine (hplaced ▸ hkept.perm).trans (List.Perm.trans ?_ (hplaced' ▸ hkept'.perm).symm)
    exact (hperm.filter _).map _
  -- every photo has the rank that it was placed with
  have hrank : ∀ u ∈ (run order (placements ps)).memory.photos, ∃ p ∈ ps, p.uuid = u ∧
      (run order (placements ps)).memory.state.rank u = rankOf p.order ∧
      (run order (placements qs)).memory.state.rank u = rankOf p.order := by
    intro u hu
    obtain ⟨p, hp, rfl⟩ := mem_newUuids (hkept.used u hu)
    have htold := hkept.told p (List.mem_map_of_mem hp) hu
    have htold' := hkept'.told p (List.mem_map_of_mem (hperm.mem_iff.mp hp)) (hphotos.mem_iff.mp hu)
    unfold OrderState.rank
    exact ⟨p, hp, rfl, congrArg rankOf htold.1, congrArg rankOf htold'.1⟩
  have hranked' : Ranked (run order (placements ps)).memory.state.rank
      (run order (placements qs)).placed (run order (placements qs)).memory.photos := by
    refine hkept'.ranked.congr fun u hu => ?_
    obtain ⟨p, -, -, hr, hr'⟩ := hrank u (hphotos.mem_iff.mpr hu)
    rw [hr, hr']
  refine hkept.ranked.eq_of_perm hranked' hphotos fun u hu v hv heq => ?_
  obtain ⟨p, hp, rfl, hp', -⟩ := hrank u hu
  obtain ⟨q, hq, rfl, hq', -⟩ := hrank v hv
  rw [hp', hq'] at heq
  rw [List.inj_on_of_nodup_map hranks hp hq (rankOf_inj heq)]

/-! ## 6. The results together -/

/-- A replacement stands where its predecessor stood, with its rank and its hash. -/
def TakesPlace (m : Memory) (old new : Text) (m' : Memory) : Prop :=
  m'.photos = (m.photos.map fun p => if p = old then new else p) ∧
    m'.state.ranks.find new = m.state.ranks.find old ∧
    m'.state.hashes.find new = m.state.hashes.find old

/-- **Photos over every sequence of actions**: no photo twice, by rank, unranked ones last, and within a
    rank as they were placed; a replacement keeps its predecessor's place; of two placements with one hash
    not both stand in the list; what was queued before a clear is refused after it; the stored state is read
    back; and placements with ranks and hashes of their own give one list in any order. -/
theorem photo_order (order : Option Json) : (∀ actions, Fresh actions → ∀ s, run order actions = s →
      s.memory.photos.Nodup ∧ s.memory.photos.Perm s.placed ∧
      Ranked s.memory.state.rank s.placed s.memory.photos ∧
      (∀ p, .place p ∈ actions → p.uuid ∈ s.memory.photos → s.memory.state.ranks.find p.uuid = p.order) ∧
      (∀ old ∈ s.memory.photos, ∀ new, TakesPlace s.memory old new (step s (.replace old new)).memory) ∧
      (∀ p q h, .place p ∈ actions → .place q ∈ actions → p.uuid ∈ s.memory.photos →
        q.uuid ∈ s.memory.photos → p.contentHash = some h → q.contentHash = some h → p.uuid = q.uuid) ∧
      (∀ earlier later, actions = earlier ++ later → .clear ∈ later → ∀ p : Placement,
        p.epoch = some (run order earlier).memory.state.epoch →
          writeMemoryPhoto s.memory p = (s.memory, false)) ∧
      (loadState (some (dumpState s.memory.state))).Same s.memory.state) ∧
    ∀ ps qs, ps.Perm qs → Fresh (placements ps) → (ps.map (·.order)).Nodup →
      (ps.filterMap (·.contentHash)).Nodup →
      (run order (placements ps)).memory.photos = (run order (placements qs)).memory.photos := by
  refine ⟨?_, fun ps qs hperm => placements_any_order order hperm⟩
  rintro actions hfresh s rfl
  have hkept := kept_run order hfresh
  refine ⟨hkept.nodup, hkept.perm, hkept.ranked, fun p hp hin => (hkept.told p hp hin).1,
    fun old hold new => ?_, fun p q h hp hq hpin hqin hph hqh => ?_,
    fun earlier later hsplit hclear p hp => ?_, loadState_dumpState _⟩
  case refine_1 =>
    have hreplaced := (replacePhoto_replaced (hkept.listed.symm ▸ hold) new).2
    refine ⟨?_, (hreplaced.ranks new).trans (if_pos rfl), (hreplaced.hashes new).trans (if_pos rfl)⟩
    rw [← set_idxOf hkept.nodup hold, ← hkept.listed]
    exact hreplaced.photos
  case refine_2 =>
    by_contra hne
    have hsymm : Std.Symm fun p q => ∀ h, (run order actions).memory.state.hashes.find p = some h →
        (run order actions).memory.state.hashes.find q ≠ some h :=
      ⟨fun q r hqr h hr hq => hqr h hq hr⟩
    have hpairs := hkept.hashes.forall hpin hqin hne
    exact hpairs h ((hkept.told p hp hpin).2.trans hph) ((hkept.told q hq hqin).2.trans hqh)
  case refine_3 =>
    have hrun : run order actions = later.foldl step (run order earlier) := by
      rw [hsplit]
      exact List.foldl_append
    have hgrown := (epoch_run later (run order earlier)).2 hclear
    rw [← hrun] at hgrown
    exact writeMemoryPhoto_refused (.inl ⟨_, hp, hgrown.ne⟩)

/-- A photo of rank 1, one of rank 0, and one that takes the place of the first. -/
def someActions : List Action :=
  [.place { uuid := .valid "a", order := some 1, epoch := some 0, contentHash := none },
   .place { uuid := .valid "b", order := some 0, epoch := none, contentHash := none },
   .replace (.valid "a") (.valid "c"), .remove (.valid "b")]

theorem someActions_order : (run none someActions).memory.photos = [.valid "c"] ∧
      (run none someActions).memory.photos.Nodup := by
  have hfresh : Fresh someActions := by
    constructor
    · decide
    · decide
  exact ⟨by decide +kernel, ((photo_order none).1 someActions hfresh _ rfl).1⟩

def someHash : Hash := ⟨"0123456789abcdef0123456789abcdef0123456789abcdef0123456789abcdef", by decide +kernel⟩

/-- Two downloads of one photo, for two places of the list. -/
def twice (uuid : String) (rank : ℤ) : Placement :=
  { uuid := .valid uuid, order := some rank, epoch := some 0, contentHash := some someHash }

/-- **Of two downloads with one hash the first is placed**, whatever its rank. -/
theorem same_hash_order : ¬ ∀ ps qs : List Placement, ps.Perm qs → Fresh (placements ps) →
      (∀ p ∈ ps, p.order.isSome = true) → (ps.map (·.order)).Nodup →
      (run none (placements ps)).memory.photos = (run none (placements qs)).memory.photos := by
  intro h
  have hfresh : Fresh (placements [twice "a" 0, twice "b" 1]) := by
    constructor
    · decide
    · decide
  have hsame := h [twice "a" 0, twice "b" 1] [twice "b" 1, twice "a" 0] (List.Perm.swap _ _ _) hfresh
    (by decide) (by decide)
  have hfirst : (run none (placements [twice "a" 0, twice "b" 1])).memory.photos = [.valid "a"] := by
    decide +kernel
  have hsecond : (run none (placements [twice "b" 1, twice "a" 0])).memory.photos = [.valid "b"] := by
    decide +kernel
  rw [hfirst, hsecond] at hsame
  exact absurd hsame (by decide)

end TraxJourney.Photos
