/-
  File:      Imports/RestoredFamilies.lean
  Subject:   The split families of the rows that an import has written.

  * **`split_families_imported`** -- every chain of parents comes to the family's root, and a family that
    is well formed in the file comes back as it was; an import fails only where no ids are to be had.
-/
import TraxJourney.Imports.SplitFamilies

namespace TraxJourney.Imports

open Lib

/-! ## 1. The numbering -/

/-- The activity that the file has first under an id within 64 bits. -/
def firstWith (acts : List FileActivity) (id : ℤ) : Option FileActivity :=
  if isActivityId id then lookup acts id else none

variable {acts : List FileActivity}

theorem firstWith_cons {act : FileActivity} {id : ℤ} :
    firstWith (act :: acts) id = (firstWith [act] id).or (firstWith acts id) := by
  by_cases hid : isActivityId id = true
  · by_cases hact : act.id = id
    · simp [firstWith, lookup, hid, hact]
    · simp [firstWith, lookup, hid, hact]
  · simp [firstWith, hid]

/-- What the first loop keeps: each id is within 64 bits and numbered once. -/
structure Numbering.Ok (st : Numbering) : Prop where
  valid : ValidIds st.carried
  keys : st.newIds.map Prod.fst = st.carried.map (·.id)
  nodup : (st.carried.map (·.id)).Nodup

section Numbering

variable {used : ℤ → Bool} {draws : ℤ → List ℕ} {st st' : Numbering} {act : FileActivity}

theorem lookup_append {l l' : List FileActivity} {id : ℤ} :
    lookup (l ++ l') id = (lookup l id).or (lookup l' id) := List.find?_append

theorem lookup_isSome {l : List FileActivity} {id : ℤ} : (lookup l id).isSome ↔ id ∈ l.map (·.id) := by
  simp [lookup, List.find?_isSome]

theorem Numbering.Ok.lookup_isSome (hok : st.Ok) (id : ℤ) :
    (st.newIds.lookup id).isSome ↔ (lookup st.carried id).isSome := by
  rw [Imports.lookup_isSome, ← hok.keys, List.lookup_isSome_iff]
  simp

theorem Numbering.next_spec (hok : st.Ok) (h : Numbering.next used draws st act = some st') :
    st'.Ok ∧ ∀ id, lookup st'.carried id = (lookup st.carried id).or (firstWith [act] id) := by
  unfold Numbering.next at h
  split at h
  case isTrue hnew =>
    rw [Bool.and_eq_true] at hnew
    obtain ⟨hvalid, hnone⟩ := hnew
    obtain ⟨newId, -, hst⟩ := Option.bind_eq_some_iff.mp h
    obtain rfl := Option.some.inj hst
    have hfresh : act.id ∉ st.carried.map (·.id) := by
      rw [← Imports.lookup_isSome, ← hok.lookup_isSome, Option.isNone_iff_eq_none.mp hnone]
      simp
    refine ⟨⟨?_, ?_, ?_⟩, fun id => ?_⟩
    · intro a ha
      rcases List.mem_append.mp ha with ha | ha
      · exact hok.valid a ha
      · rw [List.mem_singleton.mp ha]
        exact hvalid
    · simp [hok.keys]
    · rw [List.map_append, List.map_singleton]
      refine List.nodup_append.mpr ⟨hok.nodup, by simp, fun x hx y hy heq => hfresh ?_⟩
      rw [List.mem_singleton.mp hy] at heq
      exact heq ▸ hx
    · rw [lookup_append]
      congr 1
      by_cases hid : act.id = id
      · have hvalid' : isActivityId id = true := hid ▸ hvalid
        simp [firstWith, hvalid']
      · simp [firstWith, lookup, hid]
  case isFalse hold =>
    obtain rfl := Option.some.inj h
    refine ⟨hok, fun id => ?_⟩
    -- the activity is passed over: its id is no id, or is taken
    by_cases hvalid : isActivityId act.id = true
    · have htaken : (lookup st.carried act.id).isSome := by
        rw [← hok.lookup_isSome]
        simpa [hvalid, ← Option.isSome_iff_ne_none] using hold
      by_cases hid : act.id = id
      · obtain ⟨a, ha⟩ := Option.isSome_iff_exists.mp htaken
        rw [← hid, ha]
        rfl
      · simp [firstWith, lookup, hid]
    · by_cases hid : act.id = id
      · simp [firstWith, ← hid, hvalid]
      · simp [firstWith, lookup, hid]

theorem numbering_spec (hok : st.Ok) (h : acts.foldlM (Numbering.next used draws) st = some st') :
    st'.Ok ∧ ∀ id, lookup st'.carried id = (lookup st.carried id).or (firstWith acts id) := by
  induction acts generalizing st with
  | nil =>
    obtain rfl := Option.some.inj h
    exact ⟨hok, fun id => by simp [firstWith, lookup]⟩
  | cons act acts ih =>
    rw [List.foldlM_cons] at h
    obtain ⟨st₁, hnext, hrest⟩ := Option.bind_eq_some_iff.mp h
    obtain ⟨hok₁, hlook₁⟩ := Numbering.next_spec hok hnext
    obtain ⟨hok', hlook'⟩ := ih hok₁ hrest
    refine ⟨hok', fun id => ?_⟩
    rw [hlook', hlook₁, Option.or_assoc, ← firstWith_cons]

end Numbering

/-! ## 2. The rows -/

abbrev newIdOf (newIds : List (ℤ × ℤ)) (id : ℤ) : Option ℤ := newIds.lookup id

/-- A row of a file activity, with the links `headOf` and `parentOf` under the new ids. -/
def Restored (newIds : List (ℤ × ℤ)) (look : Look) (act : FileActivity) (row : SplitRow) : Prop :=
  newIdOf newIds act.id = some row.id ∧
  row.splitRootId.map some = (headOf look act).map (newIdOf newIds) ∧
  row.splitParentId.map some = (parentOf look act).map (newIdOf newIds)

section Rows

variable {st : Numbering} {settled : List ℤ} {act : FileActivity}

theorem carried_lookup (hok : st.Ok) (hact : act ∈ st.carried) : lookup st.carried act.id = some act := by
  have hsome : (lookup st.carried act.id).isSome := lookup_isSome.mpr (List.mem_map_of_mem hact)
  obtain ⟨act', hlook⟩ := Option.isSome_iff_exists.mp hsome
  obtain ⟨hmem, hid⟩ := lookup_mem hlook
  rw [hlook, List.inj_on_of_nodup_map hok.nodup hmem hact hid]

theorem inFamily_newId (hok : st.Ok) {r x : ℤ} (hr : (lookup st.carried r).isSome)
    (hx : inFamily (lookup st.carried) r x) : ∃ q, st.newIds.lookup x = some q := by
  refine Option.isSome_iff_exists.mp ((hok.lookup_isSome x).mpr ?_)
  rcases hx with rfl | ⟨act, hlook, -⟩
  · exact hr
  · rw [hlook]
    rfl

theorem restoreSplit_spec (hok : st.Ok) (hact : act ∈ st.carried)
    (hsettled : Settled (lookup st.carried) settled) :
    ∃ links settled', restoreSplit st.newIds st.carried settled act = some (links, settled') ∧
      links.rootId.map some = (headOf (lookup st.carried) act).map (newIdOf st.newIds) ∧
      links.parentId.map some = (parentOf (lookup st.carried) act).map (newIdOf st.newIds) ∧
      Settled (lookup st.carried) settled' := by
  -- without a head there is no family, and so neither link
  have hplain : headOf (lookup st.carried) act = none →
      (none : Option ℤ).map some = (headOf (lookup st.carried) act).map (newIdOf st.newIds) ∧
      (none : Option ℤ).map some = (parentOf (lookup st.carried) act).map (newIdOf st.newIds) := by
    intro hhead
    rw [parentOf, hhead]
    exact ⟨rfl, rfl⟩
  unfold restoreSplit
  cases hroot : act.splitRootId with
  | none =>
    have hhead : headOf (lookup st.carried) act = none := by simp [headOf, hroot]
    exact ⟨_, _, rfl, (hplain hhead).1, (hplain hhead).2, hsettled⟩
  | some r =>
    simp only
    split
    case isTrue hself =>
      have hhead : headOf (lookup st.carried) act = none := by
        refine Option.eq_none_iff_forall_ne_some.mpr fun r' h => ?_
        obtain ⟨hr, hne, head, hlook, -⟩ := headOf_eq_some.mp h
        obtain rfl : r = r' := Option.some.inj (hroot.symm.trans hr)
        obtain ⟨hmem, hid⟩ := lookup_mem hlook
        have hvalid := hok.valid head hmem
        rw [hid] at hvalid
        simp [hvalid, hne] at hself
      exact ⟨_, _, rfl, (hplain hhead).1, (hplain hhead).2, hsettled⟩
    case isFalse hother =>
      have hne : r ≠ act.id := by
        intro heq
        simp [heq] at hother
      cases hlook : lookup st.carried r with
      | none =>
        have hhead : headOf (lookup st.carried) act = none := by simp [headOf, hroot, hlook]
        exact ⟨_, _, rfl, (hplain hhead).1, (hplain hhead).2, hsettled⟩
      | some head =>
        simp only
        split
        case isTrue hforeign =>
          have hhead : headOf (lookup st.carried) act = none := by
            refine Option.eq_none_iff_forall_ne_some.mpr fun r' h => ?_
            obtain ⟨hr, -, head', hlook', hown⟩ := headOf_eq_some.mp h
            obtain rfl : r = r' := Option.some.inj (hroot.symm.trans hr)
            obtain rfl : head = head' := Option.some.inj (hlook.symm.trans hlook')
            exact hown.elim hforeign.1 hforeign.2
          exact ⟨_, _, rfl, (hplain hhead).1, (hplain hhead).2, hsettled⟩
        case isFalse hown =>
          have hown' : head.splitRootId = none ∨ head.splitRootId = some r := by
            rw [not_and_or, not_not, not_not] at hown
            exact hown
          have hhead : headOf (lookup st.carried) act = some r :=
            headOf_eq_some.mpr ⟨hroot, hne, head, hlook, hown'⟩
          have hr : (lookup st.carried r).isSome := by
            rw [hlook]
            rfl
          obtain ⟨newRoot, hnewRoot⟩ := inFamily_newId hok hr (.inl rfl)
          obtain ⟨keep, settled', hkeeps, hkeep, hset⟩ :=
            keepsParent_spec hok.valid hsettled hne.symm (carried_lookup hok hact) hroot
          rw [hkeeps, Option.bind_eq_bind, Option.bind_some]
          simp only [hnewRoot, Option.bind_eq_bind, Option.bind_some]
          rw [parentOf_of_headOf hhead, hhead]
          cases hcut : cut (familyNext (lookup st.carried) r) act.id with
          | none =>
            have hkeep' : keep = false := by simpa [hcut] using hkeep
            refine ⟨_, _, by rw [hkeep']; rfl, ?_, ?_, hset⟩
            · simp [hnewRoot]
            · simp [hnewRoot]
          | some parent =>
            have hkeep' : keep = true := by simpa [hcut] using hkeep
            obtain ⟨hnext, -⟩ := cut_eq_some.mp hcut
            obtain ⟨-, hfamily, act', hlook', -, hparent⟩ := familyNext_eq_some.mp hnext
            rw [carried_lookup hok hact] at hlook'
            obtain rfl := Option.some.inj hlook'
            obtain ⟨newParent, hnewParent⟩ := inFamily_newId hok hr hfamily
            refine ⟨⟨some newRoot, some newParent, act.splitBaseName⟩, settled', ?_, ?_, ?_, hset⟩
            · simp [hkeep', hparent, hnewParent]
            · simp [hnewRoot]
            · simp [hnewParent]

theorem restoreRows_spec (c : Importer) (hok : st.Ok) (hacts : acts ⊆ st.carried)
    (hsettled : Settled (lookup st.carried) settled) :
    ∃ rows, restoreRows c st.newIds st.carried settled acts = some rows ∧
      List.Forall₂ (Restored st.newIds (lookup st.carried)) acts rows := by
  induction acts generalizing settled with
  | nil => exact ⟨[], rfl, .nil⟩
  | cons act acts ih =>
    have hact : act ∈ st.carried := hacts List.mem_cons_self
    have hsome : (lookup st.carried act.id).isSome := by
      rw [carried_lookup hok hact]
      rfl
    obtain ⟨id, hid⟩ := inFamily_newId hok hsome (.inl rfl)
    obtain ⟨links, settled', hrestore, hroot, hparent, hset⟩ := restoreSplit_spec hok hact hsettled
    obtain ⟨rows, hrows, hall⟩ := ih (fun a ha => hacts (List.mem_cons_of_mem _ ha)) hset
    refine ⟨importedRow c act id links :: rows, ?_, .cons ⟨hid, hroot, hparent⟩ hall⟩
    simp only [restoreRows, hid, hrestore, hrows, Option.bind_eq_bind, Option.bind_some]
    rfl

end Rows

/-- What an import leaves: each carried activity has one row, which is `Restored`. -/
structure ImportOf (acts : List FileActivity) (out : Imported) : Prop where
  rowOf : ∀ i act, firstWith acts i = some act →
    ∃ row ∈ out.rows, Restored out.newIds (firstWith acts) act row
  actOf : ∀ row ∈ out.rows, ∃ act, firstWith acts act.id = some act ∧
    Restored out.newIds (firstWith acts) act row
  injective : ∀ i j q, newIdOf out.newIds i = some q → newIdOf out.newIds j = some q → i = j
  unique : (out.rows.map (·.id)).Nodup

section Import

variable {c : Importer} {used : ℤ → Bool} {draws : ℤ → List ℕ} {acts : List FileActivity}
  {items : List ℤ} {out : Imported}

theorem forall₂_newIds {st : Numbering} {look : Look} {rows : List SplitRow}
    {l : List FileActivity} (h : List.Forall₂ (Restored st.newIds look) l rows) :
    l.map (fun act => newIdOf st.newIds act.id) = (rows.map (·.id)).map some := by
  induction h with
  | nil => rfl
  | cons hact _ ih => rw [List.map_cons, List.map_cons, List.map_cons, ih, hact.1]

theorem numbering_file {st : Numbering} (h : acts.foldlM (Numbering.next used draws) ⟨[], []⟩ =
    some st) : st.Ok ∧ lookup st.carried = firstWith acts := by
  have hempty : Numbering.Ok ⟨[], []⟩ := ⟨fun act hact => absurd hact List.not_mem_nil, rfl, .nil⟩
  obtain ⟨hok, hlook⟩ := numbering_spec hempty h
  exact ⟨hok, funext fun id => hlook id⟩

theorem importActivities_spec (h : importActivities c used draws acts items = some out) :
    ImportOf acts out := by
  obtain ⟨st, hst, h⟩ := Option.bind_eq_some_iff.mp h
  obtain ⟨hok, hlook⟩ := numbering_file hst
  have hnone : Settled (lookup st.carried) [] := fun x hx => absurd hx List.not_mem_nil
  obtain ⟨rows, hrows, hall⟩ := restoreRows_spec c hok (List.Subset.refl _) hnone
  rw [hrows, Option.bind_eq_bind, Option.bind_some] at h
  split at h
  case isFalse => cases h
  case isTrue hnodup =>
    obtain rfl := Option.some.inj h
    rw [hlook] at hall
    have hids := forall₂_newIds hall
    refine ⟨fun i act hact => ?_, fun row hrow => ?_, fun i j q hi hj => ?_, hnodup⟩
    · rw [← hlook] at hact
      obtain ⟨n, hn, hget⟩ := List.getElem_of_mem (lookup_mem hact).1
      have hn' : n < rows.length := hall.length_eq ▸ hn
      have hrow := hall.get hn hn'
      simp only [List.get_eq_getElem, hget] at hrow
      exact ⟨rows[n], List.getElem_mem hn', hrow⟩
    · obtain ⟨n, hn, hget⟩ := List.getElem_of_mem hrow
      have hn' : n < st.carried.length := hall.length_eq ▸ hn
      have hact := hall.get hn' hn
      simp only [List.get_eq_getElem] at hact hget
      rw [hget] at hact
      refine ⟨st.carried[n], ?_, hact⟩
      rw [← hlook]
      exact carried_lookup hok (List.getElem_mem hn')
    · -- both ids are of carried activities, whose rows have different ids
      have hcarried : ∀ k, newIdOf st.newIds k = some q → ∃ act ∈ st.carried, act.id = k := by
        intro k hk
        have hsome : (lookup st.carried k).isSome := by
          rw [← hok.lookup_isSome]
          exact Option.isSome_iff_exists.mpr ⟨q, hk⟩
        obtain ⟨act, hact⟩ := Option.isSome_iff_exists.mp hsome
        exact ⟨act, lookup_mem hact⟩
      obtain ⟨a, ha, rfl⟩ := hcarried i hi
      obtain ⟨b, hb, rfl⟩ := hcarried j hj
      have hnodup' : (st.carried.map fun act => newIdOf st.newIds act.id).Nodup := by
        rw [hids]
        exact hnodup.map (Option.some_injective ℤ)
      rw [List.inj_on_of_nodup_map hnodup' ha hb (hi.trans hj.symm)]

theorem importActivities_isSome : (importActivities c used draws acts items).isSome ↔
      ∃ st, acts.foldlM (Numbering.next used draws) ⟨[], []⟩ = some st ∧
        (st.carried.map fun act => newIdOf st.newIds act.id).Nodup := by
  unfold importActivities
  cases hst : acts.foldlM (Numbering.next used draws) ⟨[], []⟩ with
  | none => simp
  | some st =>
    obtain ⟨hok, -⟩ := numbering_file hst
    have hnone : Settled (lookup st.carried) [] := fun x hx => absurd hx List.not_mem_nil
    obtain ⟨rows, hrows, hall⟩ := restoreRows_spec c hok (List.Subset.refl _) hnone
    have hnodup : (st.carried.map fun act => newIdOf st.newIds act.id).Nodup ↔
        (rows.map (·.id)).Nodup := by
      rw [forall₂_newIds hall]
      exact List.nodup_map_iff (Option.some_injective ℤ)
    simp only [Option.bind_eq_bind, Option.bind_some, hrows, Option.some.injEq, exists_eq_left', hnodup]
    split
    case isTrue hn => simp [hn]
    case isFalse hn => simp [hn]

end Import

/-! ## 3. The families inside the file, restored -/

/-- A piece of the family of `r`. -/
def isPiece (look : Look) (r id : ℤ) : Prop := ∃ act, look id = some act ∧ act.splitRootId = some r

def fileParent (look : Look) (id : ℤ) : Option ℤ := (look id).bind (·.splitParentId)

/-- **A family as splits make it**: its first piece has no links, and the parents of every other
    piece are pieces of it that come to the first. -/
structure WellFormed (look : Look) (r : ℤ) : Prop where
  head : ∃ head, look r = some head ∧ head.splitRootId = none ∧ head.splitParentId = none
  chain : ∀ x, isPiece look r x → Reaches (isPiece look r) (fileParent look) r x

section Restore

variable {acts : List FileActivity} {r x : ℤ} {act : FileActivity}

theorem firstWith_id {i : ℤ} (h : firstWith acts i = some act) : act.id = i := by
  unfold firstWith at h
  split at h
  case isTrue => exact (lookup_mem h).2
  case isFalse => cases h

theorem familyNext_dom {look : Look} (hlook : look = firstWith acts) (u v : ℤ)
    (h : familyNext look r u = some v) : u ∈ acts.map (·.id) := by
  obtain ⟨-, -, act, hact, -, -⟩ := familyNext_eq_some.mp h
  rw [hlook, firstWith] at hact
  split at hact
  case isTrue =>
    obtain ⟨hmem, hid⟩ := lookup_mem hact
    exact hid ▸ List.mem_map_of_mem hmem
  case isFalse => cases hact

theorem restored_reaches (hact : firstWith acts x = some act) (hhead : headOf (firstWith acts) act = some r) :
    Reaches (fun y => ∃ b, firstWith acts y = some b ∧ headOf (firstWith acts) b = some r)
      (fun y => (firstWith acts y).bind (parentOf (firstWith acts))) r x := by
  have hends : Ends (cut (familyNext (firstWith acts) r)) x := cut_ends (familyNext_dom rfl) x
  induction hends generalizing act with
  | @stop x hstop =>
    have hparent : (firstWith acts x).bind (parentOf (firstWith acts)) = some r := by
      rw [hact, Option.bind_some, parentOf_of_headOf hhead, firstWith_id hact, hstop]
      rfl
    exact .step ⟨act, hact, hhead⟩ hparent .root
  | @step x y hxy _ ih =>
    have hparent : (firstWith acts x).bind (parentOf (firstWith acts)) = some y := by
      rw [hact, Option.bind_some, parentOf_of_headOf hhead, firstWith_id hact, hxy]
      rfl
    obtain ⟨-, hfamily, -⟩ := familyNext_eq_some.mp (cut_eq_some.mp hxy).1
    refine .step ⟨act, hact, hhead⟩ hparent ?_
    by_cases hy : y = r
    · rw [hy]
      exact .root
    · obtain ⟨b, hb, hroot⟩ := hfamily.resolve_left hy
      obtain ⟨-, -, head, hhead, hown⟩ := headOf_eq_some.mp hhead
      have hne : r ≠ b.id := by
        rw [firstWith_id hb]
        exact fun h => hy h.symm
      exact ih hb (headOf_eq_some.mpr ⟨hroot, hne, head, hhead, hown⟩)

theorem WellFormed.head_links (h : WellFormed (firstWith acts) r) (hact : firstWith acts r = some act) :
    headOf (firstWith acts) act = act.splitRootId ∧ parentOf (firstWith acts) act = act.splitParentId := by
  obtain ⟨head, hlook, hroot, hparent⟩ := h.head
  obtain rfl : head = act := Option.some.inj (hlook.symm.trans hact)
  have hhead : headOf (firstWith acts) head = none := by simp [headOf, hroot]
  rw [parentOf, hhead, hroot, hparent]
  exact ⟨rfl, rfl⟩

theorem WellFormed.piece_links (h : WellFormed (firstWith acts) r)
    (hact : firstWith acts x = some act) (hroot : act.splitRootId = some r) :
    headOf (firstWith acts) act = act.splitRootId ∧ parentOf (firstWith acts) act = act.splitParentId := by
  obtain ⟨head, hlook, hheadRoot, -⟩ := h.head
  have hne : r ≠ x := by
    rintro rfl
    obtain rfl : head = act := Option.some.inj (hlook.symm.trans hact)
    rw [hheadRoot] at hroot
    cases hroot
  have hhead : headOf (firstWith acts) act = some r := by
    refine headOf_eq_some.mpr ⟨hroot, ?_, head, hlook, .inl hheadRoot⟩
    rwa [firstWith_id hact]
  have hchain := h.chain x ⟨act, hact, hroot⟩
  -- inside the family the file's links are those of `familyNext`
  have hnext : ∀ u v, isPiece (firstWith acts) r u → fileParent (firstWith acts) u = some v →
      inFamily (firstWith acts) r v → familyNext (firstWith acts) r u = some v := by
    intro u v ⟨a, ha, haroot⟩ huv hv
    have hu : u ≠ r := by
      rintro rfl
      obtain rfl : head = a := Option.some.inj (hlook.symm.trans ha)
      rw [hheadRoot] at haroot
      cases haroot
    rw [fileParent, ha, Option.bind_some] at huv
    exact familyNext_eq_some.mpr ⟨hu, hv, a, ha, haroot, huv⟩
  have hends : ∀ u, Reaches (isPiece (firstWith acts) r) (fileParent (firstWith acts)) r u →
      inFamily (firstWith acts) r u ∧ Ends (familyNext (firstWith acts) r) u := by
    intro u hu
    induction hu with
    | root => exact ⟨.inl rfl, .stop familyNext_root⟩
    | step hpiece huv _ ih => exact ⟨.inr hpiece, .step (hnext _ _ hpiece huv ih.1) ih.2⟩
  cases hchain with
  | root => exact absurd rfl hne
  | @step _ y hpiece hxy hrest =>
    have hfamily := hnext x y hpiece hxy (hends y hrest).1
    have hloop := (hends x (.step hpiece hxy hrest)).2.not_onLoop
    rw [fileParent, hact, Option.bind_some] at hxy
    refine ⟨hhead.trans hroot.symm, ?_⟩
    rw [parentOf_of_headOf hhead, firstWith_id hact, cut_of_not_onLoop hloop, hfamily, hxy]
    rfl

end Restore

/-! ## 4. The families of the rows -/

def rowParent (rows : List SplitRow) (id : ℤ) : Option ℤ :=
  (rows.find? fun row => row.id == id).bind (·.splitParentId)

/-- A row of the family of the row `root`, other than its root. -/
def rowMember (rows : List SplitRow) (root id : ℤ) : Prop :=
  ∃ row ∈ rows, row.id = id ∧ row.splitRootId = some root

/-- The row of the file id `i` has the row of the file id `j` as its parent. -/
def RestoredParent (out : Imported) (i j : ℤ) : Prop :=
  ∃ row ∈ out.rows, newIdOf out.newIds i = some row.id ∧ row.splitParentId.isSome ∧
    newIdOf out.newIds j = row.splitParentId

/-- The row of the file id `i` is in the family of the row of the file id `j`. -/
def RestoredRoot (out : Imported) (i j : ℤ) : Prop :=
  ∃ row ∈ out.rows, newIdOf out.newIds i = some row.id ∧ row.splitRootId.isSome ∧
    newIdOf out.newIds j = row.splitRootId

instance (out : Imported) (i j : ℤ) : Decidable (RestoredParent out i j) :=
  inferInstanceAs (Decidable (∃ row ∈ out.rows, _))

section RowFamilies

variable {acts : List FileActivity} {out : Imported}

theorem rowParent_of_mem (himport : ImportOf acts out) {row : SplitRow} (hrow : row ∈ out.rows) :
    rowParent out.rows row.id = row.splitParentId := by
  cases hfind : out.rows.find? fun r => r.id == row.id with
  | none =>
    have hno := List.find?_eq_none.mp hfind row hrow
    simp at hno
  | some row' =>
    have hid : row'.id = row.id := by simpa using List.find?_some hfind
    have hsame := List.inj_on_of_nodup_map himport.unique (List.mem_of_find?_eq_some hfind) hrow hid
    rw [rowParent, hfind, hsame]
    rfl

theorem newId_link (himport : ImportOf acts out) {link link' : Option ℤ}
    (h : link.map some = link'.map (newIdOf out.newIds)) (j : ℤ) :
    link.isSome ∧ newIdOf out.newIds j = link ↔ link' = some j := by
  cases link with
  | none =>
    cases link' with
    | none => simp
    | some k => cases h
  | some q =>
    cases link' with
    | none => cases h
    | some k =>
      have hk : newIdOf out.newIds k = some q := (Option.some.inj h).symm
      constructor
      · intro ⟨_, hj⟩
        rw [himport.injective j k q hj hk]
      · intro hkj
        rw [← Option.some.inj hkj]
        exact ⟨rfl, hk⟩

theorem restoredParent_iff (himport : ImportOf acts out) {i j : ℤ} :
    RestoredParent out i j ↔ ∃ act, firstWith acts i = some act ∧ parentOf (firstWith acts) act = some j := by
  constructor
  · intro ⟨row, hrow, hi, hlink⟩
    obtain ⟨act, hact, hid, -, hparent⟩ := himport.actOf row hrow
    rw [himport.injective act.id i row.id hid hi] at hact
    exact ⟨act, hact, (newId_link himport hparent j).mp hlink⟩
  · intro ⟨act, hact, hj⟩
    obtain ⟨row, hrow, hid, -, hparent⟩ := himport.rowOf i act hact
    rw [firstWith_id hact] at hid
    exact ⟨row, hrow, hid, (newId_link himport hparent j).mpr hj⟩

theorem restoredRoot_iff (himport : ImportOf acts out) {i j : ℤ} :
    RestoredRoot out i j ↔ ∃ act, firstWith acts i = some act ∧ headOf (firstWith acts) act = some j := by
  constructor
  · intro ⟨row, hrow, hi, hlink⟩
    obtain ⟨act, hact, hid, hroot, -⟩ := himport.actOf row hrow
    rw [himport.injective act.id i row.id hid hi] at hact
    exact ⟨act, hact, (newId_link himport hroot j).mp hlink⟩
  · intro ⟨act, hact, hj⟩
    obtain ⟨row, hrow, hid, hroot, -⟩ := himport.rowOf i act hact
    rw [firstWith_id hact] at hid
    exact ⟨row, hrow, hid, (newId_link himport hroot j).mpr hj⟩

theorem link_source {newIds : List (ℤ × ℤ)} {link : Option ℤ} {q : ℤ}
    (h : (some q).map some = link.map (newIdOf newIds)) :
    ∃ r, link = some r ∧ newIdOf newIds r = some q := by
  cases link with
  | none => cases h
  | some r => exact ⟨r, rfl, (Option.some.inj h).symm⟩

theorem row_reaches (himport : ImportOf acts out) {row : SplitRow} (hrow : row ∈ out.rows) {ρ : ℤ}
    (hroot : row.splitRootId = some ρ) :
    Reaches (rowMember out.rows ρ) (rowParent out.rows) ρ row.id := by
  obtain ⟨act, hact, hid, hlink, -⟩ := himport.actOf row hrow
  rw [hroot] at hlink
  obtain ⟨r, hhead, hr⟩ := link_source hlink
  refine (restored_reaches hact hhead).image hr ?_ hid
  -- one link of the file is one link of the rows
  intro u v q ⟨b, hb, hbhead⟩ hparent hu
  obtain ⟨row', hrow', hid', hroot', hparent'⟩ := himport.rowOf u b hb
  rw [firstWith_id hb, hu] at hid'
  obtain rfl : q = row'.id := Option.some.inj hid'
  rw [hb, Option.bind_some] at hparent
  rw [hparent] at hparent'
  rw [hbhead, Option.map_some, hr] at hroot'
  cases hlink' : row'.splitParentId with
  | none =>
    rw [hlink'] at hparent'
    cases hparent'
  | some p =>
    rw [hlink'] at hparent'
    refine ⟨p, (Option.some.inj hparent').symm, ⟨row', hrow', rfl, ?_⟩, ?_⟩
    · cases hρ : row'.splitRootId with
      | none =>
        rw [hρ] at hroot'
        cases hroot'
      | some σ =>
        rw [hρ] at hroot'
        exact Option.some.inj hroot'
    · rw [rowParent_of_mem himport hrow', hlink']

theorem root_row (himport : ImportOf acts out) {row : SplitRow} (hrow : row ∈ out.rows) {ρ : ℤ}
    (hroot : row.splitRootId = some ρ) :
    ∃ head ∈ out.rows, head.id = ρ ∧ head.splitRootId = none ∧ head.splitParentId = none := by
  obtain ⟨act, hact, hid, hlink, -⟩ := himport.actOf row hrow
  rw [hroot] at hlink
  obtain ⟨r, hhead, hr⟩ := link_source hlink
  obtain ⟨-, -, head, hlook, hown⟩ := headOf_eq_some.mp hhead
  obtain ⟨row', hrow', hid', hroot', hparent'⟩ := himport.rowOf r head hlook
  have hnone : headOf (firstWith acts) head = none := by
    refine Option.eq_none_iff_forall_ne_some.mpr fun r' h => ?_
    obtain ⟨hr', hne, -⟩ := headOf_eq_some.mp h
    rcases hown with hown | hown
    · rw [hown] at hr'
      cases hr'
    · rw [hown] at hr'
      exact hne ((Option.some.inj hr').symm.trans (firstWith_id hlook).symm)
  rw [parentOf, hnone] at hparent'
  rw [hnone] at hroot'
  rw [firstWith_id hlook, hr] at hid'
  exact ⟨row', hrow', (Option.some.inj hid').symm, by simpa using hroot', by simpa using hparent'⟩

/-- **Split families survive an import**, which fails only where an id cannot be drawn or is drawn twice. -/
theorem split_families_imported {c : Importer} {used : ℤ → Bool} {draws : ℤ → List ℕ}
    {items : List ℤ} (h : importActivities c used draws acts items = some out) :
    (∀ row ∈ out.rows, ∀ ρ, row.splitRootId = some ρ →
      Reaches (rowMember out.rows ρ) (rowParent out.rows) ρ row.id ∧
      ∃ head ∈ out.rows, head.id = ρ ∧ head.splitRootId = none ∧ head.splitParentId = none) ∧
    (∀ row ∈ out.rows, row.splitParentId.isSome → row.splitRootId.isSome) ∧
    (∀ row ∈ out.rows, ¬ OnLoop (rowParent out.rows) row.id) ∧
    (∀ r, WellFormed (firstWith acts) r →
      (∀ i act, firstWith acts i = some act → (i = r ∨ act.splitRootId = some r) →
        ∃ row ∈ out.rows, newIdOf out.newIds i = some row.id ∧
          row.splitRootId.map some = act.splitRootId.map (newIdOf out.newIds) ∧
          row.splitParentId.map some = act.splitParentId.map (newIdOf out.newIds)) ∧
      ∀ i, RestoredRoot out i r → ∃ act, firstWith acts i = some act ∧ act.splitRootId = some r) ∧
    (∀ {c' used' draws' acts' items' out'}, (∀ id, firstWith acts' id = firstWith acts id) →
      importActivities c' used' draws' acts' items' = some out' → ∀ i j,
        (RestoredParent out' i j ↔ RestoredParent out i j) ∧
        (RestoredRoot out' i j ↔ RestoredRoot out i j)) ∧
    ∀ c' used' draws' acts' items', (importActivities c' used' draws' acts' items').isSome ↔
      ∃ st, acts'.foldlM (Numbering.next used' draws') ⟨[], []⟩ = some st ∧
        (st.carried.map fun act => newIdOf st.newIds act.id).Nodup := by
  have himport := importActivities_spec h
  -- the families are decided by `headOf`: without one there is no parent
  have hrooted : ∀ row ∈ out.rows, row.splitRootId = none → row.splitParentId = none := by
    intro row hrow hnone
    obtain ⟨act, -, -, hroot, hparent⟩ := himport.actOf row hrow
    rw [hnone] at hroot
    cases hhead : headOf (firstWith acts) act with
    | none => simpa [parentOf, hhead] using hparent
    | some r =>
      rw [hhead] at hroot
      cases hroot
  refine ⟨fun row hrow ρ hroot => ⟨row_reaches himport hrow hroot, root_row himport hrow hroot⟩,
    fun row hrow hparent => ?_, fun row hrow => ?_, fun r hwell => ⟨fun i act hact hmem => ?_,
    fun i hi => ?_⟩, fun hsame h' i j => ?_, fun _ _ _ _ _ => importActivities_isSome⟩
  · refine Option.isSome_iff_ne_none.mpr fun hnone => ?_
    rw [hrooted row hrow hnone] at hparent
    cases hparent
  · cases hroot : row.splitRootId with
    | none =>
      refine (Ends.stop ?_).not_onLoop
      rw [rowParent_of_mem himport hrow]
      exact hrooted row hrow hroot
    | some ρ =>
      obtain ⟨head, hhead, rfl, -, hnone⟩ := root_row himport hrow hroot
      have hend : rowParent out.rows head.id = none := by
        rw [rowParent_of_mem himport hhead]
        exact hnone
      exact ((row_reaches himport hrow hroot).ends hend).not_onLoop
  · obtain ⟨row, hrow, hid, hroot, hparent⟩ := himport.rowOf i act hact
    have hlinks : headOf (firstWith acts) act = act.splitRootId ∧
        parentOf (firstWith acts) act = act.splitParentId := by
      rcases hmem with rfl | hmem
      · exact hwell.head_links hact
      · exact hwell.piece_links hact hmem
    rw [hlinks.1] at hroot
    rw [hlinks.2] at hparent
    exact ⟨row, hrow, firstWith_id hact ▸ hid, hroot, hparent⟩
  · obtain ⟨act, hact, hhead⟩ := (restoredRoot_iff himport).mp hi
    exact ⟨act, hact, (headOf_eq_some.mp hhead).1⟩
  · have himport' := importActivities_spec h'
    have hlook : firstWith _ = firstWith acts := funext hsame
    rw [restoredParent_iff himport', restoredParent_iff himport, restoredRoot_iff himport',
      restoredRoot_iff himport, hlook]
    exact ⟨Iff.rfl, Iff.rfl⟩

end RowFamilies

/-! ## 5. Two files -/

/-- An activity of the app, with its links. -/
def filePiece (id : ℤ) (rootId parentId : Option ℤ) : FileActivity where
  id := id
  name := ""
  startDate := 0
  source := some sourceGpx
  sourceId := none
  stravaId := none
  splitRootId := rootId
  splitParentId := parentId
  splitBaseName := none
  carriesEnvelope := false

def importer : Importer := ⟨1, []⟩

/-- Draws that give the activity `-n` the new id `-(100 + n)`. -/
def drawn (id : ℤ) : List ℕ := [100 + id.natAbs]

/-- A first piece after its pieces, two pieces that name each other, and one behind them. -/
def loopFile : List FileActivity :=
  [filePiece (-2) (some (-1)) (some (-3)), filePiece (-3) (some (-1)) (some (-2)),
    filePiece (-4) (some (-1)) (some (-2)), filePiece (-1) none none]

/-- The pieces of the loop hang off the first piece, and the one behind them keeps its parent. -/
theorem split_families_imported_loop :
    ∃ out, importActivities importer (fun _ => false) drawn loopFile [] = some out ∧
      RestoredParent out (-2) (-1) ∧ RestoredParent out (-3) (-1) ∧ RestoredParent out (-4) (-2) ∧
      Reaches (rowMember out.rows (-101)) (rowParent out.rows) (-101) (-104) := by
  have hrun : (importActivities importer (fun _ => false) drawn loopFile []).map (fun out =>
      (decide (RestoredParent out (-2) (-1)), decide (RestoredParent out (-3) (-1)),
        decide (RestoredParent out (-4) (-2)),
        decide (∃ row ∈ out.rows, row.id = -104 ∧ row.splitRootId = some (-101)))) =
      some (true, true, true, true) := by decide +kernel
  obtain ⟨out, hout, hfacts⟩ := Option.map_eq_some_iff.mp hrun
  simp only [Prod.mk.injEq, decide_eq_true_eq] at hfacts
  obtain ⟨h2, h3, h4, row, hrow, hid, hroot⟩ := hfacts
  have hreaches := ((split_families_imported hout).1 row hrow (-101) hroot).1
  rw [hid] at hreaches
  exact ⟨out, hout, h2, h3, h4, hreaches⟩

/-- A file with one id twice, and the same file in another order. -/
def twiceFile : List FileActivity :=
  [filePiece (-1) none none, filePiece (-2) (some (-1)) (some (-1)), filePiece (-2) none none]

def twiceFile' : List FileActivity :=
  [filePiece (-1) none none, filePiece (-2) none none, filePiece (-2) (some (-1)) (some (-1))]

/-- **Where a file has an id twice, its order decides which links are kept**: the first activity with
    the id is the one that is carried. -/
theorem split_links_depend_on_order : ∃ acts acts' out out', acts'.Perm acts ∧
      importActivities importer (fun _ => false) drawn acts [] = some out ∧
      importActivities importer (fun _ => false) drawn acts' [] = some out' ∧
      ∃ i j, RestoredParent out i j ∧ ¬ RestoredParent out' i j := by
  have hrun : (importActivities importer (fun _ => false) drawn twiceFile []).map (fun out =>
      decide (RestoredParent out (-2) (-1))) = some true := by decide +kernel
  have hrun' : (importActivities importer (fun _ => false) drawn twiceFile' []).map (fun out =>
      decide (RestoredParent out (-2) (-1))) = some false := by decide +kernel
  obtain ⟨out, hout, hkept⟩ := Option.map_eq_some_iff.mp hrun
  obtain ⟨out', hout', hlost⟩ := Option.map_eq_some_iff.mp hrun'
  have hperm : twiceFile'.Perm twiceFile := by decide +kernel
  exact ⟨twiceFile, twiceFile', out, out', hperm, hout, hout', -2, -1, of_decide_eq_true hkept,
    of_decide_eq_false hlost⟩

end TraxJourney.Imports
