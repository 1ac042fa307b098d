/-
  File:      Activity/Forest.lean
  Subject:   The split families of the stored activities, seen as links: which family a row is of,
             which piece it was cut out of, and which trips name it.

  * **`Families.remove`** -- rows taken out, and those that named one of them put under what it was
    cut out of, leave split families as long as no root of a row that stays is taken out.
-/
import TraxJourney.Lib.ParentChains
import Mathlib.Algebra.Order.Ring.Int

namespace TraxJourney.Activity

open Lib

/-- A row's place in its split family. -/
structure Link where
  id : ℤ
  root : Option ℤ
  parent : Option ℤ
deriving DecidableEq

/-- The family, by the id of its first piece. -/
def Link.family (l : Link) : ℤ := l.root.getD l.id

/-- The piece that a row was cut out of. -/
def parentIn (links : List Link) (id : ℤ) : Option ℤ := (links.find? fun l => l.id == id).bind (·.parent)

/-- A piece of the family of `r`, other than the first. -/
def isPiece (links : List Link) (r id : ℤ) : Prop := ∃ l ∈ links, l.id = id ∧ l.root = some r

/-- **The rows form split families**: every piece's parents are of its family and come to the root,
    the root is a row without links, and the rows of a family are named by the items of one trip. -/
structure Families (links : List Link) (items : List (ℕ × ℤ)) : Prop where
  unique : (links.map Link.id).Nodup
  chain : ∀ l ∈ links, ∀ r, l.root = some r → Reaches (isPiece links r) (parentIn links) r l.id
  head : ∀ l ∈ links, ∀ r, l.root = some r → ∃ h ∈ links, h.id = r ∧ h.root = none
  plain : ∀ l ∈ links, l.root = none → l.parent = none
  oneTrip : ∀ l ∈ links, ∀ l' ∈ links, l.family = l'.family → ∀ p q, (p, l.id) ∈ items →
    (q, l'.id) ∈ items → p = q

section Families

variable {links links' : List Link} {items items' : List (ℕ × ℤ)} {l : Link} {r x y : ℤ}

theorem parentIn_of_mem (hunique : (links.map Link.id).Nodup) (hl : l ∈ links) :
    parentIn links l.id = l.parent := by
  have hfind : links.find? (fun l' => l'.id == l.id) = some l := by
    cases hfind : links.find? fun l' => l'.id == l.id with
    | none =>
      have hno := List.find?_eq_none.mp hfind l hl
      simp at hno
    | some l' =>
      have hid : l'.id = l.id := by simpa using List.find?_some hfind
      rw [List.inj_on_of_nodup_map hunique (List.mem_of_find?_eq_some hfind) hl hid]
  rw [parentIn, hfind, Option.bind_some]

theorem parentIn_some (h : parentIn links x = some y) : ∃ l ∈ links, l.id = x ∧ l.parent = some y := by
  obtain ⟨l, hfind, hparent⟩ := Option.bind_eq_some_iff.mp h
  exact ⟨l, List.mem_of_find?_eq_some hfind, by simpa using List.find?_some hfind, hparent⟩

theorem Families.root_ne (h : Families links items) (hl : l ∈ links) (hr : l.root = some r) : l.id ≠ r := by
  intro heq
  obtain ⟨h', hmem, hid, hnone⟩ := h.head l hl r hr
  have hsame : h' = l := List.inj_on_of_nodup_map h.unique hmem hl (hid.trans heq.symm)
  rw [hsame, hr] at hnone
  cases hnone

theorem Families.parent_reaches (h : Families links items) (hl : l ∈ links) (hr : l.root = some r) :
    ∃ y, l.parent = some y ∧ Reaches (isPiece links r) (parentIn links) r y := by
  generalize hx : l.id = x
  have hchain := h.chain l hl r hr
  rw [hx] at hchain
  cases hchain with
  | root => exact absurd hx (h.root_ne hl hr)
  | step _ hxy hrest =>
    rw [← hx, parentIn_of_mem h.unique hl] at hxy
    exact ⟨_, hxy, hrest⟩

theorem Families.parentIn_root (h : Families links items) (hl : l ∈ links) (hr : l.root = some r) :
    parentIn links r = none := by
  obtain ⟨h', hmem, rfl, hnone⟩ := h.head l hl r hr
  rw [parentIn_of_mem h.unique hmem, h.plain h' hmem hnone]

theorem reaches_cases (h : Reaches (isPiece links r) (parentIn links) r x) : x = r ∨ isPiece links r x := by
  cases h with
  | root => exact .inl rfl
  | step hx _ _ => exact .inr hx

theorem Families.parent_mem (h : Families links items) (hl : l ∈ links) (hp : l.parent = some y) :
    ∃ r, l.root = some r ∧ ∃ l' ∈ links, l'.id = y ∧ l'.family = r := by
  cases hr : l.root with
  | none =>
    rw [h.plain l hl hr] at hp
    cases hp
  | some r =>
    obtain ⟨y', hy', hreaches⟩ := h.parent_reaches hl hr
    obtain rfl : y = y' := Option.some.inj (hp.symm.trans hy')
    rcases reaches_cases hreaches with rfl | ⟨l', hl', rfl, hr'⟩
    · obtain ⟨h', hmem, hid, hnone⟩ := h.head l hl y hr
      exact ⟨y, rfl, h', hmem, hid, by simp [Link.family, hnone, hid]⟩
    · exact ⟨r, rfl, l', hl', rfl, by simp [Link.family, hr']⟩

/-- Links that stay, each with the parent it has afterwards. -/
def removeLinks (gone : ℤ → Bool) (newParent : Link → Option ℤ) (links : List Link) : List Link :=
  (links.filter fun l => !gone l.id).map fun l => { l with parent := newParent l }

variable {gone : ℤ → Bool} {newParent : Link → Option ℤ}

theorem mem_removeLinks {l' : Link} :
    l' ∈ removeLinks gone newParent links ↔
      ∃ l ∈ links, gone l.id = false ∧ l' = { l with parent := newParent l } := by
  simp only [removeLinks, List.mem_map, List.mem_filter, Bool.not_eq_true']
  constructor
  · rintro ⟨l, ⟨hl, hstay⟩, rfl⟩
    exact ⟨l, hl, hstay, rfl⟩
  · rintro ⟨l, hl, hstay, rfl⟩
    exact ⟨l, ⟨hl, hstay⟩, rfl⟩

theorem removeLinks_unique (h : (links.map Link.id).Nodup) :
    ((removeLinks gone newParent links).map Link.id).Nodup := by
  have hids : (removeLinks gone newParent links).map Link.id =
      (links.filter fun l => !gone l.id).map Link.id := by
    simp only [removeLinks, List.map_map, Function.comp_def]
  rw [hids]
  exact h.sublist (List.filter_sublist.map _)

theorem chain_mono (hunique : (links'.map Link.id).Nodup) (hsub : links ⊆ links')
    (h : Reaches (isPiece links r) (parentIn links) r x) :
    Reaches (isPiece links' r) (parentIn links') r x := by
  refine h.congr (fun u hu => ?_) fun u v _ huv => ?_
  · obtain ⟨l, hl, hid, hroot⟩ := hu
    exact ⟨l, hsub hl, hid, hroot⟩
  · obtain ⟨l, hl, rfl, hparent⟩ := parentIn_some huv
    exact (parentIn_of_mem hunique (hsub hl)).trans hparent

theorem chain_remove (hunique : (links.map Link.id).Nodup) (hroot : gone r = false)
    (hclimb : ∀ l ∈ links, l.root = some r → gone l.id = false → ∀ p, l.parent = some p →
      ∃ steps z, climb gone (parentIn links) steps (some p) = some z ∧ newParent l = z)
    (hchain : Reaches (isPiece links r) (parentIn links) r x) (hstay : gone x = false) :
    Reaches (isPiece (removeLinks gone newParent links) r)
      (parentIn (removeLinks gone newParent links)) r x := by
  have hunique' : ((removeLinks gone newParent links).map Link.id).Nodup := removeLinks_unique hunique
  have hmember : ∀ u, isPiece links r u → gone u = false →
      isPiece (removeLinks gone newParent links) r u := by
    rintro u ⟨m, hm, rfl, hmr⟩ hu
    exact ⟨_, mem_removeLinks.mpr ⟨m, hm, hu, rfl⟩, rfl, hmr⟩
  have hnext : ∀ u v, isPiece links r u → gone u = false → parentIn links u = some v →
      ∃ steps z, climb gone (parentIn links) steps (some v) = some z ∧
        parentIn (removeLinks gone newParent links) u = z := by
    rintro u v ⟨m, hm, rfl, hmr⟩ hu huv
    rw [parentIn_of_mem hunique hm] at huv
    obtain ⟨steps, z, hz, hnew⟩ := hclimb m hm hmr hu v huv
    refine ⟨steps, z, hz, ?_⟩
    have hmem : { m with parent := newParent m } ∈ removeLinks gone newParent links :=
      mem_removeLinks.mpr ⟨m, hm, hu, rfl⟩
    exact (parentIn_of_mem hunique' hmem).trans hnew
  have hstart : climb gone (parentIn links) 1 (some x) = some (some x) := by simp [climb, hstay]
  obtain ⟨z, hz, hreaches⟩ := Reaches.contract hroot hmember hnext hchain hstart
  obtain rfl := Option.some.inj hz
  exact hreaches

theorem Families.remove (h : Families links items) (hitems : items' ⊆ items)
    (hroots : ∀ l ∈ links, gone l.id = false → ∀ r, l.root = some r → gone r = false)
    (hplain : ∀ l ∈ links, l.parent = none → newParent l = none)
    (hclimb : ∀ l ∈ links, gone l.id = false → ∀ p, l.parent = some p →
      ∃ steps z, climb gone (parentIn links) steps (some p) = some z ∧ newParent l = z) :
    Families (removeLinks gone newParent links) items' := by
  refine ⟨removeLinks_unique h.unique, fun l' hl' r hr => ?_, fun l' hl' r hr => ?_,
    fun l' hl' hr => ?_, fun a ha b hb hfam p q hp hq => ?_⟩
  · obtain ⟨l, hl, hstay, rfl⟩ := mem_removeLinks.mp hl'
    exact chain_remove h.unique (hroots l hl hstay r hr) (fun m hm _ => hclimb m hm)
      (h.chain l hl r hr) hstay
  · obtain ⟨l, hl, hstay, rfl⟩ := mem_removeLinks.mp hl'
    obtain ⟨h', hmem, rfl, hnone⟩ := h.head l hl r hr
    exact ⟨_, mem_removeLinks.mpr ⟨h', hmem, hroots l hl hstay _ hr, rfl⟩, rfl, hnone⟩
  · obtain ⟨l, hl, -, rfl⟩ := mem_removeLinks.mp hl'
    exact hplain l hl (h.plain l hl hr)
  · obtain ⟨l, hl, -, rfl⟩ := mem_removeLinks.mp ha
    obtain ⟨m, hm, -, rfl⟩ := mem_removeLinks.mp hb
    exact h.oneTrip l hl m hm hfam p q (hitems hp) (hitems hq)

end Families

/-! ## One family -/

/-- **The rows of one family**, whatever the others are: its pieces come to the root, the root is a
    row without links, and who names one of them as its parent is a piece. -/
structure Family (links : List Link) (root : ℤ) : Prop where
  unique : (links.map Link.id).Nodup
  chain : ∀ l ∈ links, l.root = some root → Reaches (isPiece links root) (parentIn links) root l.id
  head : ∃ h ∈ links, h.id = root ∧ h.root = none ∧ h.parent = none
  closed : ∀ l ∈ links, ∀ y, l.parent = some y → y = root ∨ isPiece links root y → l.root = some root

section Family

variable {links links' : List Link} {root x y : ℤ} {l : Link}

theorem Family.parentIn_root (h : Family links root) : parentIn links root = none := by
  obtain ⟨head, hmem, rfl, -, hnone⟩ := h.head
  rw [parentIn_of_mem h.unique hmem, hnone]

theorem Family.root_not_piece (h : Family links root) : ¬ isPiece links root root := by
  rintro ⟨l, hl, hid, hroot⟩
  obtain ⟨head, hmem, hheadId, hnone, -⟩ := h.head
  have hsame : head = l := List.inj_on_of_nodup_map h.unique hmem hl (hheadId.trans hid.symm)
  rw [hsame, hroot] at hnone
  cases hnone

theorem Family.parent_reaches (h : Family links root) (hl : l ∈ links) (hroot : l.root = some root) :
    ∃ y, l.parent = some y ∧ Reaches (isPiece links root) (parentIn links) root y := by
  generalize hx : l.id = x
  have hchain := h.chain l hl hroot
  rw [hx] at hchain
  cases hchain with
  | root => exact absurd ⟨l, hl, hx, hroot⟩ h.root_not_piece
  | step _ hxy hrest =>
    rw [← hx, parentIn_of_mem h.unique hl] at hxy
    exact ⟨_, hxy, hrest⟩

theorem Family.parent_ends (h : Family links root) (hl : l ∈ links) (hroot : l.root = some root)
    (hp : l.parent = some y) : Ends (parentIn links) y := by
  obtain ⟨y', hy', hreaches⟩ := h.parent_reaches hl hroot
  obtain rfl : y = y' := Option.some.inj (hp.symm.trans hy')
  exact hreaches.ends h.parentIn_root

theorem Family.descends_iff (h : Family links root) :
    Relation.TransGen (Lib.Link (parentIn links)) x root ↔ isPiece links root x := by
  constructor
  · intro hchain
    induction hchain using Relation.TransGen.head_induction_on with
    | single hx =>
      obtain ⟨l, hl, rfl, hparent⟩ := parentIn_some hx
      exact ⟨l, hl, rfl, h.closed l hl _ hparent (.inl rfl)⟩
    | head hx _ ih =>
      obtain ⟨l, hl, rfl, hparent⟩ := parentIn_some hx
      exact ⟨l, hl, rfl, h.closed l hl _ hparent (.inr ih)⟩
  · rintro ⟨l, hl, rfl, hroot⟩
    obtain ⟨y, hy, hreaches⟩ := h.parent_reaches hl hroot
    have hfirst : Lib.Link (parentIn links) l.id y := (parentIn_of_mem h.unique hl).trans hy
    clear hy hl hroot
    generalize l.id = x at hfirst
    induction hreaches generalizing x with
    | root => exact .single hfirst
    | step _ hxy _ ih => exact .head hfirst (ih _ hxy)

theorem Family.leaf (h : Family links root) (hy : y = root ∨ isPiece links root y)
    (hfresh : x ∉ links.map Link.id) (hunnamed : ∀ l ∈ links, l.parent ≠ some x) :
    Family (links ++ [⟨x, some root, some y⟩]) root := by
  have hunique : ((links ++ [(⟨x, some root, some y⟩ : Link)]).map Link.id).Nodup := by
    rw [List.map_append, List.nodup_append]
    refine ⟨h.unique, List.nodup_singleton _, fun a ha b hb => ?_⟩
    rintro rfl
    obtain rfl : a = x := by simpa using hb
    exact hfresh ha
  have hsub : links ⊆ links ++ [⟨x, some root, some y⟩] := List.subset_append_left _ _
  have hnew : (⟨x, some root, some y⟩ : Link) ∈ links ++ [⟨x, some root, some y⟩] := by simp
  refine ⟨hunique, fun l hl hroot => ?_, ?_, fun l hl z hz hmember => ?_⟩
  · rcases List.mem_append.mp hl with hl | hl
    · exact chain_mono hunique hsub (h.chain l hl hroot)
    · rw [List.mem_singleton] at hl
      subst hl
      refine .step ⟨_, hnew, rfl, rfl⟩ (parentIn_of_mem hunique hnew) ?_
      rcases hy with rfl | ⟨l', hl', rfl, hroot'⟩
      · exact .root
      · exact chain_mono hunique hsub (h.chain l' hl' hroot')
  · obtain ⟨head, hmem, hid, hnone, hparent⟩ := h.head
    exact ⟨head, hsub hmem, hid, hnone, hparent⟩
  · rcases List.mem_append.mp hl with hold | hlast
    · have hz' : z = root ∨ isPiece links root z := by
        rcases hmember with hz' | ⟨l', hl', hid, hroot'⟩
        · exact .inl hz'
        · rcases List.mem_append.mp hl' with hl' | hl'
          · exact .inr ⟨l', hl', hid, hroot'⟩
          · -- no row has the new piece as its parent
            rw [List.mem_singleton] at hl'
            subst hl'
            obtain rfl : x = z := hid
            exact absurd hz (hunnamed l hold)
      exact h.closed l hold z hz hz'
    · rw [List.mem_singleton] at hlast
      subst hlast
      rfl

/-- **Pieces taken out of a family leave a family**, where each row that stays gets the parent that
    climbing from its old one finds, and no other row's parent changes. -/
theorem Family.remove {gone : ℤ → Bool} {newParent : Link → Option ℤ} (h : Family links root)
    (hroot : gone root = false) (hhead : ∀ l ∈ links, l.parent = none → newParent l = none)
    (hother : ∀ l ∈ links, l.root ≠ some root → newParent l = l.parent)
    (hclimb : ∀ l ∈ links, l.root = some root → gone l.id = false → ∀ p, l.parent = some p →
      ∃ steps z, climb gone (parentIn links) steps (some p) = some z ∧ newParent l = z) :
    Family (removeLinks gone newParent links) root := by
  refine ⟨removeLinks_unique h.unique, fun l' hl' hr => ?_, ?_, fun l' hl' y hy hmember => ?_⟩
  · obtain ⟨l, hl, hstay, rfl⟩ := mem_removeLinks.mp hl'
    exact chain_remove h.unique hroot hclimb (h.chain l hl hr) hstay
  · obtain ⟨head, hmem, hid, hnone, hparent⟩ := h.head
    have hstay : gone head.id = false := hid ▸ hroot
    exact ⟨_, mem_removeLinks.mpr ⟨head, hmem, hstay, rfl⟩, hid, hnone, hhead head hmem hparent⟩
  · obtain ⟨l, hl, -, rfl⟩ := mem_removeLinks.mp hl'
    refine Classical.byContradiction fun hne => hne ?_
    have hpiece : y = root ∨ isPiece links root y := by
      rcases hmember with rfl | ⟨m', hm', rfl, hmr⟩
      · exact .inl rfl
      · obtain ⟨m, hm, -, rfl⟩ := mem_removeLinks.mp hm'
        exact .inr ⟨m, hm, rfl, hmr⟩
    exact h.closed l hl y ((hother l hl hne).symm.trans hy) hpiece

end Family

end TraxJourney.Activity
