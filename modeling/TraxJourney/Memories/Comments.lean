/-
  File:      Memories/Comments.lean
  Subject:   The comments on a memory: `_build_comment_tree`, `list_comments` and
             `_delete_comment_subtree` from `src/api/memories.py`.

  * **`deleteSubtree_removes`** -- and of rows that are as they were read, exactly what is shown below
    the comment is deleted.

  Two fields of a comment are not the code's: a number that no other comment ever has, and that of the
  comment it was written to. Nothing that is calculated here reads them.
-/
import TraxJourney.Lib.Forest
import TraxJourney.Lib.StableSort
import Mathlib.Data.String.Basic

namespace TraxJourney.Memories

open Lib

/-! ## 1. Rows and trees -/

/-- A row of `memory_comment`; `body` is who wrote it, and the text. -/
structure Comment (κ : Type*) where
  id : ℕ
  memoryId : ℕ
  parentCommentId : Option ℕ
  createdAt : String
  body : κ
  serial : ℕ
  answers : Option ℕ
deriving DecidableEq

inductive Node (κ : Type*) where
  | node (comment : Comment κ) (replies : List (Node κ))

variable {κ : Type*}

def Node.comment : Node κ → Comment κ
  | .node comment _ => comment

mutual

/-- The comments of a tree, from the top. -/
def Node.shown : Node κ → List (Comment κ)
  | .node comment replies => comment :: shownAll replies

def shownAll : List (Node κ) → List (Comment κ)
  | [] => []
  | node :: nodes => node.shown ++ shownAll nodes

end

mutual

def Node.pairs : Node κ → List (Comment κ × Comment κ)
  | .node comment replies => (replies.map fun reply => (comment, reply.comment)) ++ pairsAll replies

def pairsAll : List (Node κ) → List (Comment κ × Comment κ)
  | [] => []
  | node :: nodes => node.pairs ++ pairsAll nodes

end

def links (κ : Type*) : Parents (Comment κ) where
  key := Comment.id
  parent := Comment.parentCommentId

/-- A comment with the replies of the rows under it, down to `n` steps. -/
def nodeOf (rows : List (Comment κ)) : ℕ → Comment κ → Node κ
  | 0, comment => .node comment []
  | n + 1, comment => .node comment (((links κ).children rows comment.id).map (nodeOf rows n))

/-- `_build_comment_tree`: a comment whose parent is none of the rows stands at the top. -/
def buildCommentTree (rows : List (Comment κ)) : List (Node κ) :=
  (rows.filter fun r => (links κ).isTop rows r).map (nodeOf rows rows.length)

/-- The comments on a memory, by the time at which they were written. -/
def commentsOn (memoryId : ℕ) (rows : List (Comment κ)) : List (Comment κ) :=
  sortBy Comment.createdAt (rows.filter fun r => decide (r.memoryId = memoryId))

def listComments (memoryId : ℕ) (rows : List (Comment κ)) : List (Node κ) :=
  buildCommentTree (commentsOn memoryId rows)

/-- What is shown of a comment: itself, and the replies below it. -/
def thread (rows : List (Comment κ)) (comment : Comment κ) : List (Comment κ) :=
  let comments := commentsOn comment.memoryId rows
  (nodeOf comments comments.length comment).shown

/-- `_delete_comment_subtree`, where `children` was read before the first row was deleted. Nothing where
    the turns of the loop run out. -/
def deleteSubtree (rows : List (Comment κ)) (comment : Comment κ) (children : List (Comment κ)) :
    Option (List (Comment κ)) :=
  let ids := children.map Comment.id
  (links κ).removeFrom (2 * rows.length + ids.length)
    (rows.filter fun r => decide (r.id ∉ comment.id :: ids)) ids

variable {rows rows' children : List (Comment κ)} {comment r : Comment κ} {memoryId n : ℕ}

theorem deleteSubtree_some (rows : List (Comment κ)) (comment : Comment κ)
    (children : List (Comment κ)) : ∃ rows', deleteSubtree rows comment children = some rows' := by
  refine Parents.removeFrom_some ?_
  have hlength := List.length_filter_le (fun r => decide (r.id ∉ comment.id :: children.map Comment.id))
    rows
  omega

theorem shownAll_map (f : Comment κ → Node κ) (rows : List (Comment κ)) :
    shownAll (rows.map f) = rows.flatMap fun r => (f r).shown := by
  induction rows with
  | nil => rfl
  | cons r rows ih => rw [List.map_cons, shownAll, ih, List.flatMap_cons]

variable {p : Comment κ × Comment κ}

theorem mem_pairsAll {nodes : List (Node κ)} :
    p ∈ pairsAll nodes ↔ ∃ node ∈ nodes, p ∈ node.pairs := by
  induction nodes with
  | nil => simp [pairsAll]
  | cons node nodes ih => simp only [pairsAll, List.mem_append, ih, List.mem_cons, exists_eq_or_imp]

theorem shown_nodeOf (rows : List (Comment κ)) (n : ℕ) (comment : Comment κ) :
    (nodeOf rows n comment).shown = (links κ).below rows n comment := by
  induction n generalizing comment with
  | zero => rfl
  | succ n ih =>
    have hbelow : (fun r => (nodeOf rows n r).shown) = (links κ).below rows n := funext ih
    rw [nodeOf, Node.shown, shownAll_map, hbelow]
    rfl

theorem comment_nodeOf (rows : List (Comment κ)) (n : ℕ) (comment : Comment κ) :
    (nodeOf rows n comment).comment = comment := by
  cases n <;> rfl

theorem under_of_mem_pairs (hcomment : comment ∈ rows) (h : p ∈ (nodeOf rows n comment).pairs) :
    p.2 ∈ rows ∧ (links κ).Under rows p.2 p.1 := by
  induction n generalizing comment with
  | zero => simp [nodeOf, Node.pairs, pairsAll] at h
  | succ n ih =>
    rw [nodeOf, Node.pairs, List.mem_append, List.map_map, mem_pairsAll] at h
    rcases h with h | ⟨node, hnode, h⟩
    · obtain ⟨reply, hreply, rfl⟩ := List.mem_map.mp h
      obtain ⟨hmem, hparent⟩ := Parents.mem_children.mp hreply
      rw [Function.comp_apply, comment_nodeOf]
      exact ⟨hmem, hcomment, hparent⟩
    · obtain ⟨reply, hreply, rfl⟩ := List.mem_map.mp hnode
      exact ih (Parents.mem_children.mp hreply).1 h

/-! ## 2. Linked rows -/

structure Linked (rows : List (Comment κ)) : Prop where
  unique : (rows.map Comment.id).Nodup
  parent : ∀ reply ∈ rows, ∀ comment ∈ rows, reply.parentCommentId = some comment.id →
    comment.id < reply.id ∧ comment.memoryId = reply.memoryId ∧ reply.answers = some comment.serial

theorem perm_commentsOn (memoryId : ℕ) (rows : List (Comment κ)) :
    (commentsOn memoryId rows).Perm (rows.filter fun r => decide (r.memoryId = memoryId)) :=
  perm_sortBy _ _

theorem mem_commentsOn : r ∈ commentsOn memoryId rows ↔ r ∈ rows ∧ r.memoryId = memoryId := by
  rw [(perm_commentsOn memoryId rows).mem_iff, List.mem_filter, decide_eq_true_iff]

theorem Linked.ordered (h : Linked rows) (memoryId : ℕ) : (links κ).Ordered (commentsOn memoryId rows) where
  unique := by
    have hperm := (perm_commentsOn memoryId rows).map Comment.id
    exact hperm.nodup_iff.mpr (h.unique.sublist (List.filter_sublist.map _))
  before x hx y hxy := (h.parent x (mem_commentsOn.mp hx).1 y (mem_commentsOn.mp hxy.1).1 hxy.2).1

theorem listComments_perm (h : Linked rows) (memoryId : ℕ) : (shownAll (listComments memoryId rows)).Perm
      (rows.filter fun r => decide (r.memoryId = memoryId)) := by
  have hshown : (fun r : Comment κ => (nodeOf (commentsOn memoryId rows)
      (commentsOn memoryId rows).length r).shown) =
        (links κ).below (commentsOn memoryId rows) (commentsOn memoryId rows).length :=
    funext fun r => shown_nodeOf _ _ r
  unfold listComments buildCommentTree
  rw [shownAll_map, hshown]
  exact (Parents.perm_below (h.ordered memoryId)).trans (perm_commentsOn memoryId rows)

theorem listComments_under (h : Linked rows) (hp : p ∈ pairsAll (listComments memoryId rows)) :
    p.2.answers = some p.1.serial := by
  obtain ⟨node, hnode, hp⟩ := mem_pairsAll.mp hp
  obtain ⟨top, htop, rfl⟩ := List.mem_map.mp hnode
  obtain ⟨hmem, hunder⟩ := under_of_mem_pairs (List.mem_filter.mp htop).1 hp
  exact (h.parent p.2 (mem_commentsOn.mp hmem).1 p.1 (mem_commentsOn.mp hunder.1).1 hunder.2).2.2

/-! ## 3. Deleting -/

/-- What was read of a comment and its replies is still so: each of them is there, or its id is that of
    no comment and of no parent, and there is no reply beside them. -/
structure StillRead (rows : List (Comment κ)) (comment : Comment κ) (children : List (Comment κ)) :
    Prop where
  there : ∀ c ∈ comment :: children, c ∈ rows ∨ ∀ r ∈ rows, r.id ≠ c.id ∧ r.parentCommentId ≠ some c.id
  all : ∀ r ∈ rows, r.parentCommentId = some comment.id → r ∈ children

theorem not_hangs {q : ℕ} (h : ∀ r ∈ rows, r.id ≠ q ∧ r.parentCommentId ≠ some q) (hr : r ∈ rows) :
    ¬ (links κ).Hangs rows q r := by
  intro hangs
  induction hangs with
  | self hkey => exact (h _ hr).1 hkey
  | child hparent => exact (h _ hr).2 hparent
  | step hxy _ ih => exact ih hxy.1

theorem filter_eq_without (h : Linked rows) (hread : StillRead rows comment children)
    (hchildren : ∀ c ∈ children, c.parentCommentId = some comment.id) :
    (rows.filter fun r => decide (r.id ∉ comment.id :: children.map Comment.id)) =
      (links κ).without rows comment.id := by
  unfold Parents.without
  refine List.filter_congr fun r hr => ?_
  have hiff : r.id ∉ comment.id :: children.map Comment.id ↔
      r.parentCommentId ≠ some comment.id ∧ r.id ≠ comment.id := by
    rw [List.mem_cons, not_or, and_comm]
    refine and_congr_left fun _ => ⟨fun hnot hparent => ?_, fun hparent hmem => ?_⟩
    · exact hnot (List.mem_map_of_mem (hread.all r hr hparent))
    · obtain ⟨c, hc, hid⟩ := List.mem_map.mp hmem
      rcases hread.there c (List.mem_cons_of_mem _ hc) with hmem | hgone
      · obtain rfl := Parents.eq_of_key (P := links κ) h.unique hmem hr hid
        exact hparent (hchildren c hc)
      · exact (hgone r hr).1 hid.symm
  rw [decide_eq_decide.mpr hiff, Bool.decide_and]
  rw [decide_not, decide_not]
  rfl

theorem mem_deleteSubtree (h : Linked rows) (hread : StillRead rows comment children)
    (hchildren : ∀ c ∈ children, c.parentCommentId = some comment.id)
    (hdelete : deleteSubtree rows comment children = some rows') :
    r ∈ rows' ↔ r ∈ rows ∧ ¬ (links κ).Hangs rows comment.id r := by
  have hwithout := filter_eq_without h hread hchildren
  unfold deleteSubtree at hdelete
  dsimp only at hdelete
  rw [hwithout] at hdelete
  have hnodup : (((links κ).without rows comment.id).map (links κ).key).Nodup :=
    h.unique.sublist (List.filter_sublist.map Comment.id)
  rw [Parents.mem_removeFrom hnodup hdelete]
  have hsame : r ∈ (links κ).without rows comment.id →
      ((∃ q ∈ children.map Comment.id, (links κ).Hangs ((links κ).without rows comment.id) q r) ↔
        (links κ).Hangs rows comment.id r) := by
    intro hr
    have hturn := Parents.hangs_turn h.unique [] hr
    rw [List.nil_append] at hturn
    constructor
    · intro ⟨q, hq, hangs⟩
      obtain ⟨c, hc, rfl⟩ := List.mem_map.mp hq
      have hr' := (Parents.mem_without.mp hr).1
      rcases hread.there c (List.mem_cons_of_mem _ hc) with hmem | hgone
      · have hqueue : c.id ∈ ((links κ).children rows comment.id).map (links κ).key :=
          List.mem_map_of_mem (Parents.mem_children.mpr ⟨hmem, hchildren c hc⟩)
        obtain ⟨k, hk, hangs'⟩ := hturn.mp ⟨c.id, hqueue, hangs⟩
        rwa [List.mem_singleton.mp hk] at hangs'
      · exact absurd hangs.mono (not_hangs hgone hr')
    · intro hangs
      obtain ⟨k, hk, hangs'⟩ := hturn.mpr ⟨comment.id, List.mem_cons_self, hangs⟩
      obtain ⟨c, hc, rfl⟩ := List.mem_map.mp hk
      obtain ⟨hc, hparent⟩ := Parents.mem_children.mp hc
      exact ⟨c.id, List.mem_map_of_mem (hread.all c hc hparent), hangs'⟩
  constructor
  · intro ⟨hr, hnone⟩
    rw [hsame hr] at hnone
    exact ⟨(Parents.mem_without.mp hr).1, hnone⟩
  · intro ⟨hr, hnone⟩
    have hstays : r ∈ (links κ).without rows comment.id := Parents.mem_without.mpr
      ⟨hr, fun hparent => hnone (.child hparent), fun hkey => hnone (.self hkey)⟩
    rw [hsame hstays]
    exact ⟨hstays, hnone⟩

theorem up_commentsOn (h : Linked rows) (hup : (links κ).Up rows r comment) (hr : r ∈ rows) :
    r.memoryId = comment.memoryId ∧ (links κ).Up (commentsOn comment.memoryId rows) r comment := by
  induction hup using Relation.ReflTransGen.head_induction_on with
  | refl => exact ⟨rfl, .refl⟩
  | @head x y hxy _ ih =>
    obtain ⟨hmemory, hup⟩ := ih hxy.1
    exact ⟨(h.parent x hr y hxy.1 hxy.2).2.1.symm.trans hmemory,
      .head ⟨mem_commentsOn.mpr ⟨hxy.1, hmemory⟩, hxy.2⟩ hup⟩

theorem below_of_gone (h : ∀ r ∈ rows, r.parentCommentId ≠ some comment.id) :
    (links κ).below rows n comment = [comment] := by
  cases n with
  | zero => rfl
  | succ n =>
    have hnone : (links κ).children rows comment.id = [] :=
      List.filter_eq_nil_iff.mpr fun r hr hparent => h r hr (of_decide_eq_true hparent)
    have hsame : (links κ).key comment = comment.id := rfl
    rw [Parents.below, hsame, hnone]
    rfl

theorem deleteSubtree_removes (h : Linked rows) (hread : StillRead rows comment children)
    (hchildren : ∀ c ∈ children, c.parentCommentId = some comment.id)
    (hdelete : deleteSubtree rows comment children = some rows') (r : Comment κ) :
    r ∈ rows' ↔ r ∈ rows ∧ r ∉ thread rows comment := by
  rw [mem_deleteSubtree h hread hchildren hdelete]
  refine and_congr_right fun hr => not_congr ?_
  unfold thread
  dsimp only
  rw [shown_nodeOf]
  rcases hread.there comment List.mem_cons_self with hcomment | hgone
  · rw [show (links κ).Hangs rows comment.id r ↔ (links κ).Up rows r comment from
      Parents.hangs_iff_up h.unique hr hcomment]
    constructor
    · intro hup
      obtain ⟨hmemory, hup⟩ := up_commentsOn h hup hr
      exact Parents.mem_below_of_up (h.ordered _) hup (mem_commentsOn.mpr ⟨hr, hmemory⟩) List.countP_le_length
    · intro hbelow
      obtain ⟨-, hup⟩ := Parents.up_of_mem_below (mem_commentsOn.mpr ⟨hcomment, rfl⟩) hbelow
      have hmono : ∀ x y, (links κ).Under (commentsOn comment.memoryId rows) x y →
          (links κ).Under rows x y := fun x y hxy => ⟨(mem_commentsOn.mp hxy.1).1, hxy.2⟩
      exact Relation.ReflTransGen.mono hmono _ _ hup
  · refine iff_of_false (not_hangs hgone hr) fun hbelow => ?_
    rw [below_of_gone fun x hx => (hgone x (mem_commentsOn.mp hx).1).2, List.mem_singleton] at hbelow
    exact (hgone r hr).1 (congrArg Comment.id hbelow)

end TraxJourney.Memories
