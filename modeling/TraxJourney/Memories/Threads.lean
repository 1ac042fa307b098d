/-
  File:      Memories/Threads.lean
  Subject:   Comments written and deleted at the same time: `add_comment` and `delete_comment` from
             `src/api/memories.py`, each step of any number of requests for itself.

  * **`threads_intact`** -- the threads are shown in full, and a deletion takes what is shown below its
    comment, in every run whose steps find what was read.

  A request is here when it is let in: the checks of roles and of authors are others'.
-/
import TraxJourney.Lib.Clients
import TraxJourney.Lib.Table
import TraxJourney.Memories.Comments

namespace TraxJourney.Memories

open Lib

variable {ι κ : Type*} [DecidableEq ι]

/-! ## 1. Requests -/

/-- The table, and a number for the next comment that no other has had. -/
structure Store (κ : Type*) where
  rows : List (Comment κ)
  nextSerial : ℕ

/-- What a request has read. -/
inductive Request (κ : Type*) where
  | idle
  | adding (memoryId : ℕ) (parent : Option (Comment κ)) (body : κ)
  | deleting (comment : Comment κ) (children : Option (List (Comment κ)))
deriving DecidableEq

inductive Action (κ : Type*) where
  | addComment (memoryId : ℕ) (parentCommentId : Option ℕ) (body : κ)
  | insert (createdAt : String)
  | deleteComment (memoryId commentId : ℕ)
  | readChildren
  | remove

def getComment (rows : List (Comment κ)) (id : ℕ) : Option (Comment κ) :=
  rows.find? fun r => decide (r.id = id)

/-- One above the largest id now in the table. -/
def nextId (rows : List (Comment κ)) : ℕ := (rows.map Comment.id).foldr max 0 + 1

def readParent (rows : List (Comment κ)) (memoryId : ℕ) (body : κ) : Option ℕ → Request κ
  | none => .adding memoryId none body
  | some parentCommentId =>
    match (getComment rows parentCommentId).filter fun q => decide (q.memoryId = memoryId) with
    | some parent => .adding memoryId (some parent) body
    | none => .idle

def readComment (rows : List (Comment κ)) (memoryId commentId : ℕ) : Request κ :=
  match (getComment rows commentId).filter fun c => decide (c.memoryId = memoryId) with
  | some comment => .deleting comment none
  | none => .idle

def newComment (store : Store κ) (memoryId : ℕ) (parent : Option (Comment κ)) (body : κ)
    (createdAt : String) : Comment κ where
  id := nextId store.rows
  memoryId := memoryId
  parentCommentId := parent.map Comment.id
  createdAt := createdAt
  body := body
  serial := store.nextSerial
  answers := parent.map Comment.serial

def turn : Request κ → Action κ → Store κ → Option (Request κ × Store κ)
  | .idle, .addComment memoryId parentCommentId body, store =>
    some (readParent store.rows memoryId body parentCommentId, store)
  | .adding memoryId parent body, .insert createdAt, store =>
    some (.idle, ⟨store.rows ++ [newComment store memoryId parent body createdAt], store.nextSerial + 1⟩)
  | .idle, .deleteComment memoryId commentId, store => some (readComment store.rows memoryId commentId, store)
  | .deleting comment none, .readChildren, store =>
    some (.deleting comment (some ((links κ).children store.rows comment.id)), store)
  | .deleting comment (some children), .remove, store =>
    (deleteSubtree store.rows comment children).map fun rows => (.idle, ⟨rows, store.nextSerial⟩)
  | _, _, _ => none

/-- Nothing is stored, and no request has begun. -/
def start : Clients ι (Request κ) (Store κ) := ⟨fun _ => .idle, ⟨[], 0⟩⟩

/-! ## 2. What was read, and what is shown -/

/-- The parent of a reply is no other comment, and no comment names the id of the new one. -/
structure StillFree (rows : List (Comment κ)) (parent : Option (Comment κ)) : Prop where
  same : ∀ q ∈ parent, ∀ r ∈ rows, r.id = q.id → r = q
  self : ∀ q ∈ parent, q.id ≠ nextId rows
  unnamed : ∀ r ∈ rows, r.parentCommentId ≠ some (nextId rows)

def Request.Finds (rows : List (Comment κ)) : Request κ → Prop
  | .adding _ parent _ => StillFree rows parent
  | .deleting comment (some children) => StillRead rows comment children
  | _ => True

def Unchanged (w : Clients ι (Request κ) (Store κ)) (step : ι × Action κ) : Prop :=
  (w.locals step.1).Finds w.store.rows

/-- Every comment is shown once, and a reply under the comment that it answers. -/
structure Intact (rows : List (Comment κ)) : Prop where
  serials : (rows.map Comment.serial).Nodup
  shown : ∀ memoryId, (shownAll (listComments memoryId rows)).Perm
    (rows.filter fun r => decide (r.memoryId = memoryId))
  under : ∀ memoryId, ∀ p ∈ pairsAll (listComments memoryId rows), p.2.answers = some p.1.serial

/-! ## 3. The invariant -/

structure Store.Sound (store : Store κ) : Prop where
  linked : Linked store.rows
  serials : (store.rows.map Comment.serial).Nodup
  fresh : ∀ r ∈ store.rows, r.serial < store.nextSerial

/-- A parent was read on the memory of its reply, and the children under their comment. -/
def Request.Sound : Request κ → Prop
  | .adding memoryId parent _ => ∀ q ∈ parent, q.memoryId = memoryId
  | .deleting comment (some children) => ∀ c ∈ children, c.parentCommentId = some comment.id
  | _ => True

variable {store : Store κ} {rows : List (Comment κ)} {memoryId : ℕ} {parent : Option (Comment κ)}
  {body : κ} {createdAt : String} {r : Comment κ}

theorem Store.Sound.intact (h : store.Sound) : Intact store.rows where
  serials := h.serials
  shown := listComments_perm h.linked
  under _ _ hp := listComments_under h.linked hp

theorem lt_nextId (h : (rows.map Comment.id).Nodup) (hr : r ∈ rows) : r.id < nextId rows :=
  Table.nextId_gt (t := ⟨rows, h⟩) hr

theorem Store.Sound.insert (h : store.Sound) (hfree : StillFree store.rows parent)
    (hparent : ∀ q ∈ parent, q.memoryId = memoryId) :
    Store.Sound ⟨store.rows ++ [newComment store memoryId parent body createdAt], store.nextSerial + 1⟩ where
  linked := by
    refine ⟨?_, fun reply hreply comment hcomment hnames => ?_⟩
    · rw [List.map_append, List.nodup_append]
      refine ⟨h.linked.unique, List.nodup_singleton _, fun a ha b hb heq => ?_⟩
      obtain ⟨r, hr, rfl⟩ := List.mem_map.mp ha
      have hlt := lt_nextId h.linked.unique hr
      rw [List.map_singleton, List.mem_singleton] at hb
      rw [heq, hb] at hlt
      exact Nat.lt_irrefl _ hlt
    · rcases List.mem_append.mp hcomment with hcomment | hcomment
      · rcases List.mem_append.mp hreply with hreply | hreply
        · exact h.linked.parent reply hreply comment hcomment hnames
        · rw [List.mem_singleton.mp hreply] at hnames ⊢
          obtain ⟨q, hq, hid⟩ := Option.map_eq_some_iff.mp hnames
          obtain rfl := hfree.same q hq comment hcomment hid.symm
          refine ⟨lt_nextId h.linked.unique hcomment, hparent comment hq, ?_⟩
          exact congrArg (Option.map Comment.serial) hq
      · rw [List.mem_singleton.mp hcomment] at hnames
        rcases List.mem_append.mp hreply with hreply | hreply
        · exact absurd hnames (hfree.unnamed reply hreply)
        · rw [List.mem_singleton.mp hreply] at hnames
          obtain ⟨q, hq, hid⟩ := Option.map_eq_some_iff.mp hnames
          exact absurd hid (hfree.self q hq)
  serials := by
    rw [List.map_append, List.nodup_append]
    refine ⟨h.serials, List.nodup_singleton _, fun a ha b hb heq => ?_⟩
    obtain ⟨r, hr, rfl⟩ := List.mem_map.mp ha
    have hlt := h.fresh r hr
    rw [List.map_singleton, List.mem_singleton] at hb
    rw [heq, hb] at hlt
    exact Nat.lt_irrefl _ hlt
  fresh r hr := by
    rcases List.mem_append.mp hr with hr | hr
    · exact Nat.lt_succ_of_lt (h.fresh r hr)
    · rw [List.mem_singleton.mp hr]
      exact Nat.lt_succ_self _

theorem Store.Sound.sublist (h : store.Sound) (hrows : rows.Sublist store.rows) :
    Store.Sound ⟨rows, store.nextSerial⟩ where
  linked :=
    ⟨h.linked.unique.sublist (hrows.map _), fun reply hreply comment hcomment =>
      h.linked.parent reply (hrows.subset hreply) comment (hrows.subset hcomment)⟩
  serials := h.serials.sublist (hrows.map _)
  fresh r hr := h.fresh r (hrows.subset hr)

theorem getComment_memory {id : ℕ}
    (h : (getComment rows id).filter (fun q => decide (q.memoryId = memoryId)) = some r) :
    r.memoryId = memoryId :=
  of_decide_eq_true (Option.filter_eq_some_iff.mp h).2

theorem sound_readParent (rows : List (Comment κ)) (memoryId : ℕ) (body : κ)
    (parentCommentId : Option ℕ) : (readParent rows memoryId body parentCommentId).Sound := by
  cases parentCommentId with
  | none => exact fun q hq => by cases hq
  | some id =>
    unfold readParent
    dsimp only
    split
    · rename_i parent hparent
      exact fun q hq => Option.some.inj hq ▸ getComment_memory hparent
    · trivial

theorem sound_readComment (rows : List (Comment κ)) (memoryId commentId : ℕ) :
    (readComment rows memoryId commentId).Sound := by
  unfold readComment
  split <;> trivial

theorem turn_sound {request request' : Request κ} {store' : Store κ} {action : Action κ}
    (hstore : store.Sound) (hrequest : request.Sound) (hfinds : request.Finds store.rows)
    (h : turn request action store = some (request', store')) : store'.Sound ∧ request'.Sound := by
  cases request with
  | idle =>
    cases action with
    | addComment memoryId parentCommentId body =>
      obtain ⟨rfl, rfl⟩ := Prod.mk.inj (Option.some.inj h)
      exact ⟨hstore, sound_readParent _ _ _ _⟩
    | deleteComment memoryId commentId =>
      obtain ⟨rfl, rfl⟩ := Prod.mk.inj (Option.some.inj h)
      exact ⟨hstore, sound_readComment _ _ _⟩
    | _ => cases h
  | adding memoryId parent body =>
    cases action with
    | insert createdAt =>
      obtain ⟨rfl, rfl⟩ := Prod.mk.inj (Option.some.inj h)
      exact ⟨hstore.insert hfinds hrequest, trivial⟩
    | _ => cases h
  | deleting comment children =>
    cases children with
    | none =>
      cases action with
      | readChildren =>
        obtain ⟨rfl, rfl⟩ := Prod.mk.inj (Option.some.inj h)
        exact ⟨hstore, fun c hc => (Parents.mem_children.mp hc).2⟩
      | _ => cases h
    | some children =>
      cases action with
      | remove =>
        obtain ⟨rows, hdelete, heq⟩ := Option.map_eq_some_iff.mp h
        obtain ⟨rfl, rfl⟩ := Prod.mk.inj heq
        have hrows := (Parents.removeFrom_sublist hdelete).trans List.filter_sublist
        exact ⟨hstore.sublist hrows, trivial⟩
      | _ => cases h

omit [DecidableEq ι] in
theorem turn_kept : Kept (ι := ι) (turn (κ := κ)) Unchanged Store.Sound fun request _ => request.Sound where
  own _ i _ _ _ hstore hrequests hfinds h := turn_sound hstore (hrequests i) hfinds h
  other _ _ _ _ _ j _ _ hrequests _ _ := hrequests j

variable {w : Clients ι (Request κ) (Store κ)} {tr : List (ι × Action κ)}

/-- **Threads stay intact**: in every state of a run whose steps find what was read, and a deletion
    comes to an end, and takes the comment with what is shown below it. -/
theorem threads_intact (h : Run (Meeting (Steps (Clients.step turn)) Unchanged) start tr w) :
    Intact w.store.rows ∧ ∀ i comment children, w.locals i = .deleting comment (some children) →
      ∃ w', Clients.step turn w (i, .remove) = some w' ∧ (Unchanged w (i, .remove) → ∀ r, r ∈ w'.store.rows ↔
          r ∈ w.store.rows ∧ r ∉ thread w.store.rows comment) := by
  have hstart : Store.Sound (⟨[], 0⟩ : Store κ) :=
    { linked := ⟨List.nodup_nil, fun reply hreply => by cases hreply⟩
      serials := List.nodup_nil
      fresh := fun r hr => by cases hr }
  have hidle : ∀ i, ((start : Clients ι (Request κ) (Store κ)).locals i).Sound := fun _ => trivial
  obtain ⟨hstore, hrequests⟩ := turn_kept.run hstart hidle h
  refine ⟨hstore.intact, fun i comment children hlocal => ?_⟩
  obtain ⟨rows', hdelete⟩ := deleteSubtree_some w.store.rows comment children
  have hturn : turn (w.locals i) .remove w.store = some (.idle, ⟨rows', w.store.nextSerial⟩) := by
    rw [hlocal]
    exact congrArg (Option.map _) hdelete
  refine ⟨⟨Function.update w.locals i .idle, ⟨rows', w.store.nextSerial⟩⟩, ?_, fun hfinds => ?_⟩
  · exact congrArg (Option.map _) hturn
  · have hrequest := hrequests i
    have hread : (w.locals i).Finds w.store.rows := hfinds
    rw [hlocal] at hrequest hread
    exact deleteSubtree_removes hstore.linked hread hrequest hdelete

instance [DecidableEq κ] (rows : List (Comment κ)) (request : Request κ) : Decidable (request.Finds rows) :=
  match request with
  | .idle => isTrue trivial
  | .adding _ parent _ =>
    decidable_of_iff ((∀ q ∈ parent, ∀ r ∈ rows, r.id = q.id → r = q) ∧ (∀ q ∈ parent, q.id ≠ nextId rows) ∧
      ∀ r ∈ rows, r.parentCommentId ≠ some (nextId rows))
      ⟨fun h => ⟨h.1, h.2.1, h.2.2⟩, fun h => ⟨h.same, h.self, h.unnamed⟩⟩
  | .deleting _ none => isTrue trivial
  | .deleting comment (some children) =>
    decidable_of_iff
      ((∀ c ∈ comment :: children, c ∈ rows ∨ ∀ r ∈ rows, r.id ≠ c.id ∧ r.parentCommentId ≠ some c.id) ∧
        ∀ r ∈ rows, r.parentCommentId = some comment.id → r ∈ children)
      ⟨fun h => ⟨h.1, h.2⟩, fun h => ⟨h.there, h.all⟩⟩

instance [DecidableEq κ] (w : Clients ι (Request κ) (Store κ)) (step : ι × Action κ) :
    Decidable (Unchanged w step) := inferInstanceAs (Decidable ((w.locals step.1).Finds w.store.rows))

/-- A comment with a reply, and another comment; the first is deleted while a third request has begun to answer
    the other, up to the removal itself. -/
def commentAndReply : List (ℕ × Action Unit) :=
  [(0, .addComment 7 none ()), (0, .insert "2024-05-01T09:00:00Z"),
    (1, .addComment 7 (some 1) ()), (1, .insert "2024-05-01T10:00:00Z"),
    (0, .addComment 7 none ()), (0, .insert "2024-05-01T11:00:00Z"),
    (0, .deleteComment 7 1), (2, .addComment 7 (some 3) ()), (0, .readChildren)]

/-- The comments of that run. -/
def firstComment : Comment Unit := ⟨1, 7, none, "2024-05-01T09:00:00Z", (), 0, none⟩
def reply : Comment Unit := ⟨2, 7, some 1, "2024-05-01T10:00:00Z", (), 1, some 0⟩
def otherComment : Comment Unit := ⟨3, 7, none, "2024-05-01T11:00:00Z", (), 2, none⟩

theorem threads_intact_commentAndReply : ∃ w w' : Clients ℕ (Request Unit) (Store Unit),
    Run (Meeting (Steps (Clients.step turn)) Unchanged) start commentAndReply w ∧ Intact w.store.rows ∧
      Clients.step turn w (0, .remove) = some w' ∧
      ∀ r, r ∈ w'.store.rows ↔ r ∈ w.store.rows ∧ r ∉ thread w.store.rows firstComment := by
  have hread : (exec (Clients.step turn) (start : Clients ℕ (Request Unit) (Store Unit)) commentAndReply).map
      (fun w => (w.store.rows, w.locals 0)) =
        some ([firstComment, reply, otherComment], .deleting firstComment (some [reply])) := by decide +kernel
  have hmeet : AllMeet (Clients.step turn) Unchanged
      (start : Clients ℕ (Request Unit) (Store Unit)) commentAndReply := by decide +kernel
  have hfinds : (Request.deleting firstComment (some [reply])).Finds [firstComment, reply, otherComment] := by
    decide +kernel
  obtain ⟨w, hw, hstate⟩ := Option.map_eq_some_iff.mp hread
  obtain ⟨hrows, hlocal⟩ := Prod.mk.inj hstate
  have hrun := run_of_allMeet hw hmeet
  obtain ⟨hintact, hdelete⟩ := threads_intact hrun
  obtain ⟨w', hremove, htakes⟩ := hdelete 0 firstComment [reply] hlocal
  refine ⟨w, w', hrun, hintact, hremove, htakes ?_⟩
  unfold Unchanged
  rw [hlocal, hrows]
  exact hfinds

/-- A comment is deleted after another request has read it as the parent of a reply. -/
def replyToDeleted : List (ℕ × Action Unit) :=
  [(0, .addComment 7 none ()), (0, .insert "2024-05-01T09:00:00Z"), (1, .addComment 7 (some 1) ()),
    (0, .deleteComment 7 1), (0, .readChildren), (0, .remove), (1, .insert "2024-05-01T10:00:00Z")]

/-- **The reply gets the id of its parent**, and is shown nowhere. -/
theorem thread_vanishes : ¬ ∀ (tr : List (ℕ × Action Unit)) (w : Clients ℕ (Request Unit) (Store Unit)),
    Run (Steps (Clients.step turn)) start tr w → Intact w.store.rows := by
  intro hall
  have hexec : (exec (Clients.step turn) (start : Clients ℕ (Request Unit) (Store Unit))
      replyToDeleted).map (fun w => w.store.rows) =
        some [⟨1, 7, some 1, "2024-05-01T10:00:00Z", (), 1, some 0⟩] := by decide +kernel
  obtain ⟨w, hw, hrows⟩ := Option.map_eq_some_iff.mp hexec
  have hshown := ((hall _ w (run_iff_exec.mpr hw)).shown 7).length_eq
  rw [hrows] at hshown
  exact absurd hshown (by decide +kernel)

end TraxJourney.Memories
