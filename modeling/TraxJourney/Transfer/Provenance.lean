/-
  File:      Transfer/Provenance.lean
  Subject:   `_app_measured` (`src/project/traxj_schema.py`) with the answers it keeps, shared by all
             queries of `normalise`.

  * **`askAll_unmemoised`** -- in every order of queries the answers are those of walks without a memo, which
    are what `normalise` reads of each activity.

  An activity is known by its place in the list, as `id()` tells objects apart. The repairs between the
  queries write none of the three fields read here.
-/
import TraxJourney.Transfer.Normalise

namespace TraxJourney.Transfer

open Lib

/-! ## 1. The walk -/

/-- `type(x) is int`. -/
def asInt : Option Json → Option ℤ
  | some (.num (.int n)) => some n
  | _ => none

/-- `act.get("source")`, where it is not `None`. -/
def sourceOf (act : Obj) : Option Json := (act.get "source").filter (!·.isNull)

/-- `source == "gpx"`. -/
def isGpx : Json → Bool
  | .text t => decide (t = .valid "gpx")
  | _ => false

section Defs

variable (activities : List Json)

/-- The activity at a place, where it is a dictionary. -/
def activityAt (i : ℕ) : Option Obj :=
  match activities[i]? with
  | some (.obj act) => some act
  | _ => none

/-- `by_id.get(parent)`: the last one with the id. -/
def byId (parent : ℤ) : Option ℕ :=
  (List.range activities.length).reverse.find? fun i =>
    decide ((activityAt activities i).bind (fun act => asInt (act.get "id")) = some parent)

def parentOf (act : Obj) : Option ℕ := (asInt (act.get "split_parent_id")).bind (byId activities)

/-- How a walk ends: the pieces walked through, where it stopped, and the answer. -/
structure Climb where
  path : List ℕ
  last : Option ℕ
  answer : Bool

/-- The loop of `_app_measured`; `none` is that it has not ended. -/
def climb (known : ℕ → Option Bool) : ℕ → List ℕ → Option ℕ → Option Climb
  | 0, _, _ => none
  | _ + 1, path, none => some ⟨path, none, false⟩
  | fuel + 1, path, some i =>
    match activityAt activities i with
    | none => some ⟨path, none, false⟩
    | some act =>
      match known i with
      | some answer => some ⟨path, some i, answer⟩
      | none =>
        -- a loop: no source found
        if i ∈ path then some ⟨path, some i, false⟩
        else match sourceOf act with
          | some source => some ⟨path, some i, isGpx source⟩
          | none => climb known fuel (path ++ [i]) (parentOf activities act)

/-- The answers kept after a walk. -/
def Climb.keep (c : Climb) (known : ℕ → Option Bool) : ℕ → Option Bool :=
  let known := c.path.foldl (fun known k => Function.update known k (some c.answer)) known
  match c.last with
  | some i => if (known i).isNone then Function.update known i (some c.answer) else known
  | none => known

/-- `_app_measured`: the answer, and what is known after it. -/
def appMeasuredMemo (known : ℕ → Option Bool) (i : ℕ) : Option (Bool × (ℕ → Option Bool)) :=
  (climb activities known (activities.length + 1) [] (some i)).map fun c => (c.answer, c.keep known)

/-- Queries one after another, with a shared memo. -/
def askAll : (ℕ → Option Bool) → List ℕ → Option (List Bool)
  | _, [] => some []
  | known, i :: queries => do
    let (answer, known) ← appMeasuredMemo activities known i
    let answers ← askAll known queries
    some (answer :: answers)

/-- The walk without a memo. -/
def unmemoised (i : ℕ) : Option Bool :=
  (climb activities (fun _ => none) (activities.length + 1) [] (some i)).map (·.answer)

/-- The first activity with a source, up the chain, is a GPX upload. -/
inductive FromGpx : ℕ → Prop
  | here {i : ℕ} {act : Obj} {source : Json} : activityAt activities i = some act →
      sourceOf act = some source → isGpx source = true → FromGpx i
  | up {i j : ℕ} {act : Obj} : activityAt activities i = some act → sourceOf act = none →
      parentOf activities act = some j → FromGpx j → FromGpx i

end Defs

/-! ## 2. Right answers -/

section Answers

variable {activities : List Json} {known : ℕ → Option Bool} {path : List ℕ} {i : ℕ} {act : Obj}

def SoundMemo (activities : List Json) (known : ℕ → Option Bool) : Prop :=
  ∀ k b, known k = some b → (b = true ↔ FromGpx activities k)

theorem fromGpx_source {source : Json} (hact : activityAt activities i = some act) (hsource : sourceOf act = some source) :
    FromGpx activities i ↔ isGpx source = true := by
  constructor
  · intro h
    cases h with
    | here h1 h2 h3 =>
      obtain rfl := Option.some.inj (hact.symm.trans h1)
      obtain rfl := Option.some.inj (hsource.symm.trans h2)
      exact h3
    | up h1 h2 =>
      obtain rfl := Option.some.inj (hact.symm.trans h1)
      cases hsource.symm.trans h2
  · exact .here hact hsource

theorem fromGpx_up (hact : activityAt activities i = some act) (hsource : sourceOf act = none) :
    FromGpx activities i ↔ ∃ j, parentOf activities act = some j ∧ FromGpx activities j := by
  constructor
  · intro h
    cases h with
    | here h1 h2 =>
      obtain rfl := Option.some.inj (hact.symm.trans h1)
      cases hsource.symm.trans h2
    | up h1 _ h3 h4 =>
      obtain rfl := Option.some.inj (hact.symm.trans h1)
      exact ⟨_, h3, h4⟩
  · rintro ⟨j, hj, h⟩
    exact .up hact hsource hj h

theorem not_fromGpx_none (hact : activityAt activities i = none) : ¬ FromGpx activities i := by
  intro h
  cases h with
  | here h1 => cases hact.symm.trans h1
  | up h1 => cases hact.symm.trans h1

/-- The pieces of a path have no source, and each has the one after it, or `next`, as its parent. -/
def OnPath (activities : List Json) (path : List ℕ) (next : Option ℕ) : Prop :=
  ∀ p ∈ path, ∃ act, activityAt activities p = some act ∧ sourceOf act = none ∧
    ∀ j, parentOf activities act = some j → j ∈ path ∨ next = some j

theorem OnPath.not_fromGpx (h : OnPath activities path (some i)) (hi : i ∈ path) : ∀ p ∈ path, ¬ FromGpx activities p := by
  intro p hp hgpx
  induction hgpx with
  | here h1 h2 =>
    obtain ⟨act, hact, hsource, -⟩ := h _ hp
    obtain rfl := Option.some.inj (hact.symm.trans h1)
    cases hsource.symm.trans h2
  | up h1 _ h3 _ ih =>
    obtain ⟨act, hact, -, hparent⟩ := h _ hp
    obtain rfl := Option.some.inj (hact.symm.trans h1)
    rcases hparent _ h3 with hmem | heq
    · exact ih hmem
    · exact ih (Option.some.inj heq ▸ hi)

variable {next : Option ℕ}

theorem OnPath.length_le (h : OnPath activities path next) (hnodup : path.Nodup) :
    path.length ≤ activities.length := by
  have hsub : path ⊆ List.range activities.length := by
    intro p hp
    obtain ⟨act, hact, -⟩ := h p hp
    unfold activityAt at hact
    rw [List.mem_range]
    by_contra hout
    rw [List.getElem?_eq_none (Nat.not_lt.mp hout)] at hact
    cases hact
  exact (List.subperm_of_subset hnodup hsub).length_le.trans (List.length_range).le

/-- From `next` on, the chain comes to a GPX upload first. -/
def NextGpx (activities : List Json) (next : Option ℕ) : Prop := ∃ i, next = some i ∧ FromGpx activities i

/-- Every piece of the path stands as `next` does. -/
def SameOnPath (activities : List Json) (path : List ℕ) (next : Option ℕ) : Prop :=
  ∀ p ∈ path, (FromGpx activities p ↔ NextGpx activities next)

/-- The answer of a walk is right: for the activity it goes on from, for its path, and for where it stopped. -/
structure Climb.Right (activities : List Json) (next : Option ℕ) (c : Climb) : Prop where
  next : c.answer = true ↔ NextGpx activities next
  path : ∀ p ∈ c.path, (c.answer = true ↔ FromGpx activities p)
  last : ∀ i, c.last = some i → (c.answer = true ↔ FromGpx activities i)

theorem nextGpx_some : NextGpx activities (some i) ↔ FromGpx activities i :=
  ⟨fun ⟨_, hj, h⟩ => Option.some.inj hj ▸ h, fun h => ⟨i, rfl, h⟩⟩

theorem SameOnPath.stops {answer : Bool} (h : SameOnPath activities path next) (last : Option ℕ)
    (hanswer : answer = true ↔ NextGpx activities next) (hlast : ∀ i, last = some i → next = some i) :
    ∃ c, some (⟨path, last, answer⟩ : Climb) = some c ∧ c.Right activities next :=
  ⟨_, rfl, hanswer, fun p hp => hanswer.trans (h p hp).symm, fun i hi => by
    rw [hlast i hi, nextGpx_some] at hanswer
    exact hanswer⟩

theorem climb_spec (hknown : SoundMemo activities known) {fuel : ℕ} (hnodup : path.Nodup)
    (hpath : OnPath activities path next) (hfuel : activities.length + 1 ≤ fuel + path.length)
    (hsame : SameOnPath activities path next) :
    ∃ c, climb activities known fuel path next = some c ∧ c.Right activities next := by
  induction fuel generalizing path next with
  | zero =>
    have hlength := hpath.length_le hnodup
    omega
  | succ fuel ih =>
    cases next with
    | none => exact hsame.stops none ⟨fun h => (by cases h), fun ⟨_, h, _⟩ => by cases h⟩ (fun _ h => h)
    | some i =>
      have hone : ∀ {answer : Bool}, (answer = true ↔ FromGpx activities i) →
          (answer = true ↔ ∃ j, some i = some j ∧ FromGpx activities j) := fun h =>
        h.trans ⟨fun h => ⟨i, rfl, h⟩, fun ⟨j, hj, h⟩ => Option.some.inj hj ▸ h⟩
      rw [climb]
      cases hact : activityAt activities i with
      | none =>
        exact hsame.stops none (hone ⟨fun h => (by cases h), fun h => absurd h (not_fromGpx_none hact)⟩)
          (fun _ h => by cases h)
      | some act =>
        cases hk : known i with
        | some answer => exact hsame.stops (some i) (hone (hknown i answer hk)) (fun _ h => h)
        | none =>
          dsimp only
          split
          case isTrue hi =>
            exact hsame.stops (some i) (hone ⟨fun h => (by cases h), fun h => absurd h (hpath.not_fromGpx hi i hi)⟩)
              (fun _ h => h)
          case isFalse hi =>
            cases hsource : sourceOf act with
            | some source =>
              exact hsame.stops (some i) (hone (fromGpx_source hact hsource).symm) (fun _ h => h)
            | none =>
              have hup : ∀ p ∈ path ++ [i], (FromGpx activities p ↔
                  ∃ j, parentOf activities act = some j ∧ FromGpx activities j) := by
                intro p hp
                rcases List.mem_append.mp hp with hp | hp
                · refine (hsame p hp).trans (Iff.trans ?_ (fromGpx_up hact hsource))
                  exact ⟨fun ⟨j, hj, h⟩ => Option.some.inj hj ▸ h, fun h => ⟨i, rfl, h⟩⟩
                · rw [List.mem_singleton.mp hp]
                  exact fromGpx_up hact hsource
              have hnodup' : (path ++ [i]).Nodup := List.nodup_append.mpr ⟨hnodup, List.nodup_singleton i,
                fun a ha b hb hab => hi (List.mem_singleton.mp hb ▸ hab ▸ ha)⟩
              have hpath' : OnPath activities (path ++ [i]) (parentOf activities act) := by
                intro p hp
                rcases List.mem_append.mp hp with hp | hp
                · obtain ⟨act', hact', hsource', hparent⟩ := hpath p hp
                  refine ⟨act', hact', hsource', fun j hj => .inl ?_⟩
                  rcases hparent j hj with hmem | heq
                  · exact List.mem_append_left _ hmem
                  · exact List.mem_append_right _ (List.mem_singleton.mpr (Option.some.inj heq).symm)
                · rw [List.mem_singleton.mp hp]
                  exact ⟨act, hact, hsource, fun j hj => .inr hj⟩
              have hfuel' : activities.length + 1 ≤ fuel + (path ++ [i]).length := by
                rw [List.length_append, List.length_singleton]
                omega
              obtain ⟨c, hc, hright⟩ := ih hnodup' hpath' hfuel' hup
              refine ⟨c, hc, hright.next.trans ?_, hright.path, hright.last⟩
              exact (fromGpx_up hact hsource).symm.trans nextGpx_some.symm

theorem Climb.Right.keep {c : Climb} (h : c.Right activities next) (hknown : SoundMemo activities known) :
    SoundMemo activities (c.keep known) := by
  have hone : ∀ {known : ℕ → Option Bool} {i : ℕ}, SoundMemo activities known → (c.answer = true ↔ FromGpx activities i) →
      SoundMemo activities (Function.update known i (some c.answer)) := by
    intro known i hknown hi k b hk
    by_cases heq : k = i
    · subst heq
      rw [Function.update_self] at hk
      exact Option.some.inj hk ▸ hi
    · rw [Function.update_of_ne heq] at hk
      exact hknown k b hk
  have hfold : ∀ (path : List ℕ) (known : ℕ → Option Bool), SoundMemo activities known →
      (∀ p ∈ path, (c.answer = true ↔ FromGpx activities p)) →
      SoundMemo activities (path.foldl (fun known k => Function.update known k (some c.answer)) known) := by
    intro path
    induction path with
    | nil => exact fun _ hknown _ => hknown
    | cons p path ih =>
      intro known hknown hpath
      rw [List.forall_mem_cons] at hpath
      exact ih _ (hone hknown hpath.1) hpath.2
  have hpath := hfold c.path known hknown h.path
  unfold Climb.keep
  cases hlast : c.last with
  | none => exact hpath
  | some i =>
    dsimp only
    split
    case isTrue => exact hone hpath (h.last i hlast)
    case isFalse => exact hpath

theorem climb_query (hknown : SoundMemo activities known) (i : ℕ) :
    ∃ c, climb activities known (activities.length + 1) [] (some i) = some c ∧ c.Right activities (some i) :=
  climb_spec hknown List.nodup_nil (fun _ hp => absurd hp List.not_mem_nil) (Nat.le_add_right _ _)
    fun _ hp => absurd hp List.not_mem_nil

theorem sound_none (activities : List Json) : SoundMemo activities (fun _ => none) := fun _ _ h => by cases h

theorem unmemoised_spec (activities : List Json) (i : ℕ) :
    ∃ b, unmemoised activities i = some b ∧ (b = true ↔ FromGpx activities i) := by
  obtain ⟨c, hc, hright⟩ := climb_query (sound_none activities) i
  exact ⟨c.answer, by rw [unmemoised, hc]; rfl, hright.next.trans nextGpx_some⟩

theorem askAll_eq (hknown : SoundMemo activities known) (queries : List ℕ) :
    askAll activities known queries = queries.mapM (unmemoised activities) := by
  induction queries generalizing known with
  | nil => rfl
  | cons i queries ih =>
    obtain ⟨c, hc, hright⟩ := climb_query hknown i
    obtain ⟨b, hb, hspec⟩ := unmemoised_spec activities i
    have hanswer : c.answer = b := Bool.eq_iff_iff.mpr ((hright.next.trans nextGpx_some).trans hspec.symm)
    rw [List.mapM_cons, hb, askAll, appMeasuredMemo, hc, Option.map_some]
    simp only [Option.bind_eq_bind, Option.bind_some]
    rw [ih (hright.keep hknown), hanswer]
    rfl

/-- An activity with the id, in a list, as `appMeasured` looks for it. -/
def withId (parent : ℤ) : Json → Option Obj
  | .obj act =>
    match Obj.get act "id" with
    | some (.num (.int x)) => if x = parent then some act else none
    | _ => none
  | _ => none

theorem withId_obj (parent : ℤ) (act : Obj) :
    withId parent (.obj act) = if asInt (act.get "id") = some parent then some act else none := by
  have hid : ∀ v : Option Json, (match v with
      | some (.num (.int x)) => if x = parent then some act else none
      | _ => none) = if asInt v = some parent then some act else none := by
    intro v
    cases v with
    | none => rfl
    | some v =>
      cases v with
      | num n =>
        cases n with
        | int x => simp [asInt]
        | float d => rfl
      | _ => rfl
  exact hid (act.get "id")

theorem withId_eq (activities : List Json) (parent : ℤ) :
    activities.reverse.findSome? (withId parent) = (byId activities parent).bind (activityAt activities) := by
  have hlist : activities.map some = (List.range activities.length).map (activities[·]?) := by
    refine List.ext_getElem (by simp) fun n h1 h2 => ?_
    simp only [List.getElem_map, List.getElem_range]
    exact (List.getElem?_eq_getElem _).symm
  have hsome : activities.reverse.findSome? (withId parent) =
      (activities.map some).reverse.findSome? (·.bind (withId parent)) := by
    rw [← List.map_reverse, List.findSome?_map]
    rfl
  have hone : ∀ i, activities[i]?.bind (withId parent) =
      if (activityAt activities i).bind (fun act => asInt (act.get "id")) = some parent then activityAt activities i
      else none := by
    intro i
    unfold activityAt
    cases activities[i]? with
    | none => rfl
    | some a =>
      cases a with
      | obj act => exact withId_obj parent act
      | _ => rfl
  rw [hsome, hlist, ← List.map_reverse, List.findSome?_map, byId]
  induction (List.range activities.length).reverse with
  | nil => rfl
  | cons i rest ih =>
    rw [List.findSome?_cons, List.find?_cons, Function.comp_apply, hone, ih]
    by_cases hid : (activityAt activities i).bind (fun act => asInt (act.get "id")) = some parent
    case pos =>
      obtain ⟨act, hact, -⟩ := Option.bind_eq_some_iff.mp hid
      rw [if_pos hid, decide_eq_true hid, hact]
      exact hact.symm
    case neg => rw [if_neg hid, decide_eq_false hid]

theorem appMeasured_succ (activities : List Json) (fuel : ℕ) (act : Obj) : appMeasured activities (fuel + 1) act =
    match sourceOf act with
    | some source => isGpx source
    | none => ((parentOf activities act).bind (activityAt activities)).any (appMeasured activities fuel) := by
  have hparent : ∀ v : Option Json, (match v with
      | some (.num (.int parent)) => (activities.reverse.findSome? (withId parent)).any (appMeasured activities fuel)
      | _ => false) = (((asInt v).bind (byId activities)).bind (activityAt activities)).any (appMeasured activities fuel) := by
    intro v
    cases v with
    | none => rfl
    | some v =>
      cases v with
      | num n =>
        cases n with
        | int parent => exact congrArg (Option.any _) (withId_eq activities parent)
        | float d => rfl
      | _ => rfl
  rw [appMeasured, sourceOf]
  cases act.get "source" with
  | none => exact hparent (act.get "split_parent_id")
  | some v =>
    cases v with
    | null => exact hparent (act.get "split_parent_id")
    | _ => rfl

theorem unmemoised_appMeasured (hact : activityAt activities i = some act) :
    unmemoised activities i = some (appMeasured activities (activities.length + 1) act) := by
  have hleft : ∀ {fuel : ℕ} {i : ℕ} {act : Obj}, activityAt activities i = some act →
      appMeasured activities fuel act = true → FromGpx activities i := by
    intro fuel
    induction fuel with
    | zero => exact fun _ h => by cases h
    | succ fuel ih =>
      intro i act hact h
      rw [appMeasured_succ] at h
      cases hsource : sourceOf act with
      | some source =>
        rw [hsource] at h
        exact .here hact hsource h
      | none =>
        rw [hsource] at h
        obtain ⟨parent, hnamed, hmeasured⟩ := (Option.any_eq_true _ _).mp h
        obtain ⟨j, hj, hparent⟩ := Option.bind_eq_some_iff.mp hnamed
        exact .up hact hsource hj (ih hparent hmeasured)
  have hright : ∀ {fuel : ℕ} {path : List ℕ} {i : ℕ} {act : Obj} {c : Climb}, activityAt activities i = some act →
      climb activities (fun _ => none) fuel path (some i) = some c → c.answer = true →
      appMeasured activities fuel act = true := by
    intro fuel
    induction fuel with
    | zero => exact fun _ h => by cases h
    | succ fuel ih =>
      intro path i act c hact h hanswer
      rw [climb, hact] at h
      dsimp only at h
      rw [appMeasured_succ]
      split at h
      · obtain rfl := Option.some.inj h
        cases hanswer
      · cases hsource : sourceOf act with
        | some source =>
          rw [hsource] at h
          obtain rfl := Option.some.inj h
          exact hanswer
        | none =>
          rw [hsource] at h
          dsimp only at h ⊢
          cases hj : parentOf activities act with
          | none =>
            rw [hj] at h
            cases fuel with
            | zero => cases h
            | succ fuel =>
              obtain rfl := Option.some.inj h
              cases hanswer
          | some j =>
            rw [hj] at h
            cases hparent : activityAt activities j with
            | none =>
              cases fuel with
              | zero => cases h
              | succ fuel =>
                rw [climb, hparent] at h
                obtain rfl := Option.some.inj h
                cases hanswer
            | some parent =>
              rw [Option.bind_some, hparent]
              exact ih hparent h hanswer
  obtain ⟨c, hc, hspec⟩ := climb_query (sound_none activities) i
  rw [unmemoised, hc, Option.map_some]
  refine congrArg some (Bool.eq_iff_iff.mpr ⟨hright hact hc, fun h => ?_⟩)
  exact hspec.next.mpr (nextGpx_some.mpr (hleft hact h))

end Answers

/-! ## 3. Every order of queries -/

/-- **The memo changes no answer**, of those that `normalise` reads. -/
theorem askAll_unmemoised (activities : List Json) (queries : List ℕ) :
    askAll activities (fun _ => none) queries = queries.mapM (unmemoised activities) ∧
      (∀ i, ∃ b, unmemoised activities i = some b ∧ (b = true ↔ FromGpx activities i)) ∧
      ∀ i act, activityAt activities i = some act →
        unmemoised activities i = some (appMeasured activities (activities.length + 1) act) :=
  ⟨askAll_eq (sound_none activities) queries, unmemoised_spec activities, fun _ _ => unmemoised_appMeasured⟩

end TraxJourney.Transfer
