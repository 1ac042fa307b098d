/-
  File:      Lib/JsonText.lean
  Subject:   The text that a document is written as, its keys sorted.

  * `same_list`, **`same_obj`** -- parts of documents written alike are written alike.
-/
import TraxJourney.Lib.Json

namespace TraxJourney.Lib

/-! ## 1. Written documents -/

def Text.codes : Text → List ℕ
  | .valid s => s.toList.map Char.toNat
  | .surrogate codes => codes

/-- A text does not come after another one. -/
def notAfter : List ℕ → List ℕ → Bool
  | [], _ => true
  | _ :: _, [] => false
  | c :: cs, d :: ds => if c = d then notAfter cs ds else decide (c < d)

inductive Token where
  | null
  | bool (b : Bool)
  | num (n : Number)
  | text (t : Text)
  | openList
  | openObj
  | close
deriving DecidableEq

mutual

/-- A document as it is written, the keys of every object sorted. -/
def Json.dumps : Json → List Token
  | .null => [.null]
  | .bool b => [.bool b]
  | .num n => [.num n]
  | .text t => [.text t]
  | .list xs => .openList :: (dumpsList xs ++ [.close])
  | .obj entries =>
    .openObj :: (((dumpsEntries entries).mergeSort fun e f => notAfter e.1.codes f.1.codes).flatMap
      (fun e => .text e.1 :: e.2) ++ [.close])

def dumpsList : List Json → List Token
  | [] => []
  | x :: xs => x.dumps ++ dumpsList xs

def dumpsEntries : List (Text × Json) → List (Text × List Token)
  | [] => []
  | (k, v) :: rest => (k, v.dumps) :: dumpsEntries rest

end

/-- Written alike. -/
def Json.same (v w : Json) : Bool := decide (v.dumps = w.dumps)

/-! ## 2. One way to read -/

/-- What follows the first value of some marks, with so many lists and objects open already. -/
def afterValue : ℕ → List Token → List Token
  | _, [] => []
  | depth, .openList :: rest => afterValue (depth + 1) rest
  | depth, .openObj :: rest => afterValue (depth + 1) rest
  | depth, .close :: rest => if depth ≤ 1 then rest else afterValue (depth - 1) rest
  | 0, _ :: rest => rest
  | depth + 1, _ :: rest => afterValue (depth + 1) rest

/-- Some marks that close what they open. -/
def Balanced (marks : List Token) : Prop :=
  ∀ depth rest, afterValue (depth + 1) (marks ++ rest) = afterValue (depth + 1) rest

theorem Balanced.nil : Balanced [] := fun _ _ => rfl

theorem Balanced.append {marks others : List Token} (h : Balanced marks) (hothers : Balanced others) :
    Balanced (marks ++ others) := fun depth rest => by
  rw [List.append_assoc, h, hothers]

theorem Balanced.flatMap {α : Type} {parts : List α} {marks : α → List Token}
    (h : ∀ x ∈ parts, Balanced (marks x)) : Balanced (parts.flatMap marks) := by
  induction parts with
  | nil => exact .nil
  | cons x parts ih =>
    rw [List.forall_mem_cons] at h
    exact h.1.append (ih h.2)

theorem Balanced.text (t : Text) {marks : List Token} (h : Balanced marks) :
    Balanced (.text t :: marks) := fun depth rest => h depth rest

theorem Balanced.enclosed {marks : List Token} (h : Balanced marks) (depth : ℕ) (rest : List Token) :
    afterValue (depth + 1) (marks ++ [.close] ++ rest) =
      if depth = 0 then rest else afterValue depth rest := by
  rw [List.append_assoc, h]
  cases depth with
  | zero => rfl
  | succ depth => rfl

/-- The entries of an object, sorted as they are written. -/
def sortedEntries (entries : List (Text × Json)) : List (Text × List Token) :=
  (dumpsEntries entries).mergeSort fun e f => notAfter e.1.codes f.1.codes

theorem dumps_obj (entries : List (Text × Json)) : (Json.obj entries).dumps =
    .openObj :: ((sortedEntries entries).flatMap (fun e => .text e.1 :: e.2) ++ [.close]) := by
  rw [Json.dumps, sortedEntries]

theorem dumpsEntries_eq (entries : List (Text × Json)) :
    dumpsEntries entries = entries.map fun e => (e.1, e.2.dumps) := by
  induction entries with
  | nil => rfl
  | cons e rest ih =>
    obtain ⟨k, v⟩ := e
    rw [dumpsEntries, ih, List.map_cons]

theorem mem_sortedEntries {entries : List (Text × Json)} {e : Text × List Token} :
    e ∈ sortedEntries entries ↔ ∃ v, (e.1, v) ∈ entries ∧ v.dumps = e.2 := by
  unfold sortedEntries
  rw [List.mem_mergeSort, dumpsEntries_eq, List.mem_map]
  constructor
  · rintro ⟨⟨k, v⟩, hmem, rfl⟩
    exact ⟨v, hmem, rfl⟩
  · rintro ⟨v, hmem, hdumps⟩
    exact ⟨(e.1, v), hmem, by rw [hdumps]⟩

mutual

theorem balanced_dumps : ∀ v : Json, Balanced v.dumps
  | .null => fun _ _ => rfl
  | .bool _ => fun _ _ => rfl
  | .num _ => fun _ _ => rfl
  | .text _ => fun _ _ => rfl
  | .list xs => fun depth rest => by
      rw [Json.dumps, List.cons_append, afterValue, (balanced_list xs).enclosed, if_neg (by omega)]
  | .obj entries => fun depth rest => by
      have hparts : Balanced ((sortedEntries entries).flatMap fun e => .text e.1 :: e.2) := by
        refine .flatMap fun e he => .text e.1 ?_
        obtain ⟨v, hv, hdumps⟩ := mem_sortedEntries.mp he
        rw [← hdumps]
        exact balanced_entries entries (e.1, v) hv
      rw [dumps_obj, List.cons_append, afterValue, hparts.enclosed, if_neg (by omega)]

theorem balanced_list : ∀ xs, Balanced (dumpsList xs)
  | [] => .nil
  | x :: xs => (balanced_dumps x).append (balanced_list xs)

theorem balanced_entries : ∀ (entries : List (Text × Json)), ∀ e ∈ entries, Balanced e.2.dumps
  | [], _, h => nomatch h
  | (k, v) :: rest, e, h => by
      rcases List.mem_cons.mp h with rfl | hrest
      · exact balanced_dumps v
      · exact balanced_entries rest e hrest

end

theorem afterValue_dumps (v : Json) (rest : List Token) : afterValue 0 (v.dumps ++ rest) = rest := by
  cases v with
  | list xs => rw [Json.dumps, List.cons_append, afterValue, (balanced_list xs).enclosed, if_pos rfl]
  | obj entries =>
    have hparts : Balanced ((sortedEntries entries).flatMap fun e => .text e.1 :: e.2) := by
      refine .flatMap fun e he => .text e.1 ?_
      obtain ⟨v, hv, hdumps⟩ := mem_sortedEntries.mp he
      rw [← hdumps]
      exact balanced_dumps v
    rw [dumps_obj, List.cons_append, afterValue, hparts.enclosed, if_pos rfl]
  | _ => rfl

variable {v w : Json} {rest rest' : List Token}

theorem dumps_unique (h : v.dumps ++ rest = w.dumps ++ rest') :
    v.dumps = w.dumps ∧ rest = rest' := by
  have hrest : rest = rest' := by rw [← afterValue_dumps v rest, h, afterValue_dumps]
  subst hrest
  exact ⟨List.append_cancel_right h, rfl⟩

theorem dumps_ne_close (v : Json) (rest marks : List Token) : v.dumps ++ rest ≠ .close :: marks := by
  cases v <;> simp [Json.dumps]

/-! ## 3. Parts -/

variable {xs ys : List Json}

theorem dumpsList_unique (h : dumpsList xs ++ .close :: rest = dumpsList ys ++ .close :: rest') :
    xs.map (·.dumps) = ys.map (·.dumps) := by
  induction xs generalizing ys with
  | nil =>
    cases ys with
    | nil => rfl
    | cons y ys =>
      rw [dumpsList, dumpsList, List.append_assoc] at h
      exact absurd h.symm (dumps_ne_close y _ _)
  | cons x xs ih =>
    cases ys with
    | nil =>
      rw [dumpsList, dumpsList, List.append_assoc] at h
      exact absurd h (dumps_ne_close x _ _)
    | cons y ys =>
      rw [dumpsList, dumpsList, List.append_assoc, List.append_assoc] at h
      obtain ⟨hhead, htail⟩ := dumps_unique h
      rw [List.map_cons, List.map_cons, hhead, ih htail]

theorem eq_of_same (h : v.dumps = w.dumps) (hlist : ∀ xs, v ≠ .list xs) (hobj : ∀ entries, v ≠ .obj entries) :
    w = v := by
  cases v with
  | list xs => exact absurd rfl (hlist xs)
  | obj entries => exact absurd rfl (hobj entries)
  | _ => cases w <;> simp_all [Json.dumps]

theorem list_of_same (h : (Json.list xs).dumps = w.dumps) :
    ∃ ys, w = .list ys := by
  cases w with
  | list ys => exact ⟨ys, rfl⟩
  | _ => simp [Json.dumps] at h

variable {es : List (Text × Json)}

theorem obj_of_same (h : (Json.obj es).dumps = w.dumps) :
    ∃ fs, w = .obj fs := by
  cases w with
  | obj fs => exact ⟨fs, rfl⟩
  | _ => simp [Json.dumps] at h

theorem same_list (h : (Json.list xs).dumps = (Json.list ys).dumps) :
    xs.map (·.dumps) = ys.map (·.dumps) := by
  rw [Json.dumps, Json.dumps] at h
  exact dumpsList_unique (List.cons.inj h).2

def Written (entries : List (Text × List Token)) : Prop := ∀ e ∈ entries, ∃ v : Json, v.dumps = e.2

theorem written_sorted (entries : List (Text × Json)) : Written (sortedEntries entries) := by
  intro e he
  obtain ⟨v, -, hv⟩ := mem_sortedEntries.mp he
  exact ⟨v, hv⟩

theorem entries_unique {es fs : List (Text × List Token)} (hes : Written es) (hfs : Written fs)
    (h : es.flatMap (fun e => .text e.1 :: e.2) ++ .close :: rest =
      fs.flatMap (fun e => .text e.1 :: e.2) ++ .close :: rest') : es = fs := by
  induction es generalizing fs with
  | nil =>
    cases fs with
    | nil => rfl
    | cons f fs => cases h
  | cons e es ih =>
    cases fs with
    | nil => cases h
    | cons f fs =>
      obtain ⟨k, marks⟩ := e
      obtain ⟨k', marks'⟩ := f
      obtain ⟨⟨v, hv⟩, hes'⟩ := List.forall_mem_cons.mp hes
      obtain ⟨⟨w, hw⟩, hfs'⟩ := List.forall_mem_cons.mp hfs
      obtain rfl : v.dumps = marks := hv
      obtain rfl : w.dumps = marks' := hw
      rw [List.flatMap_cons, List.flatMap_cons, List.append_assoc, List.append_assoc,
        List.cons_append, List.cons_append] at h
      obtain ⟨hkey, hmarks⟩ := List.cons.inj h
      obtain ⟨hvalue, htail⟩ := dumps_unique hmarks
      obtain rfl : k = k' := Token.text.inj hkey
      rw [hvalue, ih hes' hfs' htail]

variable {fs : List (Text × Json)}

theorem sorted_of_same (h : (Json.obj es).dumps = (Json.obj fs).dumps) :
    sortedEntries es = sortedEntries fs := by
  rw [dumps_obj, dumps_obj] at h
  exact entries_unique (written_sorted es) (written_sorted fs) (List.cons.inj h).2

theorem same_obj (h : (Json.obj es).dumps = (Json.obj fs).dumps) {k : Text} (hv : (k, v) ∈ es) :
    ∃ w, (k, w) ∈ fs ∧ w.dumps = v.dumps := by
  have hsorted : (k, v.dumps) ∈ sortedEntries fs := sorted_of_same h ▸ mem_sortedEntries.mpr ⟨v, hv, rfl⟩
  exact mem_sortedEntries.mp hsorted

theorem notAfter_trans {a b c : List ℕ} (hab : notAfter a b = true) (hbc : notAfter b c = true) :
    notAfter a c = true := by
  induction a generalizing b c with
  | nil => rfl
  | cons x xs ih =>
    cases b with
    | nil => cases hab
    | cons y ys =>
      cases c with
      | nil => cases hbc
      | cons z zs =>
        unfold notAfter at hab hbc ⊢
        split at hab
        case isTrue hxy =>
          subst hxy
          split at hbc
          case isTrue hxz => exact (if_pos hxz).trans (ih hab hbc)
          case isFalse hxz => exact (if_neg hxz).trans hbc
        case isFalse hxy =>
          have hlt : x < y := of_decide_eq_true hab
          split at hbc
          case isTrue hyz => exact (if_neg (by omega)).trans (decide_eq_true (by omega))
          case isFalse hyz =>
            have hlt' : y < z := of_decide_eq_true hbc
            exact (if_neg (by omega)).trans (decide_eq_true (by omega))

theorem notAfter_total (a b : List ℕ) : (notAfter a b || notAfter b a) = true := by
  induction a generalizing b with
  | nil => simp [notAfter]
  | cons x xs ih =>
    cases b with
    | nil => simp [notAfter]
    | cons y ys =>
      unfold notAfter
      by_cases hxy : x = y
      · rw [if_pos hxy, if_pos hxy.symm]
        exact ih ys
      · rw [if_neg hxy, if_neg (Ne.symm hxy), Bool.or_eq_true, decide_eq_true_iff, decide_eq_true_iff]
        omega

theorem filter_sortedEntries (entries : List (Text × Json)) (key : String) :
    (sortedEntries entries).filter (fun e => decide (e.1 = .valid key)) =
      (dumpsEntries entries).filter fun e => decide (e.1 = .valid key) := by
  unfold sortedEntries
  have hperm := (List.mergeSort_perm (dumpsEntries entries)
    fun e f => notAfter e.1.codes f.1.codes).filter fun e => decide (e.1 = Text.valid key)
  have hordered : ((dumpsEntries entries).filter fun e => decide (e.1 = .valid key)).Pairwise
      fun e f => notAfter e.1.codes f.1.codes = true := by
    refine List.pairwise_of_forall_mem_list fun e he f hf => ?_
    have hsame : f.1 = e.1 := by
      rw [of_decide_eq_true (List.mem_filter.mp he).2, of_decide_eq_true (List.mem_filter.mp hf).2]
    have htotal := notAfter_total e.1.codes e.1.codes
    rw [Bool.or_self] at htotal
    rw [hsame]
    exact htotal
  have htrans : ∀ e f g : Text × List Token, notAfter e.1.codes f.1.codes = true →
      notAfter f.1.codes g.1.codes = true → notAfter e.1.codes g.1.codes = true :=
    fun _ _ _ => notAfter_trans
  have hsub : ((dumpsEntries entries).filter fun e => decide (e.1 = .valid key)).Sublist
      ((dumpsEntries entries).mergeSort fun e f => notAfter e.1.codes f.1.codes) :=
    List.sublist_mergeSort htrans (fun e f => notAfter_total e.1.codes f.1.codes) hordered
      List.filter_sublist
  have hfiltered := hsub.filter fun e => decide (e.1 = Text.valid key)
  rw [List.filter_filter] at hfiltered
  simp only [Bool.and_self] at hfiltered
  exact (hfiltered.eq_of_length hperm.length_eq.symm).symm

theorem get_sorted (entries : List (Text × Json)) (key : String) : (Obj.get entries key).map (·.dumps) =
      (((sortedEntries entries).filter fun e => decide (e.1 = .valid key)).head?).map (·.2) := by
  rw [filter_sortedEntries, List.head?_filter, dumpsEntries_eq, List.find?_map]
  unfold Obj.get
  rw [Option.map_map, Option.map_map]
  rfl

/-- **Objects written alike**, read under a key. -/
theorem same_get (h : (Json.obj es).dumps = (Json.obj fs).dumps) (key : String) :
    (Obj.get es key).map (·.dumps) = (Obj.get fs key).map (·.dumps) := by
  rw [get_sorted, get_sorted, sorted_of_same h]

end TraxJourney.Lib
