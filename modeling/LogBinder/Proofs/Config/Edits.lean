/-
  Log binder — values in memory as a history of edits.

  Values in memory are set and removed by whoever holds the source.  What is
  there in the end is read off the edits: the paths whose last edit sets them,
  each with the value of that edit, in the place and the spelling of the edit
  that inserted it for good.

  * `Memory.Edit`, `Memory.edited` : edits, and values after a run of them;
  * `Memory.last?`, `Memory.inserted` : what a history says of a path, and
    which edits insert a path for good;
  * `Memory.Updates` : what one more edit does to values whose paths differ;
  * `Memory.Reflects` : values are what a history says (`Reflects.concat`: one
    more edit keeps this);
  * `Root.load_of_edits` : a source in memory after any edits.
-/
import LogBinder.Config.Root
import Mathlib.Data.List.Induction

namespace LogBinder

namespace Memory

/-! ## Edits -/

/-- A change to values in memory. -/
inductive Edit where
  | set (path value : String)
  | remove (path : String)

namespace Edit

/-- The path that is changed. -/
def path : Edit → String
  | set path _ | remove path => path

/-- The value that is set, unless the path is removed. -/
def value? : Edit → Option String
  | set _ value => some value
  | remove _ => none

/-- Carries an edit out. -/
def apply : Edit → Memory → Memory
  | set path value, m => m.set path value
  | remove path, m => m.remove path

/-- Whether an edit removes a path. -/
def removes (e : Edit) (path : String) : Bool :=
  e.value?.isNone && Text.alike e.path path

end Edit

/-- Values after some edits. -/
def edited (m : Memory) (es : List Edit) : Memory :=
  es.foldl (fun m e => e.apply m) m

/-- The value that a path was set to last, unless it was removed after that. -/
def last? (es : List Edit) (path : String) : Option String :=
  (es.filter fun e => Text.alike e.path path).getLast?.bind Edit.value?

/-- Whether an edit inserts its path for good, between other edits: it sets the path, which is not
there, and none after it removes the path. -/
def Edit.inserts (e : Edit) (before after : List Edit) : Bool :=
  e.value?.isSome && (last? before e.path).isNone && after.all fun d => !d.removes e.path

/-- The paths that edits insert for good, after some that came before. -/
def inserted (before : List Edit) : List Edit → List String
  | [] => []
  | e :: after =>
    (if e.inserts before after then [e.path] else []) ++ inserted (before ++ [e]) after

variable {m : Memory} {es before : List Edit} {path value : String}

theorem last?_concat (es : List Edit) (e : Edit) (path : String) :
    last? (es ++ [e]) path = if Text.alike e.path path then e.value? else last? es path := by
  cases h : Text.alike e.path path <;> simp [last?, h]

/-- One more edit takes out what it removes, and inserts what it sets unless it is there. -/
theorem inserted_concat (before es : List Edit) (e : Edit) :
    inserted before (es ++ [e]) =
      (inserted before es).filter (fun k => !e.removes k) ++
        if e.inserts (before ++ es) [] then [e.path] else [] := by
  induction es generalizing before with
  | nil => simp [inserted]
  | cons d rest ih =>
    have hstays : d.inserts before (rest ++ [e]) =
        (d.inserts before rest && !e.removes d.path) := by
      simp [Edit.inserts, Bool.and_assoc]
    rw [List.cons_append, inserted, ih, inserted, List.filter_append, List.append_assoc,
      List.append_assoc, List.singleton_append, hstays]
    congr 1
    cases hd : e.removes d.path <;> cases d.inserts before rest <;> simp [hd]

/-! ## One more edit -/

/-- What edits do to values. -/
structure Updates (m : Memory) : Prop where
  /-- A path that is there is so in one place and spelling; a value set for it keeps both, and
  removing the path takes that place out. -/
  present : ∀ path, m.has path = true → ∃ front key old back,
    m = front ++ (key, old) :: back ∧ Text.alike key path = true ∧
      (∀ value, m.set path value = front ++ (key, value) :: back) ∧ m.remove path = front ++ back
  absent : ∀ path, m.has path = false →
    (∀ value, m.set path value = m ++ [(path, value)]) ∧ m.remove path = m
  fewer : ∀ path, m.has path = true ↔ (m.remove path).length ≠ m.length
  again : ∀ path value, (m.remove path).set path value = m.remove path ++ [(path, value)]

/-- Whether no two paths are alike. -/
def IsDistinct (m : Memory) : Prop :=
  (m.map (·.1)).Pairwise fun a b => Text.alike a b = false

theorem has_eq_false_iff : m.has path = false ↔ ∀ e ∈ m, Text.alike e.1 path = false := by
  simp [has]

theorem set_of_not_has (h : m.has path = false) (value : String) :
    m.set path value = m ++ [(path, value)] := by
  induction m with
  | nil => rfl
  | cons e rest ih =>
    rw [has_eq_false_iff, List.forall_mem_cons] at h
    rw [set, h.1, ih (has_eq_false_iff.2 h.2)]
    rfl

theorem remove_of_not_has (h : m.has path = false) : m.remove path = m := by
  rw [has_eq_false_iff] at h
  exact List.filter_eq_self.2 fun e he => by rw [h e he]; rfl

theorem has_cons (e : String × String) (m : Memory) (path : String) :
    has path (e :: m) = (Text.alike e.1 path || m.has path) := rfl

theorem has_set (m : Memory) (path value q : String) :
    (m.set path value).has q = (Text.alike path q || m.has q) := by
  induction m with
  | nil => simp [set, has]
  | cons e rest ih =>
    rw [set, has_cons]
    split
    · next h => rw [has_cons, Text.alike_congr_left h, ← Bool.or_assoc, Bool.or_self]
    · rw [has_cons, ih, Bool.or_left_comm]

theorem has_remove (m : Memory) (path q : String) :
    (m.remove path).has q = (!Text.alike path q && m.has q) := by
  induction m with
  | nil => simp [remove, has]
  | cons e rest ih =>
    rw [remove] at ih
    rw [remove, List.filter_cons, has_cons]
    cases he : Text.alike e.1 path with
    | true =>
      rw [Text.alike_congr_left he]
      cases hq : Text.alike path q <;> simp [ih, hq]
    | false =>
      have hpath : Text.alike path q = true → Text.alike e.1 q = false := fun hq => by
        rw [← Text.alike_congr_right hq, he]
      cases hq : Text.alike path q <;> simp_all [has_cons]

/-- A path that is there is so in one place. -/
theorem exists_split (hm : m.IsDistinct) (h : m.has path = true) :
    ∃ front key old back, m = front ++ (key, old) :: back ∧ Text.alike key path = true ∧
      has path front = false ∧ has path back = false := by
  obtain ⟨⟨key, old⟩, hmem, hkey⟩ := List.any_eq_true.1 h
  obtain ⟨front, back, rfl⟩ := List.append_of_mem hmem
  rw [IsDistinct, List.map_append, List.map_cons, List.pairwise_append, List.pairwise_cons] at hm
  obtain ⟨-, ⟨hback, -⟩, hfront⟩ := hm
  refine ⟨front, key, old, back, rfl, hkey, ?_, ?_⟩
  · rw [has_eq_false_iff]
    intro e he
    rw [← Text.alike_congr_right hkey]
    exact hfront _ (List.mem_map_of_mem he) _ (List.mem_cons_self ..)
  · rw [has_eq_false_iff]
    intro e he
    rw [Text.alike_comm, ← Text.alike_congr_left hkey]
    exact hback _ (List.mem_map_of_mem he)

variable {front back : Memory} {key old : String}

theorem set_split (hkey : Text.alike key path = true) (hfront : front.has path = false)
    (value : String) :
    set path value (front ++ (key, old) :: back) = front ++ (key, value) :: back := by
  induction front with
  | nil => rw [List.nil_append, set, if_pos hkey, List.nil_append]
  | cons e rest ih =>
    rw [has_eq_false_iff, List.forall_mem_cons] at hfront
    rw [List.cons_append, set, hfront.1, ih (has_eq_false_iff.2 hfront.2)]
    rfl

theorem remove_split (hkey : Text.alike key path = true) (hfront : front.has path = false)
    (hback : back.has path = false) :
    remove path (front ++ (key, old) :: back) = front ++ back := by
  rw [remove, List.filter_append, List.filter_cons_of_neg (by simp [hkey]), ← remove, ← remove,
    remove_of_not_has hfront, remove_of_not_has hback]

theorem IsDistinct.length_remove (hm : m.IsDistinct) (path : String) :
    m.has path = true ↔ (m.remove path).length ≠ m.length := by
  cases h : m.has path with
  | true =>
    obtain ⟨front, key, old, back, rfl, hkey, hfront, hback⟩ := exists_split hm h
    simp [remove_split hkey hfront hback]
  | false => simp [remove_of_not_has h]

theorem IsDistinct.updates (hm : m.IsDistinct) : m.Updates where
  present path h := by
    obtain ⟨front, key, old, back, rfl, hkey, hfront, hback⟩ := exists_split hm h
    exact ⟨front, key, old, back, rfl, hkey, set_split hkey hfront,
      remove_split hkey hfront hback⟩
  absent path h := ⟨set_of_not_has h, remove_of_not_has h⟩
  fewer := hm.length_remove
  again path := set_of_not_has (by rw [has_remove, Text.alike_refl]; rfl)

theorem map_set (hm : m.IsDistinct) (path value : String) :
    (m.set path value).map (·.1) =
      if m.has path then m.map (·.1) else m.map (·.1) ++ [path] := by
  cases h : m.has path with
  | true =>
    obtain ⟨front, key, old, back, rfl, -, hset, -⟩ := hm.updates.present path h
    simp [hset]
  | false => simp [set_of_not_has h]

theorem map_remove (m : Memory) (path : String) :
    (m.remove path).map (·.1) = (m.map (·.1)).filter fun k => !Text.alike k path := by
  rw [List.filter_map, remove]
  rfl

theorem IsDistinct.set (hm : m.IsDistinct) (path value : String) :
    (m.set path value).IsDistinct := by
  rw [IsDistinct, map_set hm]
  split
  · exact hm
  · next h =>
    rw [Bool.not_eq_true, has_eq_false_iff] at h
    refine List.pairwise_append.2 ⟨hm, List.pairwise_singleton .., fun k hk l hl => ?_⟩
    obtain ⟨e, he, rfl⟩ := List.mem_map.1 hk
    rw [List.mem_singleton.1 hl, h e he]

theorem IsDistinct.remove (hm : m.IsDistinct) (path : String) : (m.remove path).IsDistinct := by
  rw [IsDistinct, map_remove]
  exact hm.filter _

/-- What is there after a path was set is the path with the value, or was there before. -/
theorem mem_set (hm : m.IsDistinct) {e : String × String} (he : e ∈ m.set path value) :
    Text.alike e.1 path = true ∧ e.2 = value ∨ Text.alike e.1 path = false ∧ e ∈ m := by
  cases h : m.has path with
  | true =>
    obtain ⟨front, key, old, back, rfl, hkey, hfront, hback⟩ := exists_split hm h
    rw [set_split hkey hfront] at he
    rw [has_eq_false_iff] at hfront hback
    rcases List.mem_append.1 he with he | he
    · exact .inr ⟨hfront e he, List.mem_append_left _ he⟩
    rcases List.mem_cons.1 he with rfl | he
    · exact .inl ⟨hkey, rfl⟩
    · exact .inr ⟨hback e he, List.mem_append_right _ (List.mem_cons_of_mem _ he)⟩
  | false =>
    rw [set_of_not_has h] at he
    rcases List.mem_append.1 he with he | he
    · exact .inr ⟨has_eq_false_iff.1 h e he, he⟩
    · rw [List.mem_singleton.1 he]
      exact .inl ⟨Text.alike_refl _, rfl⟩

/-! ## Histories -/

/-- Values are what a history of edits says. -/
structure Reflects (es : List Edit) (m : Memory) : Prop where
  distinct : m.IsDistinct
  /-- The paths are those that were inserted for good, in that order and spelling. -/
  paths : m.map (·.1) = inserted [] es
  values : ∀ e ∈ m, last? es e.1 = some e.2
  present : ∀ path, m.has path = (last? es path).isSome

theorem Reflects.set (h : Reflects es m) (path value : String) :
    Reflects (es ++ [.set path value]) (m.set path value) where
  distinct := h.distinct.set path value
  paths := by
    have hstay : (inserted [] es).filter (fun k => !(Edit.set path value).removes k) =
        inserted [] es := List.filter_eq_self.2 fun k _ => rfl
    have hnew : (Edit.set path value).inserts es [] = !m.has path := by
      simp [Edit.inserts, Edit.value?, Edit.path, h.present]
    rw [inserted_concat, hstay, List.nil_append, hnew, map_set h.distinct, h.paths]
    cases m.has path <;> simp [Edit.path]
  values e he := by
    rw [last?_concat, Edit.path, Text.alike_comm]
    rcases mem_set h.distinct he with ⟨halike, hvalue⟩ | ⟨halike, hmem⟩
    · rw [if_pos halike, hvalue]
      rfl
    · rw [halike, h.values e hmem]
      rfl
  present q := by
    rw [has_set, last?_concat, Edit.path, h.present]
    cases Text.alike path q <;> simp [Edit.value?]

theorem Reflects.remove (h : Reflects es m) (path : String) :
    Reflects (es ++ [.remove path]) (m.remove path) where
  distinct := h.distinct.remove path
  paths := by
    have hgone : (fun k => !(Edit.remove path).removes k) = fun k => !Text.alike k path := by
      funext k
      simp [Edit.removes, Edit.value?, Edit.path, Text.alike_comm path]
    have hnew : (Edit.remove path).inserts es [] = false := rfl
    rw [inserted_concat, hgone, List.nil_append, hnew, map_remove, h.paths]
    simp
  values e he := by
    obtain ⟨hmem, halike⟩ := List.mem_filter.1 he
    rw [Bool.not_eq_true'] at halike
    rw [last?_concat, Edit.path, Text.alike_comm, halike, h.values e hmem]
    rfl
  present q := by
    rw [has_remove, last?_concat, Edit.path, h.present]
    cases Text.alike path q <;> simp [Edit.value?]

/-- Values that are what a history says stay so with one more edit. -/
theorem Reflects.concat (h : Reflects es m) (e : Edit) : Reflects (es ++ [e]) (e.apply m) := by
  cases e with
  | set path value => exact h.set path value
  | remove path => exact h.remove path

theorem reflects_nil : Reflects [] [] where
  distinct := .nil
  paths := rfl
  values _ he := by cases he
  present _ := rfl

theorem Reflects.append (h : Reflects before m) (es : List Edit) :
    Reflects (before ++ es) (edited m es) := by
  induction es using List.reverseRecOn with
  | nil => simpa [edited] using h
  | append_singleton es e ih =>
    rw [← List.append_assoc, edited, List.foldl_append, ← edited]
    exact ih.concat e

/-- Values that are given at first are set one after the other. -/
theorem ofList_eq (entries : List (String × String)) :
    ofList entries = edited [] (entries.map fun e => .set e.1 e.2) := by
  rw [edited, List.foldl_map]
  rfl

end Memory

/-! ## Sources in memory -/

namespace Root

open Memory (Edit edited Reflects Updates)

variable {ω : Type} {r : Root ω} {index : Nat} {name : String} {m : Memory}

/-- Carries an edit out at the source that stands at an index. -/
def edit (r : Root ω) (index : Nat) (e : Edit) : Root ω :=
  r.alterMemory index e.apply

/-- Carries edits out one after the other, each at the source of an index. -/
def editAll (r : Root ω) (acts : List (Nat × Edit)) : Root ω :=
  acts.foldl (fun r a => r.edit a.1 a.2) r

/-- The edits at one source. -/
def editsAt (index : Nat) (acts : List (Nat × Edit)) : List Edit :=
  (acts.filter fun a => a.1 = index).map (·.2)

theorem editsAt_cons (a : Nat × Edit) (rest : List (Nat × Edit)) :
    editsAt index (a :: rest) =
      if a.1 = index then a.2 :: editsAt index rest else editsAt index rest := by
  by_cases ha : a.1 = index <;> simp [editsAt, ha]

theorem sources_edit (h : r.sources[index]? = some (.memory name m)) (i : Nat) (e : Edit) :
    (r.edit i e).sources[index]? = some (.memory name (if i = index then e.apply m else m)) := by
  rw [edit, alterMemory, List.getElem?_modify, h]
  split <;> rfl

/-- Edits at other sources do not count. -/
theorem sources_editAll (h : r.sources[index]? = some (.memory name m))
    (acts : List (Nat × Edit)) :
    (r.editAll acts).sources[index]? = some (.memory name (edited m (editsAt index acts))) := by
  induction acts generalizing r m with
  | nil => exact h
  | cons a rest ih =>
    rw [editAll, List.foldl_cons, ← editAll, ih (sources_edit h a.1 a.2), editsAt_cons]
    split <;> rfl

/-- **A source in memory is an ordered map** up to case, whatever edits are carried out at the
sources of a root: its values are what the history of its own edits says, one more edit acts on one
place or on the end, and the entries are the values in their order. -/
theorem load_of_edits {entries : List (String × String)}
    (h : r.sources[index]? = some (.memory name (.ofList entries))) (acts : List (Nat × Edit)) :
    (r.editAll acts).sources[index]? =
        some (.memory name ((r.editAll acts).memory index)) ∧
      Reflects (entries.map (fun e => .set e.1 e.2) ++ editsAt index acts)
        ((r.editAll acts).memory index) ∧
      Updates ((r.editAll acts).memory index) ∧
      ∀ host, Source.load host (.memory name ((r.editAll acts).memory index)) =
        .ok (((r.editAll acts).memory index).map fun e => ⟨e.1, some e.2⟩) := by
  have hsource := sources_editAll h acts
  have hmemory : (r.editAll acts).memory index =
      edited (.ofList entries) (editsAt index acts) := by rw [memory, hsource]
  have hreflects : Reflects (entries.map (fun e => .set e.1 e.2) ++ editsAt index acts)
      ((r.editAll acts).memory index) := by
    have hgiven := Memory.reflects_nil.append (entries.map fun e => .set e.1 e.2)
    rw [← Memory.ofList_eq, List.nil_append] at hgiven
    rw [hmemory]
    exact hgiven.append _
  exact ⟨hmemory ▸ hsource, hreflects, hreflects.distinct.updates, fun _ => rfl⟩

end Root

namespace Sample

open Memory (Edit Reflects)

/-- A root with a source in memory after another one. -/
def storedRoot : Root Unit :=
  { Root.empty with
    sources :=
      [.memory "defaults" [("A", "0")], .memory "memory" (.ofList [("A", "1"), ("b", "2")])] }

/-- Edits at both sources; a path that is there gets a value, another is removed and set again. -/
def interleavedActs : List (Nat × Edit) :=
  [(1, .set "a" "3"), (0, .remove "A"), (1, .remove "B"), (1, .set "c" "4"), (1, .set "B" "5")]

theorem load_of_edits_interleaved :
    storedRoot.sources[1]? = some (.memory "memory" (.ofList [("A", "1"), ("b", "2")])) ∧
      Reflects [.set "A" "1", .set "b" "2", .set "a" "3", .remove "B", .set "c" "4", .set "B" "5"]
        [("A", "3"), ("c", "4"), ("B", "5")] := by
  have hsource : storedRoot.sources[1]? =
      some (.memory "memory" (.ofList [("A", "1"), ("b", "2")])) := rfl
  have hload := Root.load_of_edits hsource interleavedActs
  exact ⟨hsource, hload.2.1⟩

end Sample

end LogBinder
