/-
  Log binder — the merged tree as a reading of its entries.

  A history lists, in order, the keys that entries lead down and the scalars
  that they put there.  What a history says of a place needs no tree: its
  scalar is the last one put exactly there, and its keys are the next keys of
  what lies below, each in its first spelling.

  * `Tree.grown` merges a history into a tree, and `grown_children` says that
    the subtrees of the result are grown in turn, from what lies below a key;
  * `descend_ofEntries` : the merged tree is that reading of its entries.
-/
import LogBinder.Config.Tree
import Mathlib.Data.List.Basic
import Mathlib.Data.List.Induction

namespace LogBinder

/-! ## Keys up to case -/

namespace Text

/-- The texts without those that are alike an earlier one. -/
def distinct : List String → List String
  | [] => []
  | k :: rest => k :: (distinct rest).filter fun l => !alike l k

theorem mem_distinct_of_mem {k : String} {ks : List String} (h : k ∈ ks) :
    ∃ l ∈ distinct ks, alike l k = true := by
  induction ks with
  | nil => cases h
  | cons a rest ih =>
    by_cases hak : alike a k = true
    · exact ⟨a, by simp [distinct], hak⟩
    · rcases List.mem_cons.1 h with rfl | h
      · exact absurd (alike_refl _) hak
      obtain ⟨l, hl, hlk⟩ := ih h
      refine ⟨l, ?_, hlk⟩
      have hla : alike l a = false := by
        refine Bool.eq_false_iff.2 fun hla => hak ?_
        exact alike_trans (alike_symm hla) hlk
      simp [distinct, hl, hla]

theorem mem_of_mem_distinct {k : String} {ks : List String} (h : k ∈ distinct ks) : k ∈ ks := by
  induction ks with
  | nil => cases h
  | cons a rest ih =>
    rcases List.mem_cons.1 h with rfl | h
    · exact List.mem_cons_self ..
    · exact List.mem_cons_of_mem _ (ih (List.mem_filter.1 h).1)

theorem any_distinct (ks : List String) (k : String) :
    (distinct ks).any (alike · k) = ks.any (alike · k) := by
  rw [Bool.eq_iff_iff, List.any_eq_true, List.any_eq_true]
  constructor
  · rintro ⟨l, hl, hlk⟩
    exact ⟨l, mem_of_mem_distinct hl, hlk⟩
  · rintro ⟨l, hl, hlk⟩
    obtain ⟨m, hm, hml⟩ := mem_distinct_of_mem hl
    exact ⟨m, hm, alike_trans hml hlk⟩

/-- No two of the distinct texts are alike. -/
theorem pairwise_distinct (ks : List String) :
    (distinct ks).Pairwise fun a b => alike a b = false := by
  induction ks with
  | nil => exact .nil
  | cons a rest ih =>
    refine List.pairwise_cons.2 ⟨fun b hb => ?_, ih.filter _⟩
    have hba : alike b a = false := by simpa using (List.mem_filter.1 hb).2
    exact Bool.eq_false_iff.2 fun h => Bool.eq_false_iff.1 hba (alike_symm h)

/-- A further text counts unless it is alike one that is there. -/
theorem distinct_concat (ks : List String) (k : String) :
    distinct (ks ++ [k]) =
      if ks.any (alike · k) then distinct ks else distinct ks ++ [k] := by
  induction ks with
  | nil => simp [distinct]
  | cons a rest ih =>
    rw [List.cons_append, distinct, ih, distinct, List.any_cons]
    by_cases hak : alike a k = true
    · have hka : alike k a = true := alike_symm hak
      by_cases hr : rest.any (alike · k) = true <;> simp [hak, hka, hr]
    · have hka : alike k a = false := Bool.eq_false_iff.2 fun h => hak (alike_symm h)
      by_cases hr : rest.any (alike · k) = true <;> simp [hak, hka, hr]

end Text

/-! ## Histories -/

/-- The keys that entries lead down, and the scalars that they put there. -/
abbrev History := List (List String × Option String)

namespace History

/-- The first keys, in order. -/
def heads (h : History) : List String :=
  h.filterMap fun e => e.1.head?

/-- The last scalar that is put at the top. -/
def value (h : History) : Option String :=
  (h.filterMap fun e => if e.1 = [] then e.2 else none).getLast?

/-- What one entry says below a key. -/
def entryBelow (key : String) : List String × Option String → Option (List String × Option String)
  | ([], _) => none
  | (k :: rest, v) => if Text.alike k key then some (rest, v) else none

/-- What is said below a key. -/
def below (h : History) (key : String) : History :=
  h.filterMap (entryBelow key)

/-- What is said below some keys. -/
def under (h : History) (keys : List String) : History :=
  keys.foldl below h

theorem heads_concat (h : History) (e : List String × Option String) :
    heads (h ++ [e]) = heads h ++ e.1.head?.toList := by
  cases he : e.1.head? <;> simp [heads, he]

theorem below_concat (h : History) (e : List String × Option String) (key : String) :
    below (h ++ [e]) key = below h key ++ (entryBelow key e).toList := by
  cases he : entryBelow key e <;> simp [below, he]

theorem below_eq_of_alike {a b : String} (hab : Text.alike a b = true) (h : History) :
    h.below a = h.below b := by
  have hf : entryBelow a = entryBelow b := by
    funext e
    obtain ⟨keys, v⟩ := e
    cases keys with
    | nil => rfl
    | cons k rest => rw [entryBelow, entryBelow, Text.alike_congr_right hab]
  rw [below, below, hf]

/-- Something is said below a key if the key comes first somewhere. -/
theorem below_ne_nil_iff {h : History} {key : String} :
    h.below key ≠ [] ↔ ∃ k ∈ h.heads, Text.alike k key = true := by
  simp only [below, heads, ne_eq, List.filterMap_eq_nil_iff, not_forall]
  constructor
  · rintro ⟨⟨keys, v⟩, he, hne⟩
    cases keys with
    | nil => exact absurd rfl hne
    | cons k rest =>
      refine ⟨k, List.mem_filterMap.2 ⟨_, he, rfl⟩, ?_⟩
      by_contra hk
      exact hne (by rw [entryBelow, if_neg hk])
  · rintro ⟨k, hk, hkey⟩
    obtain ⟨⟨keys, v⟩, he, hhead⟩ := List.mem_filterMap.1 hk
    obtain ⟨rest, rfl⟩ : ∃ rest, keys = k :: rest := by
      cases keys with
      | nil => simp at hhead
      | cons c rest => exact ⟨rest, by rw [Option.some.inj hhead]⟩
    exact ⟨_, he, by simp [entryBelow, hkey]⟩

/-- What is said below some keys, entry by entry. -/
theorem under_eq (h : History) (keys : List String) :
    h.under keys = h.filterMap fun e =>
      if keys.map Text.folded <+: e.1.map Text.folded then some (e.1.drop keys.length, e.2)
      else none := by
  induction keys generalizing h with
  | nil => simp [under]
  | cons key rest ih =>
    rw [under, List.foldl_cons, ← under, ih, below, List.filterMap_filterMap]
    congr 1
    funext e
    obtain ⟨segments, v⟩ := e
    cases segments with
    | nil => simp [entryBelow]
    | cons k below =>
      by_cases hk : Text.alike k key = true
      · simp [entryBelow, hk, Text.alike_iff.1 hk, List.cons_prefix_cons]
      · have hne : ¬ Text.folded key = Text.folded k := fun he => hk (Text.alike_iff.2 he.symm)
        simp [entryBelow, hk, hne, List.cons_prefix_cons]

end History

/-! ## The tree of a history -/

namespace Tree

open Text (distinct distinct_concat pairwise_distinct any_distinct mem_of_mem_distinct
  mem_distinct_of_mem)

/-- The tree of a key that a history is merged into. -/
def grown (key : String) (h : History) : Tree :=
  h.foldl (fun t e => insert e.2 e.1 t) (named key)

theorem grown_concat (key : String) (h : History) (e : List String × Option String) :
    grown key (h ++ [e]) = insert e.2 e.1 (grown key h) := by
  simp [grown]

@[simp] theorem insert_key (v : Option String) (keys : List String) (t : Tree) :
    (insert v keys t).key = t.key := by
  cases keys <;> rfl

@[simp] theorem grown_key (key : String) (h : History) : (grown key h).key = key := by
  induction h using List.reverseRecOn with
  | nil => rfl
  | append_singleton h e ih => rw [grown_concat, insert_key, ih]

/-- A grown tree holds the last scalar put at its top. -/
theorem grown_value (key : String) (h : History) : (grown key h).value = h.value := by
  induction h using List.reverseRecOn with
  | nil => rfl
  | append_singleton h e ih =>
    obtain ⟨keys, v⟩ := e
    rw [grown_concat, History.value, List.filterMap_append, List.getLast?_append]
    cases keys with
    | nil => cases v <;> simp [insert, ih, History.value]
    | cons k rest => simp [insert, ih, History.value]

/-- Changing a child changes the one that is there, or adds one at the end. -/
theorem alterChild_eq {key : String} {f : Tree → Tree} {ts : List Tree}
    (hd : (ts.map Tree.key).Pairwise fun a b => Text.alike a b = false) :
    alterChild key f ts =
      if (ts.map Tree.key).any (Text.alike · key)
      then ts.map fun c => if Text.alike c.key key then f c else c
      else ts ++ [f (named key)] := by
  induction ts with
  | nil => simp [alterChild]
  | cons c rest ih =>
    rw [List.map_cons, List.pairwise_cons] at hd
    rw [alterChild]
    by_cases hc : Text.alike c.key key = true
    · -- the keys of the other children differ from that of `c`
      have hrest : ∀ d ∈ rest, Text.alike d.key key = false := by
        intro d hdr
        refine Bool.eq_false_iff.2 fun h => ?_
        have := hd.1 d.key (List.mem_map_of_mem hdr)
        rw [Text.alike_trans hc (Text.alike_symm h)] at this
        cases this
      have hmap : (rest.map fun d => if Text.alike d.key key = true then f d else d) = rest := by
        conv_rhs => rw [← List.map_id rest]
        exact List.map_congr_left fun d hdr => by simp [hrest d hdr]
      simp [hc, hmap]
    · rw [if_neg hc, ih hd.2, List.map_cons, List.any_cons]
      by_cases hr : (rest.map Tree.key).any (Text.alike · key) = true <;> simp [hc, hr]

/-- **The subtrees of a grown tree** stand under the distinct first keys of the history, and each is
grown from what the history says below its key. -/
theorem grown_children (key : String) (h : History) :
    (grown key h).children = (distinct h.heads).map fun k => grown k (h.below k) := by
  induction h using List.reverseRecOn with
  | nil => rfl
  | append_singleton h e ih =>
    obtain ⟨keys, v⟩ := e
    rw [grown_concat, History.heads_concat]
    simp only [History.below_concat]
    cases keys with
    | nil => simpa [insert, History.entryBelow] using ih
    | cons k rest =>
      have hkeys : ((grown key h).children.map Tree.key) = distinct (History.heads h) := by
        rw [ih, List.map_map]
        exact List.map_id'' (fun l => grown_key l _) _
      have hd := pairwise_distinct (History.heads h)
      rw [← hkeys] at hd
      rw [insert]
      simp only [List.head?_cons, Option.toList_some]
      rw [alterChild_eq hd, hkeys, any_distinct, distinct_concat, ih]
      by_cases hk : (History.heads h).any (Text.alike · k) = true
      · rw [if_pos hk, if_pos hk, List.map_map]
        refine List.map_congr_left fun l _ => ?_
        by_cases hlk : Text.alike l k = true
        · simp [hlk, History.entryBelow, Text.alike_symm hlk, grown_concat]
        · have hkl : ¬ Text.alike k l = true := fun h => hlk (Text.alike_symm h)
          simp [hlk, History.entryBelow, hkl]
      · -- the key is new: nothing was said below it, and the other subtrees stay as they are
        have hnone : History.below h k = [] := by
          by_contra hne
          obtain ⟨l, hl, hlk⟩ := History.below_ne_nil_iff.1 hne
          exact hk (List.any_eq_true.2 ⟨l, hl, hlk⟩)
        rw [if_neg hk, if_neg hk, List.map_append]
        congr 1
        · refine List.map_congr_left fun l hl => ?_
          have hkl : ¬ Text.alike k l = true := fun h' =>
            hk (List.any_eq_true.2 ⟨l, mem_of_mem_distinct hl, Text.alike_symm h'⟩)
          simp [History.entryBelow, hkl]
        · simp [hnone, History.entryBelow, grown]

/-- A grown tree has a child with a key if something is said below the key. -/
theorem child?_grown (key : String) (h : History) (k : String) :
    if h.below k = [] then (grown key h).child? k = none
    else ∃ l, (grown key h).child? k = some (grown l (h.below k)) := by
  rw [child?, grown_children, List.find?_map]
  simp only [Function.comp_def, grown_key]
  by_cases hb : h.below k = []
  · rw [if_pos hb, Option.map_eq_none_iff, List.find?_eq_none]
    intro l hl hlk
    exact History.below_ne_nil_iff.2 ⟨l, mem_of_mem_distinct hl, hlk⟩ hb
  · rw [if_neg hb]
    obtain ⟨l, hl, hlk⟩ := History.below_ne_nil_iff.1 hb
    obtain ⟨m, hm, hml⟩ := mem_distinct_of_mem hl
    cases hf : (distinct h.heads).find? fun l => Text.alike l k with
    | none =>
      exact absurd (Text.alike_trans hml hlk) (List.find?_eq_none.1 hf m hm)
    | some l =>
      have hlk : Text.alike l k = true := by simpa using List.find?_some hf
      exact ⟨l, by simp [History.below_eq_of_alike hlk h]⟩

/-- Below some keys of a grown tree stands the tree grown from what the history says there. -/
theorem descend_grown (key : String) (h : History) (keys : List String) :
    if keys ≠ [] ∧ h.under keys = [] then (grown key h).descend keys = none
    else ∃ l, (grown key h).descend keys = some (grown l (h.under keys)) := by
  induction keys generalizing key h with
  | nil => exact ⟨key, rfl⟩
  | cons k rest ih =>
    have hc := child?_grown key h k
    rw [descend, History.under, List.foldl_cons, ← History.under]
    by_cases hb : h.below k = []
    · have hu : History.under [] rest = [] := by simp [History.under_eq]
      rw [if_pos hb] at hc
      simp [hb, hu, hc]
    · rw [if_neg hb] at hc
      obtain ⟨l, hl⟩ := hc
      rw [hl]
      have := ih l (h.below k)
      cases rest with
      | nil => simpa [History.under, hb] using this
      | cons k' rest => simpa using this

end Tree

/-! ## The reading of entries -/

namespace Entry

/-- The keys that the path of an entry leads down. -/
def keys (e : Entry) : List String := Text.split ':' e.path

/-- Whether an entry has a path and it leads down some keys, up to case. -/
def leadsDown (keys : List String) (e : Entry) : Bool :=
  e.path ≠ "" && (keys.map Text.folded).isPrefixOf (e.keys.map Text.folded)

/-- Whether an entry has a path and it leads exactly to some keys, up to case. -/
def leadsTo (keys : List String) (e : Entry) : Bool :=
  e.path ≠ "" && keys.map Text.folded == e.keys.map Text.folded

/-- The last scalar that entries put exactly at some keys. -/
def lastScalar (entries : List Entry) (keys : List String) : Option String :=
  ((entries.filter (leadsTo keys)).filterMap Entry.value).getLast?

/-- The next keys of the entries that lead below some keys, in order. -/
def nextKeys (entries : List Entry) (keys : List String) : List String :=
  (entries.filter (leadsDown keys)).filterMap fun e => e.keys[keys.length]?

/-- What entries say, as a history; an entry without a path says nothing. -/
def history (entries : List Entry) : History :=
  (entries.filter fun e => e.path ≠ "").map fun e => (e.keys, e.value)

theorem history_cons (e : Entry) (rest : List Entry) :
    history (e :: rest) =
      if e.path = "" then history rest else (e.keys, e.value) :: history rest := by
  by_cases hp : e.path = "" <;> simp [history, hp]

theorem history_append (as bs : List Entry) : history (as ++ bs) = history as ++ history bs := by
  simp [history]

/-- An entry leads exactly to some keys if it leads down them and no further. -/
theorem leadsTo_iff {keys : List String} {e : Entry} :
    leadsTo keys e = true ↔ leadsDown keys e = true ∧ e.keys.drop keys.length = [] := by
  simp only [leadsTo, leadsDown, Bool.and_eq_true, beq_iff_eq, List.isPrefixOf_iff_prefix,
    List.drop_eq_nil_iff, and_assoc]
  refine and_congr_right fun _ => ⟨fun h => ⟨h ▸ List.prefix_rfl, ?_⟩, fun ⟨h, hle⟩ => ?_⟩
  · simpa using Nat.le_of_eq (congrArg List.length h).symm
  · exact h.eq_of_length_le (by simpa using hle)

theorem under_history (entries : List Entry) (keys : List String) :
    (history entries).under keys =
      (entries.filter (leadsDown keys)).map fun e => (e.keys.drop keys.length, e.value) := by
  rw [History.under_eq]
  induction entries with
  | nil => rfl
  | cons e rest ih =>
    rw [history_cons, List.filter_cons]
    by_cases hp : e.path = ""
    · simp [leadsDown, hp, ih]
    · by_cases hk : keys.map Text.folded <+: e.keys.map Text.folded
      · simp [leadsDown, hp, hk, ih]
      · simp [leadsDown, hp, hk, ih]

theorem value_under_history (entries : List Entry) (keys : List String) :
    ((history entries).under keys).value = lastScalar entries keys := by
  rw [under_history, History.value, lastScalar, List.filterMap_map]
  congr 1
  simp only [Function.comp_def]
  induction entries with
  | nil => rfl
  | cons e rest ih =>
    rw [List.filter_cons, List.filter_cons]
    by_cases hd : leadsDown keys e = true
    · by_cases hn : e.keys.drop keys.length = []
      · rw [if_pos hd, if_pos (leadsTo_iff.2 ⟨hd, hn⟩), List.filterMap_cons, List.filterMap_cons, ih,
          if_pos hn]
      · rw [if_pos hd, if_neg fun h => hn (leadsTo_iff.1 h).2, List.filterMap_cons, ih, if_neg hn]
    · rw [if_neg hd, if_neg fun h => hd (leadsTo_iff.1 h).1, ih]

theorem heads_under_history (entries : List Entry) (keys : List String) :
    ((history entries).under keys).heads = nextKeys entries keys := by
  rw [under_history, History.heads, nextKeys, List.filterMap_map]
  simp [List.head?_drop]

end Entry

namespace Tree

theorem ofEntries_eq_grown (entries : List Entry) :
    ofEntries entries = grown "" (Entry.history entries) := by
  induction entries using List.reverseRecOn with
  | nil => rfl
  | append_singleton entries e ih =>
    rw [ofEntries, List.foldl_append, ← ofEntries, ih, Entry.history_append, Entry.history_cons]
    by_cases hp : e.path = ""
    · simp [merge, hp, Entry.history]
    · simp [merge, hp, Entry.history, grown_concat, segments, Entry.keys]

/-- Where keys lead in a merged tree stands the tree grown from what the entries say there. -/
theorem exists_grown_of_descend {entries : List Entry} {keys : List String} {t : Tree}
    (h : (ofEntries entries).descend keys = some t) :
    ∃ l, t = grown l ((Entry.history entries).under keys) := by
  have hg := descend_grown "" (Entry.history entries) keys
  rw [← ofEntries_eq_grown, h] at hg
  split_ifs at hg
  · obtain ⟨l, hl⟩ := hg
    exact ⟨l, Option.some.inj hl⟩

/-- A place exists if some entry leads down to it. -/
theorem isSome_descend_iff (entries : List Entry) (keys : List String) :
    ((ofEntries entries).descend keys).isSome ↔
      keys = [] ∨ ∃ e ∈ entries, e.leadsDown keys = true := by
  have hg := descend_grown "" (Entry.history entries) keys
  have hu : (Entry.history entries).under keys ≠ [] ↔ ∃ e ∈ entries, e.leadsDown keys = true := by
    simp [Entry.under_history]
  rw [ofEntries_eq_grown, ← hu]
  split_ifs at hg with hnone
  · simp [hg, hnone.1, hnone.2]
  · obtain ⟨l, hl⟩ := hg
    simp only [hl, Option.isSome_some, true_iff]
    by_contra hne
    rw [not_or, not_not] at hne
    exact hnone hne

section
variable {entries : List Entry} {keys : List String} {t : Tree}
  (h : (ofEntries entries).descend keys = some t)
include h

/-- A place holds the last scalar that was put there. -/
theorem value_of_descend : t.value = Entry.lastScalar entries keys := by
  obtain ⟨l, rfl⟩ := exists_grown_of_descend h
  rw [grown_value, Entry.value_under_history]

/-- The keys of a place are the distinct next keys of the entries that lead below it. -/
theorem keys_of_descend : t.children.map key = Text.distinct (Entry.nextKeys entries keys) := by
  obtain ⟨l, rfl⟩ := exists_grown_of_descend h
  rw [grown_children, List.map_map, Entry.heads_under_history]
  exact List.map_id'' (fun k => grown_key k _) _

/-- No two keys of a place are alike. -/
theorem pairwise_keys_of_descend :
    (t.children.map key).Pairwise fun a b => Text.alike a b = false := by
  rw [keys_of_descend h]
  exact Text.pairwise_distinct _

end

/-- **The merged tree is the reading of its entries.**  A place exists iff some entry leads down to
it; it holds the last scalar put exactly there; and its keys are the distinct next keys of the
entries that lead below it, in order of first appearance and in their first spelling. -/
theorem descend_ofEntries (entries : List Entry) (keys : List String) :
    (((ofEntries entries).descend keys).isSome ↔
      keys = [] ∨ ∃ e ∈ entries, e.leadsDown keys = true) ∧
    ∀ t ∈ (ofEntries entries).descend keys,
      t.value = Entry.lastScalar entries keys ∧
      t.children.map Tree.key = Text.distinct (Entry.nextKeys entries keys) ∧
      (t.children.map Tree.key).Pairwise fun a b => Text.alike a b = false :=
  ⟨isSome_descend_iff entries keys, fun _ ht =>
    ⟨value_of_descend ht, keys_of_descend ht, pairwise_keys_of_descend ht⟩⟩

/-- A later scalar replaces an earlier one in whatever case its path is written, a section entry
replaces nothing, and the first spelling of a key stays. -/
theorem descend_ofEntries_respelled :
    ∃ t, (ofEntries [⟨"A:b", some "1"⟩, ⟨"a:B:Key", none⟩, ⟨"a:b", some "2"⟩, ⟨"", some "3"⟩,
        ⟨"A:B", none⟩, ⟨"a::b", none⟩, ⟨"a:b:KEY", some "4"⟩]).descend ["a", "B"] = some t ∧
      t.value = some "2" ∧ t.children.map Tree.key = ["Key"] := by
  have h := descend_ofEntries [⟨"A:b", some "1"⟩, ⟨"a:B:Key", none⟩, ⟨"a:b", some "2"⟩,
    ⟨"", some "3"⟩, ⟨"A:B", none⟩, ⟨"a::b", none⟩, ⟨"a:b:KEY", some "4"⟩] ["a", "B"]
  obtain ⟨t, ht⟩ := Option.isSome_iff_exists.1 (h.1.2 (.inr ⟨⟨"A:b", some "1"⟩, by simp, by decide⟩))
  obtain ⟨hv, hk, -⟩ := h.2 t ht
  exact ⟨t, ht, hv.trans (by decide), hk.trans (by decide)⟩

end Tree

end LogBinder
