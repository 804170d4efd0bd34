/-
  Log binder — paths address places.

  The keys of merged entries are pieces between colons.  So no key that leads
  to a place of their tree holds a colon, in whatever case it is written, and
  the path of the place comes apart into the keys again.

  * `Text.folded_split_eq_iff` : paths are equal up to case if their keys are;
  * `Entry.keys_of_pathOf` : keys without colons are those of their path;
  * `Node.ofPath_path` : looking up the path of a place that exists finds it.
-/
import LogBinder.Config.Node
import LogBinder.Proofs.Config.History
import LogBinder.Proofs.Text.Characters

namespace LogBinder

/-! ## Keys and colons -/

namespace Text

theorem toLower_eq_colon {c : Char} (h : c.toLower = ':') : c = ':' :=
  eq_of_toLower_eq h rfl

/-- A key holds a colon in every case in which it is written. -/
theorem colon_mem_folded {s : String} : ':' ∈ folded s ↔ ':' ∈ s.toList := by
  rw [folded, List.mem_map]
  constructor
  · rintro ⟨c, hc, hlower⟩
    rwa [← toLower_eq_colon hlower]
  · exact fun h => ⟨':', h, rfl⟩

theorem pieces_map {sep : Char} {f : Char → Char} (hf : ∀ c, f c = sep ↔ c = sep)
    (cs : List Char) : pieces sep (cs.map f) = (pieces sep cs).map (List.map f) := by
  induction cs with
  | nil => rfl
  | cons c rest ih =>
    rw [List.map_cons, pieces, ih, pieces]
    by_cases hc : c = sep
    · simp [hc, (hf sep).2 rfl]
    · rw [if_neg hc, if_neg fun h => hc ((hf c).1 h)]
      cases pieces sep rest <;> rfl

/-- Two paths are equal up to case if their keys are. -/
theorem folded_split_eq_iff {a b : String} :
    (split ':' a).map folded = (split ':' b).map folded ↔ alike a b = true := by
  have hfold (c : Char) : c.toLower = ':' ↔ c = ':' := by
    refine ⟨toLower_eq_colon, ?_⟩
    rintro rfl
    rfl
  have hsplit (s : String) : (split ':' s).map folded = pieces ':' (folded s) := by
    rw [split, List.map_map, folded, pieces_map hfold]
    exact List.map_congr_left fun p _ => by simp [folded]
  rw [hsplit, hsplit, alike_iff]
  constructor
  · intro h
    rw [← join_pieces ':' (folded a), h, join_pieces]
  · exact congrArg _

end Text

namespace Entry

theorem keys_of_pathOf {keys : List String} (hne : keys ≠ [])
    (h : ∀ key ∈ keys, ':' ∉ key.toList) : Text.split ':' (pathOf keys) = keys :=
  Text.split_joined hne h

/-- Only no key at all, or a single empty one, has an empty path. -/
theorem pathOf_ne_empty {keys : List String} (h : ∀ key ∈ keys, ':' ∉ key.toList) {key : String}
    (hkey : key ∈ keys) (hne : key ≠ "") : pathOf keys ≠ "" := by
  intro hempty
  have hsplit := keys_of_pathOf (List.ne_nil_of_mem hkey) h
  rw [hempty, show Text.split ':' "" = [""] from rfl] at hsplit
  rw [← hsplit, List.mem_singleton] at hkey
  exact hne hkey

end Entry

/-! ## Places of a merged tree -/

namespace Tree

/-- No key that leads to a place of a merged tree holds a colon. -/
theorem not_mem_of_descend {entries : List Entry} {keys : List String} {t : Tree}
    (h : (ofEntries entries).descend keys = some t) : ∀ key ∈ keys, ':' ∉ key.toList := by
  intro key hkey hcolon
  have hg := descend_grown "" (Entry.history entries) keys
  rw [← ofEntries_eq_grown, h] at hg
  have hunder : (Entry.history entries).under keys ≠ [] := by
    intro hnone
    rw [if_pos ⟨List.ne_nil_of_mem hkey, hnone⟩] at hg
    cases hg
  -- Some entry leads down these keys, up to case.
  rw [Entry.under_history, ne_eq, List.map_eq_nil_iff] at hunder
  obtain ⟨e, he⟩ := List.exists_mem_of_ne_nil _ hunder
  have hdown := (List.mem_filter.1 he).2
  rw [Entry.leadsDown, Bool.and_eq_true, List.isPrefixOf_iff_prefix] at hdown
  obtain ⟨piece, hpiece, hfolded⟩ := List.mem_map.1 (hdown.2.subset (List.mem_map_of_mem hkey))
  refine Text.not_mem_of_mem_split hpiece (Text.colon_mem_folded.1 ?_)
  rw [hfolded]
  exact Text.colon_mem_folded.2 hcolon

end Tree

namespace Node

/-- **The path of a place that exists addresses it.** -/
theorem ofPath_path {n : Node} {entries : List Entry} (ht : n.tree = .ofEntries entries)
    (hn : n.isPresent = true) (hpath : n.path ≠ "") : ofPath n.tree n.path = n := by
  obtain ⟨t, hlocated⟩ := Option.isSome_iff_exists.1 hn
  rw [located, ht] at hlocated
  have hne : n.segments ≠ [] := fun hnil => hpath (by rw [path, hnil]; rfl)
  have hkeys := Entry.keys_of_pathOf hne (Tree.not_mem_of_descend hlocated)
  rw [ofPath, Tree.segments, if_neg (by simpa using hpath), path, hkeys]

end Node

end LogBinder
