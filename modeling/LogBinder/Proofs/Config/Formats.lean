/-
  Log binder — one content in two formats.

  What consists of tables, arrays, strings, integers and truth values can be
  written as a TOML document and as a JSON document.  The two are flattened
  by recursions of their own: only that of JSON may start at a value without
  keys, and only there does an empty object say nothing.

  * `Toml.toJson?` : the JSON value with the same content;
  * `Entry.ofToml_eq` : below some key both values have the same entries;
  * `Source.load_of_toJson` : documents with the same content load alike.
-/
import LogBinder.Config.Source

namespace LogBinder

/-! ## Content in both formats -/

namespace Toml

mutual

/-- The JSON value with the same content, if there is one: floats and moments have none. -/
def toJson? : Toml → Option Json
  | .scalar (.string s) => some (.string s)
  | .scalar (.integer n) => some (.number (.integer n))
  | .scalar (.boolean b) => some (.bool b)
  | .scalar (.float _) | .scalar (.moment _) => none
  | .array items => (toJsonItems? items).map .array
  | .table entries => (toJsonMembers? entries).map .object

/-- The items of an array with the same content. -/
def toJsonItems? : List Toml → Option (List Json)
  | [] => some []
  | item :: rest => do return (← toJson? item) :: (← toJsonItems? rest)

/-- The members of an object with the same content, in the same order. -/
def toJsonMembers? : List (String × Toml) → Option (List (String × Json))
  | [] => some []
  | (key, value) :: rest => do return (key, ← toJson? value) :: (← toJsonMembers? rest)

end

theorem toJsonItems?_cons {item : Toml} {rest : List Toml} {ds : List Json}
    (h : toJsonItems? (item :: rest) = some ds) :
    ∃ d rest', item.toJson? = some d ∧ toJsonItems? rest = some rest' ∧ ds = d :: rest' := by
  obtain ⟨d, hd, h⟩ := Option.bind_eq_some_iff.1 h
  obtain ⟨rest', hrest, h⟩ := Option.bind_eq_some_iff.1 h
  exact ⟨d, rest', hd, hrest, (Option.some.inj h).symm⟩

theorem toJsonMembers?_cons {key : String} {value : Toml} {rest : List (String × Toml)}
    {members : List (String × Json)} (h : toJsonMembers? ((key, value) :: rest) = some members) :
    ∃ d rest', value.toJson? = some d ∧ toJsonMembers? rest = some rest' ∧
      members = (key, d) :: rest' := by
  obtain ⟨d, hd, h⟩ := Option.bind_eq_some_iff.1 h
  obtain ⟨rest', hrest, h⟩ := Option.bind_eq_some_iff.1 h
  exact ⟨d, rest', hd, hrest, (Option.some.inj h).symm⟩

end Toml

/-! ## Entries of both formats -/

namespace Entry

open Toml (toJsonItems?_cons toJsonMembers?_cons)

mutual

/-- Below some key, values with the same content have the same entries. -/
theorem ofToml_eq {keys : List String} (hkeys : keys ≠ []) :
    ∀ {t : Toml} {d : Json}, t.toJson? = some d → ofToml keys t = ofJson keys d
  | .scalar s, d, h => by
    cases s with
    | string | integer | boolean => cases h; rfl
    | float | moment => cases h
  | .array items, d, h => by
    obtain ⟨ds, hds, rfl⟩ := Option.map_eq_some_iff.1 h
    have hitems := ofTomlItems_eq keys 0 hds
    cases items with
    | nil => cases hds; rfl
    | cons item rest =>
      obtain ⟨e, rest', -, -, rfl⟩ := toJsonItems?_cons hds
      exact hitems
  | .table entries, d, h => by
    obtain ⟨members, hmembers, rfl⟩ := Option.map_eq_some_iff.1 h
    have hentries := ofTomlEntries_eq keys hmembers
    cases entries with
    | nil =>
      cases hmembers
      rw [ofToml, ofJson, if_neg (by simpa using hkeys)]
    | cons entry rest =>
      obtain ⟨e, rest', -, -, rfl⟩ := toJsonMembers?_cons hmembers
      exact hentries

theorem ofTomlItems_eq (keys : List String) (index : Nat) :
    ∀ {items : List Toml} {ds : List Json}, Toml.toJsonItems? items = some ds →
      ofTomlItems keys index items = ofJsonItems keys index ds
  | [], ds, h => by cases h; rfl
  | item :: rest, ds, h => by
    obtain ⟨d, rest', hd, hrest, rfl⟩ := toJsonItems?_cons h
    rw [ofTomlItems, ofJsonItems, ofToml_eq (by simp) hd, ofTomlItems_eq keys (index + 1) hrest]

/-- The entries of a table are those of the members with the same content, below no key too. -/
theorem ofTomlEntries_eq (keys : List String) :
    ∀ {entries : List (String × Toml)} {members : List (String × Json)},
      Toml.toJsonMembers? entries = some members →
      ofTomlEntries keys entries = ofJsonMembers keys members
  | [], members, h => by cases h; rfl
  | (key, value) :: rest, members, h => by
    obtain ⟨d, rest', hd, hrest, rfl⟩ := toJsonMembers?_cons h
    rw [ofTomlEntries, ofJsonMembers, ofToml_eq (by simp) hd, ofTomlEntries_eq keys hrest]

end

/-- At the top, where an empty object says nothing, its members say everything. -/
theorem ofJson_top (members : List (String × Json)) :
    ofJson [] (.object members) = ofJsonMembers [] members := by
  cases members <;> rfl

end Entry

/-- **Documents with the same content load to the same entries.**  A TOML document of tables,
arrays, strings, integers and truth values is flattened to exactly the entries of the JSON object
with the same content: the same paths, scalars and empty sections, in the same order.  So the
sources of two such documents load alike. -/
theorem Source.load_of_toJson {entries : List (String × Toml)} {d : Json}
    (hd : (Toml.table entries).toJson? = some d) :
    Entry.ofTomlEntries [] entries = Entry.ofJson [] d ∧
    ∀ (h : Host) (name name' : String) (origin origin' : Origin) (text text' : String),
      read h name origin = .ok text → Toml.document text.toList = some entries →
      read h name' origin' = .ok text' → Json.document text'.toList = some d →
      load h (.toml name origin) = .ok (Entry.ofJson [] d) ∧
        load h (.json name' origin') = .ok (Entry.ofJson [] d) := by
  obtain ⟨members, hmembers, rfl⟩ := Option.map_eq_some_iff.1 hd
  have hentries : Entry.ofTomlEntries [] entries = Entry.ofJson [] (.object members) := by
    rw [Entry.ofTomlEntries_eq [] hmembers, Entry.ofJson_top]
  refine ⟨hentries, ?_⟩
  intro h name name' origin origin' text text' hread hdoc hread' hdoc'
  constructor
  · rw [load, hread, ← hentries]
    show loadToml name text = _
    rw [loadToml, hdoc]
  · rw [load, hread']
    show loadJson name' text' = _
    rw [loadJson, hdoc']

/-! ## A document in both formats -/

namespace Sample

/-- A TOML document with empty containers, headers and an integer below zero. -/
def mixedToml : String :=
  "kinds = [\"x\", -1, [], \x7b\x7d]\n[a.b]\non = true\n[c]\n"

/-- The same in JSON. -/
def mixedJson : String :=
  "\x7b\"kinds\": [\"x\", -1, [], \x7b\x7d], \"a\": \x7b\"b\": \x7b\"on\": true\x7d\x7d, " ++
    "\"c\": \x7b\x7d\x7d"

/-- What the TOML document says. -/
def mixedTable : List (String × Toml) :=
  [("kinds", .array [.scalar (.string "x"), .scalar (.integer (-1)), .array [], .table []]),
    ("a", .table [("b", .table [("on", .scalar (.boolean true))])]), ("c", .table [])]

/-- What the JSON document says. -/
def mixedObject : Json := .object
  [("kinds", .array [.string "x", .number (.integer (-1)), .array [], .object []]),
    ("a", .object [("b", .object [("on", .bool true)])]), ("c", .object [])]

/-- Whether that is the table. -/
def isMixedTable : Option (List (String × Toml)) → Bool
  | some [(kinds, .array [.scalar (.string x), .scalar (.integer n), .array [], .table []]),
      (a, .table [(b, .table [(on, .scalar (.boolean v))])]), (c, .table [])] =>
    kinds = "kinds" && x = "x" && n = -1 && a = "a" && b = "b" && on = "on" && v = true && c = "c"
  | _ => false

/-- Whether that is the object. -/
def isMixedObject : Option Json → Bool
  | some (.object [(kinds, .array [.string x, .number n, .array [], .object []]),
      (a, .object [(b, .object [(on, .bool v)])]), (c, .object [])]) =>
    kinds = "kinds" && x = "x" && n = .integer (-1) && a = "a" && b = "b" && on = "on" &&
      v = true && c = "c"
  | _ => false

theorem document_mixedToml : Toml.document mixedToml.toList = some mixedTable := by
  have h : isMixedTable (Toml.document mixedToml.toList) = true := by decide +kernel
  unfold isMixedTable at h
  split at h
  · next hdoc =>
    simp only [Bool.and_eq_true, decide_eq_true_eq] at h
    obtain ⟨⟨⟨⟨⟨⟨⟨rfl, rfl⟩, rfl⟩, rfl⟩, rfl⟩, rfl⟩, rfl⟩, rfl⟩ := h
    exact hdoc
  · cases h

theorem document_mixedJson : Json.document mixedJson.toList = some mixedObject := by
  have h : isMixedObject (Json.document mixedJson.toList) = true := by decide +kernel
  unfold isMixedObject at h
  split at h
  · next hdoc =>
    simp only [Bool.and_eq_true, decide_eq_true_eq] at h
    obtain ⟨⟨⟨⟨⟨⟨⟨rfl, rfl⟩, rfl⟩, rfl⟩, rfl⟩, rfl⟩, rfl⟩, rfl⟩ := h
    exact hdoc
  · cases h

/-- Both load to six entries, three of them sections. -/
theorem load_of_toJson_mixed :
    Source.load ⟨[], []⟩ (.toml "toml" (.inline mixedToml)) =
        .ok [⟨"kinds:0", some "x"⟩, ⟨"kinds:1", some "-1"⟩, ⟨"kinds:2", none⟩, ⟨"kinds:3", none⟩,
          ⟨"a:b:on", some "true"⟩, ⟨"c", none⟩] ∧
      Source.load ⟨[], []⟩ (.toml "toml" (.inline mixedToml)) =
        Source.load ⟨[], []⟩ (.json "json" (.inline mixedJson)) := by
  have hd : (Toml.table mixedTable).toJson? = some mixedObject := rfl
  have hentries : Entry.ofJson [] mixedObject =
      [⟨"kinds:0", some "x"⟩, ⟨"kinds:1", some "-1"⟩, ⟨"kinds:2", none⟩, ⟨"kinds:3", none⟩,
        ⟨"a:b:on", some "true"⟩, ⟨"c", none⟩] := by decide +kernel
  obtain ⟨-, hload⟩ := Source.load_of_toJson hd
  obtain ⟨htoml, hjson⟩ := hload ⟨[], []⟩ "toml" "json" (.inline mixedToml) (.inline mixedJson) _ _
    rfl document_mixedToml rfl document_mixedJson
  rw [htoml, hjson, hentries]
  exact ⟨rfl, rfl⟩

end Sample

end LogBinder
