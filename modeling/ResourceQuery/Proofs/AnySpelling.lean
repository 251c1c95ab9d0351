/-
Registries from any text that spells them.

The printer chooses one spelling of each value, and blanks of its own. A text that spells the value in another way is
read to the same value: its fields may come in another order or in an array, among members that mean nothing, and with
any blanks.

Results:
- `chooses_metadata`, and one such result for each part of a registry: what is printed is one of its spellings.
- `listSpelling_listJson`: so is a row of resources, perhaps with repeated names.
- `every_spelling_decodes`: a registry is read from each text of each of its spellings.
-/
import ResourceQuery.Proofs.Spellings

namespace ResourceQuery

open Json

/-! ## The printed spelling -/

namespace Json

/-- the printer chooses one of the spellings -/
def Chooses {α : Type} (print : α → Json) (spelling : Spelling α) : Prop := ∀ a, spelling a (print a).tree

theorem itemTrees_eq_map (items : List Json) : itemTrees items = items.map tree := by
  induction items with
  | nil => rfl
  | cons item items ih => rw [itemTrees, ih, List.map_cons]

theorem memberTrees_eq_map (members : List (String × Json)) : memberTrees members = members.map memberTree := by
  induction members with
  | nil => rfl
  | cons m members ih => rw [memberTrees, ih, List.map_cons]

theorem chooses_text : Chooses Json.string Spelling.text := fun s => ⟨.ofString s, rfl, denotes_ofString s⟩

theorem forall₂_map_self {α β : Type} {R : α → β → Prop} {f : α → β} (h : ∀ a, R a (f a)) (xs : List α) :
    List.Forall₂ R xs (xs.map f) :=
  List.forall₂_map_right_iff.2 (List.forall₂_same.2 fun a _ => h a)

theorem Chooses.list {α : Type} {print : α → Json} {spelling : Spelling α} (h : Chooses print spelling) :
    Chooses (fun xs => .array (xs.map print)) (.list spelling) := by
  intro xs
  refine ⟨itemTrees (xs.map print), rfl, ?_⟩
  rw [itemTrees_eq_map, List.map_map]
  exact forall₂_map_self h xs

theorem Chooses.map {α : Type} {print : α → Json} {spelling : Spelling α} (h : Chooses print spelling) :
    Chooses (fun es => .object (es.map fun e => (e.1, print e.2))) (.map spelling) := by
  intro es
  refine ⟨memberTrees (es.map fun e => (e.1, print e.2)), rfl, ?_⟩
  rw [memberTrees_eq_map, List.map_map]
  exact forall₂_map_self (fun e => ⟨denotes_ofString e.1, h e.2⟩) es

/-- A printed record names some of its fields in order, with what they hold, and the others are optional. -/
theorem recordSpelling_tree {fields : List FieldSpelling} {members : List (String × Json)}
    (hnames : List.Sublist (members.map Prod.fst) (fields.map FieldSpelling.name))
    (hdistinct : (fields.map FieldSpelling.name).Nodup)
    (hvalue : ∀ field ∈ fields, ∀ j, (field.name, j) ∈ members → field.value j.tree)
    (habsent : ∀ field ∈ fields, field.name ∉ members.map Prod.fst → field.optional) :
    RecordSpelling fields (Json.object members).tree := by
  have hfst : (members.map fun m => (m.1, m.2.tree)).map Prod.fst = members.map Prod.fst := by
    rw [List.map_map]
    rfl
  refine .object (members.map fun m => (m.1, m.2.tree)) ?_ ?_ ?_ (by rwa [hfst])
  · rw [memberTrees_eq_map, List.forall₂_map_left_iff]
    refine forall₂_map_self ?_ members
    intro m
    cases m with
    | mk key j => exact ⟨denotes_ofString key, rfl⟩
  · intro field hfield t ht
    obtain ⟨⟨name, j⟩, hm, he⟩ := List.mem_map.1 ht
    cases he
    exact hvalue field hfield j hm
  · intro field _
    rw [hfst]
    exact List.nodup_iff_count.1 (hdistinct.sublist hnames) field.name

end Json

theorem chooses_resourceId : Chooses ResourceId.toJson ResourceId.spelling := fun id => chooses_text id.name

theorem chooses_variable : Chooses Variable.toJson Variable.spelling := by
  intro v
  refine recordSpelling_tree (.refl _) (by simp) ?_ (by simp)
  simp [chooses_text v.name, chooses_text v.type]

theorem chooses_fragment : Chooses Fragment.toJson Fragment.spelling := by
  intro f
  cases f with
  | leaf text => exact .leaf (denotes_ofString "leaf") (chooses_text text)
  | nested opening closing =>
    refine .nested (denotes_ofString "nested") (recordSpelling_tree (.refl _) (by simp) ?_ (by simp))
    simp [chooses_text opening, chooses_text closing]

theorem chooses_metadata : Chooses Metadata.toJson Metadata.spelling := by
  intro m
  have hvariables := chooses_variable.list m.declarations
  have hfragment := chooses_fragment m.fragment
  have hchildren := chooses_resourceId.list m.children
  have hone : ∀ {α : Type} (o : Option α) (key : String) (print : α → Json),
      List.Sublist ((o.map fun a => (key, print a)).toList.map Prod.fst) [key] := by
    intro α o key print
    cases o <;> simp
  have hlist : List.Sublist ((if m.children = [] then []
      else [("children", Json.array (m.children.map ResourceId.toJson))]).map Prod.fst) ["children"] := by
    split <;> simp
  refine recordSpelling_tree ?_ (by simp) ?_ ?_
  · simp only [List.map_append]
    exact ((((List.Sublist.refl ["variables", "fragment"]).append (hone _ "parent" _)).append hlist).append
      (hone _ "alternate_field" _)).append (hone _ "response_path" _)
  · simp only [List.forall_mem_cons]
    refine ⟨?_, ?_, ?_, ?_, ?_, ?_, ?_⟩
    · simpa using hvariables
    · simpa using hfragment
    · cases hparent : m.parent with
      | none => simp
      | some id => simpa [Spelling.optional] using chooses_resourceId id
    · by_cases hempty : m.children = []
      · simp [hempty]
      · simpa [hempty] using hchildren
    · cases hfield : m.alternateField with
      | none => simp
      | some field => simpa [Spelling.optional] using chooses_text field
    · cases hpath : m.responsePath with
      | none => simp
      | some path => simpa [Spelling.optional] using chooses_text path
    · simp
  · simp only [List.forall_mem_cons]
    refine ⟨?_, ?_, ?_, ?_, ?_, ?_, ?_⟩
    · simp
    · simp
    · cases m.parent <;> simp
    · by_cases hempty : m.children = [] <;> simp [hempty]
    · cases m.alternateField <;> simp
    · cases m.responsePath <;> simp
    · simp

theorem chooses_limits : Chooses PageLimits.toJson PageLimits.spelling := by
  intro l
  refine recordSpelling_tree (.refl _) (by simp) ?_ (by simp [PageLimits.members])
  simp [PageLimits.members, Spelling.limit, tree]

namespace Registry

/-- page limits and resources as they are printed, in order and perhaps with repeated names -/
def listJson (limits : PageLimits) (resources : List (ResourceId × Metadata)) : Json :=
  .object (limits.members ++ [("entries", .object (resources.map fun e => (e.1.name, e.2.toJson)))])

theorem toJson_eq_listJson (r : Registry) : r.toJson = listJson r.limits r.entries.entries := rfl

end Registry

theorem listSpelling_listJson (limits : PageLimits) (resources : List (ResourceId × Metadata)) :
    Registry.listSpelling limits resources (Registry.listJson limits resources).tree := by
  have hentries := chooses_metadata.map (resources.map fun e => (e.1.name, e.2))
  simp only [List.map_map, Function.comp_def] at hentries
  refine recordSpelling_tree (.refl _) (by simp) ?_ (by simp [PageLimits.members])
  simp only [List.forall_mem_cons]
  refine ⟨?_, ?_, ?_, ?_⟩
  · simp [PageLimits.members, Spelling.limit, tree]
  · simp [PageLimits.members, Spelling.limit, tree]
  · simpa [PageLimits.members] using hentries
  · simp

theorem chooses_registry : Chooses Registry.toJson Registry.spelling := by
  intro r
  rw [r.toJson_eq_listJson]
  exact listSpelling_listJson r.limits r.entries.entries

/-! ## Main result -/

/-- **Every spelling.** The JSON of a registry is one of its spellings, and the registry is read from each of them, with
any blanks: its entries, in the same order. -/
theorem every_spelling_decodes (r : Registry) :
    r.spelling r.toJson.tree ∧
    ∀ (t : Tree) (text : String), r.spelling t → t.WrittenAs text → Registry.ofText text = .ok r := by
  refine ⟨chooses_registry r, ?_⟩
  intro t text ht htext
  rw [Registry.ofText, Tree.decodeText_tree htext, reads_registry r t ht]

/-! ### A registry in other spellings -/

def looseResources : List (ResourceId × Metadata) := [
  (⟨"hub"⟩,
    { declarations := [⟨"login", "String!"⟩], fragment := .nested "hub \x7b\n" "\x7d", children := [⟨"repos"⟩] }),
  (⟨"repos"⟩, { fragment := .leaf "repos", parent := some ⟨"hub"⟩ })]

def looseRegistry : Registry := .ofList { page := 50 } looseResources

/-- a string as the printer writes it -/
def plainString (s : String) : Tree := .string (.ofString s)

/-- an array without its last fields, and fields of a fragment the other way round -/
def looseHub : Tree :=
  .array [
    .array [.array [plainString "login", plainString "String!"]],
    .object [(.ofString "nested", .object [
      (.ofString "close", plainString "\x7d"), (.ofString "open", plainString "hub \x7b\n")])],
    .null,
    .array [plainString "repos"]]

/-- an object with members that mean nothing, one with half of a surrogate pair, and with `null` for what is absent -/
def looseRepos : Tree :=
  .object [
    (.ofString "note", .array [.bool true, .object [([.unit (.ofNat 13 true) (.ofNat 8) (.ofNat 0) (.ofNat 0)], .null)]]),
    (.ofString "parent", plainString "hub"),
    (.ofString "note", .number { Number.ofNat 0 with negative := true }),
    (.ofString "response_path", .null),
    (.ofString "fragment", .object [(.ofString "leaf", plainString "repos")])]

def looseTree : Tree :=
  .object [
    (.ofString "nestedPageLimit", .number (.ofNat 25)),
    (.ofString "entries", .object [(.ofString "hub", looseHub), (.ofString "repos", looseRepos)]),
    (.ofString "pageLimit", .number (.ofNat 50))]

def looseText : String :=
  "\x7b \"nestedPageLimit\":25,\n\"entries\": \x7b\"hub\": [[[\"login\" ,\"String!\"]],
    \x7b\"nested\":\x7b\"close\":\"\x7d\",\"open\":\"hub \x7b\\n\"\x7d\x7d, null,[\"repos\"]],
  \"repos\":\x7b\"note\":[true,\x7b\"\\uD800\": null\x7d],\"parent\":\"hub\",\t\"note\" :-0,
    \"response_path\":null,\"fragment\":\x7b\"leaf\":\"repos\"\x7d\x7d\x7d , \"pageLimit\": 50\x7d\n"

set_option maxRecDepth 4096 in
theorem looseText_writes : looseTree.WrittenAs looseText := by
  have htext : looseText.toList = _ := String.toList_ofList
  refine ⟨_, ['\n'], htext.trans (List.dropLast_append_getLast (by simp)).symm, ?_, by decide⟩
  decide +kernel

theorem spelling_plainString (s : String) : Spelling.text s (plainString s) := ⟨.ofString s, rfl, denotes_ofString s⟩

theorem spelling_looseHub :
    Metadata.spelling
      { declarations := [⟨"login", "String!"⟩], fragment := .nested "hub \x7b\n" "\x7d", children := [⟨"repos"⟩] }
      looseHub := by
  have hvariable : Variable.spelling ⟨"login", "String!"⟩ (.array [plainString "login", plainString "String!"]) :=
    .array 2 (.cons (spelling_plainString _) (.cons (spelling_plainString _) .nil)) (by simp)
  have hfragment : Fragment.spelling (.nested "hub \x7b\n" "\x7d") (.object [(.ofString "nested", .object [
      (.ofString "close", plainString "\x7d"), (.ofString "open", plainString "hub \x7b\n")])]) := by
    refine .nested (denotes_ofString "nested")
      (.object [("close", plainString "\x7d"), ("open", plainString "hub \x7b\n")]
        (.cons ⟨denotes_ofString _, rfl⟩ (.cons ⟨denotes_ofString _, rfl⟩ .nil)) ?_ (by simp) (by simp))
    simp [spelling_plainString]
  refine .array 4 (.cons ⟨_, rfl, .cons hvariable .nil⟩ (.cons hfragment (.cons rfl (.cons ⟨_, rfl, ?_⟩ .nil)))) ?_
  · exact .cons (spelling_plainString _) .nil
  · simp

theorem spelling_looseRepos :
    Metadata.spelling { fragment := .leaf "repos", parent := some ⟨"hub"⟩ } looseRepos := by
  have hfragment : Fragment.spelling (.leaf "repos") (.object [(.ofString "leaf", plainString "repos")]) :=
    .leaf (denotes_ofString "leaf") (spelling_plainString "repos")
  refine .object [("note", _), ("parent", _), ("note", _), ("response_path", _), ("fragment", _)]
    (.cons ⟨denotes_ofString _, rfl⟩ (.cons ⟨denotes_ofString _, rfl⟩ (.cons ⟨denotes_ofString _, rfl⟩
      (.cons ⟨denotes_ofString _, rfl⟩ (.cons ⟨denotes_ofString _, rfl⟩ .nil))))) ?_ (by simp) (by simp)
  simp [Spelling.optional, hfragment, ResourceId.spelling, spelling_plainString]

theorem spelling_looseTree : looseRegistry.spelling looseTree := by
  have hentries : Spelling.map Metadata.spelling (looseResources.map fun e => (e.1.name, e.2))
      (.object [(.ofString "hub", looseHub), (.ofString "repos", looseRepos)]) :=
    ⟨_, rfl, .cons ⟨denotes_ofString _, spelling_looseHub⟩ (.cons ⟨denotes_ofString _, spelling_looseRepos⟩ .nil)⟩
  have hlist : Registry.listSpelling { page := 50 } looseResources looseTree := by
    refine .object [("nestedPageLimit", _), ("entries", _), ("pageLimit", _)]
      (.cons ⟨denotes_ofString _, rfl⟩ (.cons ⟨denotes_ofString _, rfl⟩ (.cons ⟨denotes_ofString _, rfl⟩ .nil))) ?_
      (by simp) (by simp)
    simp only [List.forall_mem_cons]
    refine ⟨?_, ?_, ?_, by simp⟩
    · simp [Spelling.limit]
    · simp [Spelling.limit]
    · simpa using hentries
  have hresources : looseRegistry.entries.entries = looseResources := Registry.entries_ofList _ (by decide)
  rw [Registry.spelling, hresources]
  exact hlist

/-- fields in another order, arrays for objects, members that mean nothing, and `null` for what is absent -/
theorem loose_text_decodes :
    looseRegistry.spelling looseTree ∧ looseTree.WrittenAs looseText ∧ Registry.ofText looseText = .ok looseRegistry :=
  ⟨spelling_looseTree, looseText_writes,
    (every_spelling_decodes looseRegistry).2 looseTree looseText spelling_looseTree looseText_writes⟩

end ResourceQuery
