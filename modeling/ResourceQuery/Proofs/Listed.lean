/-
What a listing shows can be read off it.

A listing is put together from lines: for each resource a headline, and below it a line for each section that has
something to say. It is taken apart in the same steps. Line breaks end the lines, and only headlines are not indented,
so the lines fall into blocks again; in a block, each section is told by its label, the items of a list are told by the
commas between them, and a name ends where the first character stands that no name has.

Results:
- `Registry.listing_eq`: a listing is made of the blocks of what it shows.
- `details_injective`, `enumerated_injective`, `text_injective`, `headline_injective`: the parts of a block.
- `listed_eq_of_blocks`: equal rows of lines are of equal resources.
- `listing_loses_nothing`: registries have one listing exactly if it shows the same of both, and the lines that are not
  indented are the headlines.
-/
import Mathlib.Data.List.Basic
import ResourceQuery.Proofs.TextPieces
import ResourceQuery.Registry.Listing

namespace ResourceQuery

/-! ## What is listed -/

/-- what a listing shows of a resource -/
@[ext]
structure Listed where
  id : ResourceId
  field : String
  declarations : List Variable
  parent : Option ResourceId
  children : List ResourceId
  responsePath : Option String
deriving DecidableEq, Repr

def Metadata.listed (m : Metadata) (id : ResourceId) : Listed where
  id := id
  field := m.fieldName id
  declarations := m.declarations
  parent := m.parent
  children := m.children
  responsePath := m.responsePath

/-- what a listing shows, in registration order -/
def Registry.listed (r : Registry) : List Listed := r.entries.entries.map fun e => e.2.listed e.1

/-- texts with commas between them, if there are any -/
def enumerated (texts : List String) : Option String := if texts = [] then none else some (", ".intercalate texts)

/-- the lines of labelled contents; one without a content has no line -/
def details (sections : List (String × Option String)) : List String :=
  sections.flatMap fun s => (s.2.map (s.1 ++ ·)).toList

namespace Listed

/-- the name, and the field where that is another one -/
def headline (l : Listed) : String :=
  l.id.name ++ if l.field = l.id.name then "" else " (field: " ++ l.field ++ ")"

/-- what is said below the headline -/
def sections (l : Listed) : List (String × Option String) := [
  ("  variables: ", enumerated (l.declarations.map Variable.text)),
  ("  parent: ", l.parent.map ResourceId.name),
  ("  children: ", enumerated (l.children.map ResourceId.name)),
  ("  response path: ", l.responsePath)]

def block (l : Listed) : List String := l.headline :: details l.sections

end Listed

theorem Metadata.listing_eq_block (m : Metadata) (id : ResourceId) : m.listing id = (m.listed id).block := by
  obtain ⟨declarations, fragment, parent, children, alternateField, responsePath⟩ := m
  -- a section is left out if it is empty, so each line is looked at with and without its content
  cases declarations <;> cases parent <;> cases children <;> cases responsePath <;> rfl

theorem Registry.listing_eq (r : Registry) : r.listing = linesOf (r.listed.flatMap Listed.block) := by
  have hblocks : (r.entries.entries.flatMap fun e => e.2.listing e.1) = r.listed.flatMap Listed.block := by
    simp only [Registry.listed, List.flatMap_map, Metadata.listing_eq_block]
  rw [Registry.listing, hblocks, linesOf]

/-! ## Texts that are told apart -/

/-- the characters of variable types -/
def isTypeChar (c : Char) : Bool := isNameChar c || c == '!' || c == '[' || c == ']'

/-- the text of a type: not empty, and of such characters only -/
def IsType (text : String) : Prop := text ≠ "" ∧ ∀ c ∈ text.toList, isTypeChar c = true

theorem isType_iff {text : String} : IsType text ↔ text ≠ "" ∧ text.toList.all isTypeChar = true :=
  and_congr_right fun _ => List.all_eq_true.symm

instance (text : String) : Decidable (IsType text) := decidable_of_iff _ isType_iff.symm

theorem IsType.notMem {text : String} (h : IsType text) {c : Char} (hc : isTypeChar c = false) : c ∉ text.toList :=
  notMem_of_forall h.2 hc

/-- names are names, types are types, and a response path is on one line -/
structure Listed.Plain (l : Listed) : Prop where
  id : IsName l.id.name
  field : IsName l.field
  declarations : ∀ v ∈ l.declarations, IsName v.name ∧ IsType v.type
  parent : ∀ p ∈ l.parent, IsName p.name
  children : ∀ c ∈ l.children, IsName c.name
  responsePath : ∀ path ∈ l.responsePath, '\n' ∉ path.toList

theorem Listed.plain_iff {l : Listed} :
    l.Plain ↔ IsName l.id.name ∧ IsName l.field ∧ (∀ v ∈ l.declarations, IsName v.name ∧ IsType v.type) ∧
      (∀ p ∈ l.parent, IsName p.name) ∧ (∀ c ∈ l.children, IsName c.name) ∧
      ∀ path ∈ l.responsePath, '\n' ∉ path.toList :=
  ⟨fun ⟨id, field, declarations, parent, children, path⟩ => ⟨id, field, declarations, parent, children, path⟩,
    fun ⟨id, field, declarations, parent, children, path⟩ => ⟨id, field, declarations, parent, children, path⟩⟩

instance (l : Listed) : Decidable l.Plain := decidable_of_iff _ Listed.plain_iff.symm

/-! ## The parts of a block -/

theorem eq_of_map_eq_map {α β : Type} {f : α → β} {as bs : List α} (h : as.map f = bs.map f)
    (hinj : ∀ a ∈ as, ∀ b ∈ bs, f a = f b → a = b) : as = bs := by
  induction as generalizing bs with
  | nil => exact (List.map_eq_nil_iff.1 h.symm).symm
  | cons a as ih =>
    cases bs with
    | nil => cases h
    | cons b bs =>
      obtain ⟨hhead, htail⟩ := List.cons.inj h
      rw [hinj a List.mem_cons_self b List.mem_cons_self hhead,
        ih htail fun x hx y hy => hinj x (List.mem_cons_of_mem _ hx) y (List.mem_cons_of_mem _ hy)]

/-- no text begins with both labels -/
def ToldApart (label other : String) : Prop := ∀ x y, label ++ x ≠ other ++ y

theorem toldApart_of_not_prefix {a b : String} (hab : ¬ a.toList <+: b.toList) (hba : ¬ b.toList <+: a.toList) :
    ToldApart a b := by
  intro x y h
  have htext : a.toList ++ x.toList = b.toList ++ y.toList := by
    rw [← String.toList_append, ← String.toList_append, h]
  have ha : a.toList <+: b.toList ++ y.toList := ⟨_, htext⟩
  rcases List.prefix_or_prefix_of_prefix ha (List.prefix_append _ _) with hpre | hpre
  · exact hab hpre
  · exact hba hpre

theorem details_none (label : String) (rest : List (String × Option String)) :
    details ((label, none) :: rest) = details rest := rfl

theorem details_some (label content : String) (rest : List (String × Option String)) :
    details ((label, some content) :: rest) = (label ++ content) :: details rest := rfl

theorem mem_details_iff {sections : List (String × Option String)} {line : String} :
    line ∈ details sections ↔ ∃ s ∈ sections, ∃ content ∈ s.2, s.1 ++ content = line := by
  simp only [details, List.mem_flatMap, Option.mem_toList, Option.mem_def, Option.map_eq_some_iff]

/-- a line with the label of a section is no line of those behind it -/
theorem notMem_details {label content : String} {sections : List (String × Option String)}
    (h : ∀ other ∈ sections.map Prod.fst, ToldApart label other) : label ++ content ∉ details sections := by
  intro hmem
  obtain ⟨s, hs, other, -, heq⟩ := mem_details_iff.1 hmem
  exact h s.1 (List.mem_map_of_mem hs) _ _ heq.symm

/-- sections with labels that are told apart are told from their lines -/
theorem details_injective {as bs : List (String × Option String)} (hlabels : as.map Prod.fst = bs.map Prod.fst)
    (hapart : (as.map Prod.fst).Pairwise ToldApart) (h : details as = details bs) : as = bs := by
  induction as generalizing bs with
  | nil => exact (List.map_eq_nil_iff.1 hlabels.symm).symm
  | cons a as ih =>
    cases bs with
    | nil => cases hlabels
    | cons b bs =>
      obtain ⟨label, content⟩ := a
      obtain ⟨other, content'⟩ := b
      obtain ⟨hlabel, hrest⟩ := List.cons.inj hlabels
      obtain ⟨hfirst, hothers⟩ := List.pairwise_cons.1 hapart
      change label = other at hlabel
      subst hlabel
      cases content with
      | none =>
        cases content' with
        | none => rw [ih hrest hothers h]
        | some text =>
          rw [details_none, details_some] at h
          have hmem : label ++ text ∈ details as := h ▸ List.mem_cons_self
          exact absurd hmem (notMem_details hfirst)
      | some text =>
        cases content' with
        | none =>
          rw [details_none, details_some] at h
          have hmem : label ++ text ∈ details bs := h ▸ List.mem_cons_self
          exact absurd hmem (notMem_details (hrest ▸ hfirst))
        | some text' =>
          rw [details_some, details_some] at h
          obtain ⟨htext, hlines⟩ := List.cons.inj h
          rw [(String.append_right_inj label).1 htext, ih hrest hothers hlines]

/-- items without commas are told from the list of them -/
theorem enumerated_injective {as bs : List String} (has : ∀ text ∈ as, ',' ∉ text.toList)
    (hbs : ∀ text ∈ bs, ',' ∉ text.toList) (h : enumerated as = enumerated bs) : as = bs := by
  unfold enumerated at h
  split_ifs at h with ha hb hb
  · rw [ha, hb]
  · have hsplit : splitAtCommas (", ".intercalate as).toList = splitAtCommas (", ".intercalate bs).toList := by
      rw [Option.some.inj h]
    rw [splitAtCommas_intercalate ha has, splitAtCommas_intercalate hb hbs] at hsplit
    exact eq_of_map_eq_map hsplit fun _ _ _ _ => String.toList_inj.1

/-- a declaration is told from its text, since a colon ends the name -/
theorem Variable.text_injective {v w : Variable} (hv : IsName v.name) (hw : IsName w.name) (h : v.text = w.text) :
    v = w := by
  have htext : ∀ u : Variable, u.text.toList = '$' :: (u.name.toList ++ (": ".toList ++ u.type.toList)) := by
    intro u
    simp [Variable.text]
  have hcolon : ∀ u : Variable, EndsName (": ".toList ++ u.type.toList) := by
    intro u
    simp [EndsName, isNameChar]
  have hchars := congrArg String.toList h
  rw [htext, htext] at hchars
  obtain ⟨hname, htype⟩ := hv.append_inj hw (hcolon v) (hcolon w) (List.cons.inj hchars).2
  obtain ⟨vname, vtype⟩ := v
  obtain ⟨wname, wtype⟩ := w
  obtain rfl : vname = wname := hname
  obtain rfl : vtype = wtype := String.toList_inj.1 (List.append_cancel_left htype)
  rfl

namespace Listed

variable {l l' : Listed}

/-- name and field are told from the headline -/
theorem headline_injective (hl : l.Plain) (hl' : l'.Plain) (h : l.headline = l'.headline) :
    l.id = l'.id ∧ l.field = l'.field := by
  have hends : ∀ m : Listed, EndsName (if m.field = m.id.name then "" else " (field: " ++ m.field ++ ")").toList := by
    intro m
    split_ifs <;> simp [EndsName, isNameChar]
  have hchars := congrArg String.toList h
  rw [headline, headline, String.toList_append, String.toList_append] at hchars
  obtain ⟨hname, hfield⟩ := hl.id.append_inj hl'.id (hends l) (hends l') hchars
  have hid : l.id = l'.id := congrArg ResourceId.mk hname
  refine ⟨hid, ?_⟩
  rw [String.toList_inj, hid] at hfield
  split_ifs at hfield with hsame hsame' hsame'
  · rw [hsame, hsame']
  · simp [String.ext_iff] at hfield
  · simp [String.ext_iff] at hfield
  · simpa [String.ext_iff] using hfield

/-- the labels of all sections, in order -/
def labels : List String := ["  variables: ", "  parent: ", "  children: ", "  response path: "]

theorem labels_sections (l : Listed) : l.sections.map Prod.fst = labels := rfl

theorem toldApart_labels : labels.Pairwise ToldApart := by
  have hdifferent : labels.Pairwise fun a b => ¬ a.toList <+: b.toList ∧ ¬ b.toList <+: a.toList := by decide
  exact hdifferent.imp fun h => toldApart_of_not_prefix h.1 h.2

/-- what is around the items of a list is in no name and in no type -/
theorem mark_cases {c : Char} (hc : c ∈ [',', '\n']) :
    isNameChar c = false ∧ isTypeChar c = false ∧ c ∉ ['$', ':', ' '] := by
  simp only [List.mem_cons, List.not_mem_nil, or_false] at hc
  rcases hc with rfl | rfl <;> decide

theorem notMem_declaration (hl : l.Plain) {c : Char} (hc : c ∈ [',', '\n']) :
    ∀ text ∈ l.declarations.map Variable.text, c ∉ text.toList := by
  intro text htext
  obtain ⟨v, hv, rfl⟩ := List.mem_map.1 htext
  obtain ⟨hname, htype⟩ := hl.declarations v hv
  obtain ⟨hletter, htypeChar, hmark⟩ := mark_cases hc
  simp only [List.mem_cons, List.not_mem_nil, or_false, not_or] at hmark
  simp [Variable.text, hname.notMem hletter, htype.notMem htypeChar, hmark]

theorem notMem_child (hl : l.Plain) {c : Char} (hc : c ∈ [',', '\n']) :
    ∀ text ∈ l.children.map ResourceId.name, c ∉ text.toList := by
  intro text htext
  obtain ⟨child, hchild, rfl⟩ := List.mem_map.1 htext
  exact (hl.children child hchild).notMem (mark_cases hc).1

/-- what is listed is told from the headline and the sections -/
theorem eq_of_sections (hl : l.Plain) (hl' : l'.Plain) (hhead : l.headline = l'.headline)
    (hsections : l.sections = l'.sections) : l = l' := by
  obtain ⟨hid, hfield⟩ := headline_injective hl hl' hhead
  simp only [sections, List.cons.injEq, Prod.mk.injEq, true_and, and_true] at hsections
  obtain ⟨hdeclarations, hparent, hchildren, hpath⟩ := hsections
  have hdeclarations : l.declarations = l'.declarations := by
    have htexts := enumerated_injective (notMem_declaration hl (by decide)) (notMem_declaration hl' (by decide))
      hdeclarations
    refine eq_of_map_eq_map htexts fun v hv w hw => ?_
    exact Variable.text_injective (hl.declarations v hv).1 (hl'.declarations w hw).1
  have hname : Function.Injective ResourceId.name := by
    rintro ⟨a⟩ ⟨b⟩ rfl
    rfl
  have hparent : l.parent = l'.parent := Option.map_injective hname hparent
  have hchildren : l.children = l'.children := by
    have hnames := enumerated_injective (notMem_child hl (by decide)) (notMem_child hl' (by decide)) hchildren
    exact List.map_injective_iff.2 hname hnames
  exact Listed.ext hid hfield hdeclarations hparent hchildren hpath

/-! ## The lines of a block -/

/-- a label begins with a blank and has no line break -/
theorem label_of_mem_sections {s : String × Option String} (hs : s ∈ l.sections) :
    s.1.toList.head? = some ' ' ∧ '\n' ∉ s.1.toList := by
  have hlabels : ∀ label ∈ labels, label.toList.head? = some ' ' ∧ '\n' ∉ label.toList := by decide
  exact hlabels s.1 (l.labels_sections ▸ List.mem_map_of_mem hs)

theorem lineBreak_notMem_enumerated {texts : List String} (h : ∀ text ∈ texts, '\n' ∉ text.toList) :
    ∀ content ∈ enumerated texts, '\n' ∉ content.toList := by
  intro content hcontent hmem
  unfold enumerated at hcontent
  split_ifs at hcontent
  · cases hcontent
  · cases hcontent
    rcases mem_toList_intercalate hmem with hmem | ⟨text, htext, hmem⟩
    · simp at hmem
    · exact h text htext hmem

theorem lineBreak_notMem_content (hl : l.Plain) : ∀ s ∈ l.sections, ∀ content ∈ s.2, '\n' ∉ content.toList := by
  intro s hs
  simp only [sections, List.mem_cons, List.not_mem_nil, or_false] at hs
  rcases hs with rfl | rfl | rfl | rfl
  · exact lineBreak_notMem_enumerated (notMem_declaration hl (by decide))
  · intro content hcontent
    obtain ⟨p, hp, rfl⟩ := Option.map_eq_some_iff.1 hcontent
    exact (hl.parent p hp).notMem (by decide)
  · exact lineBreak_notMem_enumerated (notMem_child hl (by decide))
  · exact hl.responsePath

theorem lineBreak_notMem_block (hl : l.Plain) : ∀ line ∈ l.block, '\n' ∉ line.toList := by
  intro line hline
  rcases List.mem_cons.1 hline with rfl | hline
  · have hid := hl.id.notMem (c := '\n') (by decide)
    have hfield := hl.field.notMem (c := '\n') (by decide)
    unfold headline
    split_ifs <;> simp [hid, hfield]
  · obtain ⟨s, hs, content, hcontent, rfl⟩ := mem_details_iff.1 hline
    simp [(label_of_mem_sections hs).2, lineBreak_notMem_content hl s hs content hcontent]

/-- the line begins with a blank -/
def indented (line : String) : Bool := line.toList.head? == some ' '

theorem indented_details (l : Listed) : ∀ line ∈ details l.sections, indented line = true := by
  intro line hline
  obtain ⟨s, hs, content, -, rfl⟩ := mem_details_iff.1 hline
  rw [indented, String.toList_append, List.head?_append, (label_of_mem_sections hs).1]
  rfl

theorem indented_headline (hl : l.Plain) : indented l.headline = false := by
  obtain ⟨c, cs, hname⟩ := List.exists_cons_of_ne_nil (mt String.toList_eq_nil_iff.1 hl.id.1)
  have hc : isNameChar c = true := hl.id.2 c (hname ▸ List.mem_cons_self)
  have hblank : c ≠ ' ' := by
    rintro rfl
    exact absurd hc (by decide)
  simp [indented, headline, hname, hblank]

/-- only the headline is not indented -/
theorem filter_block (hl : l.Plain) : l.block.filter (fun line => !indented line) = [l.headline] := by
  rw [block, List.filter_cons_of_pos (by simp [indented_headline hl]), List.filter_eq_nil_iff.2]
  intro line hline
  simp [indented_details l line hline]

end Listed

open Listed

/-- equal rows of lines are of equal resources -/
theorem listed_eq_of_blocks {as bs : List Listed} (has : ∀ l ∈ as, l.Plain) (hbs : ∀ l ∈ bs, l.Plain)
    (h : as.flatMap block = bs.flatMap block) : as = bs := by
  have hstart : ∀ ls : List Listed, (∀ l ∈ ls, l.Plain) → ∀ line ∈ (ls.flatMap block).head?, indented line = false := by
    intro ls hls line hline
    cases ls with
    | nil => cases hline
    | cons l ls =>
      cases hline
      exact indented_headline (hls l List.mem_cons_self)
  induction as generalizing bs with
  | nil =>
    cases bs with
    | nil => rfl
    | cons b bs => cases h
  | cons a as ih =>
    cases bs with
    | nil => cases h
    | cons b bs =>
      obtain ⟨ha, has⟩ := List.forall_mem_cons.1 has
      obtain ⟨hb, hbs⟩ := List.forall_mem_cons.1 hbs
      obtain ⟨hhead, hbelow⟩ := List.cons.inj h
      -- the lines up to the next headline are those of this block
      obtain ⟨hdetails, hrest⟩ := append_inj_of_stops a.indented_details (hstart as has) b.indented_details
        (hstart bs hbs) hbelow
      have hsections := details_injective (a.labels_sections.trans b.labels_sections.symm) toldApart_labels hdetails
      rw [eq_of_sections ha hb hhead hsections, ih has hbs hrest]

/-- all that is listed of the registry is plain -/
def Registry.Plain (r : Registry) : Prop := ∀ l ∈ r.listed, l.Plain

instance (r : Registry) : Decidable r.Plain := inferInstanceAs (Decidable (∀ l ∈ r.listed, l.Plain))

theorem Registry.lines_listing {r : Registry} (h : r.Plain) : lines r.listing = r.listed.flatMap block := by
  rw [r.listing_eq]
  refine lines_linesOf fun line hline => ?_
  obtain ⟨l, hl, hline⟩ := List.mem_flatMap.1 hline
  exact lineBreak_notMem_block (h l hl) line hline

/-! ## Main result -/

/-- **The listing loses nothing it shows.** Two registries with plain texts have one listing exactly if it shows the
same of both, entry for entry in registration order. The lines that are not indented are the headlines, one for each
entry. -/
theorem listing_loses_nothing {r s : Registry} (hr : r.Plain) (hs : s.Plain) :
    (r.listing = s.listing ↔ r.listed = s.listed) ∧
    (lines r.listing).filter (fun line => !indented line) = r.listed.map headline := by
  constructor
  · constructor
    · intro h
      refine listed_eq_of_blocks hr hs ?_
      rw [← Registry.lines_listing hr, ← Registry.lines_listing hs, h]
    · intro h
      rw [r.listing_eq, s.listing_eq, h]
  · rw [Registry.lines_listing hr, List.filter_flatMap, List.map_eq_flatMap]
    exact List.flatMap_congr fun l hl => filter_block (hr l hl)

/-- an organization and its teams, with the text and the field of the teams left open -/
def teamsRegistry (text : String) (field : Option String) : Registry := .ofList {} [
  (⟨"org"⟩,
    { declarations := [⟨"login", "String!"⟩, ⟨"ids", "[ID!]"⟩]
      fragment := .nested "organization(login: $login) \x7b\n" "\x7d"
      children := [⟨"teams"⟩, ⟨"members"⟩]
      responsePath := some "organization" }),
  (⟨"teams"⟩, { fragment := .leaf text, parent := some ⟨"org"⟩, alternateField := field })]

/-- Fragments are not listed, and neither is a field that is the name, so such registries have one listing. Another
field makes another listing, and another headline. -/
theorem teams_listed :
    (teamsRegistry "teams" none).Plain ∧ (teamsRegistry "repos" (some "teams")).Plain ∧
    (teamsRegistry "teams" (some "squads")).Plain ∧
    (teamsRegistry "teams" none).listing = (teamsRegistry "repos" (some "teams")).listing ∧
    (teamsRegistry "teams" none).listing ≠ (teamsRegistry "teams" (some "squads")).listing ∧
    (lines (teamsRegistry "teams" (some "squads")).listing).filter (fun line => !indented line) =
      ["org", "teams (field: squads)"] := by
  have hplain : (teamsRegistry "teams" none).Plain := by decide +kernel
  have hsame : (teamsRegistry "repos" (some "teams")).Plain := by decide +kernel
  have hsquads : (teamsRegistry "teams" (some "squads")).Plain := by decide +kernel
  have hlisted : (teamsRegistry "teams" none).listed = (teamsRegistry "repos" (some "teams")).listed := by decide +kernel
  have hother : (teamsRegistry "teams" none).listed ≠ (teamsRegistry "teams" (some "squads")).listed := by
    decide +kernel
  have hheads : (teamsRegistry "teams" (some "squads")).listed.map headline = ["org", "teams (field: squads)"] := by
    decide +kernel
  refine ⟨hplain, hsame, hsquads, (listing_loses_nothing hplain hsame).1.2 hlisted, ?_, ?_⟩
  · exact mt (listing_loses_nothing hplain hsquads).1.1 hother
  · rw [(listing_loses_nothing hsquads hplain).2, hheads]

end ResourceQuery
