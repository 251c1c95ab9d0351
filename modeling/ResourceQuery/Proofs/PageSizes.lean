/-
Page sizes in documents of the built-in registry.

A page size stands behind `first: `, in the arguments of one field, on the line that the field opens. So it is enough to
look at lines: each line of each entry has the size that its field asks for, and documents are put together from whole
lines. What else is in an answer is read off the links and the declarations of the entries, which are the same for all
page sizes.

Results:
- `piecewise_sized`: a text has the right sizes exactly if its lines have them.
- `sized_page`: the arguments for a page have the size of their field.
- `sized_entries`: each entry has the right sizes.
- `SameOutline.answers`: what an answer says besides its document comes from the outlines of entries.
- `page_sizes_exact`: every page size in a document is the one that its line asks for.
-/
import ResourceQuery.Proofs.Occurrences
import ResourceQuery.Proofs.BuiltIn

namespace ResourceQuery

/-! ## Lines around an occurrence -/

/-- what follows the last line break -/
def lastLine (text : String) : String := String.ofList (text.toList.reverse.takeWhile (· ≠ '\n')).reverse

/-- the line of an occurrence of `pattern` behind `before`; a pattern has no line break -/
def lineAround (before pattern after : String) : String := lastLine before ++ pattern ++ firstLine after

theorem lastLine_append (a b : String) : lastLine (a ++ "\n" ++ b) = lastLine b := by
  rw [lastLine, String.toList_append, List.reverse_append, takeWhile_append_of_head _ (by simp)]
  rfl

theorem lastLine_of_notMem {line : String} (h : '\n' ∉ line.toList) : lastLine line = line := by
  have hline : ∀ c ∈ line.toList.reverse, decide (c ≠ '\n') = true := fun c hc =>
    decide_eq_true (ne_of_mem_of_not_mem (List.mem_reverse.1 hc) h)
  rw [lastLine, List.takeWhile_eq_self_iff.2 hline, List.reverse_reverse, String.ofList_toList]

/-! ## Sizes on lines -/

namespace PageLimits

/-- the page size for a line: searches have their own -/
def sizeOn (limits : PageLimits) (line : String) : UInt32 :=
  if "search(".toList <+: line.toList then limits.nested else limits.page

variable {limits : PageLimits} {field cursor after : String}

/-- each `first: ` is followed by the size for its line, and a comma -/
def Sized (limits : PageLimits) (text : String) : Prop :=
  ∀ before after, text = before ++ "first: " ++ after →
    ∃ rest, after = toString (limits.sizeOn (lineAround before "first: " after)).toNat ++ "," ++ rest

theorem sized_of_absent {text : String} (h : Absent "first: " text) : limits.Sized text :=
  fun _ _ heq => absurd heq h.ne

theorem lineBreak_notMem_size (n : Nat) : '\n' ∉ (toString n ++ ",").toList := by
  simp [GitHub.notMem_digits (c := '\n') (by decide) n]

/-- Sizes go line by line: no size and no `first: ` runs across a line break. -/
theorem piecewise_sized : Piecewise "\n" limits.Sized where
  empty := sized_of_absent (by decide)
  append a b := by
    have hbreak : '\n' ∉ "first: ".toList := by decide
    constructor
    · intro h
      constructor
      · rintro before after rfl
        obtain ⟨rest, hrest⟩ := h before (after ++ "\n" ++ b) (by simp only [String.append_assoc])
        rw [lineAround, firstLine_append, ← lineAround] at hrest
        have hsize : after ++ "\n" ++ b = "" ++ (toString (limits.sizeOn (lineAround before "first: " after)).toNat ++
            ",") ++ rest := hrest.trans (by rw [String.empty_append])
        rcases (occurs_append_iff rfl (lineBreak_notMem_size _)).1 hsize with ⟨extra, hafter, -⟩ | ⟨extra, -, hempty⟩
        · exact ⟨extra, hafter.trans (by rw [String.empty_append])⟩
        · have hlength := congrArg String.length hempty
          have hone : "\n".length = 1 := rfl
          simp only [String.length_append, String.length_empty, hone] at hlength
          omega
      · rintro before after rfl
        obtain ⟨rest, hrest⟩ := h (a ++ "\n" ++ before) after (by simp only [String.append_assoc])
        rw [lineAround, lastLine_append] at hrest
        exact ⟨rest, hrest⟩
    · rintro ⟨ha, hb⟩ before after heq
      rcases (occurs_append_iff rfl hbreak).1 heq with ⟨extra, hextra, rfl⟩ | ⟨extra, hextra, rfl⟩
      · obtain ⟨rest, hrest⟩ := ha before extra hextra
        rw [lineAround, firstLine_append, ← lineAround]
        exact ⟨rest ++ "\n" ++ b, by rw [← String.append_assoc, ← String.append_assoc, ← hrest]⟩
      · obtain ⟨rest, hrest⟩ := hb extra after hextra
        rw [lineAround, lastLine_append, ← lineAround]
        exact ⟨rest, hrest⟩

/-! ## Sizes in arguments -/

/-- a line opened by a field with arguments has the size of the field -/
theorem sizeOn_field (hfield : '(' ∉ field.toList) (rest : String) :
    limits.sizeOn (field ++ "(" ++ rest) = if field = "search" then limits.nested else limits.page := by
  have hsearch : "search(".toList <+: (field ++ "(" ++ rest).toList ↔ field = "search" := by
    constructor
    · rintro ⟨extra, heq⟩
      have htext : "search".toList ++ '(' :: extra = field.toList ++ '(' :: rest.toList := by
        simpa using heq
      have hfirst := (takeWhile_ne_append_cons hfield rest.toList).1
      rw [← htext, (takeWhile_ne_append_cons (by decide) extra).1] at hfirst
      exact (String.toList_inj.1 hfirst).symm
    · rintro rfl
      exact ⟨rest.toList, by simp⟩
  simp only [sizeOn, hsearch]

/-- `first: ` and digits have `first: ` at their start only -/
theorem start_eq_empty {n : Nat} {start rest : String} (h : "first: " ++ toString n = start ++ "first: " ++ rest) :
    start = "" := by
  have hdigits : 'f' ∉ Nat.toDigits 10 n := GitHub.notMem_digits (by decide) n
  have hfirst : "first: ".toList = 'f' :: "irst: ".toList := by rfl
  have hlist := congrArg String.toList h
  simp only [String.toList_append, hfirst, List.cons_append, List.append_assoc] at hlist
  cases hstart : start.toList with
  | nil => exact String.toList_eq_nil_iff.1 hstart
  | cons c cs =>
    rw [hstart, List.cons_append] at hlist
    have hmem : 'f' ∈ "irst: ".toList ++ (toString n).toList := by
      rw [(List.cons.inj hlist).2]
      simp
    simp [hdigits] at hmem

/-- the arguments for a page have the size of their field, and nothing behind it -/
theorem sized_page {size : UInt32} (hfield : IsName field)
    (hsize : (if field = "search" then limits.nested else limits.page) = size)
    (hafter : Absent "first: " (cursor ++ after)) :
    limits.Sized (field ++ GitHub.pageArguments size cursor ++ after) := by
  have hcursor : Absent "first: " (" after: $" ++ (cursor ++ after)) := by
    have hdollar : Piecewise "$" (Absent "first: ") := piecewise_absent (by decide) ⟨by decide, by simp⟩
    have htext : " after: $" ++ (cursor ++ after) = " after: " ++ "$" ++ (cursor ++ after) := by rfl
    rw [htext, hdollar.append]
    exact ⟨by decide, hafter⟩
  intro before tail heq
  have htext : field ++ "(" ++ ("first: " ++ toString size.toNat ++ "," ++ (" after: $" ++ (cursor ++ after))) =
      before ++ "first: " ++ tail := by
    have hopen : ("(first: " : String) = "(" ++ "first: " := by rfl
    have hcomma : (", after: $" : String) = "," ++ " after: $" := by rfl
    rw [← heq, GitHub.pageArguments, hopen, hcomma]
    simp only [String.append_assoc]
  rcases (occurs_append_iff rfl (by decide)).1 htext with ⟨rest, hrest, -⟩ | ⟨start, hstart, rfl⟩
  · have hcolon : isNameChar ':' = false := by decide
    have habsent : Absent "first: " field := absent_of_notMem (by decide) (hfield.notMem hcolon)
    exact absurd hrest habsent.ne
  · have hempty : start = "" := by
      rcases (occurs_append_iff rfl (by decide)).1 hstart with ⟨rest, hrest, -⟩ | ⟨extra, hextra, -⟩
      · exact start_eq_empty hrest
      · exact absurd hextra hcursor.ne
    subst hempty
    have htail : tail = toString size.toNat ++ "," ++ (" after: $" ++ (cursor ++ after)) := by
      rw [← String.toList_inj]
      simpa using congrArg String.toList hstart.symm
    have hline : lastLine (field ++ "(" ++ "") = field ++ "(" := by
      rw [String.append_empty]
      exact lastLine_of_notMem (by simp [hfield.notMem (by decide : isNameChar '\n' = false)])
    have hsizeOn : limits.sizeOn (lineAround (field ++ "(" ++ "") "first: " tail) = size := by
      have hbracket : isNameChar '(' = false := by decide
      rw [lineAround, hline, ← hsize, ← sizeOn_field (hfield.notMem hbracket) ("first: " ++ firstLine tail),
        String.append_assoc]
    exact ⟨_, by rw [hsizeOn]; exact htail⟩

end PageLimits

/-! ## Entries -/

namespace GitHub

variable {limits : PageLimits} {id : ResourceId} {field cursor onType nodeFields : String} {edgeFields : Option String}
  {parent : Option ResourceId} {children : List ResourceId}

theorem sized_connection (hfield : IsName field) (hsearch : field ≠ "search") (hcursor : IsName cursor)
    (hnode : ':' ∉ nodeFields.toList) (hedge : ':' ∉ (edgeFields.getD "").toList) :
    limits.Sized ((connection field limits.page cursor nodeFields edgeFields).render "") := by
  have hedges := notMem_edgeLine (by decide) hedge
  have hcolon : isNameChar ':' = false := by decide
  rw [render_connection]
  refine PageLimits.sized_page hfield (if_neg hsearch) (absent_of_notMem (c := ':') (by decide) ?_)
  simp [hcursor.notMem hcolon, hnode, hedges, pageInfo]

/-- the arguments are on a line of their own -/
theorem sized_inlineConnection (htype : ':' ∉ onType.toList) (hfield : IsName field) (hsearch : field ≠ "search")
    (hcursor : IsName cursor) (hnode : ':' ∉ nodeFields.toList) :
    limits.Sized ((inlineConnection onType field limits.page cursor nodeFields).render "") := by
  have hcolon : isNameChar ':' = false := by decide
  have htext : (inlineConnection onType field limits.page cursor nodeFields).render "" =
      "... on " ++ onType ++ " \x7b" ++ "\n" ++ (field ++ pageArguments limits.page cursor ++
        (") \x7b\ntotalCount\nedges \x7b\nnode \x7b\n" ++ nodeFields ++ "\n\x7d\n\x7d\n" ++ pageInfo ++
          "\n\x7d\n\x7d")) := by
    have hbreak : (" \x7b\n" : String) = " \x7b" ++ "\n" := by rfl
    rw [render_inlineConnection, hbreak]
    simp only [String.append_assoc]
  rw [htext, PageLimits.piecewise_sized.append]
  constructor
  · exact PageLimits.sized_of_absent (absent_of_notMem (c := ':') (by decide) (by simp [htype]))
  · refine PageLimits.sized_page hfield (if_neg hsearch) (absent_of_notMem (c := ':') (by decide) ?_)
    simp [hcursor.notMem hcolon, hnode, pageInfo]

/-- The other arguments of a search have colons, but each before a dollar sign or a comma. -/
theorem sized_issueSearch (hcursor : IsName cursor) (hnode : ':' ∉ nodeFields.toList) :
    limits.Sized ((issueSearch limits.nested cursor nodeFields).render "") := by
  have hcolon : isNameChar ':' = false := by decide
  have hcomma : Piecewise "," (Absent "first: ") := piecewise_absent (by decide) ⟨by decide, by simp⟩
  have hdollar : Piecewise "$" (Absent "first: ") := piecewise_absent (by decide) ⟨by decide, by simp⟩
  have htext : ∀ selection : String, cursor ++ (", type: ISSUE, query: $query" ++ selection) =
      cursor ++ "," ++ (" type: ISSUE" ++ "," ++ (" query: " ++ "$" ++ ("query" ++ selection))) := by
    intro selection
    have harguments : (", type: ISSUE, query: $query" : String) =
        "," ++ (" type: ISSUE" ++ "," ++ (" query: " ++ "$" ++ "query")) := by rfl
    rw [harguments]
    simp only [String.append_assoc]
  rw [render_issueSearch]
  refine PageLimits.sized_page (by decide) (if_pos rfl) ?_
  rw [htext, hcomma.append, hcomma.append, hdollar.append]
  refine ⟨?_, by decide, by decide, ?_⟩
  · exact absent_of_notMem (c := ':') (by decide) (hcursor.notMem hcolon)
  · exact absent_of_notMem (c := ':') (by decide) (by simp [hnode, pageInfo])

theorem sized_connectionEntry (hid : IsName id.name) (hsearch : id.name ≠ "search") (hnode : ':' ∉ nodeFields.toList)
    (hedge : ':' ∉ (edgeFields.getD "").toList) :
    limits.Sized (connectionEntry limits id nodeFields edgeFields parent children).2.text :=
  sized_connection hid hsearch hid hnode hedge

theorem sized_inlineEntry (hid : IsName id.name) (hsearch : id.name ≠ "search") (htype : ':' ∉ onType.toList)
    (hnode : ':' ∉ nodeFields.toList) : limits.Sized (inlineEntry limits id onType nodeFields).2.text :=
  sized_inlineConnection htype hid hsearch hid hnode

theorem sized_searchEntry (hid : IsName id.name) (hnode : ':' ∉ nodeFields.toList) :
    limits.Sized (searchEntry limits id nodeFields children).2.text :=
  sized_issueSearch hid hnode

/-- every entry has the right sizes on its lines -/
theorem sized_entries (limits : PageLimits) : ∀ e ∈ entries limits, limits.Sized e.2.text := by
  simp only [entries, List.forall_mem_cons, List.not_mem_nil, false_imp_iff, implies_true, and_true]
  refine ⟨?_, ?_, ?_, ?_, ?_, ?_, ?_, ?_, ?_, ?_, ?_, ?_, ?_, ?_, ?_, ?_⟩
  -- a pull request and an organization are no pages: all their letters f are capital
  · refine PageLimits.sized_of_absent (absent_of_notMem (c := 'f') (by decide) ?_)
    simp only [Metadata.text, Fragment.render_nested_empty, String.toList_append, List.mem_append, not_or]
    exact ⟨⟨notMem_ofList (by decide), notMem_ofList (by decide)⟩, notMem_ofList (by decide)⟩
  · exact sized_searchEntry (isName_ids pullRequests (by decide)) (notMem_ofList (by decide))
  · refine sized_inlineEntry (isName_ids commits (by decide)) (by decide) ?_ ?_ <;> exact notMem_ofList (by decide)
  · refine sized_inlineEntry (isName_ids reviews (by decide)) (by decide) ?_ ?_ <;> exact notMem_ofList (by decide)
  · refine sized_inlineEntry (isName_ids labels (by decide)) (by decide) ?_ ?_ <;> exact notMem_ofList (by decide)
  · exact sized_searchEntry (isName_ids issues (by decide)) (notMem_ofList (by decide))
  · refine sized_inlineEntry (isName_ids assignees (by decide)) (by decide) ?_ ?_ <;> exact notMem_ofList (by decide)
  · refine sized_inlineConnection ?_ (isName_ids labels (by decide)) (by decide) (isName_ids labels (by decide)) ?_ <;>
      exact notMem_ofList (by decide)
  · refine PageLimits.sized_of_absent (absent_of_notMem (c := 'f') (by decide) ?_)
    simp only [Metadata.text, Fragment.render_nested_empty, String.toList_append, List.mem_append, not_or]
    exact ⟨notMem_ofList (by decide), notMem_ofList (by decide)⟩
  · refine sized_connectionEntry (isName_ids organizationMembers (by decide)) (by decide) ?_ ?_ <;>
      exact notMem_ofList (by decide)
  · refine sized_connectionEntry (isName_ids teams (by decide)) (by decide) ?_ ?_ <;> exact notMem_ofList (by decide)
  · refine sized_connectionEntry (isName_ids teamMembers (by decide)) (by decide) ?_ ?_ <;>
      exact notMem_ofList (by decide)
  · refine sized_connection (isName_ids repositories (by decide)) (by decide)
      (isName_ids teamRepositories (by decide)) ?_ ?_ <;> exact notMem_ofList (by decide)
  · refine sized_connectionEntry (isName_ids repositories (by decide)) (by decide) ?_ ?_ <;>
      exact notMem_ofList (by decide)
  · refine sized_connectionEntry (isName_ids collaborators (by decide)) (by decide) ?_ ?_ <;>
      exact notMem_ofList (by decide)
  · refine sized_connection (isName_ids repositories (by decide)) (by decide)
      (isName_ids repositories (by decide)) ?_ ?_ <;> exact notMem_ofList (by decide)

end GitHub

/-! ## What page sizes do not change -/

/-- the outlines of everything in a selection -/
def Selection.outline (s : Selection) : Selection :=
  ⟨s.id, s.metadata.outline, s.embedded.map fun child => (child.1, child.2.outline)⟩

theorem Selection.declarations_outline (s : Selection) : s.outline.declarations = s.declarations := by
  simp only [declarations, outline, Metadata.outline, List.flatMap_map]

theorem Selection.embeddedIds_outline (s : Selection) : s.outline.embeddedIds = s.embeddedIds := by
  simp only [embeddedIds, outline, List.map_map]
  rfl

theorem Metadata.slots_outline (m : Metadata) : m.outline.slots = m.slots := by
  rw [slots, acceptsChildren_outline, slots]
  rfl

/-- the same names, and up to the texts of fragments the same entries -/
def Registry.SameOutline (a b : Registry) : Prop :=
  ∀ id, (a.get? id).map Metadata.outline = (b.get? id).map Metadata.outline

namespace Registry.SameOutline

variable {a b : Registry} {root : ResourceId} {wanted : List ResourceId} {q : Request}

theorem mem_ids_iff (h : a.SameOutline b) {id : ResourceId} : id ∈ a.ids ↔ id ∈ b.ids := by
  have hid := congrArg Option.isSome (h id)
  rw [Option.isSome_map, Option.isSome_map] at hid
  rw [← contains_iff, ← contains_iff]
  exact Eq.congr_left hid

theorem parent?_eq (h : a.SameOutline b) (id : ResourceId) : a.parent? id = b.parent? id := by
  have hparent : ∀ r : Registry, r.parent? id = ((r.get? id).map Metadata.outline).bind Metadata.parent := by
    intro r
    rw [parent?, Option.bind_map]
    rfl
  rw [hparent a, hparent b, h id]

theorem target?_eq (h : a.SameOutline b) (id : ResourceId) : a.target? root wanted id = b.target? root wanted id := by
  ext t
  rw [target?_eq_some_iff, target?_eq_some_iff]
  simp only [ResolvesTo, ReachedFrom, h.mem_ids_iff, h.parent?_eq]

/-- a resource is selected with the same outlines -/
theorem selection_eq (h : a.SameOutline b) (t : ResourceId) {m n : Metadata} (hmn : m.outline = n.outline) :
    (a.selection wanted t m).outline = (b.selection wanted t n).outline := by
  have hslots : m.slots = n.slots := by rw [← m.slots_outline, hmn, n.slots_outline]
  have hembedded : ∀ (r : Registry) (m : Metadata),
      (r.embeddable wanted m).map (fun child => (child.1, child.2.outline)) =
        (m.slots.filter (· ∈ wanted)).filterMap fun c => ((r.get? c).map Metadata.outline).map (c, ·) := by
    intro r m
    rw [embeddable, List.map_filterMap]
    simp only [Option.map_map]
    rfl
  have hget : ∀ c, (a.get? c).map Metadata.outline = (b.get? c).map Metadata.outline := h
  simp only [Selection.outline, selection, hmn, hembedded, hslots, hget]

/-- finished drafts select the same outlines, in the same order -/
theorem selections_eq (h : a.SameOutline b) {d d' : Draft} (hd : a.Placed root wanted wanted d)
    (hd' : b.Placed root wanted wanted d') :
    d.selections.map Selection.outline = d'.selections.map Selection.outline := by
  have htargets : a.target? root wanted = b.target? root wanted := funext h.target?_eq
  have hentry : ∀ t, ((a.get? t).map (t, ·)).map (fun e => (a.selection wanted e.1 e.2).outline) =
      ((b.get? t).map (t, ·)).map fun e => (b.selection wanted e.1 e.2).outline := by
    intro t
    have hget := h t
    cases ha : a.get? t with
    | none =>
      rw [ha, Option.map_none, eq_comm, Option.map_eq_none_iff] at hget
      rw [hget]
      rfl
    | some m =>
      rw [ha, Option.map_some, eq_comm, Option.map_eq_some_iff] at hget
      obtain ⟨n, hn, hmn⟩ := hget
      rw [hn]
      exact congrArg some (h.selection_eq t hmn.symm)
  rw [hd.selections_eq, hd'.selections_eq, List.map_map, List.map_map, carried, carried, List.map_filterMap,
    List.map_filterMap, htargets]
  exact List.filterMap_congr fun t _ => hentry t

/-- What an answer says besides its document is read off outlines. -/
theorem answers (h : a.SameOutline b) {m n : Metadata} {d d' : Draft} {out out' : CompiledQuery}
    (ha : q.Answers a m d out) (hb : q.Answers b n d' out') :
    out.declarations = out'.declarations ∧ out.resources = out'.resources ∧ out.skipped = out'.skipped := by
  have hselections := h.selections_eq (Request.draft_placed ha.drafted) (Request.draft_placed hb.drafted)
  have hroot : m.declarations = n.declarations := by
    have hget := h q.root
    rw [ha.registered, hb.registered] at hget
    have houtline : m.outline = n.outline := Option.some.inj hget
    calc m.declarations = m.outline.declarations := rfl
      _ = n.outline.declarations := by rw [houtline]
      _ = n.declarations := rfl
  have houtlines : ∀ d : Draft, d.selected = (d.selections.map Selection.outline).map Selection.id ∧
      d.selections.flatMap Selection.declarations =
        (d.selections.map Selection.outline).flatMap Selection.declarations ∧
      d.selections.flatMap Selection.embeddedIds =
        (d.selections.map Selection.outline).flatMap Selection.embeddedIds := by
    intro d
    simp only [Draft.selected, List.map_map, List.flatMap_map, Selection.declarations_outline,
      Selection.embeddedIds_outline, and_true]
    rfl
  obtain ⟨hsel, hdecl, hemb⟩ := houtlines d
  obtain ⟨hsel', hdecl', hemb'⟩ := houtlines d'
  have hselected : d.selected = d'.selected := by rw [hsel, hsel', hselections]
  have hembedded : d.embedded = d'.embedded := by rw [Draft.embedded, Draft.embedded, hemb, hemb', hselections]
  have hcontains : ∀ id, a.contains id = b.contains id := fun id => by
    rw [Bool.eq_iff_iff, contains_iff, contains_iff, h.mem_ids_iff]
  refine ⟨?_, ?_, ?_⟩
  · have hmet : d.met m = d'.met n := by rw [Draft.met, Draft.met, hroot, hdecl, hdecl', hselections]
    have hmerged := Request.draft_merged ha.drafted
    rw [Draft.Merged, hmet, Request.draft_merged hb.drafted] at hmerged
    rw [ha.declarations, hb.declarations, Except.ok.inj hmerged]
  · rw [ha.resources, hb.resources, Request.resources, Request.resources, hselected, hembedded]
  · rw [ha.skipped, hb.skipped, Request.skipped, Request.skipped, hselected, hembedded]
    simp only [hcontains]

end Registry.SameOutline

namespace GitHub

/-- page sizes are in the texts only -/
theorem sameOutline_registry (limits other : PageLimits) : (registry limits).SameOutline (registry other) := by
  have hlookup : ∀ (es : List (ResourceId × Metadata)) (id : ResourceId),
      (OrderedMap.lookup id es).map Metadata.outline = OrderedMap.lookup id (es.map fun e => (e.1, e.2.outline)) := by
    intro es id
    induction es with
    | nil => rfl
    | cons e es ih =>
      simp only [OrderedMap.lookup, List.map_cons, ← ih]
      split <;> rfl
  intro id
  simp only [Registry.get?, OrderedMap.get?, entries_registry, hlookup]
  rw [entries_outline limits, entries_outline other]

/-- no declaration has a page size -/
theorem absent_declarations (limits : PageLimits) :
    ∀ e ∈ entries limits, ∀ v ∈ e.2.declarations, Absent "first: " (" " ++ v.text) :=
  forall_entries limits (P := fun e => ∀ v ∈ e.2.declarations, Absent "first: " (" " ++ v.text)) (by decide +kernel)

end GitHub

namespace Request.Answers

variable {limits : PageLimits} {q : Request} {m : Metadata} {d : Draft} {out : CompiledQuery}

/-- the lines of a document are those of its header, of its entries, and its last two -/
theorem sized (h : q.Answers (GitHub.registry limits) m d out) : limits.Sized out.document := by
  have hlines : Piecewise "\n" limits.Sized := PageLimits.piecewise_sized
  have hentries : ∀ e ∈ (GitHub.registry limits).entries.entries, e.2.Fits limits.Sized := by
    intro e he
    refine ⟨(GitHub.registry_selfConsistent limits e he).opensLine, ?_⟩
    rw [GitHub.entries_registry] at he
    exact GitHub.sized_entries limits e he
  have hheader : Absent "first: " (headerLine out.declarations) := by
    apply absent_headerLine (by decide) (by simp) (by decide)
    intro v hv
    obtain ⟨id, n, -, hn, hv⟩ := h.mem_declarations_iff.1 hv
    exact GitHub.absent_declarations limits (id, n) (GitHub.mem_entries_of_get? hn) v hv
  have hlast : ("\n\x7d" : String) = "\n" ++ "\x7d" := by rfl
  rw [h.document, document_eq_layout h.drafted, ← h.declarations, layout_eq, hlast, ← String.append_assoc]
  simp only [hlines.append]
  refine ⟨⟨⟨?_, ?_⟩, ?_⟩, ?_⟩
  · exact PageLimits.sized_of_absent hheader
  · exact hlines.rootText hentries (hentries _ (OrderedMap.get?_eq_some_iff.1 h.registered))
  · exact PageLimits.sized_of_absent (by decide)
  · exact PageLimits.sized_of_absent (by decide)

end Request.Answers

/-! ## Main result -/

/-- **Page sizes.** Below a registered root of the built-in registry, whatever its page sizes, a lenient request has an
answer. In its document each `first: ` is followed by a page size and a comma: by the nested size on a line that a
search opens, and by the other size on every other line. The declarations, the resources and what is left out are the
same for all page sizes. -/
theorem page_sizes_exact (limits : PageLimits) {q : Request} (hroot : q.root ∈ (GitHub.registry limits).ids)
    (hstrict : q.strict = false) :
    ∃ out, q.compile (GitHub.registry limits) = .ok out ∧
      (∀ before after, out.document = before ++ "first: " ++ after →
        ∃ rest, after = toString (limits.sizeOn (lineAround before "first: " after)).toNat ++ "," ++ rest) ∧
      ∀ other, ∃ out', q.compile (GitHub.registry other) = .ok out' ∧
        out'.declarations = out.declarations ∧ out'.resources = out.resources ∧ out'.skipped = out.skipped := by
  obtain ⟨out, hout⟩ := GitHub.compile_registry_ok limits hroot hstrict
  obtain ⟨m, d, ha⟩ := Request.compile_eq_ok_iff.1 hout
  refine ⟨out, hout, ha.sized, ?_⟩
  intro other
  have hroot' : q.root ∈ (GitHub.registry other).ids := by
    rw [GitHub.ids_registry] at hroot ⊢
    exact hroot
  obtain ⟨out', hout'⟩ := GitHub.compile_registry_ok other hroot' hstrict
  obtain ⟨m', d', ha'⟩ := Request.compile_eq_ok_iff.1 hout'
  exact ⟨out', hout', (GitHub.sameOutline_registry other limits).answers ha' ha⟩

/-- issues with their labels, and a name that is not registered -/
def issueRequest : Request := { root := GitHub.issues, ids := [GitHub.issueLabels, ⟨"stars"⟩] }

/-- the document of that request, with the sizes on the line of the search and on that of the labels left open -/
def issueDocument (search labels : String) : String :=
  "query ($query: String!, $issues: String, $labels: String) \x7b\n" ++
    "search(first: " ++ search ++ ", after: $issues, type: ISSUE, query: $query) \x7b\n" ++
    "issueCount\nedges \x7b\nnode \x7b\n...issueFields\n... on Issue \x7b\n" ++
    "labels(first: " ++ labels ++ ", after: $labels) \x7b\n" ++
    "totalCount\nedges \x7b\nnode \x7b\nid\nname\n\x7d\n\x7d\npageInfo \x7b\nendCursor\nhasNextPage\n\x7d\n" ++
    "\x7d\n\x7d\n\x7d\n\x7d\npageInfo \x7b\nendCursor\nhasNextPage\n\x7d\n\x7d\n...rateLimit\n\x7d"

/-- The least and the greatest size, each on its own line; with the sizes exchanged the rest is the same. -/
theorem issue_page_sizes :
    GitHub.issues ∈ (GitHub.registry { page := 0, nested := 4294967295 }).ids ∧
      ∃ out out', issueRequest.compile (GitHub.registry { page := 0, nested := 4294967295 }) = .ok out ∧
        issueRequest.compile (GitHub.registry { page := 4294967295, nested := 0 }) = .ok out' ∧
        out.document = issueDocument "4294967295" "0" ∧ out'.document = issueDocument "0" "4294967295" ∧
        (∀ before after, out.document = before ++ "first: " ++ after →
          ∃ rest, after =
            (if "search(".toList <+: (lineAround before "first: " after).toList then "4294967295" else "0") ++ "," ++
              rest) ∧
        out'.declarations = out.declarations ∧ out'.resources = out.resources ∧ out'.skipped = out.skipped := by
  have hroot : GitHub.issues ∈ (GitHub.registry { page := 0, nested := 4294967295 }).ids := by
    rw [GitHub.ids_registry]
    decide
  have hwritten : (issueRequest.compile (GitHub.registry { page := 0, nested := 4294967295 })).map
      CompiledQuery.document = .ok (issueDocument "4294967295" "0") := by decide +kernel
  have hexchanged : (issueRequest.compile (GitHub.registry { page := 4294967295, nested := 0 })).map
      CompiledQuery.document = .ok (issueDocument "0" "4294967295") := by decide +kernel
  obtain ⟨out, hout, hsized, hothers⟩ :=
    page_sizes_exact { page := 0, nested := 4294967295 } (q := issueRequest) hroot rfl
  obtain ⟨out', hout', hsame⟩ := hothers { page := 4294967295, nested := 0 }
  rw [hout] at hwritten
  rw [hout'] at hexchanged
  refine ⟨hroot, out, out', hout, hout', Except.ok.inj hwritten, Except.ok.inj hexchanged, ?_, hsame⟩
  intro before after heq
  obtain ⟨rest, hrest⟩ := hsized before after heq
  refine ⟨rest, hrest.trans ?_⟩
  unfold PageLimits.sizeOn
  split <;> rfl

end ResourceQuery
