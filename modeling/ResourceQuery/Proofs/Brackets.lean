/-
Braces in a document.

A text is balanced if no brace is closed before it is opened, and none is left open. The two halves of a fragment with a
slot are not balanced on their own: the first leaves braces open that the second closes. So a text is read from a depth
to a depth, and whatever is balanced leaves the depth as it is, however deep the slot is that it stands in.

Results:
- `depthAfter_eq_some_iff`: a text can be read at a depth exactly if no beginning of it closes more than is open.
- `Fragment.balanced_render`: around balanced children a fragment is as balanced as it is alone.
- `Request.balanced_layout`: a root around balanced blocks, below a header without other braces, is balanced.
- `documents_balanced`: documents of balanced entries are balanced; and the built-in entries are balanced.
-/
import ResourceQuery.Proofs.BuiltIn

namespace ResourceQuery

variable {r : Registry} {q : Request} {m : Metadata} {n k : Nat} {cs : List Char} {text : String}

/-! ## Depths -/

/-- no brace is closed before it is opened, and none is left open -/
structure Balanced (text : String) : Prop where
  opened : ∀ part, part <+: text.toList → part.count '\x7d' ≤ part.count '\x7b'
  closed : text.toList.count '\x7b' = text.toList.count '\x7d'

def BraceFree (text : String) : Prop := '\x7b' ∉ text.toList ∧ '\x7d' ∉ text.toList

instance (text : String) : Decidable (BraceFree text) := inferInstanceAs (Decidable (_ ∧ _))

/-- the depth after one character; none if it closes a brace that is not open -/
def depthStep (n : Nat) (c : Char) : Option Nat :=
  if c = '\x7b' then some (n + 1)
  else if c = '\x7d' then if n = 0 then none else some (n - 1)
  else some n

/-- the depth after a text that is read at depth `n` -/
def depthAfter (n : Nat) (cs : List Char) : Option Nat := cs.foldlM depthStep n

theorem depthStep_eq_some_iff {c : Char} :
    depthStep n c = some k ↔ n + [c].count '\x7b' = k + [c].count '\x7d' := by
  unfold depthStep
  by_cases hopen : c = '\x7b'
  · simp [hopen, eq_comm]
  · by_cases hclose : c = '\x7d'
    · simp only [hclose, List.count_singleton_self]
      grind
    · simp [hopen, hclose]

theorem depthAfter_cons_eq_some_iff {c : Char} :
    depthAfter n (c :: cs) = some k ↔ ∃ j, depthStep n c = some j ∧ depthAfter j cs = some k :=
  Option.bind_eq_some_iff

theorem forall_prefix_cons {α : Type} {x : α} {xs : List α} {P : List α → Prop} :
    (∀ part, part <+: x :: xs → P part) ↔ P [] ∧ ∀ part, part <+: xs → P (x :: part) := by
  constructor
  · intro h
    exact ⟨h [] List.nil_prefix, fun part hpart => h _ (List.cons_prefix_cons.2 ⟨rfl, hpart⟩)⟩
  · intro h part hpart
    obtain ⟨hnil, hcons⟩ := h
    cases part with
    | nil => exact hnil
    | cons y part =>
      obtain ⟨hy, hpart⟩ := List.cons_prefix_cons.1 hpart
      rw [hy]
      exact hcons part hpart

/-- A text can be read at a depth exactly if no beginning of it closes more braces than are open by then. -/
theorem depthAfter_eq_some_iff :
    depthAfter n cs = some k ↔
      (∀ part, part <+: cs → part.count '\x7d' ≤ n + part.count '\x7b') ∧
        n + cs.count '\x7b' = k + cs.count '\x7d' := by
  induction cs generalizing n with
  | nil => simp [depthAfter]
  | cons c cs ih =>
    rw [depthAfter_cons_eq_some_iff, forall_prefix_cons]
    simp only [depthStep_eq_some_iff, ih, List.count_cons, List.count_nil, Nat.zero_add]
    generalize (if c == '\x7b' then 1 else 0) = opens
    generalize (if c == '\x7d' then 1 else 0) = closes
    constructor
    · intro h
      obtain ⟨j, hstep, hparts, htotal⟩ := h
      refine ⟨⟨Nat.zero_le _, ?_⟩, by omega⟩
      intro part hpart
      have := hparts part hpart
      omega
    · intro h
      obtain ⟨⟨-, hparts⟩, htotal⟩ := h
      have hfirst := hparts [] List.nil_prefix
      simp only [List.count_nil, Nat.zero_add] at hfirst
      refine ⟨n + opens - closes, by omega, ?_, by omega⟩
      intro part hpart
      have := hparts part hpart
      omega

theorem balanced_iff : Balanced text ↔ depthAfter 0 text.toList = some 0 := by
  rw [depthAfter_eq_some_iff]
  simp only [Nat.zero_add]
  exact ⟨fun h => ⟨h.opened, h.closed⟩, fun h => ⟨h.1, h.2⟩⟩

-- read once, not through all beginnings of the text
instance (text : String) : Decidable (Balanced text) := decidable_of_iff _ balanced_iff.symm

theorem depthAfter_append (n : Nat) (as bs : List Char) :
    depthAfter n (as ++ bs) = (depthAfter n as).bind fun k => depthAfter k bs :=
  List.foldlM_append

/-- what is balanced leaves every depth as it is -/
theorem Balanced.depthAfter_append (h : Balanced text) (n : Nat) (rest : List Char) :
    depthAfter n (text.toList ++ rest) = depthAfter n rest := by
  have hsame : depthAfter n text.toList = some n := by
    rw [depthAfter_eq_some_iff]
    refine ⟨?_, by rw [h.closed]⟩
    intro part hpart
    have := h.opened part hpart
    omega
  rw [ResourceQuery.depthAfter_append, hsame, Option.bind_some]

/-! ## Texts without braces -/

theorem BraceFree.balanced (h : BraceFree text) : Balanced text := by
  obtain ⟨hopen, hclose⟩ := h
  constructor
  · intro part hpart
    have hnone : '\x7d' ∉ part := fun hmem => hclose (hpart.subset hmem)
    rw [List.count_eq_zero_of_not_mem hnone]
    exact Nat.zero_le _
  · rw [List.count_eq_zero_of_not_mem hopen, List.count_eq_zero_of_not_mem hclose]

theorem BraceFree.append {a b : String} (ha : BraceFree a) (hb : BraceFree b) : BraceFree (a ++ b) := by
  unfold BraceFree at *
  simp only [String.toList_append, List.mem_append]
  tauto

theorem BraceFree.intercalate {separator : String} {texts : List String} (hs : BraceFree separator)
    (h : ∀ t ∈ texts, BraceFree t) : BraceFree (separator.intercalate texts) := by
  have hno : ∀ c, c ∉ separator.toList → (∀ t ∈ texts, c ∉ t.toList) →
      c ∉ (separator.intercalate texts).toList := by
    intro c hsep htexts hmem
    rcases mem_toList_intercalate hmem with hc | ⟨t, ht, hc⟩
    · exact hsep hc
    · exact htexts t ht hc
  exact ⟨hno _ hs.1 fun t ht => (h t ht).1, hno _ hs.2 fun t ht => (h t ht).2⟩

/-! ## Balanced texts put together -/

theorem Balanced.append {a b : String} (ha : Balanced a) (hb : Balanced b) : Balanced (a ++ b) := by
  rw [balanced_iff, String.toList_append, ha.depthAfter_append]
  exact balanced_iff.1 hb

theorem Balanced.intercalate {separator : String} {texts : List String} (hs : Balanced separator)
    (h : ∀ t ∈ texts, Balanced t) : Balanced (separator.intercalate texts) := by
  induction texts with
  | nil => exact balanced_iff.2 rfl
  | cons text texts ih =>
    cases texts with
    | nil => simpa using h
    | cons next texts =>
      rw [String.intercalate_cons_cons]
      exact ((h text List.mem_cons_self).append hs).append (ih fun t ht => h t (List.mem_cons_of_mem _ ht))

/-- Around balanced children a fragment is as balanced as it is alone: they leave the depth of the slot as it is. -/
theorem Fragment.balanced_render {f : Fragment} {children : String} (hf : Balanced (f.render ""))
    (hc : Balanced children) : Balanced (f.render children) := by
  cases f with
  | leaf text => exact hf
  | nested opening closing =>
    by_cases hempty : children = ""
    · rw [hempty]
      exact hf
    · have hbreak : Balanced "\n" := by decide
      rw [render_nested_empty, balanced_iff, String.toList_append, depthAfter_append] at hf
      obtain ⟨slot, hopening, hclosing⟩ := Option.bind_eq_some_iff.1 hf
      rw [render_nested_of_ne hempty, balanced_iff]
      simp only [String.toList_append, List.append_assoc]
      rw [depthAfter_append, hopening, Option.bind_some, hc.depthAfter_append, hbreak.depthAfter_append]
      exact hclosing

/-! ## Documents -/

/-- the fragment is balanced with nothing in its slot, and the declarations have no braces -/
structure Metadata.Bracketed (m : Metadata) : Prop where
  fragment : Balanced (m.fragment.render "")
  declarations : ∀ v ∈ m.declarations, BraceFree v.name ∧ BraceFree v.type

theorem Metadata.bracketed_iff : m.Bracketed ↔
    Balanced (m.fragment.render "") ∧ ∀ v ∈ m.declarations, BraceFree v.name ∧ BraceFree v.type :=
  ⟨fun h => ⟨h.fragment, h.declarations⟩, fun h => ⟨h.1, h.2⟩⟩

instance (m : Metadata) : Decidable m.Bracketed := decidable_of_iff _ Metadata.bracketed_iff.symm

/-- every entry is balanced -/
def Registry.Bracketed (r : Registry) : Prop := ∀ e ∈ r.entries.entries, e.2.Bracketed

instance (r : Registry) : Decidable r.Bracketed := inferInstanceAs (Decidable (∀ _ ∈ _, _))

theorem Registry.Bracketed.of_get? (h : r.Bracketed) {id : ResourceId} (hm : r.get? id = some m) : m.Bracketed :=
  h (id, m) (OrderedMap.get?_eq_some_iff.1 hm)

theorem Variable.braceFree_text {v : Variable} (hname : BraceFree v.name) (htype : BraceFree v.type) :
    BraceFree v.text :=
  (((by decide : BraceFree "$").append hname).append (by decide)).append htype

namespace Request

/-- the header opens one brace -/
theorem depthAfter_headerLine {declarations : List Variable}
    (h : ∀ v ∈ declarations, BraceFree v.name ∧ BraceFree v.type) (rest : List Char) :
    depthAfter 0 ((headerLine declarations).toList ++ rest) = depthAfter 1 rest := by
  unfold headerLine
  split
  · rw [depthAfter_append]
    rfl
  · have hlist : BraceFree (", ".intercalate (declarations.map Variable.text)) := by
      apply BraceFree.intercalate (by decide)
      intro text htext
      obtain ⟨v, hv, rfl⟩ := List.mem_map.1 htext
      exact Variable.braceFree_text (h v hv).1 (h v hv).2
    have hfirst : BraceFree "query (" := by decide
    rw [String.toList_append, List.append_assoc, (hfirst.append hlist).balanced.depthAfter_append, depthAfter_append]
    rfl

theorem balanced_block (hr : r.Bracketed) (hm : m.Bracketed) : Balanced (q.block r m) := by
  apply Fragment.balanced_render hm.fragment
  apply Balanced.intercalate (by decide)
  intro text htext
  obtain ⟨c, hc, rfl⟩ := List.mem_map.1 htext
  obtain ⟨id, -, hid⟩ := List.mem_filterMap.1 hc
  split at hid
  · obtain ⟨n, hn, rfl⟩ := Option.map_eq_some_iff.1 hid
    exact (hr.of_get? hn).fragment
  · cases hid

/-- The root stands at the depth of the header's brace, which the last line closes. -/
theorem balanced_layout {declarations : List Variable} (hr : r.Bracketed) (hm : m.Bracketed)
    (h : ∀ v ∈ declarations, BraceFree v.name ∧ BraceFree v.type) : Balanced (q.layout r m declarations) := by
  have hblocks : Balanced ("\n".intercalate ((q.topLevel r).map fun e => q.block r e.2)) := by
    apply Balanced.intercalate (by decide)
    intro text htext
    obtain ⟨e, he, rfl⟩ := List.mem_map.1 htext
    exact balanced_block hr (hr.of_get? (mem_topLevel_iff.1 he).2)
  have hroot := Fragment.balanced_render hm.fragment hblocks
  have hbreak : Balanced "\n" := by decide
  have hspread : Balanced "...rateLimit" := by decide
  rw [balanced_iff, layout, body]
  simp only [String.toList_append, List.append_assoc]
  rw [depthAfter_headerLine h, hbreak.depthAfter_append, hroot.depthAfter_append, hbreak.depthAfter_append,
    hspread.depthAfter_append, hbreak.depthAfter_append]
  rfl

theorem Answers.balanced {d : Draft} {out : CompiledQuery} (ha : q.Answers r m d out) (hr : r.Bracketed) :
    Balanced out.document := by
  rw [ha.document, document_eq_layout ha.drafted]
  apply balanced_layout hr (hr.of_get? ha.registered)
  intro v hv
  rw [← ha.declarations, ha.mem_declarations_iff] at hv
  obtain ⟨id, n, -, hn, hv⟩ := hv
  exact (hr.of_get? hn).declarations v hv

end Request

/-! ## The built-in registry -/

/-- the braces of a text, one after the other -/
def braces (text : String) : List Char := text.toList.filter fun c => c = '\x7b' ∨ c = '\x7d'

/-- only braces change the depth -/
theorem depthAfter_braces (n : Nat) (text : String) : depthAfter n (braces text) = depthAfter n text.toList := by
  unfold braces
  generalize text.toList = cs
  induction cs generalizing n with
  | nil => rfl
  | cons c cs ih =>
    have hcons : ∀ xs, depthAfter n (c :: xs) = (depthStep n c).bind fun k => depthAfter k xs := fun xs => rfl
    by_cases hc : c = '\x7b' ∨ c = '\x7d'
    · rw [List.filter_cons_of_pos (by simpa using hc), hcons, hcons]
      exact Option.bind_congr fun k _ => ih k
    · obtain ⟨hopen, hclose⟩ := not_or.1 hc
      have hstay : depthStep n c = some n := by simp [depthStep, hopen, hclose]
      rw [List.filter_cons_of_neg (by simpa using hc), ih, hcons, hstay, Option.bind_some]

theorem braces_append (a b : String) : braces (a ++ b) = braces a ++ braces b := by
  simp [braces]

theorem braces_ofList (cs : List Char) :
    braces (String.ofList cs) = cs.filter fun c => c = '\x7b' ∨ c = '\x7d' := by
  rw [braces, String.toList_ofList]

namespace GitHub

variable {field cursor nodeFields : String} {edgeFields : Option String}

/-- a page size is written without braces -/
theorem braces_pageArguments (page : UInt32) (cursor : String) :
    braces (pageArguments page cursor) = braces cursor := by
  have hdigits : (Nat.toDigits 10 page.toNat).filter (fun c => c = '\x7b' ∨ c = '\x7d') = [] := by
    rw [List.filter_eq_nil_iff]
    intro c hc hbrace
    have hdigit := Nat.isDigit_of_mem_toDigits (by decide) (by decide) hc
    rcases of_decide_eq_true hbrace with rfl | rfl
    · exact absurd hdigit (by decide)
    · exact absurd hdigit (by decide)
  have hrest : braces "(first: " = [] ∧ braces ", after: $" = [] := by decide
  have hpage : braces (toString page.toNat) = [] := by simpa [braces] using hdigits
  rw [pageArguments, braces_append, braces_append, braces_append, hpage, hrest.1, hrest.2]
  rfl

theorem braces_pageInfo : braces pageInfo = ['\x7b', '\x7d'] := braces_ofList _

/-- a connection opens three braces before its nodes, and closes one of them before the fields of the edges -/
theorem braces_connection (page : UInt32) :
    braces ((connection field page cursor nodeFields edgeFields).render "") =
      braces field ++ braces cursor ++ ['\x7b', '\x7b', '\x7b'] ++ braces nodeFields ++ ['\x7d'] ++
        braces (edgeFields.getD "") ++ ['\x7d', '\x7b', '\x7d', '\x7d'] := by
  have hnode : braces ") \x7b\nedges \x7b\nnode \x7b\n" = ['\x7b', '\x7b', '\x7b'] := braces_ofList _
  have hbreak : braces "\n" = [] := braces_ofList _
  have hclose : braces "\x7d\n" = ['\x7d'] := braces_ofList _
  have hlast : braces "\n\x7d" = ['\x7d'] := braces_ofList _
  have hedge : braces ((edgeFields.map (· ++ "\n")).getD "") = braces (edgeFields.getD "") := by
    cases edgeFields with
    | none => rfl
    | some edge => simp [braces_append, hbreak]
  simp only [connection, Fragment.render_nested_empty, braces_append, braces_pageArguments, braces_pageInfo, hnode,
    hbreak, hclose, hlast, hedge, List.append_nil, List.append_assoc, List.cons_append, List.nil_append]

/-- on one type of node there is one more brace around the connection -/
theorem braces_inlineConnection (page : UInt32) (onType : String) :
    braces ((inlineConnection onType field page cursor nodeFields).render "") =
      braces onType ++ ['\x7b'] ++ braces field ++ braces cursor ++ ['\x7b', '\x7b', '\x7b'] ++ braces nodeFields ++
        ['\x7d', '\x7d', '\x7b', '\x7d', '\x7d', '\x7d'] := by
  have hon : braces "... on " = [] := braces_ofList _
  have htype : braces " \x7b\n" = ['\x7b'] := braces_ofList _
  have hnode : braces ") \x7b\ntotalCount\nedges \x7b\nnode \x7b\n" = ['\x7b', '\x7b', '\x7b'] :=
    braces_ofList _
  have hclose : braces "\n\x7d\n\x7d\n" = ['\x7d', '\x7d'] := braces_ofList _
  have hlast : braces "\n\x7d\n\x7d" = ['\x7d', '\x7d'] := braces_ofList _
  simp only [inlineConnection, Fragment.render_leaf, braces_append, braces_pageArguments, braces_pageInfo, hon, htype,
    hnode, hclose, hlast, List.append_assoc, List.cons_append, List.nil_append]

theorem braces_issueSearch (page : UInt32) :
    braces ((issueSearch page cursor nodeFields).render "") =
      braces cursor ++ ['\x7b', '\x7b', '\x7b'] ++ braces nodeFields ++
        ['\x7d', '\x7d', '\x7b', '\x7d', '\x7d'] := by
  have hsearch : braces "search" = [] := braces_ofList _
  have hnode : braces ", type: ISSUE, query: $query) \x7b\nissueCount\nedges \x7b\nnode \x7b\n" =
      ['\x7b', '\x7b', '\x7b'] := braces_ofList _
  have hbreak : braces "\n" = [] := braces_ofList _
  have hclose : braces "\x7d\n\x7d\n" = ['\x7d', '\x7d'] := braces_ofList _
  have hlast : braces "\n\x7d" = ['\x7d'] := braces_ofList _
  simp only [issueSearch, Fragment.render_nested_empty, braces_append, braces_pageArguments, braces_pageInfo, hsearch,
    hnode, hbreak, hclose, hlast, List.append_assoc, List.cons_append, List.nil_append]

/-- Of an entry's text only the page sizes are open; its braces are counted as they stand. -/
theorem balanced_entries (limits : PageLimits) : ∀ e ∈ entries limits, Balanced e.2.text := by
  intro e he
  rw [balanced_iff, ← depthAfter_braces]
  revert e
  have hrepository :
      braces "repository(name: $repoName, owner: $repoOwner) \x7b\npullRequest(number: $pullRequestNumber) \x7b\n" =
        ['\x7b', '\x7b'] := braces_ofList _
  have horganization :
      braces "organization(login: $login) \x7b\nid\n...organizationFields\n" = ['\x7b'] := braces_ofList _
  simp only [entries, List.forall_mem_cons, List.not_mem_nil, false_imp_iff, implies_true, and_true, connectionEntry,
    inlineEntry, searchEntry, Metadata.text, braces_connection, braces_inlineConnection, braces_issueSearch,
    Fragment.render_nested_empty, braces_append, hrepository, horganization]
  decide +kernel

theorem registry_bracketed (limits : PageLimits) : (registry limits).Bracketed := by
  intro e he
  rw [entries_registry] at he
  refine ⟨balanced_entries limits e he, ?_⟩
  exact forall_entries limits (P := fun e => ∀ v ∈ e.2.declarations, BraceFree v.name ∧ BraceFree v.type) (by decide)
    e he

end GitHub

/-! ## Main result -/

/-- **Well-bracketed documents.** If the fragments of a registry are balanced with nothing in their slots, and its
declarations have no braces, then every document is balanced. The built-in registry is of this kind for all page
sizes. -/
theorem documents_balanced :
    (∀ (r : Registry) (q : Request) (out : CompiledQuery), r.Bracketed → q.compile r = .ok out →
      Balanced out.document) ∧
    ∀ limits, (GitHub.registry limits).Bracketed := by
  refine ⟨?_, GitHub.registry_bracketed⟩
  intro r q out hr h
  obtain ⟨root, d, ha⟩ := Request.compile_eq_ok_iff.1 h
  exact ha.balanced hr

theorem org_document_balanced :
    orgRegistry.Bracketed ∧ orgRequest.compile orgRegistry = .ok orgAnswer ∧ Balanced orgAnswer.document := by
  have hr : orgRegistry.Bracketed := by decide +kernel
  exact ⟨hr, org_compiles, documents_balanced.1 orgRegistry orgRequest orgAnswer hr org_compiles⟩

end ResourceQuery
