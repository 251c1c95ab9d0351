/-
The variables that a document uses.

A text uses a variable by its name after a dollar sign, and the name ends at the first character that no name has. So a
text may be cut at any place that a name cannot cross, and what it uses is what its pieces use. Documents are put
together at line breaks and declarations at colons and commas, which are such places.

Results:
- `runs_append`: a scan goes through the pieces of a text, if no name runs on from one into the next.
- `runs_intercalate`: a scan of texts with a separator goes through the texts.
- `mem_runs_body_iff`: the lines below the header use what the fragments of the covered resources use.
- `runs_headerLine`: the header uses the names that it declares.
- `Answers.uses_iff_declares`: in a document of self-consistent entries the names used are the names declared.
-/
import ResourceQuery.Proofs.Declarations
import ResourceQuery.Proofs.TextPieces

namespace ResourceQuery

variable {r : Registry} {q : Request} {d : Draft} {m : Metadata}

/-! ## The names that a text uses -/

/-- for each dollar sign, what follows it up to the first character that no name has -/
def runs : List Char → List (List Char)
  | [] => []
  | c :: cs => if c = '$' then cs.takeWhile isNameChar :: runs cs else runs cs

/-- the names that a text uses; a dollar sign that no name follows uses none -/
def usedNames (text : String) : List String := ((runs text.toList).filter (· ≠ [])).map String.ofList

theorem mem_usedNames_iff {text name : String} :
    name ∈ usedNames text ↔ name ≠ "" ∧ name.toList ∈ runs text.toList := by
  simp only [usedNames, List.mem_map, List.mem_filter, decide_eq_true_eq]
  constructor
  · rintro ⟨run, ⟨hrun, hne⟩, rfl⟩
    exact ⟨by simpa using hne, by simpa using hrun⟩
  · rintro ⟨hne, hrun⟩
    exact ⟨name.toList, ⟨hrun, by simpa using hne⟩, String.ofList_toList⟩

/-! ## Scanning a text in pieces -/

theorem runs_append (as : List Char) {bs : List Char} (h : EndsName bs) : runs (as ++ bs) = runs as ++ runs bs := by
  induction as with
  | nil => rfl
  | cons a as ih =>
    rw [List.cons_append, runs, runs, ih, takeWhile_append_of_head as h]
    split <;> rfl

theorem runs_append_of_notMem {as : List Char} (h : '$' ∉ as) (bs : List Char) : runs (as ++ bs) = runs bs := by
  induction as with
  | nil => rfl
  | cons a as ih =>
    simp only [List.mem_cons, not_or] at h
    rw [List.cons_append, runs, if_neg (Ne.symm h.1), ih h.2]

theorem runs_eq_nil {as : List Char} (h : '$' ∉ as) : runs as = [] := by
  simpa [runs] using runs_append_of_notMem h []

/-- a name after a dollar sign, up to where it ends -/
theorem runs_name {name : String} (hname : IsName name) {rest : List Char} (hrest : EndsName rest) :
    runs ('$' :: (name.toList ++ rest)) = name.toList :: runs rest := by
  have hrun : (name.toList ++ rest).takeWhile isNameChar = name.toList := by
    rw [takeWhile_append_of_head _ hrest]
    exact List.takeWhile_eq_self_iff.2 hname.2
  rw [runs, if_pos rfl, hrun, runs_append_of_notMem (hname.notMem (by decide))]

/-- text that ends the name before it and uses none itself -/
def Separates (separator : List Char) : Prop :=
  '$' ∉ separator ∧ ∃ c ∈ separator.head?, isNameChar c = false

theorem Separates.endsName {separator : List Char} (h : Separates separator) (bs : List Char) :
    EndsName (separator ++ bs) := by
  obtain ⟨-, c, hc, hstop⟩ := h
  obtain ⟨rest, rfl⟩ := List.head?_eq_some_iff.1 hc
  intro b hb
  cases hb
  exact hstop

theorem runs_separated {separator : List Char} (h : Separates separator) (as bs : List Char) :
    runs (as ++ (separator ++ bs)) = runs as ++ runs bs := by
  rw [runs_append as (h.endsName bs), runs_append_of_notMem h.1]

theorem runs_intercalate {separator : String} (h : Separates separator.toList) (texts : List String) :
    runs (separator.intercalate texts).toList = texts.flatMap fun text => runs text.toList := by
  induction texts with
  | nil => rfl
  | cons text texts ih =>
    cases texts with
    | nil => simp
    | cons next texts =>
      rw [String.intercalate_cons_cons, String.toList_append, String.toList_append, List.append_assoc,
        runs_separated h, ih]
      rfl

theorem separates_lineBreak : Separates "\n".toList := ⟨by decide, '\n', rfl, by decide⟩

theorem separates_comma : Separates ", ".toList := ⟨by decide, ',', rfl, by decide⟩

/-! ## Self-consistent entries -/

/-- the slot, if there is one, is at the start of a line -/
def Fragment.OpensLine : Fragment → Prop
  | leaf _ => True
  | nested opening _ => opening.toList.getLast? = some '\n'

instance : (f : Fragment) → Decidable f.OpensLine
  | .leaf _ => inferInstanceAs (Decidable True)
  | .nested opening _ => inferInstanceAs (Decidable (opening.toList.getLast? = some '\n'))

theorem Fragment.opensLine_nested (line closing : String) : (nested (line ++ "\n") closing).OpensLine := by
  simp [OpensLine]

/-- the text before a slot at the start of a line -/
theorem Fragment.OpensLine.exists_line {opening closing : String} (h : (Fragment.nested opening closing).OpensLine) :
    ∃ line, opening = line ++ "\n" := by
  obtain ⟨line, hline⟩ := List.getLast?_eq_some_iff.1 h
  refine ⟨String.ofList line, ?_⟩
  rw [← String.toList_inj, hline]
  simp

namespace Metadata

/-- the text of the fragment, with nothing in its slot -/
def text (m : Metadata) : String := m.fragment.render ""

def declaredNames (m : Metadata) : List String := m.declarations.map Variable.name

/-- The fragment uses exactly the names that are declared with it. These are names, and the slot is on a line of its
own. -/
structure SelfConsistent (m : Metadata) : Prop where
  declared : ∀ name ∈ usedNames m.text, name ∈ m.declaredNames
  used : ∀ name ∈ m.declaredNames, name ∈ usedNames m.text
  names : ∀ name ∈ m.declaredNames, IsName name
  opensLine : m.fragment.OpensLine

theorem selfConsistent_iff : m.SelfConsistent ↔
    (∀ name ∈ usedNames m.text, name ∈ m.declaredNames) ∧ (∀ name ∈ m.declaredNames, name ∈ usedNames m.text) ∧
      (∀ name ∈ m.declaredNames, IsName name) ∧ m.fragment.OpensLine :=
  ⟨fun h => ⟨h.declared, h.used, h.names, h.opensLine⟩, fun ⟨hd, hu, hn, ho⟩ => ⟨hd, hu, hn, ho⟩⟩

instance (m : Metadata) : Decidable m.SelfConsistent := decidable_of_iff _ selfConsistent_iff.symm

end Metadata

/-- every entry is self-consistent -/
def Registry.SelfConsistent (r : Registry) : Prop := ∀ e ∈ r.entries.entries, e.2.SelfConsistent

instance (r : Registry) : Decidable r.SelfConsistent := inferInstanceAs (Decidable (∀ _ ∈ _, _))

theorem Registry.SelfConsistent.of_get? (h : r.SelfConsistent) {id : ResourceId} (hm : r.get? id = some m) :
    m.SelfConsistent :=
  h (id, m) (OrderedMap.get?_eq_some_iff.1 hm)

/-- a type of one line, without a dollar sign -/
def Variable.PlainType (v : Variable) : Prop := '$' ∉ v.type.toList ∧ '\n' ∉ v.type.toList

instance (v : Variable) : Decidable v.PlainType := inferInstanceAs (Decidable (_ ∧ _))

/-! ## The lines below the header -/

/-- Around its slot a fragment uses what it uses alone. It is cut at the start of the line of the slot and at the line
break after the children. -/
theorem Fragment.mem_runs_render_iff {f : Fragment} (hf : f.OpensLine) (children : String) {run : List Char} :
    run ∈ runs (f.render children).toList ↔
      run ∈ runs (f.render "").toList ∨ f.acceptsChildren = true ∧ run ∈ runs children.toList := by
  cases f with
  | leaf text => simp [acceptsChildren]
  | nested opening closing =>
    obtain ⟨line, rfl⟩ := hf.exists_line
    have hopening : ∀ rest, runs (line.toList ++ ("\n".toList ++ rest)) = runs line.toList ++ runs rest :=
      runs_separated separates_lineBreak line.toList
    by_cases hc : children = ""
    · simp [hc, runs]
    · rw [render_nested_of_ne hc, render_nested_empty]
      simp only [String.toList_append, List.append_assoc, hopening, runs_separated separates_lineBreak, List.mem_append,
        acceptsChildren, true_and]
      tauto

namespace Request

theorem mem_runs_block_iff (hr : r.SelfConsistent) {t : ResourceId} (hm : r.get? t = some m) {run : List Char} :
    run ∈ runs (q.block r m).toList ↔
      run ∈ runs m.text.toList ∨ ∃ c ∈ q.embeddedChildren r m, run ∈ runs c.2.text.toList := by
  rw [block, Fragment.mem_runs_render_iff (hr.of_get? hm).opensLine, runs_intercalate separates_lineBreak,
    embeddedChildren]
  cases m.fragment.acceptsChildren <;> simp [Metadata.text]

/-- below the header a document uses what the fragments of the covered resources use -/
theorem mem_runs_body_iff (hr : r.SelfConsistent) (hm : r.get? q.root = some m)
    (hslot : m.fragment.acceptsChildren = true) {run : List Char} :
    run ∈ runs (q.body r m).toList ↔ ∃ id n, q.Covers r id ∧ r.get? id = some n ∧ run ∈ runs n.text.toList := by
  have hbody : runs (q.body r m).toList =
      runs (m.fragment.render ("\n".intercalate ((q.topLevel r).map fun e => q.block r e.2))).toList := by
    have hrest : runs ("...rateLimit".toList ++ ("\n".toList ++ "\x7d".toList)) = [] := runs_eq_nil (by decide)
    simp only [body, String.toList_append, List.append_assoc]
    rw [runs_separated separates_lineBreak, hrest, List.append_nil]
  have hblocks : (∃ e ∈ q.topLevel r, run ∈ runs (q.block r e.2).toList) ↔
      ∃ e ∈ q.topLevel r, run ∈ runs e.2.text.toList ∨ ∃ c ∈ q.embeddedChildren r e.2, run ∈ runs c.2.text.toList :=
    exists_congr fun e => and_congr_right fun he => mem_runs_block_iff hr (mem_topLevel_iff.1 he).2
  rw [hbody, Fragment.mem_runs_render_iff (hr.of_get? hm).opensLine, runs_intercalate separates_lineBreak,
    exists_covered_iff hm (run ∈ runs ·.text.toList), ← hblocks]
  simp [hslot, Metadata.text]

end Request

/-! ## The header -/

/-- a declaration uses its own name -/
theorem Variable.runs_text {v : Variable} (hname : IsName v.name) (htype : v.PlainType) :
    runs v.text.toList = [v.name.toList] := by
  have htext : v.text.toList = '$' :: (v.name.toList ++ (": ".toList ++ v.type.toList)) := by
    simp [Variable.text]
  have hcolon : Separates ": ".toList := ⟨by decide, ':', rfl, by decide⟩
  rw [htext, runs_name hname (hcolon.endsName _), runs_append_of_notMem hcolon.1, runs_eq_nil htype.1]

theorem Variable.lineBreak_notMem_text {v : Variable} (hname : IsName v.name) (htype : v.PlainType) :
    '\n' ∉ v.text.toList := by
  have hn : '\n' ∉ v.name.toList := hname.notMem (by decide)
  simp [Variable.text, hn, htype.2]

namespace Request

variable {declarations : List Variable}

/-- the header uses the names that it declares, in their order -/
theorem runs_headerLine (h : ∀ v ∈ declarations, IsName v.name ∧ v.PlainType) :
    runs (headerLine declarations).toList = declarations.map fun v => v.name.toList := by
  unfold headerLine
  split
  · rename_i hnil
    subst hnil
    exact runs_eq_nil (by decide)
  · have hclose : Separates ") \x7b".toList := ⟨by decide, ')', rfl, by decide⟩
    have hlist : runs (", ".intercalate (declarations.map Variable.text)).toList =
        declarations.map fun v => v.name.toList := by
      rw [runs_intercalate separates_comma, List.flatMap_map, List.map_eq_flatMap]
      exact List.flatMap_congr fun v hv => Variable.runs_text (h v hv).1 (h v hv).2
    rw [String.toList_append, String.toList_append, List.append_assoc, runs_append_of_notMem (by decide),
      ← List.append_nil ") \x7b".toList, runs_separated hclose, hlist]
    simp [runs]

theorem lineBreak_notMem_headerLine (h : ∀ v ∈ declarations, IsName v.name ∧ v.PlainType) :
    '\n' ∉ (headerLine declarations).toList := by
  unfold headerLine
  split
  · decide
  · have hlist : '\n' ∉ (", ".intercalate (declarations.map Variable.text)).toList := by
      intro hmem
      rcases mem_toList_intercalate hmem with hmem | ⟨text, htext, hmem⟩
      · exact absurd hmem (by decide)
      · obtain ⟨v, hv, rfl⟩ := List.mem_map.1 htext
        exact Variable.lineBreak_notMem_text (h v hv).1 (h v hv).2 hmem
    simp only [String.toList_append, List.mem_append, hlist, or_false]
    decide

end Request

/-! ## Documents -/

/-- every dollar sign is followed by a name -/
def DollarsNamed (text : String) : Prop := [] ∉ runs text.toList

instance (text : String) : Decidable (DollarsNamed text) := inferInstanceAs (Decidable (¬ _))

namespace Request

variable {out : CompiledQuery}

theorem Answers.isName (h : q.Answers r m d out) (hr : r.SelfConsistent) {v : Variable} (hv : v ∈ out.declarations) :
    IsName v.name := by
  obtain ⟨id, n, -, hn, hv⟩ := h.mem_declarations_iff.1 hv
  exact (hr.of_get? hn).names _ (List.mem_map_of_mem hv)

/-- the names declared are those that the fragments of the covered resources use -/
theorem Answers.mem_names_iff (h : q.Answers r m d out) (hr : r.SelfConsistent) {name : String} :
    name ∈ out.declarations.map Variable.name ↔
      ∃ id n, q.Covers r id ∧ r.get? id = some n ∧ name ∈ usedNames n.text := by
  simp only [List.mem_map, h.mem_declarations_iff]
  constructor
  · rintro ⟨v, ⟨id, n, hid, hn, hv⟩, rfl⟩
    exact ⟨id, n, hid, hn, (hr.of_get? hn).used _ (List.mem_map_of_mem hv)⟩
  · rintro ⟨id, n, hid, hn, hused⟩
    obtain ⟨v, hv, rfl⟩ := List.mem_map.1 ((hr.of_get? hn).declared _ hused)
    exact ⟨v, ⟨id, n, hid, hn, hv⟩, rfl⟩

/-- what an answer's document consists of -/
theorem Answers.lines (h : q.Answers r m d out) (hr : r.SelfConsistent) (htypes : ∀ v ∈ out.declarations, v.PlainType) :
    firstLine out.document = headerLine out.declarations ∧ belowFirstLine out.document = q.body r m := by
  have hbreak : '\n' ∉ (headerLine out.declarations).toList :=
    lineBreak_notMem_headerLine fun v hv => ⟨h.isName hr hv, htypes v hv⟩
  have hlayout : out.document = headerLine out.declarations ++ "\n" ++ q.body r m := by
    rw [h.document, h.declarations]
    exact document_eq_layout h.drafted
  rw [hlayout]
  exact firstLine_and_below_append hbreak _

/-- In a document of self-consistent entries, the header uses the names that it declares, and the lines below use the
same names. -/
theorem Answers.uses_iff_declares (h : q.Answers r m d out) (hr : r.SelfConsistent)
    (hslot : m.fragment.acceptsChildren = true) (htypes : ∀ v ∈ out.declarations, v.PlainType) {name : String} :
    (name ∈ usedNames (firstLine out.document) ↔ name ∈ out.declarations.map Variable.name) ∧
      (name ∈ usedNames (belowFirstLine out.document) ↔ name ∈ out.declarations.map Variable.name) := by
  obtain ⟨hfirst, hbelow⟩ := h.lines hr htypes
  constructor
  · rw [hfirst, mem_usedNames_iff, runs_headerLine fun v hv => ⟨h.isName hr hv, htypes v hv⟩]
    simp only [List.mem_map, String.toList_inj]
    constructor
    · rintro ⟨-, hname⟩
      exact hname
    · rintro ⟨v, hv, rfl⟩
      exact ⟨(h.isName hr hv).1, v, hv, rfl⟩
  · rw [hbelow, h.mem_names_iff hr, mem_usedNames_iff, mem_runs_body_iff hr h.registered hslot]
    simp only [mem_usedNames_iff]
    constructor
    · rintro ⟨hne, id, n, hid, hn, hrun⟩
      exact ⟨id, n, hid, hn, hne, hrun⟩
    · rintro ⟨id, n, hid, hn, hne, hrun⟩
      exact ⟨hne, id, n, hid, hn, hrun⟩

/-- a document has a dollar sign without a name only where an entry has one -/
theorem Answers.dollarsNamed (h : q.Answers r m d out) (hr : r.SelfConsistent)
    (hslot : m.fragment.acceptsChildren = true) (htypes : ∀ v ∈ out.declarations, v.PlainType)
    (hdollars : ∀ e ∈ r.entries.entries, DollarsNamed e.2.text) : DollarsNamed (belowFirstLine out.document) := by
  rw [(h.lines hr htypes).2]
  intro hbare
  obtain ⟨id, n, -, hn, hbare⟩ := (mem_runs_body_iff hr h.registered hslot).1 hbare
  exact hdollars (id, n) (OrderedMap.get?_eq_some_iff.1 hn) hbare

end Request

end ResourceQuery
