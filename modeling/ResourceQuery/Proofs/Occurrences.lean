/-
Where a pattern occurs in a text.

No occurrence of a pattern crosses a character that the pattern does not have. So a text may be cut at such a character,
and the pattern occurs in it where it occurs in one of the pieces. Documents are put together at line breaks: what goes
line by line and is said of the fragments, each on its own, is said of the whole document below its header.

Results:
- `occurs_append_iff`: an occurrence is on one side of a character that the pattern does not have.
- `piecewise_absent`: a pattern is absent from a text if it is absent from its pieces.
- `Piecewise.rootText`: what goes line by line and holds of all fragments holds of the root with everything below it.
-/
import Mathlib.Data.List.Infix
import ResourceQuery.Proofs.VariableUse

namespace ResourceQuery

variable {pattern separator : String} {r : Registry} {q : Request} {m : Metadata}

/-! ## Occurrences -/

/-- An occurrence of `cs` ends before a character that is not in it, or starts after it. -/
theorem append_cons_eq_iff {cs as bs before after : List Char} {c : Char} (h : c ∉ cs) :
    as ++ c :: bs = before ++ (cs ++ after) ↔
      (∃ rest, as = before ++ (cs ++ rest) ∧ after = rest ++ c :: bs) ∨
        ∃ start, bs = start ++ (cs ++ after) ∧ before = as ++ c :: start := by
  constructor
  · intro heq
    rw [← List.append_assoc] at heq
    rcases List.append_eq_append_iff.1 heq with ⟨extra, hextra, hrest⟩ | ⟨rest, has, hafter⟩
    · cases extra with
      | nil =>
        rw [List.append_nil] at hextra
        exact .inl ⟨[], by rw [List.append_nil, hextra], hrest.symm⟩
      | cons x extra =>
        -- the occurrence ends behind the character, so it starts behind it as well
        obtain ⟨rfl, rfl⟩ := List.cons.inj hrest
        rcases List.append_eq_append_iff.1 hextra with ⟨part, hpart, hcs⟩ | ⟨start, hbefore, hcs⟩
        · rw [hcs] at h
          exact absurd (List.mem_append_right part List.mem_cons_self) h
        · cases start with
          | nil =>
            rw [List.nil_append] at hcs
            rw [← hcs] at h
            exact absurd List.mem_cons_self h
          | cons y start =>
            obtain ⟨rfl, rfl⟩ := List.cons.inj hcs
            exact .inr ⟨start, List.append_assoc _ _ _, hbefore⟩
    · exact .inl ⟨rest, by rw [has, List.append_assoc], hafter⟩
  · rintro (⟨rest, rfl, rfl⟩ | ⟨start, rfl, rfl⟩) <;> simp

/-- a pattern occurs on one side of a separator of one character that it does not have -/
theorem occurs_append_iff {c : Char} (hseparator : separator.toList = [c]) (h : c ∉ pattern.toList)
    {a b before after : String} :
    a ++ separator ++ b = before ++ pattern ++ after ↔
      (∃ rest, a = before ++ pattern ++ rest ∧ after = rest ++ separator ++ b) ∨
        ∃ start, b = start ++ pattern ++ after ∧ before = a ++ separator ++ start := by
  simp only [← String.toList_inj, String.toList_append, hseparator, List.append_assoc, List.singleton_append,
    append_cons_eq_iff h]
  constructor
  · rintro (⟨rest, ha, hafter⟩ | ⟨start, hb, hbefore⟩)
    · exact .inl ⟨String.ofList rest, by simpa using ha, by simpa using hafter⟩
    · exact .inr ⟨String.ofList start, by simpa using hb, by simpa using hbefore⟩
  · rintro (⟨rest, h⟩ | ⟨start, h⟩)
    · exact .inl ⟨rest.toList, h⟩
    · exact .inr ⟨start.toList, h⟩

/-- the pattern does not occur in the text -/
def Absent (pattern text : String) : Prop := ¬ pattern.toList <:+: text.toList

instance (pattern text : String) : Decidable (Absent pattern text) := inferInstanceAs (Decidable (¬ _))

theorem Absent.ne {text before after : String} (h : Absent pattern text) : text ≠ before ++ pattern ++ after := by
  rintro rfl
  exact h ⟨before.toList, after.toList, by simp only [String.toList_append]⟩

theorem Absent.mono {text part : String} (h : Absent pattern text) (hpart : part.toList <:+: text.toList) :
    Absent pattern part :=
  fun hmem => h (hmem.trans hpart)

theorem absent_of_notMem {text : String} {c : Char} (hc : c ∈ pattern.toList) (h : c ∉ text.toList) :
    Absent pattern text :=
  fun hmem => h (hmem.subset hc)

/-! ## Texts in pieces -/

/-- a property that a text has exactly if its pieces between separators have it -/
structure Piecewise (separator : String) (P : String → Prop) : Prop where
  empty : P ""
  append : ∀ a b, P (a ++ separator ++ b) ↔ P a ∧ P b

/-- no character of the separator is in the pattern -/
structure Apart (separator pattern : String) : Prop where
  ne : separator ≠ ""
  notMem : ∀ c ∈ separator.toList, c ∉ pattern.toList

theorem infix_separated_iff {ps cs : List Char} (hps : ps ≠ []) (hcs : cs ≠ []) (h : ∀ c ∈ cs, c ∉ ps)
    (as bs : List Char) : ps <:+: as ++ (cs ++ bs) ↔ ps <:+: as ∨ ps <:+: bs := by
  have hone : ∀ (c : Char) (as bs : List Char), c ∉ ps → (ps <:+: as ++ c :: bs ↔ ps <:+: as ∨ ps <:+: bs) := by
    intro c as bs hc
    constructor
    · rintro ⟨before, after, heq⟩
      rw [List.append_assoc] at heq
      rcases (append_cons_eq_iff hc).1 heq.symm with ⟨rest, rfl, -⟩ | ⟨start, rfl, -⟩
      · exact .inl ⟨before, rest, List.append_assoc _ _ _⟩
      · exact .inr ⟨start, after, List.append_assoc _ _ _⟩
    · rintro (h | h)
      · exact List.infix_append_of_infix_left h
      · exact List.infix_append_of_infix_right (List.infix_cons h)
  induction cs generalizing as with
  | nil => exact absurd rfl hcs
  | cons c cs ih =>
    have hc := h c List.mem_cons_self
    rw [List.cons_append, hone c as (cs ++ bs) hc]
    cases cs with
    | nil => rfl
    | cons d cs =>
      have hrest := ih (List.cons_ne_nil d cs) (fun x hx => h x (List.mem_cons_of_mem c hx)) []
      rw [List.nil_append, List.infix_nil, or_iff_right hps] at hrest
      exact or_congr_right hrest

/-- a pattern is absent from a text exactly if it is absent from its pieces -/
theorem piecewise_absent (hpattern : pattern ≠ "") (h : Apart separator pattern) :
    Piecewise separator (Absent pattern) where
  empty := by
    rw [Absent, String.toList_empty, List.infix_nil, String.toList_eq_nil_iff]
    exact hpattern
  append a b := by
    rw [Absent, String.toList_append, String.toList_append, List.append_assoc,
      infix_separated_iff (mt String.toList_eq_nil_iff.1 hpattern) (mt String.toList_eq_nil_iff.1 h.ne) h.notMem,
      not_or]
    rfl

namespace Piecewise

variable {P : String → Prop}

theorem intercalate (h : Piecewise separator P) {texts : List String} :
    P (separator.intercalate texts) ↔ ∀ text ∈ texts, P text := by
  induction texts with
  | nil => simp [h.empty]
  | cons text texts ih =>
    cases texts with
    | nil => simp
    | cons next texts => rw [String.intercalate_cons_cons, h.append, ih, List.forall_mem_cons (a := text)]

/-- What goes line by line, and holds of a fragment alone and of its children, holds of the fragment around them. -/
theorem render (h : Piecewise "\n" P) {f : Fragment} (hf : f.OpensLine) (halone : P (f.render "")) {children : String}
    (hchildren : P children) : P (f.render children) := by
  cases f with
  | leaf text => exact halone
  | nested opening closing =>
    obtain ⟨line, rfl⟩ := hf.exists_line
    rw [Fragment.render_nested_empty, h.append] at halone
    by_cases hempty : children = ""
    · rw [hempty, Fragment.render_nested_empty, h.append]
      exact halone
    · rw [Fragment.render_nested_of_ne hempty, h.append, h.append]
      exact ⟨⟨halone.1, hchildren⟩, halone.2⟩

end Piecewise

/-! ## Documents -/

/-- the slot is at the start of a line, and the fragment alone has the property -/
structure Metadata.Fits (P : String → Prop) (m : Metadata) : Prop where
  opensLine : m.fragment.OpensLine
  text : P m.text

namespace Request

/-- the blocks of the top level, one below the other -/
def blocks (q : Request) (r : Registry) : String := "\n".intercalate ((q.topLevel r).map fun e => q.block r e.2)

/-- the root's fragment around everything that is selected below it -/
def rootText (q : Request) (r : Registry) (root : Metadata) : String := root.fragment.render (q.blocks r)

theorem layout_eq (q : Request) (r : Registry) (root : Metadata) (declarations : List Variable) :
    q.layout r root declarations =
      headerLine declarations ++ "\n" ++ q.rootText r root ++ "\n" ++ "...rateLimit" ++ "\n\x7d" := by
  have hlast : ("\n" : String) ++ "\x7d" = "\n\x7d" := by rfl
  rw [layout, body, rootText, blocks, ← hlast]
  simp only [String.append_assoc]

/-- A pattern without a comma is absent from a list if it is absent from its items, each with the blank before it. -/
theorem absent_commaList (hpattern : pattern ≠ "") (hcomma : ',' ∉ pattern.toList) (hblank : Absent pattern " ")
    {texts : List String} (h : ∀ text ∈ texts, Absent pattern (" " ++ text)) :
    Absent pattern (" " ++ ", ".intercalate texts) := by
  have hpieces : Piecewise "," (Absent pattern) := piecewise_absent hpattern ⟨by decide, by simpa using hcomma⟩
  induction texts with
  | nil => exact hblank
  | cons text texts ih =>
    cases texts with
    | nil => simpa using h
    | cons next texts =>
      have htexts : " " ++ ", ".intercalate (text :: next :: texts) =
          (" " ++ text) ++ "," ++ (" " ++ ", ".intercalate (next :: texts)) := by
        have hseparator : (", " : String) = "," ++ " " := by rfl
        simp only [String.intercalate_cons_cons, hseparator, String.append_assoc]
      rw [htexts, hpieces.append]
      exact ⟨h text List.mem_cons_self, ih fun t ht => h t (List.mem_cons_of_mem _ ht)⟩

/-- A pattern without brackets and commas is absent from a header if it is absent from the declarations. -/
theorem absent_headerLine {declarations : List Variable} (hpattern : pattern ≠ "")
    (hmarks : ∀ c ∈ ['(', ',', ')'], c ∉ pattern.toList)
    (hframe : Absent pattern "query \x7b" ∧ Absent pattern "query " ∧ Absent pattern " \x7b")
    (h : ∀ v ∈ declarations, Absent pattern (" " ++ v.text)) : Absent pattern (headerLine declarations) := by
  obtain ⟨hempty, hquery, hbrace⟩ := hframe
  have hopen : Piecewise "(" (Absent pattern) :=
    piecewise_absent hpattern ⟨by decide, by simpa using hmarks '(' (by simp)⟩
  have hclose : Piecewise ")" (Absent pattern) :=
    piecewise_absent hpattern ⟨by decide, by simpa using hmarks ')' (by simp)⟩
  unfold headerLine
  split
  · exact hempty
  · have hblank : Absent pattern " " := hquery.mono (by decide)
    have hlist : Absent pattern (" " ++ ", ".intercalate (declarations.map Variable.text)) :=
      absent_commaList hpattern (hmarks ',' (by simp)) hblank (by simpa using h)
    have htext : ∀ list : String, "query (" ++ list ++ ") \x7b" = "query " ++ "(" ++ (list ++ ")" ++ " \x7b") := by
      intro list
      have hfirst : ("query (" : String) = "query " ++ "(" := by rfl
      have hlast : (") \x7b" : String) = ")" ++ " \x7b" := by rfl
      simp only [hfirst, hlast, String.append_assoc]
    rw [htext, hopen.append, hclose.append]
    refine ⟨hquery, hlist.mono ?_, hbrace⟩
    rw [String.toList_append]
    exact List.infix_append_of_infix_right List.infix_rfl

end Request

/-- What goes line by line and holds of all fragments holds of the root with everything below it. -/
theorem Piecewise.rootText {P : String → Prop} (h : Piecewise "\n" P)
    (hr : ∀ e ∈ r.entries.entries, e.2.Fits P) (hm : m.Fits P) : P (q.rootText r m) := by
  have hentry : ∀ {id n}, r.get? id = some n → n.Fits P := fun hn => hr _ (OrderedMap.get?_eq_some_iff.1 hn)
  apply h.render hm.opensLine hm.text
  rw [Request.blocks, h.intercalate, List.forall_mem_map]
  intro e he
  have htop := hentry (Request.mem_topLevel_iff.1 he).2
  apply h.render htop.opensLine htop.text
  rw [h.intercalate, List.forall_mem_map]
  intro child hchild
  obtain ⟨id, -, hid⟩ := List.mem_filterMap.1 hchild
  split at hid
  · obtain ⟨n, hn, rfl⟩ := Option.map_eq_some_iff.1 hid
    exact (hentry hn).text
  · cases hid

end ResourceQuery
