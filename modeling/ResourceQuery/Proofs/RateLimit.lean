/-
The rate limit at the end of a document.

A document asks for the rate limit once, whatever is selected: the spread stands on a line of its own after the root,
and no two pieces of the document form it together. Fragments meet at line breaks, and the declarations of the header
at commas, colons, brackets and dollar signs, none of which the spread has.

Results:
- `existsUnique_spread`: the spread behind a text that lacks it, and before the last brace, is its only occurrence.
- `Answers.absent_spread`: if no entry has the spread, nothing above the rate limit has it.
- `rate_limit_once_and_last`: a document has the spread once, at its end.
-/
import ResourceQuery.Proofs.Occurrences

namespace ResourceQuery

variable {pattern : String} {r : Registry} {q : Request} {m : Metadata}

/-! ## Entries without a pattern -/

/-- the pattern is in no text of the fragment -/
def Fragment.Lacks (pattern : String) : Fragment → Prop
  | leaf text => Absent pattern text
  | nested opening closing => Absent pattern opening ∧ Absent pattern closing

instance (pattern : String) : (f : Fragment) → Decidable (f.Lacks pattern)
  | .leaf text => inferInstanceAs (Decidable (Absent pattern text))
  | .nested opening closing => inferInstanceAs (Decidable (Absent pattern opening ∧ Absent pattern closing))

/-- the pattern is in no text of the entry -/
def Metadata.Lacks (pattern : String) (m : Metadata) : Prop :=
  m.fragment.Lacks pattern ∧ ∀ v ∈ m.declarations, Absent pattern v.name ∧ Absent pattern v.type

instance (pattern : String) (m : Metadata) : Decidable (m.Lacks pattern) := inferInstanceAs (Decidable (_ ∧ _))

/-- With nothing in its slot a fragment has no occurrence that its two halves do not have: the first ends a line. -/
theorem Fragment.Lacks.alone {f : Fragment} (h : f.Lacks pattern) (hf : f.OpensLine) (hpattern : pattern ≠ "")
    (hbreak : '\n' ∉ pattern.toList) : Absent pattern (f.render "") := by
  have hlines : Piecewise "\n" (Absent pattern) := piecewise_absent hpattern ⟨by decide, by simpa using hbreak⟩
  cases f with
  | leaf text => exact h
  | nested opening closing =>
    obtain ⟨line, rfl⟩ := hf.exists_line
    rw [render_nested_empty, hlines.append]
    refine ⟨h.1.mono ?_, h.2⟩
    rw [String.toList_append]
    exact (List.prefix_append _ _).isInfix

/-- a declaration has no occurrence that its name and its type do not have -/
theorem Variable.absent_text {v : Variable} (hpattern : pattern ≠ "")
    (hmarks : ∀ c ∈ [' ', '$', ':'], c ∉ pattern.toList) (hname : Absent pattern v.name)
    (htype : Absent pattern v.type) : Absent pattern (" " ++ v.text) := by
  have hdollar : Piecewise " $" (Absent pattern) := by
    refine piecewise_absent hpattern ⟨by decide, ?_⟩
    simpa using ⟨hmarks ' ' (by simp), hmarks '$' (by simp)⟩
  have hcolon : Piecewise ": " (Absent pattern) := by
    refine piecewise_absent hpattern ⟨by decide, ?_⟩
    simpa using ⟨hmarks ':' (by simp), hmarks ' ' (by simp)⟩
  have htext : " " ++ v.text = "" ++ " $" ++ (v.name ++ ": " ++ v.type) := by
    have hfirst : " " ++ "$" = " $" := by rfl
    rw [Variable.text, String.empty_append, ← hfirst]
    simp only [String.append_assoc]
  rw [htext, hdollar.append, hcolon.append]
  exact ⟨hdollar.empty, hname, htype⟩

/-- a header ends with its opening brace -/
theorem Request.exists_headerLine_eq (declarations : List Variable) :
    ∃ opening, headerLine declarations = opening ++ "\x7b" := by
  unfold headerLine
  split
  · exact ⟨"query ", by rfl⟩
  · have hlast : (") \x7b" : String) = ") " ++ "\x7b" := by rfl
    rw [hlast, ← String.append_assoc]
    exact ⟨_, rfl⟩

/-! ## One occurrence -/

/-- behind a text that lacks it, and before the last brace, the spread occurs once -/
theorem existsUnique_spread {start : String} (h : Absent "...rateLimit" start) :
    ∃! place : String × String, start ++ "\n" ++ "...rateLimit" ++ "\n\x7d" = place.1 ++ "...rateLimit" ++ place.2 := by
  refine ⟨(start ++ "\n", "\n\x7d"), rfl, ?_⟩
  rintro ⟨before, after⟩ heq
  have hbreak : ("\n" : String).toList = ['\n'] ∧ '\n' ∉ "...rateLimit".toList := by decide
  have hlast : ("\n\x7d" : String) = "\n" ++ "\x7d" := by rfl
  have hpieces : start ++ "\n" ++ ("...rateLimit" ++ "\n" ++ "\x7d") = before ++ "...rateLimit" ++ after := by
    rw [← heq, hlast]
    simp only [String.append_assoc]
  rcases (occurs_append_iff hbreak.1 hbreak.2).1 hpieces with ⟨rest, hstart, -⟩ | ⟨extra, hrest, hbefore⟩
  · exact absurd hstart h.ne
  · rcases (occurs_append_iff hbreak.1 hbreak.2).1 hrest with ⟨rest, hspread, hafter⟩ | ⟨rest, hbrace, -⟩
    · -- the spread is no longer than itself
      have hlength := congrArg String.length hspread
      simp only [String.length_append] at hlength
      have hextra : extra = "" := String.length_eq_zero_iff.1 (by omega)
      have hnone : rest = "" := String.length_eq_zero_iff.1 (by omega)
      rw [hbefore, hafter, hextra, hnone, hlast, String.append_empty, String.empty_append]
    · have habsent : Absent "...rateLimit" "\x7d" := by decide
      exact absurd hbrace habsent.ne

namespace Request

variable {d : Draft} {out : CompiledQuery}

/-- no text but the last line but one has the spread -/
theorem Answers.absent_spread (h : q.Answers r m d out) (hr : ∀ e ∈ r.entries.entries, e.2.Lacks "...rateLimit")
    (hopens : ∀ e ∈ r.entries.entries, e.2.fragment.OpensLine) :
    Absent "...rateLimit" (headerLine out.declarations ++ "\n" ++ q.rootText r m) := by
  have hlines : Piecewise "\n" (Absent "...rateLimit") := piecewise_absent (by decide) ⟨by decide, by simp⟩
  have hfits : ∀ e ∈ r.entries.entries, e.2.Fits (Absent "...rateLimit") := fun e he =>
    ⟨hopens e he, (hr e he).1.alone (hopens e he) (by decide) (by decide)⟩
  rw [hlines.append]
  constructor
  · apply absent_headerLine (by decide) (by simp) (by decide)
    intro v hv
    obtain ⟨id, n, -, hn, hv⟩ := h.mem_declarations_iff.1 hv
    obtain ⟨hname, htype⟩ := (hr _ (OrderedMap.get?_eq_some_iff.1 hn)).2 v hv
    exact Variable.absent_text (by decide) (by simp) hname htype
  · exact hlines.rootText hfits (hfits _ (OrderedMap.get?_eq_some_iff.1 h.registered))

end Request

/-! ## Main result -/

/-- **The rate limit, once and last.** If no fragment and no declaration of a registry has the spread in its texts, and
every slot is at the start of a line, then a document has the spread exactly once: on the line before its last brace.
Between the header, which ends with its opening brace, and that ending stands a rendering of the root's fragment. -/
theorem rate_limit_once_and_last {out : CompiledQuery} (hlacks : ∀ e ∈ r.entries.entries, e.2.Lacks "...rateLimit")
    (hopens : ∀ e ∈ r.entries.entries, e.2.fragment.OpensLine) (h : q.compile r = .ok out) :
    (∃! place : String × String, out.document = place.1 ++ "...rateLimit" ++ place.2) ∧
    ∃ root opening children, r.get? q.root = some root ∧
      Request.headerLine out.declarations = opening ++ "\x7b" ∧
      out.document = opening ++ "\x7b\n" ++ root.fragment.render children ++ "\n...rateLimit\n\x7d" := by
  obtain ⟨root, d, ha⟩ := Request.compile_eq_ok_iff.1 h
  have hlayout : out.document = Request.headerLine out.declarations ++ "\n" ++ q.rootText r root ++ "\n" ++
      "...rateLimit" ++ "\n\x7d" := by
    rw [ha.document, ha.declarations, Request.document_eq_layout ha.drafted, Request.layout_eq]
  obtain ⟨opening, hopening⟩ := Request.exists_headerLine_eq out.declarations
  refine ⟨?_, root, opening, q.blocks r, ha.registered, hopening, ?_⟩
  · rw [hlayout]
    exact existsUnique_spread (ha.absent_spread hlacks hopens)
  · rw [hlayout, hopening, Request.rootText]
    have hbrace : ("\x7b\n" : String) = "\x7b" ++ "\n" := by rfl
    have hspread : ("\n...rateLimit\n\x7d" : String) = "\n" ++ "...rateLimit" ++ "\n\x7d" := by rfl
    rw [hbrace, hspread]
    simp only [String.append_assoc]

theorem org_rate_limit_once :
    (∀ e ∈ orgRegistry.entries.entries, e.2.Lacks "...rateLimit") ∧
      (∀ e ∈ orgRegistry.entries.entries, e.2.fragment.OpensLine) ∧ orgRequest.compile orgRegistry = .ok orgAnswer ∧
      ∃! place : String × String, orgAnswer.document = place.1 ++ "...rateLimit" ++ place.2 := by
  have hlacks : ∀ e ∈ orgRegistry.entries.entries, e.2.Lacks "...rateLimit" := by decide +kernel
  have hopens : ∀ e ∈ orgRegistry.entries.entries, e.2.fragment.OpensLine := by decide +kernel
  exact ⟨hlacks, hopens, org_compiles, (rate_limit_once_and_last hlacks hopens org_compiles).1⟩

end ResourceQuery
