/-
What a document shows of the resources it is said to cover.

The resources of an answer are counted while they are placed, and the text is put together afterwards. The two agree
where every fragment around a selection has a slot for it. A top-level selection counts as embedded only what it has a
slot for. The root is not asked: under a root with no slot, everything selected is counted and nothing of it is shown.

Results:
- `renderedIn_of_mem_resources`: under a root with a slot, the document shows every resource of the answer.
- `document_leaf_root`: under a root with no slot, the document is what it is with no selection at all.
- `resources_rendered_iff`: so an answer is right about its document exactly if the root has a slot, or if what is
  selected happens to occur in the text without it; and likewise for the requested resources that are not shown.
Counterexample:
- `leaf_root_hides_selection`: a root with no slot, and a requested resource that is neither shown nor left out.
-/
import Mathlib.Data.List.Infix
import ResourceQuery.Proofs.Coverage

namespace ResourceQuery

variable {r : Registry} {root : ResourceId} {wanted : List ResourceId} {q : Request} {d : Draft} {m : Metadata}

/-! ## Texts within texts -/

/-- the document holds a rendering of the fragment around some text -/
def Fragment.RenderedIn (f : Fragment) (document : String) : Prop :=
  ∃ children, (f.render children).toList <:+: document.toList

/-- the document holds a rendering of a registered resource -/
def Registry.RenderedIn (r : Registry) (id : ResourceId) (document : String) : Prop :=
  ∃ m, r.get? id = some m ∧ m.fragment.RenderedIn document

theorem infix_intercalate (separator : String) {s : String} {ss : List String} (h : s ∈ ss) :
    s.toList <:+: (separator.intercalate ss).toList := by
  induction ss with
  | nil => simp at h
  | cons t ts ih =>
    cases ts with
    | nil =>
      rw [List.mem_singleton.1 h, String.intercalate_singleton]
    | cons u us =>
      rw [String.intercalate_cons_cons, String.toList_append, String.toList_append]
      rcases List.mem_cons.1 h with rfl | h
      · exact List.infix_append_of_infix_left (List.infix_append_of_infix_left List.infix_rfl)
      · exact List.infix_append_of_infix_right (ih h)

/-- a fragment with a slot shows what it is rendered around -/
theorem Fragment.infix_render {f : Fragment} (h : f.acceptsChildren = true) (children : String) :
    children.toList <:+: (f.render children).toList := by
  cases f with
  | leaf text => cases h
  | nested opening closing =>
    by_cases hc : children = ""
    · simp [hc]
    · rw [render_nested_of_ne hc, String.toList_append, String.toList_append, String.toList_append]
      exact List.infix_append_of_infix_left (List.infix_append_of_infix_left
        (List.infix_append_of_infix_right List.infix_rfl))

namespace Draft

/-- the texts of the top-level selections, one below the other -/
def body (d : Draft) : String := "\n".intercalate (d.selections.map Selection.render)

theorem infix_document (d : Draft) (m : Metadata) :
    (m.fragment.render d.body).toList <:+: (d.document m).toList := by
  simp only [document, body, String.toList_append]
  exact List.infix_append_of_infix_left (List.infix_append_of_infix_left (List.infix_append_of_infix_left
    (List.infix_append_of_infix_right List.infix_rfl)))

/-- under a root with a slot, the document shows every top-level selection -/
theorem infix_document_of_mem {s : Selection} (hm : m.fragment.acceptsChildren = true) (hs : s ∈ d.selections) :
    s.render.toList <:+: (d.document m).toList := by
  have hbody : s.render.toList <:+: d.body.toList := infix_intercalate "\n" (List.mem_map_of_mem hs)
  exact hbody.trans ((Fragment.infix_render hm d.body).trans (d.infix_document m))

/-- the document with the same variables and no selections -/
def bareDocument (d : Draft) (m : Metadata) : String := ({ d with selections := [] } : Draft).document m

theorem document_leaf_root (hm : m.fragment.acceptsChildren = false) : d.document m = d.bareDocument m := by
  cases hf : m.fragment with
  | leaf text => simp [bareDocument, document, hf]
  | nested opening closing => simp [hf, Fragment.acceptsChildren] at hm

end Draft

theorem Registry.render_selection (t : ResourceId) (m : Metadata) :
    (r.selection wanted t m).render =
      m.fragment.render ("\n".intercalate ((r.embeddable wanted m).map fun child => child.2.fragment.render "")) := rfl

/-- a selection with a slot shows every child it embeds -/
theorem Registry.infix_render_of_embeddable {t c : ResourceId} {n : Metadata} (hm : m.fragment.acceptsChildren = true)
    (hc : c ∈ m.children) (hw : c ∈ wanted) (hn : r.get? c = some n) :
    (n.fragment.render "").toList <:+: (r.selection wanted t m).render.toList := by
  have hslot : c ∈ m.slots.filter (· ∈ wanted) := List.mem_filter.2 ⟨Metadata.mem_slots.2 ⟨hm, hc⟩, decide_eq_true hw⟩
  have hemb : (c, n) ∈ (r.selection wanted t m).embedded := List.mem_filterMap.2 ⟨c, hslot, by simp [hn]⟩
  have hline := infix_intercalate "\n"
    (List.mem_map_of_mem (f := fun child : ResourceId × Metadata => child.2.fragment.render "") hemb)
  exact hline.trans (Fragment.infix_render hm _)

/-! ## What an answer shows -/

namespace Request.Answers

variable {out : CompiledQuery}

theorem renderedIn_root (h : q.Answers r m d out) : r.RenderedIn q.root out.document := by
  refine ⟨m, h.registered, d.body, ?_⟩
  rw [h.document]
  exact d.infix_document m

/-- under a root with a slot, the document shows every resource of the answer -/
theorem renderedIn_of_mem_resources (h : q.Answers r m d out) (hm : m.fragment.acceptsChildren = true) {id : ResourceId}
    (hid : id ∈ out.resources) : r.RenderedIn id out.document := by
  have hd := draft_placed h.drafted
  rcases h.mem_resources_iff.1 hid with rfl | ht | ⟨hw, hreg, t, -, ht, n, hn, hacc, hc⟩
  · exact h.renderedIn_root
  · obtain ⟨n, hn⟩ := Registry.mem_ids_iff.1 (Registry.mem_ids_of_topLevel ht)
    have hs : r.selection q.wanted id n ∈ d.selections := hd.mem_selections_iff.2 ⟨id, n, ht, hn, rfl⟩
    have hin := Draft.infix_document_of_mem hm hs
    rw [Registry.render_selection, ← h.document] at hin
    exact ⟨n, hn, _, hin⟩
  · obtain ⟨k, hk⟩ := Registry.mem_ids_iff.1 hreg
    have hs : r.selection q.wanted t n ∈ d.selections := hd.mem_selections_iff.2 ⟨t, n, ht, hn, rfl⟩
    refine ⟨k, hk, "", ?_⟩
    rw [h.document]
    exact (Registry.infix_render_of_embeddable hacc hc hw hk).trans (Draft.infix_document_of_mem hm hs)

theorem notMem_skipped_of_mem_resources (h : q.Answers r m d out) {id : ResourceId} (hid : id ∈ out.resources) :
    id ∉ out.skipped.map Skipped.id := by
  intro hs
  obtain ⟨hw, hno, hne⟩ := h.mem_skipped_iff.1 hs
  rcases h.mem_resources_iff.1 hid with rfl | ht | he
  · exact root_notMem_wanted hw
  · exact hno ht
  · exact hne he

/-- a requested resource that is not covered is left out, and a strict request fails for it -/
theorem mem_skipped_of_notMem_resources (h : q.Answers r m d out) {id : ResourceId} (hq : id ∈ q.ids)
    (hid : id ∉ out.resources) :
    id ∈ out.skipped.map Skipped.id ∧ (q.withStrict true).compile r = .error (.unresolved out.skipped) := by
  rw [h.mem_resources_iff, not_or, not_or] at hid
  have hw : id ∈ q.wanted := mem_wanted_iff.2 ⟨hq, hid.1⟩
  have hs : id ∈ out.skipped.map Skipped.id := h.mem_skipped_iff.2 ⟨hw, hid.2.1, hid.2.2⟩
  refine ⟨hs, compile_strict h ?_⟩
  intro e
  simp [e] at hs

end Request.Answers

/-! ## Main results -/

/-- **When an answer is right about its document.** Every resource of an answer is shown in its document exactly if the
root has a slot for selections, or if all of them occur in the document without any selection. Every requested resource
that is not shown is left out, and refused by a strict request, exactly if the root has a slot, or if the requested
resources of the answer occur in that document. -/
theorem resources_rendered_iff {out : CompiledQuery} (h : q.compile r = .ok out) :
    ∃ m d, q.Answers r m d out ∧
      ((∀ id ∈ out.resources, r.RenderedIn id out.document) ↔
        m.fragment.acceptsChildren = true ∨ ∀ id ∈ out.resources, r.RenderedIn id (d.bareDocument m)) ∧
      ((∀ id ∈ q.ids, ¬ r.RenderedIn id out.document →
          id ∈ out.skipped.map Skipped.id ∧ (q.withStrict true).compile r = .error (.unresolved out.skipped)) ↔
        m.fragment.acceptsChildren = true ∨
          ∀ id ∈ q.ids, id ∈ out.resources → r.RenderedIn id (d.bareDocument m)) := by
  obtain ⟨m, d, ha⟩ := Request.compile_eq_ok_iff.1 h
  refine ⟨m, d, ha, ?_⟩
  cases hm : m.fragment.acceptsChildren with
  | true =>
    have hshown : ∀ id ∈ out.resources, r.RenderedIn id out.document := by
      intro id hid
      exact ha.renderedIn_of_mem_resources hm hid
    refine ⟨⟨fun _ => .inl rfl, fun _ => hshown⟩, ⟨fun _ => .inl rfl, ?_⟩⟩
    intro _ id hq hno
    exact ha.mem_skipped_of_notMem_resources hq fun hid => hno (hshown id hid)
  | false =>
    have hdoc : out.document = d.bareDocument m := ha.document.trans (Draft.document_leaf_root hm)
    rw [hdoc]
    refine ⟨by simp, ?_, ?_⟩
    · intro hleft
      refine .inr ?_
      intro id hq hid
      by_contra hno
      exact ha.notMem_skipped_of_mem_resources hid (hleft id hq hno).1
    · intro hshown id hq hno
      refine ha.mem_skipped_of_notMem_resources hq fun hid => hno ?_
      exact hshown.resolve_left (by decide) id hq hid

theorem hub_resources_rendered :
    hubRequest.compile hubRegistry = .ok hubAnswer ∧
      ∀ id ∈ hubAnswer.resources, hubRegistry.RenderedIn id hubAnswer.document := by
  obtain ⟨m, d, ha, hres, -⟩ := resources_rendered_iff hub_compiles
  refine ⟨hub_compiles, hres.2 (.inl ?_)⟩
  have hm : hubRegistry.get? hubRequest.root = some { fragment := .nested "hub \x7b\n" "\x7d" } := by decide +kernel
  rw [ha.registered] at hm
  cases hm
  rfl

/-- **A root without a slot.** The viewer has no slot, and the repositories need no parent. They are counted among the
resources and not left out, even for a strict request; but nothing of them is in the document. -/
def viewerRegistry : Registry := .ofList {} [
  (⟨"viewer"⟩, { fragment := .leaf "viewer \x7b login \x7d" }),
  (⟨"repositories"⟩, { fragment := .leaf "repositories \x7b id \x7d" })]

def viewerAnswer : CompiledQuery where
  document := "query \x7b\nviewer \x7b login \x7d\n...rateLimit\n\x7d"
  declarations := []
  resources := [⟨"viewer"⟩, ⟨"repositories"⟩]
  skipped := []

theorem leaf_root_hides_selection :
    ({ root := ⟨"viewer"⟩, ids := [⟨"repositories"⟩], strict := true } : Request).compile viewerRegistry =
        .ok viewerAnswer ∧
      ⟨"repositories"⟩ ∈ viewerAnswer.resources ∧
      ¬ viewerRegistry.RenderedIn ⟨"repositories"⟩ viewerAnswer.document := by
  refine ⟨by decide +kernel, by decide, ?_⟩
  rintro ⟨m, hm, children, hin⟩
  have hget : viewerRegistry.get? ⟨"repositories"⟩ = some { fragment := .leaf "repositories \x7b id \x7d" } := by
    decide +kernel
  rw [hget] at hm
  cases hm
  have hp : 'p' ∈ viewerAnswer.document.toList := hin.subset (by rw [Fragment.render_leaf]; decide)
  exact absurd hp (by decide)

end ResourceQuery
