/-
Texts that end too early, and texts that go on.

A file that was cut while it was written is not taken for a value. Each type of a registry is read back from its own
text; so its decoder, which meets the end of a text before anything else that is wrong, fails with that on every start
of the text. The text of each is more than a number, so it has no shorter text of a value as its start.

Results:
- `endsEarly_registry`, and one such result for each part: a decoder fails with the end of the text.
- `WholeOnly.of_endsEarly`: so the start of a written value is no text of a value, nor is its text with more after it.
- `truncated_texts_end`: registries in both layouts, and values of all other types.
-/
import ResourceQuery.Proofs.EarlyEnds
import ResourceQuery.Proofs.RoundTrip

namespace ResourceQuery

open Json

/-! ## The types of a registry -/

theorem endsEarly_resourceId : EndsEarly ResourceId.decode := endsEarly_text.map ResourceId.mk

theorem endsEarly_variable : EndsEarly Variable.decode := by
  apply endsEarly_record _ (List.cons_ne_nil _ _)
  simp only [Variable.record, List.forall_mem_cons]
  exact ⟨endsEarly_text.slot, endsEarly_text.slot, List.forall_mem_nil _⟩

namespace Fragment

theorem endsEarly_nested : EndsEarly nestedRecord.decode := by
  apply endsEarly_record _ (List.cons_ne_nil _ _)
  simp only [nestedRecord, List.forall_mem_cons]
  exact ⟨endsEarly_text.slot, endsEarly_text.slot, List.forall_mem_nil _⟩

theorem endsEarly_variant (v : Variant) : EndsEarly v.decode := by
  cases v with
  | leaf => exact endsEarly_text.map leaf
  | nested => exact endsEarly_nested

/-- the only member of a fragment -/
def decodeMember (m : Quoted × Reading) : Except DecodeError Fragment := do
  let name ← liftFault m.1.value
  let variant ← Variant.ofName name
  variant.decode m.2

theorem memberEndsEarly : MemberEndsEarly decodeMember := by
  apply memberEndsEarly_bind (k := fun name r => do (← Variant.ofName name).decode r)
  intro name r f h
  obtain ⟨v, hv, -⟩ := except_bind_eq_ok.1 h
  simp only [hv]
  exact endsEarly_variant v

theorem decode_single (m : Quoted × Reading) (fault : Option Fault) :
    decode (.object [m] fault) = do
      let f ← decodeMember m
      liftFault (Reading.check fault)
      return f := by
  simp only [decode, decodeMember, bind_assoc]
  cases fault <;> rfl

/-- a fragment is decoded from one member, and nothing else -/
theorem exists_member {r : Reading} {f : Fragment} (h : decode r = .ok f) :
    ∃ m, r = .object [m] none ∧ decodeMember m = .ok f := by
  cases r with
  | object members fault =>
    match members, fault with
    | [], none => cases h
    | [], some _ => cases h
    | [m], none =>
      rw [decode_single] at h
      obtain ⟨f', hf, hend⟩ := except_bind_eq_ok.1 h
      cases hend
      exact ⟨m, rfl, hf⟩
    | [m], some _ =>
      rw [decode_single] at h
      obtain ⟨f', -, hend⟩ := except_bind_eq_ok.1 h
      cases hend
    | _ :: _ :: _, _ =>
      obtain ⟨_, -, h⟩ := except_bind_eq_ok.1 h
      obtain ⟨_, -, h⟩ := except_bind_eq_ok.1 h
      obtain ⟨_, -, h⟩ := except_bind_eq_ok.1 h
      cases h
  | string q =>
    obtain ⟨_, -, h⟩ := except_bind_eq_ok.1 h
    obtain ⟨_, -, h⟩ := except_bind_eq_ok.1 h
    cases h
  | _ => cases h

theorem decode_cut {m : Quoted × Reading} {f : Fragment} (hm : decodeMember m = .ok f) {r : Reading}
    (hcut : Cut (.object [m] none) r) : decode r = .error endOfText := by
  have hfirst {before after : List (Quoted × Reading)} {x : Quoted × Reading} (h : [m] = before ++ x :: after) :
      before = [] ∧ m = x := by
    cases before with
    | nil => exact ⟨rfl, (List.cons.inj h).1⟩
    | cons y before => simp at h
  generalize hmembers : [m] = members at hcut
  cases hcut with
  | missing => rfl
  | openObject => cases hmembers
  | key hq =>
    obtain ⟨rfl, rfl⟩ := hfirst hmembers
    rw [List.nil_append, decode_single, memberEndsEarly.key hm hq]
    rfl
  | value hr =>
    obtain ⟨rfl, rfl⟩ := hfirst hmembers
    rw [List.nil_append, decode_single, memberEndsEarly.value hm hr]
    rfl
  | shortValue hr =>
    obtain ⟨rfl, rfl⟩ := hfirst hmembers
    obtain ⟨f', hf'⟩ := memberEndsEarly.short hm hr
    rw [List.nil_append, decode_single, hf']
    rfl
  | @afterMembers before after =>
    cases before with
    | nil => rfl
    | cons x before =>
      obtain ⟨rfl, hnil⟩ := List.cons.inj hmembers
      obtain ⟨rfl, -⟩ := List.append_eq_nil_iff.1 hnil.symm
      rw [decode_single, hm]
      rfl

end Fragment

theorem endsEarly_fragment : EndsEarly Fragment.decode where
  missing := rfl
  cut h hcut := by
    obtain ⟨m, rfl, hm⟩ := Fragment.exists_member h
    exact Fragment.decode_cut hm hcut
  short h hshort := by
    cases hshort
    cases h

theorem endsEarly_metadata : EndsEarly Metadata.decode := by
  apply endsEarly_record _ (List.cons_ne_nil _ _)
  simp only [Metadata.record, List.forall_mem_cons]
  exact ⟨endsEarly_variable.list.slot, endsEarly_fragment.slot, endsEarly_resourceId.optional.slot,
    endsEarly_resourceId.list.slot, endsEarly_text.optional.slot, endsEarly_text.optional.slot,
    List.forall_mem_nil _⟩

theorem endsEarly_limits : EndsEarly PageLimits.decode := by
  apply endsEarly_record _ (List.cons_ne_nil _ _)
  simp only [PageLimits.record, List.forall_mem_cons]
  exact ⟨endsEarly_limit.slot, endsEarly_limit.slot, List.forall_mem_nil _⟩

theorem endsEarly_registry : EndsEarly Registry.decode := by
  apply endsEarly_record _ (List.cons_ne_nil _ _)
  simp only [Registry.record, List.forall_mem_cons]
  exact ⟨endsEarly_limit.slot, endsEarly_limit.slot, endsEarly_metadata.members.slot, List.forall_mem_nil _⟩

/-! ## Main results -/

namespace Json

/-- The text of a value, of which no start is the text of a value, nor is what goes on after it with more than
blanks. -/
structure WholeOnly {α : Type} (d : Decoder α) (text : String) : Prop where
  ended : ∀ start rest : String, start ++ rest = text → rest ≠ "" → decodeText d start = .error (.fault .ended)
  followed : ∀ rest : String, (∃ c ∈ rest.toList, c ∉ [' ', '\t', '\n', '\r']) →
    decodeText d (text ++ rest) = .error (.fault .malformed)

theorem WholeOnly.of_endsEarly {α : Type} {d : Decoder α} (hd : EndsEarly d) {layout : Layout} (hl : layout.Blank)
    {j : Json} (hj : ∀ n, j ≠ .number n) {a : α} (h : d j.reading = .ok a) : WholeOnly d (j.text layout) where
  ended start rest htext hrest := by
    obtain ⟨r, hr, hdocument⟩ := ofText_start hl j htext hrest
    rcases hr with hcut | hshort
    · rw [decodeText, hdocument]
      dsimp only
      rw [hd.cut h hcut]
      rfl
    · cases j with
      | number n => exact absurd rfl (hj n)
      | _ => cases hshort
  followed rest hrest := by
    rw [decodeText, ofText_followed hl hj hrest]
    dsimp only
    rw [h]
    rfl

end Json

/-- **Truncated texts.** The start of the text of a registry, page limits, metadata, a fragment, a variable or a name is
never taken for a value, nor for a text with another error: it ends too early, wherever it is cut. After the whole text
there is nothing but blanks. Registries may be written in either layout. -/
theorem truncated_texts_end :
    (∀ r : Registry, WholeOnly Registry.decode r.toJson.compact ∧ WholeOnly Registry.decode r.toJson.indented) ∧
    (∀ l : PageLimits, WholeOnly PageLimits.decode l.toJson.compact) ∧
    (∀ m : Metadata, WholeOnly Metadata.decode m.toJson.compact) ∧
    (∀ f : Fragment, WholeOnly Fragment.decode f.toJson.compact) ∧
    (∀ v : Variable, WholeOnly Variable.decode v.toJson.compact) ∧
    (∀ id : ResourceId, WholeOnly ResourceId.decode id.toJson.compact) := by
  have hcompact {α : Type} {d : Decoder α} {print : α → Json} (hd : EndsEarly d) (hundoes : Undoes d print)
      (hprint : ∀ a n, print a ≠ .number n) (a : α) : WholeOnly d (print a).compact :=
    .of_endsEarly hd Layout.blank_compact (hprint a) (hundoes a)
  refine ⟨fun r => ⟨hcompact endsEarly_registry undoes_registry nofun r, ?_⟩, ?_, ?_, ?_, ?_, ?_⟩
  · exact .of_endsEarly endsEarly_registry Layout.blank_indented nofun (undoes_registry r)
  · exact hcompact endsEarly_limits undoes_limits nofun
  · exact hcompact endsEarly_metadata undoes_metadata nofun
  · apply hcompact endsEarly_fragment undoes_fragment
    intro f
    cases f <;> nofun
  · exact hcompact endsEarly_variable undoes_variable nofun
  · exact hcompact endsEarly_resourceId undoes_resourceId nofun

end ResourceQuery
