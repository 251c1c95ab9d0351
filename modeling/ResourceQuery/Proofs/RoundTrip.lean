/-
Values read back from the texts they are written as.

A decoder undoes a printer if it gets every value back from the reading of its document. The printer of each type picks
one of the spellings of a value, and the decoder reads all of them; so it undoes the printer.

Results:
- `undoes_registry`, and one such result for each part: the decoder undoes the printer.
- `ReadsBack.of_undoes`: then texts are read back too, and to read and write back is idempotent.
- `json_round_trip`: registries in both layouts, and values of all other types.
-/
import ResourceQuery.Proofs.AnySpelling

namespace ResourceQuery

open Json

namespace Json

/-- the decoder gets every value back from its document -/
def Undoes {α : Type} (d : Decoder α) (print : α → Json) : Prop := ∀ a, d (print a).reading = .ok a

/-- what the printer chooses is a spelling that the decoder reads -/
theorem Undoes.of_reads {α : Type} {d : Decoder α} {print : α → Json} {spelling : Spelling α} (hd : Reads d spelling)
    (hprint : Chooses print spelling) : Undoes d print := by
  intro a
  rw [← reading_tree, hd a (print a).tree (hprint a)]

end Json

/-! ## The types of a registry -/

theorem undoes_resourceId : Undoes ResourceId.decode ResourceId.toJson := .of_reads reads_resourceId chooses_resourceId

theorem undoes_variable : Undoes Variable.decode Variable.toJson := .of_reads reads_variable chooses_variable

theorem undoes_fragment : Undoes Fragment.decode Fragment.toJson := .of_reads reads_fragment chooses_fragment

theorem undoes_metadata : Undoes Metadata.decode Metadata.toJson := .of_reads reads_metadata chooses_metadata

theorem undoes_limits : Undoes PageLimits.decode PageLimits.toJson := .of_reads reads_limits chooses_limits

theorem undoes_registry : Undoes Registry.decode Registry.toJson := .of_reads reads_registry chooses_registry

/-! ## Main results -/

namespace Json

/-- reads a text, and writes the value back without blanks -/
def rewrite {α : Type} (d : Decoder α) (print : α → Json) (text : String) : Except DecodeError String :=
  (fun a => (print a).compact) <$> decodeText d text

/-- Every value is read back from its compact text, and a text that was read and written back is written back as it
is. -/
structure ReadsBack {α : Type} (d : Decoder α) (print : α → Json) : Prop where
  decode_compact : ∀ a, decodeText d (print a).compact = .ok a
  rewrite_again : ∀ text written, rewrite d print text = .ok written → rewrite d print written = .ok written

theorem ReadsBack.of_undoes {α : Type} {d : Decoder α} {print : α → Json} (h : Undoes d print) :
    ReadsBack d print := by
  have hcompact : ∀ a, decodeText d (print a).compact = .ok a := by
    intro a
    rw [compact, decodeText_text Layout.blank_compact, h a]
  refine ⟨hcompact, ?_⟩
  intro text written hwritten
  unfold rewrite at hwritten ⊢
  cases hread : decodeText d text with
  | error e =>
    rw [hread] at hwritten
    cases hwritten
  | ok a =>
    rw [hread] at hwritten
    cases hwritten
    rw [hcompact a]
    rfl

end Json

/-- **Round trip.** Whatever its names, texts and page limits, a registry is read back from its indented text, with the
same entries in the same order. It is also read back from its compact text, as are page limits, metadata, fragments,
variables and names; so what was read and written back compactly stays as it is when that is done again. -/
theorem json_round_trip :
    (∀ r : Registry, Registry.ofText r.toJson.indented = .ok r) ∧
    ReadsBack Registry.decode Registry.toJson ∧
    ReadsBack PageLimits.decode PageLimits.toJson ∧
    ReadsBack Metadata.decode Metadata.toJson ∧
    ReadsBack Fragment.decode Fragment.toJson ∧
    ReadsBack Variable.decode Variable.toJson ∧
    ReadsBack ResourceId.decode ResourceId.toJson := by
  refine ⟨?_, .of_undoes undoes_registry, .of_undoes undoes_limits, .of_undoes undoes_metadata,
    .of_undoes undoes_fragment, .of_undoes undoes_variable, .of_undoes undoes_resourceId⟩
  intro r
  rw [Registry.ofText, indented, decodeText_text Layout.blank_indented, undoes_registry r]

/-- the first rewriting drops blanks, spells characters one way, and leaves out what is absent or empty -/
example : rewrite Metadata.decode Metadata.toJson
    " \x7b\"parent\" : null, \"fragment\":\x7b\"leaf\":\"\\u0041\\t\"\x7d, \"children\" : [ ] \x7d" =
      .ok "\x7b\"variables\":[],\"fragment\":\x7b\"leaf\":\"A\\t\"\x7d\x7d" := by cbv

end ResourceQuery
