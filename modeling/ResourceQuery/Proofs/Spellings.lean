/-
The spellings of a registry in JSON.

A value can be written in many ways. A spelling says which trees stand for a value: strings may have any escapes; the
fields of a record come in any order and among members of other names, or they are the items of an array; a field that
holds its default may be left out, in an array from the end on. So the spellings of a registry are the trees that its
printer could have chosen. They say nothing of how a tree is read.

A decoder reads a spelling if it gets the value from each tree that stands for it. A record is read member by member:
the slots that are filled are those of the fields named so far, in whatever order they were, and what is missing at the
end is what may be left out.

Results:
- `RecordSpelling.decode`: a record is decoded from each of its spellings.
- `reads_metadata`, and one such result for each part of a registry: its decoder reads its spellings.
- `decode_of_listSpelling`: resources that are written in a row, perhaps with repeated names, are registered in turn.
-/
import Mathlib.Data.List.Forall2
import ResourceQuery.Json.Schema
import ResourceQuery.Proofs.Fallible
import ResourceQuery.Proofs.WrittenText

namespace ResourceQuery.Json

/-! ## Spellings -/

/-- which trees stand for a value -/
abbrev Spelling (α : Type) := α → Tree → Prop

namespace Spelling

variable {α : Type}

def text : Spelling String := fun s t => ∃ l : Literal, t = .string l ∧ l.Denotes s.toList

/-- the digits of a page limit -/
def limit : Spelling UInt32 := fun n t => t = .number (.ofNat n.toNat)

def list (spelling : Spelling α) : Spelling (List α) := fun xs t =>
  ∃ items, t = .array items ∧ List.Forall₂ spelling xs items

/-- `null` for nothing -/
def optional (spelling : Spelling α) : Spelling (Option α)
  | none => fun t => t = .null
  | some a => spelling a

/-- an object with the entries as its members, in order -/
def map (spelling : Spelling α) : Spelling (List (String × α)) := fun es t =>
  ∃ members, t = .object members ∧
    List.Forall₂ (fun e (m : Literal × Tree) => m.1.Denotes e.1.toList ∧ spelling e.2 m.2) es members

end Spelling

/-- how a field of a record can be written -/
structure FieldSpelling where
  name : String
  /-- the trees that stand for what it holds -/
  value : Tree → Prop
  /-- that it may be left out -/
  optional : Prop := False

/-- the trees that stand for a record with the fields `fields` -/
inductive RecordSpelling (fields : List FieldSpelling) : Tree → Prop
  /-- An object of members with the names `named`: those that name a field hold it, each field is named at most once,
  and only an optional field is not named. -/
  | object {members : List (Literal × Tree)} (named : List (String × Tree))
      (hnamed : List.Forall₂ (fun e (m : Literal × Tree) => m.1.Denotes e.1.toList ∧ m.2 = e.2) named members)
      (hvalue : ∀ field ∈ fields, ∀ t, (field.name, t) ∈ named → field.value t)
      (honce : ∀ field ∈ fields, (named.map Prod.fst).count field.name ≤ 1)
      (habsent : ∀ field ∈ fields, field.name ∉ named.map Prod.fst → field.optional) :
      RecordSpelling fields (.object members)
  /-- an array of the first `count` fields in order, where all after these are optional -/
  | array {items : List Tree} (count : Nat)
      (hitems : List.Forall₂ (fun field item => FieldSpelling.value field item) (fields.take count) items)
      (habsent : ∀ field ∈ fields.drop count, field.optional) : RecordSpelling fields (.array items)

/-! ## Reading spellings -/

/-- the decoder gets a value from each tree that stands for it -/
def Reads {α : Type} (d : Decoder α) (spelling : Spelling α) : Prop := ∀ a t, spelling a t → d t.reading = .ok a

section Values

variable {α : Type} {d : Decoder α} {spelling : Spelling α}

theorem reads_text : Reads Reading.text .text := by
  rintro s t ⟨l, rfl, hl⟩
  rw [Tree.reading, Reading.text, Literal.value_of_denotes hl]
  rfl

theorem reads_limit : Reads Reading.limit .limit := by
  rintro n t rfl
  have hlt : n.toNat < UInt32.size := n.toNat_lt
  have hvalue : (Number.ofNat n.toNat).numeral.value? = some (.natural n.toNat) :=
    Numeral.value?_ofNat (Nat.lt_trans hlt (by decide))
  simp only [Tree.reading, Reading.limit, hvalue, hlt, dif_pos]
  exact congrArg Except.ok (UInt32.toNat_inj.1 rfl)

theorem Reads.list (h : Reads d spelling) : Reads (Reading.list d) (.list spelling) := by
  rintro xs t ⟨items, rfl, hitems⟩
  have hread : List.Forall₂ (fun x r => d r = .ok x) xs (items.map Tree.reading) :=
    List.forall₂_map_right_iff.2 (hitems.imp h)
  rw [Tree.reading, Tree.itemReadings_eq_map, Reading.list, mapM_eq_ok hread]
  rfl

theorem Reads.map (h : Reads d spelling) : Reads (Reading.map d) (.map spelling) := by
  rintro es t ⟨members, rfl, hmembers⟩
  have hentry : ∀ (e : String × α) (m : Literal × Tree), m.1.Denotes e.1.toList ∧ spelling e.2 m.2 →
      Reading.entry d (Tree.memberReading m) = .ok e := by
    rintro e ⟨key, t⟩ ⟨hkey, ht⟩
    rw [Tree.memberReading, Reading.entry, Literal.value_of_denotes hkey, h e.2 t ht]
    rfl
  have hread : List.Forall₂ (fun e m => Reading.entry d m = .ok e) es (members.map Tree.memberReading) :=
    List.forall₂_map_right_iff.2 (hmembers.imp hentry)
  rw [Tree.reading, Tree.memberReadings_eq_map, Reading.map, mapM_eq_ok hread]
  rfl

/-- A value is not spelled `null`. -/
theorem Reads.optional (h : Reads d spelling) (hnull : ∀ a, ¬ spelling a .null) :
    Reads (Reading.optional d) (.optional spelling) := by
  intro o t ht
  cases o with
  | none =>
    cases ht
    rfl
  | some a =>
    have hsome : Reading.optional d t.reading = some <$> d t.reading := by
      cases t with
      | null => exact absurd ht (hnull a)
      | _ => rfl
    rw [hsome, h a t ht]
    rfl

end Values

/-! ## Reading records -/

section Records

variable {σ α β : Type}

/-- A field as it is read, over the slots `slots names` of a record of which the fields `names` are read. -/
structure FillsField (slots : List String → σ) (field : Field σ) (spelling : FieldSpelling) : Prop where
  name : field.name = spelling.name
  isRead : ∀ names, field.isRead (slots names) = decide (field.name ∈ names)
  read : ∀ names t, spelling.value t → field.read t.reading (slots names) = .ok (slots (field.name :: names))
  canBeAbsent : spelling.optional → field.canBeAbsent = true

/-- A record as it is read: the slots are complete once all but optional fields are read. -/
structure Fills (rec : Record σ α) (fields : List FieldSpelling) (slots : List String → σ) (a : α) : Prop where
  start : rec.start = slots []
  each : List.Forall₂ (FillsField slots) rec.fields fields
  build : ∀ names, (∀ field ∈ fields, field.name ∉ names → field.optional) → rec.build (slots names) = some a

/-- a field with a slot of its own -/
theorem fillsField_slot {slots : List String → σ} {name : String} {canBeAbsent : Bool} {d : Decoder β}
    {get : σ → Option β} {set : σ → β → σ} {value : Tree → Prop} {optional : Prop} (b : β)
    (hget : ∀ names, get (slots names) = if name ∈ names then some b else none)
    (hset : ∀ names, set (slots names) b = slots (name :: names)) (hread : ∀ t, value t → d t.reading = .ok b)
    (habsent : optional → canBeAbsent = true) :
    FillsField slots (.slot name canBeAbsent d get set) ⟨name, value, optional⟩ where
  name := rfl
  isRead names := by
    simp only [Field.slot, hget names]
    split <;> simp_all
  read names t ht := by
    simp only [Field.slot, hread t ht]
    exact congrArg Except.ok (hset names)
  canBeAbsent := habsent

/-- a slot that is empty only if it holds its default -/
theorem getD_slot {name : String} {names : List String} {b default : β} (h : name ∉ names → b = default) :
    (if name ∈ names then some b else none).getD default = b := by
  split
  · rfl
  · rename_i hmem
    exact (h hmem).symm

theorem exists_of_mem_forall₂ {R : α → β → Prop} {xs : List α} {ys : List β} (h : List.Forall₂ R xs ys) {x : α}
    (hx : x ∈ xs) : ∃ y ∈ ys, R x y := by
  induction h with
  | nil => cases hx
  | cons hxy _ ih =>
    rcases List.mem_cons.1 hx with rfl | hx
    · exact ⟨_, List.mem_cons_self, hxy⟩
    · obtain ⟨y, hy, hR⟩ := ih hx
      exact ⟨y, List.mem_cons_of_mem _ hy, hR⟩

variable {rec : Record σ α} {fields : List FieldSpelling} {slots : List String → σ} {a : α}

/-- One member fills the slot of the field it names, or is passed over. -/
theorem Fills.readMember (h : Fills rec fields slots a) {key : Literal} {t : Tree} {name : String}
    {names : List String} (hkey : key.Denotes name.toList)
    (hvalue : ∀ field ∈ fields, field.name = name → field.value t)
    (hnew : ∀ field ∈ fields, field.name = name → name ∉ names) :
    ∃ names', Record.readMember rec.fields (slots names) (Tree.memberReading (key, t)) = .ok (slots names') ∧
      ∀ field ∈ fields, field.name ∈ names' ↔ field.name ∈ name :: names := by
  cases hfind : rec.fields.find? fun field => field.name = name with
  | some field =>
    have hfield : field.name = name := by simpa using List.find?_some hfind
    obtain ⟨spelling, hmem, hfills⟩ := exists_of_mem_forall₂ h.each (List.mem_of_find?_eq_some hfind)
    have hspelling : spelling.name = name := hfills.name.symm.trans hfield
    have hread : field.isRead (slots names) = false := by
      rw [hfills.isRead, hfield]
      exact decide_eq_false (hnew spelling hmem hspelling)
    have hmember : Record.readMember rec.fields (slots names) (Tree.memberReading (key, t)) =
        field.read t.reading (slots names) := by
      rw [Record.readMember, Tree.memberReading, Literal.value_of_denotes hkey]
      simp only [liftFault, Except.mapError, bind, Except.bind, hfind, hread, Bool.false_eq_true, if_false]
    refine ⟨name :: names, ?_, fun _ _ => Iff.rfl⟩
    rw [hmember, hfills.read names t (hvalue spelling hmem hspelling), hfield]
  | none =>
    have hmember : Record.readMember rec.fields (slots names) (Tree.memberReading (key, t)) = .ok (slots names) := by
      rw [Record.readMember, Tree.memberReading, Literal.value_of_denotes hkey, Tree.skim_reading]
      simp only [liftFault, Except.mapError, bind, Except.bind, hfind]
      rfl
    refine ⟨names, hmember, ?_⟩
    intro spelling hspelling
    have hother : spelling.name ≠ name := by
      obtain ⟨field, hfield, hfills⟩ := exists_of_mem_forall₂ h.each.flip hspelling
      have hne := List.find?_eq_none.1 hfind field hfield
      rw [← hfills.name]
      simpa using hne
    rw [List.mem_cons, or_iff_right hother]

/-- The members of an object fill the slots of the fields they name. -/
theorem Fills.foldlM_readMember (h : Fills rec fields slots a) {named : List (String × Tree)}
    {members : List (Literal × Tree)}
    (hnamed : List.Forall₂ (fun e (m : Literal × Tree) => m.1.Denotes e.1.toList ∧ m.2 = e.2) named members)
    (hvalue : ∀ field ∈ fields, ∀ t, (field.name, t) ∈ named → field.value t)
    (honce : ∀ field ∈ fields, (named.map Prod.fst).count field.name ≤ 1) {names : List String}
    (hnew : ∀ field ∈ fields, field.name ∈ names → field.name ∉ named.map Prod.fst) :
    ∃ names', (members.map Tree.memberReading).foldlM (Record.readMember rec.fields) (slots names) =
        .ok (slots names') ∧
      ∀ field ∈ fields, field.name ∈ names ++ named.map Prod.fst → field.name ∈ names' := by
  induction hnamed generalizing names with
  | nil =>
    refine ⟨names, rfl, ?_⟩
    intro field _ hmem
    rwa [List.map_nil, List.append_nil] at hmem
  | @cons e m named members hm _ ih =>
    obtain ⟨name, t⟩ := e
    obtain ⟨key, t'⟩ := m
    obtain ⟨hkey, rfl⟩ : key.Denotes name.toList ∧ t' = t := hm
    obtain ⟨names₁, hread, hmem₁⟩ := h.readMember hkey
      (fun field hfield hname => hvalue field hfield t' (by rw [hname]; exact List.mem_cons_self))
      (fun field hfield hname hmem => hnew field hfield (by rwa [hname]) (by rw [hname]; exact List.mem_cons_self))
    have honce₁ : ∀ field ∈ fields, (named.map Prod.fst).count field.name ≤ 1 := by
      intro field hfield
      exact Nat.le_trans (List.count_le_count_cons) (honce field hfield)
    have hnew₁ : ∀ field ∈ fields, field.name ∈ names₁ → field.name ∉ named.map Prod.fst := by
      intro field hfield hmem hlater
      rcases List.mem_cons.1 ((hmem₁ field hfield).1 hmem) with hname | hmem
      · have hcount := honce field hfield
        have hpos := List.count_pos_iff.2 hlater
        rw [List.map_cons, ← hname, List.count_cons_self] at hcount
        omega
      · exact hnew field hfield hmem (List.mem_cons_of_mem _ hlater)
    obtain ⟨names₂, hrest, hmem₂⟩ := ih
      (fun field hfield t ht => hvalue field hfield t (List.mem_cons_of_mem _ ht)) honce₁ hnew₁
    refine ⟨names₂, ?_, ?_⟩
    · rw [List.map_cons, List.foldlM_cons, hread]
      exact hrest
    · intro field hfield hmem
      apply hmem₂ field hfield
      rw [List.mem_append, hmem₁ field hfield, List.mem_cons]
      rw [List.map_cons, List.mem_append, List.mem_cons] at hmem
      tauto

/-- The items of an array fill the slots of the first fields. -/
theorem readItems_eq_ok (label : String) (total : Nat) {fs : List (Field σ)}
    (hfields : List.Forall₂ (FillsField slots) fs fields) {count : Nat} {items : List Tree}
    (hitems : List.Forall₂ (fun field item => FieldSpelling.value field item) (fields.take count) items)
    (habsent : ∀ field ∈ fields.drop count, field.optional) (position : Nat) (names : List String) :
    ∃ names', Record.readItems label total none position fs (items.map Tree.reading) (slots names) =
        .ok (slots names') ∧
      (∀ name ∈ names, name ∈ names') ∧ ∀ field ∈ fields, field.name ∉ names' → field.optional := by
  induction hfields generalizing count items position names with
  | nil =>
    rw [List.take_nil] at hitems
    cases hitems
    exact ⟨names, rfl, fun _ hmem => hmem, fun _ hmem => absurd hmem List.not_mem_nil⟩
  | @cons f field fs fields hf _ ih =>
    cases count with
    | zero =>
      -- nothing is left of the array, so all that follows is optional
      rw [List.take_zero] at hitems
      cases hitems
      have hnone : List.Forall₂ (fun field item => FieldSpelling.value field item) (fields.take 0) [] := .nil
      obtain ⟨names', hread, hsub, hrest⟩ := ih hnone
        (fun g hg => habsent g (List.mem_cons_of_mem _ hg)) (position + 1) names
      have hoptional : field.optional := habsent field List.mem_cons_self
      refine ⟨names', ?_, hsub, ?_⟩
      · rw [List.map_nil, Record.readItems, hf.canBeAbsent hoptional]
        exact hread
      · intro g hg hmem
        rcases List.mem_cons.1 hg with rfl | hg
        · exact hoptional
        · exact hrest g hg hmem
    | succ count =>
      rw [List.take_succ_cons] at hitems
      cases hitems with
      | @cons _ item _ items hitem hitems =>
        obtain ⟨names', hread, hsub, hrest⟩ := ih hitems habsent (position + 1) (f.name :: names)
        refine ⟨names', ?_, fun name hmem => hsub name (List.mem_cons_of_mem _ hmem), ?_⟩
        · rw [List.map_cons, Record.readItems, hf.read names item hitem]
          exact hread
        · intro g hg hmem
          rcases List.mem_cons.1 hg with rfl | hg
          · exact absurd (hsub f.name List.mem_cons_self) (by rwa [hf.name])
          · exact hrest g hg hmem

/-- **Spellings of a record.** A record is decoded from every tree that stands for it. -/
theorem RecordSpelling.decode (h : Fills rec fields slots a) {t : Tree} (ht : RecordSpelling fields t) :
    rec.decode t.reading = .ok a := by
  have hcomplete : ∀ names, (∀ field ∈ fields, field.name ∉ names → field.optional) →
      rec.complete (slots names) = .ok a := by
    intro names hnames
    rw [Record.complete, h.build names hnames]
  cases ht with
  | object named hnamed hvalue honce habsent =>
    have hnew : ∀ field ∈ fields, field.name ∈ ([] : List String) → field.name ∉ named.map Prod.fst :=
      fun _ _ hmem => absurd hmem List.not_mem_nil
    obtain ⟨names, hread, hmem⟩ := h.foldlM_readMember hnamed hvalue honce hnew
    have hbuild := hcomplete names fun field hfield hnew =>
      habsent field hfield fun hin => hnew (hmem field hfield hin)
    rw [Tree.reading, Tree.memberReadings_eq_map, Record.decode, h.start, hread]
    exact hbuild
  | array count hitems habsent =>
    obtain ⟨names, hread, -, hmem⟩ := readItems_eq_ok rec.label rec.fields.length h.each hitems habsent 0 []
    rw [Tree.reading, Tree.itemReadings_eq_map, Record.decode, h.start, hread]
    exact hcomplete names hmem

end Records

end ResourceQuery.Json

namespace ResourceQuery

open Json

/-! ## The parts of a registry -/

def ResourceId.spelling : Spelling ResourceId := fun id => Spelling.text id.name

def Variable.spelling : Spelling Variable := fun v =>
  RecordSpelling [⟨"name", Spelling.text v.name, False⟩, ⟨"type", Spelling.text v.type, False⟩]

/-- an object whose only member names the variant -/
inductive Fragment.spelling : Spelling Fragment
  | leaf {text : String} {key : Literal} {t : Tree} (hkey : key.Denotes "leaf".toList) (ht : Spelling.text text t) :
      spelling (.leaf text) (.object [(key, t)])
  | nested {opening closing : String} {key : Literal} {t : Tree} (hkey : key.Denotes "nested".toList)
      (ht : RecordSpelling [⟨"open", Spelling.text opening, False⟩, ⟨"close", Spelling.text closing, False⟩] t) :
      spelling (.nested opening closing) (.object [(key, t)])

/-- What is absent may be left out or written as `null`, and an empty list may be left out. -/
def Metadata.spelling : Spelling Metadata := fun m =>
  RecordSpelling [
    ⟨"variables", Spelling.list Variable.spelling m.declarations, m.declarations = []⟩,
    ⟨"fragment", Fragment.spelling m.fragment, False⟩,
    ⟨"parent", Spelling.optional ResourceId.spelling m.parent, m.parent = none⟩,
    ⟨"children", Spelling.list ResourceId.spelling m.children, m.children = []⟩,
    ⟨"alternate_field", Spelling.optional Spelling.text m.alternateField, m.alternateField = none⟩,
    ⟨"response_path", Spelling.optional Spelling.text m.responsePath, m.responsePath = none⟩]

/-- A limit that has its usual value may be left out. -/
def PageLimits.spelling : Spelling PageLimits := fun l =>
  let standard : PageLimits := {}
  RecordSpelling [
    ⟨"pageLimit", Spelling.limit l.page, l.page = standard.page⟩,
    ⟨"nestedPageLimit", Spelling.limit l.nested, l.nested = standard.nested⟩]

namespace Registry

/-- the trees that write page limits and resources, in order and perhaps with repeated names -/
def listSpelling (limits : PageLimits) (resources : List (ResourceId × Metadata)) : Tree → Prop :=
  RecordSpelling [
    ⟨"pageLimit", Spelling.limit limits.page, False⟩,
    ⟨"nestedPageLimit", Spelling.limit limits.nested, False⟩,
    ⟨"entries", Spelling.map Metadata.spelling (resources.map fun e => (e.1.name, e.2)), False⟩]

def spelling : Spelling Registry := fun r => listSpelling r.limits r.entries.entries

end Registry

/-! ### Reading them -/

theorem reads_resourceId : Reads ResourceId.decode ResourceId.spelling := by
  intro id t ht
  rw [ResourceId.decode, reads_text id.name t ht]
  rfl

namespace Variable

def slotsRead (v : Variable) (names : List String) : Slots where
  name := if "name" ∈ names then some v.name else none
  type := if "type" ∈ names then some v.type else none

end Variable

theorem reads_variable : Reads Variable.decode Variable.spelling := by
  intro v t ht
  refine RecordSpelling.decode (⟨rfl, ?_, ?_⟩ : Fills _ _ v.slotsRead _) ht
  · refine .cons ?_ (.cons ?_ .nil)
    · exact fillsField_slot v.name (fun _ => rfl) (fun _ => by simp [Variable.slotsRead]) (reads_text v.name) False.elim
    · exact fillsField_slot v.type (fun _ => rfl) (fun _ => by simp [Variable.slotsRead]) (reads_text v.type) False.elim
  · intro names hnames
    simp only [List.forall_mem_cons, imp_false, not_not] at hnames
    obtain ⟨hname, htype, -⟩ := hnames
    simp only [Variable.record, Variable.slotsRead, hname, htype, if_true]
    rfl

namespace Fragment

def slotsRead (opening closing : String) (names : List String) : Slots where
  opening := if "open" ∈ names then some opening else none
  closing := if "close" ∈ names then some closing else none

/-- the content of an object with one member is decoded by the variant that the member names -/
theorem decode_member {key : Literal} {name : String} (hkey : key.Denotes name.toList) {variant : Variant}
    (hvariant : Variant.ofName name = .ok variant) {t : Tree} {f : Fragment}
    (hcontent : variant.decode t.reading = .ok f) : Fragment.decode (Tree.object [(key, t)]).reading = .ok f := by
  rw [Tree.reading, Tree.memberReadings, Tree.memberReadings, Tree.memberReading, Fragment.decode,
    Literal.value_of_denotes hkey]
  simp only [liftFault, Except.mapError, bind, Except.bind, hvariant, hcontent]

end Fragment

theorem reads_fragment : Reads Fragment.decode Fragment.spelling := by
  intro f t ht
  cases ht with
  | @leaf text key t hkey ht =>
    have hcontent : Fragment.Variant.leaf.decode t.reading = .ok (.leaf text) :=
      congrArg (Fragment.leaf <$> ·) (reads_text text t ht)
    exact Fragment.decode_member hkey rfl hcontent
  | @nested opening closing key t hkey ht =>
    refine Fragment.decode_member hkey (by rfl : Fragment.Variant.ofName "nested" = .ok .nested) ?_
    refine RecordSpelling.decode (⟨rfl, ?_, ?_⟩ : Fills _ _ (Fragment.slotsRead opening closing) _) ht
    · refine .cons ?_ (.cons ?_ .nil)
      · exact fillsField_slot opening (fun _ => rfl) (fun _ => by simp [Fragment.slotsRead]) (reads_text opening)
          False.elim
      · exact fillsField_slot closing (fun _ => rfl) (fun _ => by simp [Fragment.slotsRead]) (reads_text closing)
          False.elim
    · intro names hnames
      simp only [List.forall_mem_cons, imp_false, not_not] at hnames
      obtain ⟨hopen, hclose, -⟩ := hnames
      simp only [Fragment.nestedRecord, Fragment.slotsRead, hopen, hclose, if_true]
      rfl

namespace Metadata

def slotsRead (m : Metadata) (names : List String) : Slots where
  declarations := if "variables" ∈ names then some m.declarations else none
  fragment := if "fragment" ∈ names then some m.fragment else none
  parent := if "parent" ∈ names then some m.parent else none
  children := if "children" ∈ names then some m.children else none
  alternateField := if "alternate_field" ∈ names then some m.alternateField else none
  responsePath := if "response_path" ∈ names then some m.responsePath else none

end Metadata

theorem not_spelling_null (s : String) : ¬ Spelling.text s .null := by
  rintro ⟨l, h, -⟩
  cases h

theorem reads_metadata : Reads Metadata.decode Metadata.spelling := by
  intro m t ht
  have hlinks : Reads (Reading.optional ResourceId.decode) (.optional ResourceId.spelling) :=
    reads_resourceId.optional fun id => not_spelling_null id.name
  have htexts : Reads (Reading.optional Reading.text) (.optional Spelling.text) :=
    reads_text.optional not_spelling_null
  refine RecordSpelling.decode (⟨rfl, ?_, ?_⟩ : Fills _ _ m.slotsRead _) ht
  · refine .cons ?_ (.cons ?_ (.cons ?_ (.cons ?_ (.cons ?_ (.cons ?_ .nil)))))
    · exact fillsField_slot m.declarations (fun _ => rfl) (fun _ => by simp [Metadata.slotsRead])
        (reads_variable.list m.declarations) fun _ => rfl
    · exact fillsField_slot m.fragment (fun _ => rfl) (fun _ => by simp [Metadata.slotsRead])
        (reads_fragment m.fragment) False.elim
    · exact fillsField_slot m.parent (fun _ => rfl) (fun _ => by simp [Metadata.slotsRead]) (hlinks m.parent)
        fun _ => rfl
    · exact fillsField_slot m.children (fun _ => rfl) (fun _ => by simp [Metadata.slotsRead])
        (reads_resourceId.list m.children) fun _ => rfl
    · exact fillsField_slot m.alternateField (fun _ => rfl) (fun _ => by simp [Metadata.slotsRead])
        (htexts m.alternateField) fun _ => rfl
    · exact fillsField_slot m.responsePath (fun _ => rfl) (fun _ => by simp [Metadata.slotsRead])
        (htexts m.responsePath) fun _ => rfl
  · intro names hnames
    simp only [List.forall_mem_cons, imp_false, not_not] at hnames
    obtain ⟨hvariables, hfragment, hparent, hchildren, hfield, hpath, -⟩ := hnames
    simp only [Metadata.record, Metadata.slotsRead, hfragment, if_true, Option.map_some, getD_slot hvariables,
      getD_slot hparent, getD_slot hchildren, getD_slot hfield, getD_slot hpath]

namespace PageLimits

def slotsRead (l : PageLimits) (names : List String) : Slots where
  page := if "pageLimit" ∈ names then some l.page else none
  nested := if "nestedPageLimit" ∈ names then some l.nested else none

end PageLimits

theorem reads_limits : Reads PageLimits.decode PageLimits.spelling := by
  intro l t ht
  refine RecordSpelling.decode (⟨rfl, ?_, ?_⟩ : Fills _ _ l.slotsRead _) ht
  · refine .cons ?_ (.cons ?_ .nil)
    · exact fillsField_slot l.page (fun _ => rfl) (fun _ => by simp [PageLimits.slotsRead]) (reads_limit l.page)
        fun _ => rfl
    · exact fillsField_slot l.nested (fun _ => rfl) (fun _ => by simp [PageLimits.slotsRead]) (reads_limit l.nested)
        fun _ => rfl
  · intro names hnames
    simp only [List.forall_mem_cons] at hnames
    obtain ⟨hpage, hnested, -⟩ := hnames
    simp only [PageLimits.record, PageLimits.slotsRead, getD_slot hpage, getD_slot hnested]

namespace Registry

def slotsRead (limits : PageLimits) (resources : List (String × Metadata)) (names : List String) : Slots where
  page := if "pageLimit" ∈ names then some limits.page else none
  nested := if "nestedPageLimit" ∈ names then some limits.nested else none
  entries := if "entries" ∈ names then some resources else none

end Registry

/-- resources that are written in a row are registered in that order -/
theorem decode_of_listSpelling {limits : PageLimits} {resources : List (ResourceId × Metadata)} {t : Tree}
    (ht : Registry.listSpelling limits resources t) :
    Registry.decode t.reading = .ok (.ofList limits resources) := by
  let written : List (String × Metadata) := resources.map fun e => (e.1.name, e.2)
  refine RecordSpelling.decode (⟨rfl, ?_, ?_⟩ : Fills _ _ (Registry.slotsRead limits written) _) ht
  · refine .cons ?_ (.cons ?_ (.cons ?_ .nil))
    · exact fillsField_slot limits.page (fun _ => rfl) (fun _ => by simp [Registry.slotsRead])
        (reads_limit limits.page) False.elim
    · exact fillsField_slot limits.nested (fun _ => rfl) (fun _ => by simp [Registry.slotsRead])
        (reads_limit limits.nested) False.elim
    · exact fillsField_slot written (fun _ => rfl) (fun _ => by simp [Registry.slotsRead])
        (reads_metadata.map written) False.elim
  · intro names hnames
    simp only [List.forall_mem_cons, imp_false, not_not] at hnames
    obtain ⟨hpage, hnested, hentries, -⟩ := hnames
    have hresources : written.map (fun e => (ResourceId.mk e.1, e.2)) = resources := by
      rw [List.map_map]
      exact List.map_id _
    calc Registry.record.build (Registry.slotsRead limits written names)
        = some (.ofList limits (written.map fun e => (ResourceId.mk e.1, e.2))) := by
          simp only [Registry.record, Registry.slotsRead, hpage, hnested, hentries, if_true]
          rfl
      _ = some (.ofList limits resources) := by rw [hresources]

theorem reads_registry : Reads Registry.decode Registry.spelling := by
  intro r t ht
  rw [decode_of_listSpelling ht, r.ofList_entries]

end ResourceQuery
