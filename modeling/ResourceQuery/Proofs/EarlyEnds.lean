/-
Decoders of readings that are cut.

A decoder that gets a value from a reading meets, in a reading that is cut, first what it met in the whole one, and then
the end of the text: before it could miss a field or find that something has the wrong shape. This holds of the decoders
of strings and page limits, and of those of lists, maps and records if it holds of their parts; it holds as well of what
is passed over. The parts are decoded one after the other, so a pass over them stops at the one that is cut, or at the
end of the text right after the last. The first digits of a number are one too, but the text ends before the brackets
around it are closed.

Results:
- `pass_array`, `pass_object`: a pass over what is cut fails with the end of the text.
- `EndsEarly.list`, `EndsEarly.members`, `endsEarly_passOver`: so do decoders of arrays and objects.
- `endsEarly_record`: a record fails with the end of the text if its fields do.
-/
import ResourceQuery.Proofs.CutTexts
import ResourceQuery.Proofs.Fallible

namespace ResourceQuery.Json

/-- the text ends too early -/
abbrev endOfText : DecodeError := .fault .ended

/-- Where the reading of a value is cut, the decoder fails with the end of the text. Of a number that is cut it may get
another value. -/
structure EndsEarly {α : Type} (d : Decoder α) : Prop where
  missing : d (.missing .ended) = .error endOfText
  cut : ∀ {r r' : Reading} {a : α}, d r = .ok a → Cut r r' → d r' = .error endOfText
  short : ∀ {r r' : Reading} {a : α}, d r = .ok a → Shortened r r' → ∃ b, d r' = .ok b

variable {α β σ : Type} {d : Decoder α} {f : Fault}

/-! ## Strings and numbers -/

/-- pieces that hold characters to their end do not fail before it -/
theorem Quoted.decode_start : ∀ {ps qs : List Piece} {cs : List Char}, decode none (ps ++ qs) = .ok cs →
    decode (some f) ps = .error f
  | [], _, _, _ => rfl
  | .char c :: ps, qs, cs, h => by
    obtain ⟨_, hrest⟩ := map_eq_ok h
    rw [decode, decode_start hrest]
    rfl
  | .unit code :: ps, qs, cs, h => by
    rw [List.cons_append, decode.eq_def] at h
    rw [decode.eq_def]
    dsimp only at h ⊢
    split_ifs at h ⊢
    · -- half of a pair: the text ends after it, or its other half is there
      cases ps with
      | nil => rfl
      | cons p ps =>
        cases p with
        | char c => cases h
        | unit code' =>
          dsimp only [List.cons_append] at h ⊢
          split_ifs at h ⊢
          obtain ⟨_, hrest⟩ := map_eq_ok h
          rw [decode_start hrest]
          rfl
    · obtain ⟨_, hrest⟩ := map_eq_ok h
      rw [decode_start hrest]
      rfl

theorem Quoted.Cut.value_eq {q q' : Quoted} (h : q.Cut q') {s : String} (hq : q.value = .ok s) :
    q'.value = .error .ended := by
  obtain ⟨ps, _⟩ := q
  obtain ⟨ps', _⟩ := q'
  obtain ⟨rfl, rfl, rest, rfl⟩ := h
  cases hdecode : Quoted.decode none (ps' ++ rest) with
  | error e =>
    rw [Quoted.value, hdecode] at hq
    cases hq
  | ok cs =>
    rw [Quoted.value, Quoted.decode_start hdecode]
    rfl

theorem endsEarly_text : EndsEarly Reading.text where
  missing := rfl
  cut h hcut := by
    cases hcut with
    | missing => rfl
    | @string q q' hq =>
      rw [Reading.text] at h ⊢
      cases hvalue : q.value with
      | error e =>
        rw [hvalue] at h
        cases h
      | ok s =>
        rw [hq.value_eq hvalue]
        rfl
    | _ => cases h
  short h hshort := by
    cases hshort
    cases h

/-- fewer digits, a smaller number -/
theorem ofDigitChars_start_le {ds ds' : List Char} (h : ds' <+: ds) :
    Nat.ofDigitChars 10 ds' 0 ≤ Nat.ofDigitChars 10 ds 0 := by
  obtain ⟨rest, rfl⟩ := h
  calc Nat.ofDigitChars 10 ds' 0
      ≤ 10 ^ rest.length * Nat.ofDigitChars 10 ds' 0 := Nat.le_mul_of_pos_left _ (Nat.pow_pos (by decide))
    _ ≤ 10 ^ rest.length * Nat.ofDigitChars 10 ds' 0 + Nat.ofDigitChars 10 rest 0 := Nat.le_add_right _ _
    _ = Nat.ofDigitChars 10 (ds' ++ rest) 0 := by
      rw [Nat.ofDigitChars_append, ← Nat.ofDigitChars_eq_ofDigitChars_zero]

/-- digits are a page limit if their number is in range -/
theorem limit_digits {ds : List Char} :
    (∃ n, Reading.limit (.number (.ok ⟨false, ds, [], none⟩)) = .ok n) ↔ Nat.ofDigitChars 10 ds 0 < UInt32.size := by
  set n := Nat.ofDigitChars 10 ds 0 with hn
  constructor
  · rintro ⟨l, hl⟩
    by_contra hlarge
    by_cases hsize : n < UInt64.size
    · have hvalue : Numeral.value? ⟨false, ds, [], none⟩ = some (.natural n) := if_pos ⟨rfl, rfl, rfl, hsize⟩
      simp [Reading.limit, hvalue, hlarge] at hl
    · have hvalue : Numeral.value? ⟨false, ds, [], none⟩ =
          (Numeral.toFloat? ⟨false, ds, [], none⟩).map .floating := by
        rw [Numeral.value?, ← hn, if_neg fun h => hsize h.2.2.2, if_neg fun h => Bool.false_ne_true h.2.2.1]
      cases hfloat : Numeral.toFloat? ⟨false, ds, [], none⟩ <;> simp [Reading.limit, hvalue, hfloat] at hl
  · intro hlt
    have hvalue : Numeral.value? ⟨false, ds, [], none⟩ = some (.natural n) :=
      if_pos ⟨rfl, rfl, rfl, Nat.lt_trans hlt (by decide)⟩
    simp [Reading.limit, hvalue, hlt]

theorem endsEarly_limit : EndsEarly Reading.limit where
  missing := rfl
  cut h hcut := by
    cases hcut with
    | missing => rfl
    | _ => cases h
  short h hshort := by
    obtain ⟨hds⟩ := hshort
    have hlt := limit_digits.1 ⟨_, h⟩
    exact limit_digits.2 (Nat.lt_of_le_of_lt (ofDigitChars_start_le hds) hlt)

theorem EndsEarly.map (hd : EndsEarly d) (g : α → β) : EndsEarly fun r => g <$> d r where
  missing := by rw [hd.missing]; rfl
  cut h hcut := by
    obtain ⟨a, ha⟩ := map_eq_ok h
    rw [hd.cut ha hcut]
    rfl
  short h hshort := by
    obtain ⟨a, ha⟩ := map_eq_ok h
    obtain ⟨b, hb⟩ := hd.short ha hshort
    exact ⟨g b, by rw [hb]; rfl⟩

theorem optional_eq_map {r : Reading} (h : r ≠ .null) : Reading.optional d r = some <$> d r := by
  cases r with
  | null => exact absurd rfl h
  | _ => rfl

/-- what is cut is not read as `null` -/
theorem EndsEarly.optional (hd : EndsEarly d) : EndsEarly (Reading.optional d) where
  missing := (hd.map some).missing
  cut {r r' a} h hcut := by
    have hnull : r' ≠ .null := by cases hcut <;> nofun
    rw [optional_eq_map hnull]
    by_cases hr : r = .null
    · subst hr
      cases hcut
      exact (hd.map some).missing
    · rw [optional_eq_map hr] at h
      exact (hd.map some).cut h hcut
  short h hshort := by
    obtain ⟨hds⟩ := hshort
    exact (hd.map some).short h (.number hds)

/-! ## Passes -/

section Passes

variable {step : σ → β → Except DecodeError σ} {s t : σ} {before after : List β} {x x' : β} {fault : Option Fault}
  {e : DecodeError}

/-- takes the parts of an array or object one after the other, and then its fault -/
def pass (step : σ → β → Except DecodeError σ) (s : σ) (xs : List β) (fault : Option Fault) : Except DecodeError σ := do
  let t ← xs.foldlM step s
  liftFault (Reading.check fault)
  return t

theorem pass_append (h : pass step s (before ++ after) none = .ok t) :
    ∃ u, after.foldlM step u = .ok t ∧
      ∀ xs fault, pass step s (before ++ xs) fault = pass step u xs fault := by
  obtain ⟨t', hall, hend⟩ := except_bind_eq_ok.1 h
  cases hend
  rw [List.foldlM_append] at hall
  obtain ⟨u, hbefore, hafter⟩ := except_bind_eq_ok.1 hall
  refine ⟨u, hafter, ?_⟩
  intro xs fault
  rw [pass, List.foldlM_append, hbefore]
  rfl

/-- after a part that fails nothing is looked at -/
theorem pass_cut (h : pass step s (before ++ x :: after) none = .ok t)
    (hx : ∀ {u v : σ}, step u x = .ok v → step u x' = .error e) :
    pass step s (before ++ [x']) fault = .error e := by
  obtain ⟨u, hafter, hpass⟩ := pass_append h
  obtain ⟨v, hv, -⟩ := except_bind_eq_ok.1 hafter
  rw [hpass, pass, List.foldlM_cons, hx hv]
  rfl

theorem pass_start (h : pass step s (before ++ after) none = .ok t) :
    pass step s before (some f) = .error (.fault f) := by
  obtain ⟨u, -, hpass⟩ := pass_append h
  rw [← List.append_nil before, hpass]
  rfl

/-- the fault after the last part is met even if that is another value -/
theorem pass_short (h : pass step s (before ++ x :: after) none = .ok t)
    (hx : ∀ {u v : σ}, step u x = .ok v → ∃ w, step u x' = .ok w) :
    pass step s (before ++ [x']) (some f) = .error (.fault f) := by
  obtain ⟨u, hafter, hpass⟩ := pass_append h
  obtain ⟨v, hv, -⟩ := except_bind_eq_ok.1 hafter
  obtain ⟨w, hw⟩ := hx hv
  rw [hpass, pass, List.foldlM_cons, hw]
  rfl

theorem mapM_eq_pass (g : β → Except DecodeError α) (xs : List β) (fault : Option Fault) :
    (do let ys ← xs.mapM g; liftFault (Reading.check fault); return ys) =
      List.reverse <$> pass (fun ys x => (· :: ys) <$> g x) [] xs fault := by
  simp only [List.mapM_eq_reverse_foldlM_cons, pass, map_eq_pure_bind, bind_assoc, pure_bind]

theorem list_array (d : Decoder α) (items : List Reading) (fault : Option Fault) :
    Reading.list d (.array items fault) = List.reverse <$> pass (fun ys r => (· :: ys) <$> d r) [] items fault :=
  mapM_eq_pass d items fault

theorem map_object (d : Decoder α) (members : List (Quoted × Reading)) (fault : Option Fault) :
    Reading.map d (.object members fault) =
      List.reverse <$> pass (fun es m => (· :: es) <$> Reading.entry d m) [] members fault :=
  mapM_eq_pass (Reading.entry d) members fault

theorem record_object (rec : Record σ α) (members : List (Quoted × Reading)) (fault : Option Fault) :
    rec.decode (.object members fault) =
      pass (Record.readMember rec.fields) rec.start members fault >>= rec.complete := by
  simp only [Record.decode, pass, bind_assoc, pure_bind]

end Passes

/-! ## Arrays and objects -/

/-- what `EndsEarly` says of a decoder, for one of the members of an object -/
structure MemberEndsEarly (g : Quoted × Reading → Except DecodeError β) : Prop where
  missing : ∀ r, g (.missing .ended, r) = .error endOfText
  key : ∀ {q q' : Quoted} {r r' : Reading} {b : β}, g (q, r) = .ok b → q.Cut q' → g (q', r') = .error endOfText
  value : ∀ {q : Quoted} {r r' : Reading} {b : β}, g (q, r) = .ok b → Cut r r' → g (q, r') = .error endOfText
  short : ∀ {q : Quoted} {r r' : Reading} {b : β}, g (q, r) = .ok b → Shortened r r' → ∃ c, g (q, r') = .ok c

/-- a member whose name says how its value is decoded -/
theorem memberEndsEarly_bind {k : String → Decoder β} (hk : ∀ {name r b}, k name r = .ok b → EndsEarly (k name)) :
    MemberEndsEarly fun m => do
      let name ← liftFault m.1.value
      k name m.2 where
  missing r := rfl
  key h hcut := by
    obtain ⟨name, hname, -⟩ := except_bind_eq_ok.1 h
    have hcutName := hcut.value_eq (mapError_eq_ok.1 hname)
    dsimp only
    rw [hcutName]
    rfl
  value h hcut := by
    obtain ⟨name, hname, hvalue⟩ := except_bind_eq_ok.1 h
    dsimp only
    rw [hname]
    exact (hk hvalue).cut hvalue hcut
  short h hshort := by
    obtain ⟨name, hname, hvalue⟩ := except_bind_eq_ok.1 h
    obtain ⟨c, hc⟩ := (hk hvalue).short hvalue hshort
    exact ⟨c, except_bind_eq_ok.2 ⟨name, hname, hc⟩⟩

theorem MemberEndsEarly.map {g : Quoted × Reading → Except DecodeError α} (hg : MemberEndsEarly g) (k : α → β) :
    MemberEndsEarly fun m => k <$> g m where
  missing r := by
    rw [hg.missing]
    rfl
  key h hcut := by
    obtain ⟨a, ha⟩ := map_eq_ok h
    rw [hg.key ha hcut]
    rfl
  value h hcut := by
    obtain ⟨a, ha⟩ := map_eq_ok h
    rw [hg.value ha hcut]
    rfl
  short h hshort := by
    obtain ⟨a, ha⟩ := map_eq_ok h
    obtain ⟨b, hb⟩ := hg.short ha hshort
    exact ⟨k b, by rw [hb]; rfl⟩

section

variable {step : σ → Reading → Except DecodeError σ} {s t : σ}

/-- an array that is cut, if its items are decoded one after the other -/
theorem pass_array (hstep : ∀ u, EndsEarly (step u)) {items items' : List Reading} {fault fault' : Option Fault}
    (h : pass step s items fault = .ok t) (hcut : Cut (.array items fault) (.array items' fault')) :
    pass step s items' fault' = .error endOfText := by
  cases hcut with
  | openArray => rw [pass, List.foldlM_cons, (hstep s).missing]; rfl
  | item hr => exact pass_cut h fun hv => (hstep _).cut hv hr
  | shortItem hr => exact pass_short h fun hv => (hstep _).short hv hr
  | afterItems => exact pass_start h

end

/-- an object that is cut, if its members are decoded one after the other -/
theorem pass_object {step : σ → Quoted × Reading → Except DecodeError σ} {s t : σ}
    (hstep : ∀ u, MemberEndsEarly (step u)) {members members' : List (Quoted × Reading)} {fault fault' : Option Fault}
    (h : pass step s members fault = .ok t) (hcut : Cut (.object members fault) (.object members' fault')) :
    pass step s members' fault' = .error endOfText := by
  cases hcut with
  | openObject => rw [pass, List.foldlM_cons, (hstep s).missing]; rfl
  | key hq => exact pass_cut h fun hv => (hstep _).key hv hq
  | value hr => exact pass_cut h fun hv => (hstep _).value hv hr
  | shortValue hr => exact pass_short h fun hv => (hstep _).short hv hr
  | afterMembers => exact pass_start h

theorem Cut.array_cases {items : List Reading} {fault : Option Fault} {r : Reading} (h : Cut (.array items fault) r) :
    r = .missing .ended ∨ ∃ items' fault', r = .array items' fault' := by
  cases h with
  | missing => exact .inl rfl
  | _ => exact .inr ⟨_, _, rfl⟩

theorem Cut.object_cases {members : List (Quoted × Reading)} {fault : Option Fault} {r : Reading}
    (h : Cut (.object members fault) r) : r = .missing .ended ∨ ∃ members' fault', r = .object members' fault' := by
  cases h with
  | missing => exact .inl rfl
  | _ => exact .inr ⟨_, _, rfl⟩

theorem EndsEarly.list (hd : EndsEarly d) : EndsEarly (Reading.list d) where
  missing := rfl
  cut {r r' a} h hcut := by
    cases r with
    | array items fault =>
      obtain rfl | ⟨items', fault', rfl⟩ := hcut.array_cases
      · rfl
      rw [list_array] at h ⊢
      obtain ⟨ys, hys⟩ := map_eq_ok h
      rw [pass_array (fun ys => hd.map (· :: ys)) hys hcut]
      rfl
    | _ => cases h
  short h hshort := by
    cases hshort
    cases h

theorem memberEndsEarly_entry (hd : EndsEarly d) : MemberEndsEarly (Reading.entry d) := by
  apply memberEndsEarly_bind (k := fun name r => do let value ← d r; return (name, value))
  intro name r b _
  have h := hd.map (Prod.mk name)
  simp only [map_eq_pure_bind] at h
  exact h

theorem EndsEarly.members (hd : EndsEarly d) : EndsEarly (Reading.map d) where
  missing := rfl
  cut {r r' a} h hcut := by
    cases r with
    | object members fault =>
      obtain rfl | ⟨members', fault', rfl⟩ := hcut.object_cases
      · rfl
      rw [map_object] at h ⊢
      obtain ⟨es, hes⟩ := map_eq_ok h
      rw [pass_object (fun es => (memberEndsEarly_entry hd).map (· :: es)) hes hcut]
      rfl
    | _ => cases h
  short h hshort := by
    cases hshort
    cases h

/-! ## Passing over -/

/-- the decoder that only looks whether a value is there -/
def passOver : Decoder Unit := fun r => liftFault r.skim

theorem liftFault_bind (x : Except Fault α) (k : α → Except Fault β) :
    liftFault (x >>= k) = liftFault x >>= fun a => liftFault (k a) := by
  cases x <;> rfl

theorem pass_unit (step : Unit → β → Except DecodeError Unit) (xs : List β) (fault : Option Fault) :
    pass step () xs fault = xs.foldlM step () >>= fun _ => liftFault (Reading.check fault) := by
  cases fault <;> rfl

theorem passOver_array (items : List Reading) (fault : Option Fault) :
    passOver (.array items fault) = pass (fun _ r => passOver r) () items fault := by
  have hitems : liftFault (Reading.skimItems items) = items.foldlM (fun _ r => passOver r) () := by
    induction items with
    | nil => rfl
    | cons item items ih =>
      rw [Reading.skimItems, liftFault_bind, ih]
      rfl
  rw [passOver, Reading.skim, liftFault_bind, hitems, pass_unit]

theorem passOver_object (members : List (Quoted × Reading)) (fault : Option Fault) :
    passOver (.object members fault) = pass (fun _ m => liftFault (Reading.skimMember m)) () members fault := by
  have hmembers : liftFault (Reading.skimMembers members) =
      members.foldlM (fun _ m => liftFault (Reading.skimMember m)) () := by
    induction members with
    | nil => rfl
    | cons m members ih =>
      rw [Reading.skimMembers, liftFault_bind, ih]
      rfl
  rw [passOver, Reading.skim, liftFault_bind, hmembers, pass_unit]

theorem passOver_shortened {r r' : Reading} (h : Shortened r r') : passOver r' = .ok () := by
  cases h
  rfl

/-- a member whose key has no fault is passed over if its value is -/
theorem skimMember_eq {q : Quoted} {r : Reading} {u : Unit} (h : liftFault (Reading.skimMember (q, r)) = .ok u)
    (r' : Reading) : liftFault (Reading.skimMember (q, r')) = passOver r' := by
  have hcheck : ∃ v, Reading.check q.fault = .ok v := by
    obtain ⟨v, hv, -⟩ := except_bind_eq_ok.1 (mapError_eq_ok.1 h)
    exact ⟨v, hv⟩
  obtain ⟨v, hv⟩ := hcheck
  rw [Reading.skimMember, hv]
  rfl

theorem passOver_cut {r r' : Reading} {u : Unit} (h : passOver r = .ok u) (hcut : Cut r r') :
    passOver r' = .error endOfText := by
  induction hcut generalizing u with
  | missing => rfl
  | @string q q' hq =>
    rw [passOver, Reading.skim, hq.ended]
    rfl
  | openArray => rfl
  | item hr ih =>
    rw [passOver_array] at h ⊢
    exact pass_cut h ih
  | shortItem hr =>
    rw [passOver_array] at h ⊢
    exact pass_short h fun _ => ⟨(), passOver_shortened hr⟩
  | afterItems =>
    rw [passOver_array] at h ⊢
    exact pass_start h
  | openObject => rfl
  | @key _ _ _ q' _ r' hq =>
    have hkey : liftFault (Reading.skimMember (q', r')) = .error endOfText := by
      rw [Reading.skimMember, hq.ended]
      rfl
    rw [passOver_object] at h ⊢
    exact pass_cut h fun _ => hkey
  | @value _ _ _ r r' _ hr ih =>
    rw [passOver_object] at h ⊢
    apply pass_cut h
    intro _ v hv
    have hvalue := skimMember_eq hv r
    rw [hv] at hvalue
    rw [skimMember_eq hv]
    exact ih hvalue.symm
  | @shortValue _ _ _ r r' hr =>
    rw [passOver_object] at h ⊢
    apply pass_short h
    intro _ v hv
    exact ⟨(), by rw [skimMember_eq hv, passOver_shortened hr]⟩
  | afterMembers =>
    rw [passOver_object] at h ⊢
    exact pass_start h

theorem endsEarly_passOver : EndsEarly passOver where
  missing := rfl
  cut := passOver_cut
  short _ hshort := ⟨(), passOver_shortened hshort⟩

/-! ## Records -/

section Records

variable {fields : List (Field σ)} {rec : Record σ α}

/-- where the reading of a field is cut, it fails with the end of the text -/
def Field.EndsEarly (field : Field σ) : Prop := ∀ s, Json.EndsEarly (field.read · s)

theorem EndsEarly.slot (hd : EndsEarly d) {name : String} {canBeAbsent : Bool} {get : σ → Option α}
    {set : σ → α → σ} : (Field.slot name canBeAbsent d get set).EndsEarly := fun s => hd.map (set s)

/-- what is read of the value of a member, by its name -/
def memberSlots (fields : List (Field σ)) (s : σ) (name : String) : Decoder σ := fun r =>
  match fields.find? fun field => field.name = name with
  | some field => if field.isRead s then .error (.mismatch (.duplicateField name)) else field.read r s
  | none => (fun _ => s) <$> passOver r

theorem readMember_eq (fields : List (Field σ)) (s : σ) :
    Record.readMember fields s = fun m => liftFault m.1.value >>= fun name => memberSlots fields s name m.2 := by
  funext m
  unfold Record.readMember
  refine congrArg (liftFault m.1.value >>= ·) (funext fun name => ?_)
  rw [memberSlots]
  cases fields.find? (fun field => field.name = name) with
  | none => exact (map_eq_pure_bind _ _).symm
  | some field => rfl

theorem memberEndsEarly_readMember (hfields : ∀ field ∈ fields, field.EndsEarly) (s : σ) :
    MemberEndsEarly (Record.readMember fields s) := by
  rw [readMember_eq]
  apply memberEndsEarly_bind
  intro name r b h
  cases hfield : fields.find? fun field => field.name = name with
  | none =>
    have hskim : memberSlots fields s name = fun r => (fun _ => s) <$> passOver r := by
      funext r
      simp only [memberSlots, hfield]
    rw [hskim]
    exact endsEarly_passOver.map fun _ => s
  | some field =>
    have hslot : memberSlots fields s name = fun r =>
        if field.isRead s then .error (.mismatch (.duplicateField name)) else field.read r s := by
      funext r
      simp only [memberSlots, hfield]
    rw [hslot] at h ⊢
    cases hread : field.isRead s with
    | true => simp [hread] at h
    | false => exact hfields field (List.mem_of_find?_eq_some hfield) s

/-- what was read of an array does not depend on what comes after it -/
theorem readItems_append {label : String} {count position : Nat} {fault : Option Fault} {before after : List Reading}
    {s t : σ} (h : Record.readItems label count fault position fields (before ++ after) s = .ok t) :
    ∃ position' rest u, rest ⊆ fields ∧
      ∀ fault items, Record.readItems label count fault position fields (before ++ items) s =
        Record.readItems label count fault position' rest items u := by
  induction before generalizing position fields s with
  | nil => exact ⟨position, fields, s, List.Subset.refl fields, fun _ _ => rfl⟩
  | cons r before ih =>
    cases fields with
    | nil => cases h
    | cons field fields =>
      obtain ⟨s', hs', htail⟩ := except_bind_eq_ok.1 h
      obtain ⟨position', rest, u, hrest, hitems⟩ := ih htail
      refine ⟨position', rest, u, fun f hf => List.mem_cons_of_mem field (hrest hf), ?_⟩
      intro fault items
      rw [List.cons_append, Record.readItems, hs']
      exact hitems fault items

/-- a field that is due finds the fault first -/
theorem readItems_nil {label : String} {count position : Nat} {s : σ} :
    Record.readItems label count (some f) position fields [] s = .error (.fault f) := by
  cases fields <;> rfl

/-- the field that an item is for, with the slots it is read into -/
theorem readItems_item {label : String} {count position : Nat} {fault : Option Fault} {before after : List Reading}
    {r : Reading} {s t : σ} (h : Record.readItems label count fault position fields (before ++ r :: after) s = .ok t) :
    ∃ field ∈ fields, ∃ position' rest u v, field.read r u = .ok v ∧
      ∀ fault r', Record.readItems label count fault position fields (before ++ [r']) s =
        field.read r' u >>= Record.readItems label count fault position' rest [] := by
  obtain ⟨position', rest, u, hrest, hitems⟩ := readItems_append h
  rw [hitems] at h
  cases rest with
  | nil => cases h
  | cons field rest =>
    obtain ⟨v, hv, -⟩ := except_bind_eq_ok.1 h
    exact ⟨field, hrest List.mem_cons_self, position' + 1, rest, u, v, hv, fun fault r' => hitems fault [r']⟩

theorem readItems_cut (hfields : ∀ field ∈ fields, field.EndsEarly) (hsome : fields ≠ []) {label : String}
    {count position : Nat} {fault fault' : Option Fault} {items items' : List Reading} {s t : σ}
    (h : Record.readItems label count fault position fields items s = .ok t)
    (hcut : Cut (.array items fault) (.array items' fault')) :
    Record.readItems label count fault' position fields items' s = .error endOfText := by
  cases hcut with
  | openArray =>
    obtain ⟨field, rest, rfl⟩ := List.exists_cons_of_ne_nil hsome
    rw [Record.readItems, (hfields field List.mem_cons_self s).missing]
    rfl
  | item hr =>
    obtain ⟨field, hmem, _, _, u, v, hv, hread⟩ := readItems_item h
    rw [hread, (hfields field hmem u).cut hv hr]
    rfl
  | shortItem hr =>
    obtain ⟨field, hmem, _, _, u, v, hv, hread⟩ := readItems_item h
    obtain ⟨w, hw⟩ := (hfields field hmem u).short hv hr
    rw [hread, hw]
    exact readItems_nil
  | afterItems =>
    obtain ⟨_, _, u, -, hitems⟩ := readItems_append h
    have hend := hitems (some .ended) []
    rw [List.append_nil] at hend
    rw [hend, readItems_nil]

/-- A record is not decoded from a reading that is cut, if its fields are not. -/
theorem endsEarly_record (hfields : ∀ field ∈ rec.fields, field.EndsEarly) (hsome : rec.fields ≠ []) :
    EndsEarly rec.decode where
  missing := rfl
  cut {r r' a} h hcut := by
    cases r with
    | array items fault =>
      obtain rfl | ⟨items', fault', rfl⟩ := hcut.array_cases
      · rfl
      obtain ⟨s, hs, -⟩ := except_bind_eq_ok.1 h
      rw [Record.decode, readItems_cut hfields hsome hs hcut]
      rfl
    | object members fault =>
      obtain rfl | ⟨members', fault', rfl⟩ := hcut.object_cases
      · rfl
      rw [record_object] at h ⊢
      obtain ⟨s, hs, -⟩ := except_bind_eq_ok.1 h
      rw [pass_object (memberEndsEarly_readMember hfields) hs hcut]
      rfl
    | _ => cases h
  short h hshort := by
    cases hshort
    cases h

end Records

end ResourceQuery.Json
