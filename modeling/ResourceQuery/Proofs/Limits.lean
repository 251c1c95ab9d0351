/-
Page limits, from numerals to the sizes of a registry.

A limit is written in two places, with two readers. On a command line it is an integer, with a sign or without one, and
with any zeros in front; in a configuration file it is a number of JSON. Both take it at its value, and refuse it if it
does not fit; a command line also refuses zero. Then options go before the file and the file before the usual sizes, and
only what is left at the end may not be zero.

Results:
- `limit?_eq_some_iff`: an option takes the integers that fit, whatever zeros are in front.
- `limit_integer_iff`: so does a member of a configuration, if it has no minus sign.
- `stated_object_iff`: an object states what its two members say, among members of other names.
- `limits_eq_iff`: all that can come of options and a file.
- `page_limits_exact`: these for all texts, command lines and files.
-/
import ResourceQuery.Cli.Run
import ResourceQuery.Proofs.CommandLine
import ResourceQuery.Proofs.Insertions
import ResourceQuery.Proofs.WrittenText

namespace ResourceQuery

open Json

namespace Cli

/-! ## Integers on a command line -/

/-- the integer that decimal digits name, after an optional sign -/
inductive NamesInteger (text : String) : Int → Prop
  | unsigned {ds : List Char} (htext : text.toList = ds) (hne : ds ≠ []) (hdigits : ∀ c ∈ ds, c.isDigit = true) :
      NamesInteger text (Nat.ofDigitChars 10 ds 0)
  | plus {ds : List Char} (htext : text.toList = '+' :: ds) (hne : ds ≠ []) (hdigits : ∀ c ∈ ds, c.isDigit = true) :
      NamesInteger text (Nat.ofDigitChars 10 ds 0)
  | minus {ds : List Char} (htext : text.toList = '-' :: ds) (hne : ds ≠ []) (hdigits : ∀ c ∈ ds, c.isDigit = true) :
      NamesInteger text (-Nat.ofDigitChars 10 ds 0)

/-- An option takes a text that names an integer from 1 to 2^32 - 1, and takes it at its value. -/
theorem limit?_eq_some_iff {text : String} {n : UInt32} :
    limit? text = some n ↔ ∃ v : Int, NamesInteger text v ∧ 1 ≤ v ∧ v ≤ 4294967295 ∧ v = n.toNat := by
  constructor
  · intro h
    obtain ⟨hpos, ds, htext, hne, hdigits, hvalue⟩ := limit?_iff_spells.1 h
    have hlt : n.toNat < 4294967296 := n.toNat_lt
    have hnames : NamesInteger text (n.toNat : Int) := by
      rw [← hvalue]
      rcases htext with htext | htext
      · exact .unsigned htext hne hdigits
      · exact .plus htext hne hdigits
    exact ⟨n.toNat, hnames, by omega, by omega, rfl⟩
  · rintro ⟨v, hnames, hlow, -, hvalue⟩
    refine limit?_iff_spells.2 ⟨by omega, ?_⟩
    cases hnames with
    | unsigned htext hne hdigits => exact ⟨_, .inl htext, hne, hdigits, Int.ofNat_inj.1 hvalue⟩
    | plus htext hne hdigits => exact ⟨_, .inr htext, hne, hdigits, Int.ofNat_inj.1 hvalue⟩
    | minus htext hne hdigits => omega

end Cli

/-! ## Integers in a configuration -/

namespace Json

/-- without fraction and exponent -/
def Number.IsInteger (n : Number) : Prop := n.fraction = none ∧ n.exponent = none

/-- the value of the digits -/
def Number.wholeValue (n : Number) : Nat := Nat.ofDigitChars 10 n.whole.text 0

/-- the numerals that are read as natural numbers -/
theorem value?_eq_natural_iff {n : Numeral} {k : Nat} :
    n.value? = some (.natural k) ↔ n.fraction = [] ∧ n.exponent = none ∧ n.negative = false ∧ k < UInt64.size ∧
      Nat.ofDigitChars 10 n.digits 0 = k := by
  simp only [Numeral.value?]
  split
  · rename_i h
    obtain ⟨hfraction, hexponent, hnegative, hlt⟩ := h
    simp only [Option.some.injEq, Numeral.Value.natural.injEq, hfraction, hexponent, hnegative, true_and]
    constructor
    · rintro rfl
      exact ⟨hlt, rfl⟩
    · exact fun h => h.2
  · rename_i h
    have hno : ¬ (n.fraction = [] ∧ n.exponent = none ∧ n.negative = false ∧ k < UInt64.size ∧
        Nat.ofDigitChars 10 n.digits 0 = k) := by
      rintro ⟨hfraction, hexponent, hnegative, hlt, rfl⟩
      exact h ⟨hfraction, hexponent, hnegative, hlt⟩
    rw [iff_false_right hno]
    split
    · simp
    · simp

/-- A limit is a natural number below 2^32. -/
theorem limit_number_iff {m : Numeral} {n : UInt32} :
    Reading.limit (.number (.ok m)) = .ok n ↔ m.value? = some (.natural n.toNat) := by
  rw [Reading.limit]
  cases m.value? with
  | none => simp
  | some v =>
    cases v with
    | natural k =>
      simp only [Option.some.injEq, Numeral.Value.natural.injEq]
      by_cases hlt : k < UInt32.size
      · rw [dif_pos hlt, Except.ok.injEq, ← UInt32.toNat_inj, UInt32.toNat_ofNatLT]
      · rw [dif_neg hlt]
        exact ⟨nofun, fun h => absurd n.toNat_lt (h ▸ hlt)⟩
    | negative k => simp
    | floating x => simp

/-- A member takes an integer without a minus sign that is below 2^32, and takes it at its value. -/
theorem limit_integer_iff {lit : Number} (h : lit.IsInteger) {n : UInt32} :
    Reading.limit (Tree.number lit).reading = .ok n ↔
      lit.negative = false ∧ lit.wholeValue ≤ 4294967295 ∧ lit.wholeValue = n.toNat := by
  obtain ⟨hfraction, hexponent⟩ := h
  have hparts : lit.numeral = ⟨lit.negative, lit.whole.text, [], none⟩ := by
    rw [Number.numeral, hfraction, hexponent]
    rfl
  rw [Tree.reading, limit_number_iff, hparts]
  simp only [value?_eq_natural_iff, true_and, Number.wholeValue]
  have hlt : n.toNat < 4294967296 := n.toNat_lt
  constructor
  · rintro ⟨hnegative, -, hvalue⟩
    exact ⟨hnegative, by omega, hvalue⟩
  · rintro ⟨hnegative, -, hvalue⟩
    exact ⟨hnegative, Nat.lt_trans hlt (by decide), hvalue⟩

end Json

namespace PageLimits

/-- the fields of a configuration as they are read, without the usual sizes -/
def statedRecord : Record Slots Slots := { record with build := some }

/-- what a configuration states; a limit that it does not state is none -/
def statedIn (text : String) : Except DecodeError Slots := decodeText statedRecord.decode text

/-- a limit that a configuration does not state is the usual one -/
def Slots.limits (s : Slots) : PageLimits := ⟨s.page.getD 100, s.nested.getD 25⟩

theorem decode_eq (r : Reading) : decode r = (statedRecord.decode r).map Slots.limits := by
  have hcomplete : ∀ s : Slots, record.complete s = .ok s.limits ∧ statedRecord.complete s = .ok s :=
    fun _ => ⟨rfl, rfl⟩
  have hread : statedRecord.fields = record.fields ∧ statedRecord.start = record.start ∧
      statedRecord.label = record.label := ⟨rfl, rfl, rfl⟩
  cases r with
  | array items fault =>
    simp only [decode, Record.decode, hcomplete, hread]
    cases Record.readItems record.label record.fields.length fault 0 record.fields items record.start <;> rfl
  | object members fault =>
    simp only [decode, Record.decode, hcomplete, hread]
    cases members.foldlM (Record.readMember record.fields) record.start with
    | error e => rfl
    | ok s => cases liftFault (Reading.check fault) <;> rfl
  | _ => rfl

theorem ofText_eq (text : String) : ofText text = (statedIn text).map Slots.limits := by
  simp only [ofText, statedIn, decodeText, decode_eq]
  cases statedRecord.decode (Document.ofText text).reading with
  | error e => rfl
  | ok s =>
    simp only [Except.map, bind, Except.bind]
    split <;> rfl

/-- the values of the members with a name -/
def valuesOf (name : String) (named : List (String × Tree)) : List Tree :=
  (named.filter (·.1 = name)).map Prod.snd

/-- what becomes of a limit when members with its name are read: it is kept, or there is one member that gives it -/
inductive Becomes (before : Option UInt32) : List Tree → Option UInt32 → Prop
  | kept : Becomes before [] before
  | stated {t : Tree} {n : UInt32} (hnew : before = none) (h : Reading.limit t.reading = .ok n) :
      Becomes before [t] (some n)

section

variable {before after : Option UInt32} {key : Literal} {t : Tree} {ts : List Tree} {name : String} {s s' : Slots}

theorem becomes_nil : Becomes before [] after ↔ after = before := by
  constructor
  · rintro ⟨⟩
    rfl
  · rintro rfl
    exact .kept

theorem becomes_cons :
    Becomes before (t :: ts) after ↔
      before = none ∧ ∃ n, Reading.limit t.reading = .ok n ∧ Becomes (some n) ts after := by
  constructor
  · rintro (_ | ⟨hnew, h⟩)
    exact ⟨hnew, _, h, .kept⟩
  · rintro ⟨hnew, n, h, _ | ⟨hnew', -⟩⟩
    · exact .stated hnew h
    · cases hnew'

theorem readMember_page (hkey : key.Denotes "pageLimit".toList) :
    Record.readMember record.fields s (Tree.memberReading (key, t)) = .ok s' ↔
      s.page = none ∧ ∃ n, Reading.limit t.reading = .ok n ∧ s' = { s with page := some n } := by
  rw [Record.readMember, Tree.memberReading, Literal.value_of_denotes hkey]
  cases hpage : s.page <;> cases hlimit : Reading.limit t.reading <;>
    simp [record, Field.slot, liftFault, Except.mapError, bind, Except.bind, hpage, hlimit, eq_comm]

theorem readMember_nested (hkey : key.Denotes "nestedPageLimit".toList) :
    Record.readMember record.fields s (Tree.memberReading (key, t)) = .ok s' ↔
      s.nested = none ∧ ∃ n, Reading.limit t.reading = .ok n ∧ s' = { s with nested := some n } := by
  rw [Record.readMember, Tree.memberReading, Literal.value_of_denotes hkey]
  cases hnested : s.nested <;> cases hlimit : Reading.limit t.reading <;>
    simp [record, Field.slot, liftFault, Except.mapError, bind, Except.bind, hnested, hlimit, eq_comm]

theorem readMember_other (hkey : key.Denotes name.toList) (hpage : name ≠ "pageLimit")
    (hnested : name ≠ "nestedPageLimit") :
    Record.readMember record.fields s (Tree.memberReading (key, t)) = .ok s := by
  rw [Record.readMember, Tree.memberReading, Literal.value_of_denotes hkey, Tree.skim_reading]
  simp [record, Field.slot, liftFault, Except.mapError, bind, Except.bind, hpage.symm, hnested.symm]
  rfl

theorem valuesOf_cons (other : String) (e : String × Tree) (named : List (String × Tree)) :
    valuesOf other (e :: named) = if e.1 = other then e.2 :: valuesOf other named else valuesOf other named := by
  by_cases h : e.1 = other <;> simp [valuesOf, h]

variable {named : List (String × Tree)} {members : List (Literal × Tree)}

/-- Members are read one by one: each limit once, and members of other names are passed over. -/
theorem foldlM_readMember_iff
    (hnamed : List.Forall₂ (fun e (m : Literal × Tree) => m.1.Denotes e.1.toList ∧ m.2 = e.2) named members) :
    (members.map Tree.memberReading).foldlM (Record.readMember record.fields) s = .ok s' ↔
      Becomes s.page (valuesOf "pageLimit" named) s'.page ∧
        Becomes s.nested (valuesOf "nestedPageLimit" named) s'.nested := by
  -- over any slots, since a limit that was read before is what a second one of its name fails on
  induction hnamed generalizing s with
  | nil =>
    cases s
    cases s'
    simp [valuesOf, becomes_nil, pure, Except.pure, eq_comm]
  | @cons e m named members hm _ ih =>
    obtain ⟨name, t⟩ := e
    obtain ⟨key, t'⟩ := m
    obtain ⟨hkey, rfl⟩ := hm
    simp only [valuesOf_cons]
    rw [List.map_cons, List.foldlM_cons, except_bind_eq_ok]
    by_cases hname : name = "pageLimit"
    · subst hname
      have hother : ("pageLimit" : String) ≠ "nestedPageLimit" := by decide
      simp only [hother, if_true, if_false, readMember_page hkey, becomes_cons]
      constructor
      · rintro ⟨_, ⟨hnew, n, hlimit, rfl⟩, hrest⟩
        obtain ⟨hpage, hnested⟩ := ih.1 hrest
        exact ⟨⟨hnew, n, hlimit, hpage⟩, hnested⟩
      · rintro ⟨⟨hnew, n, hlimit, hpage⟩, hnested⟩
        exact ⟨_, ⟨hnew, n, hlimit, rfl⟩, ih.2 ⟨hpage, hnested⟩⟩
    · by_cases hname' : name = "nestedPageLimit"
      · subst hname'
        simp only [hname, if_true, if_false, readMember_nested hkey, becomes_cons]
        constructor
        · rintro ⟨_, ⟨hnew, n, hlimit, rfl⟩, hrest⟩
          obtain ⟨hpage, hnested⟩ := ih.1 hrest
          exact ⟨hpage, hnew, n, hlimit, hnested⟩
        · rintro ⟨hpage, hnew, n, hlimit, hnested⟩
          exact ⟨_, ⟨hnew, n, hlimit, rfl⟩, ih.2 ⟨hpage, hnested⟩⟩
      · simp only [hname, hname', if_false, readMember_other hkey hname hname', Except.ok.injEq, exists_eq_left', ih]

/-- An object states what the members with the names of the limits say: at most one for each. -/
theorem stated_object_iff
    (hnamed : List.Forall₂ (fun e (m : Literal × Tree) => m.1.Denotes e.1.toList ∧ m.2 = e.2) named members)
    {text : String} (htext : (Tree.object members).WrittenAs text) :
    statedIn text = .ok s ↔
      Becomes none (valuesOf "pageLimit" named) s.page ∧ Becomes none (valuesOf "nestedPageLimit" named) s.nested := by
  have hread : _ ↔ Becomes ({} : Slots).page _ s.page ∧ Becomes ({} : Slots).nested _ s.nested :=
    foldlM_readMember_iff hnamed
  rw [← hread, statedIn, Tree.decodeText_tree htext, Tree.reading, Tree.memberReadings_eq_map]
  simp only [Record.decode, except_bind_eq_ok]
  constructor
  · rintro ⟨s₁, hs₁, _, -, hs⟩
    cases hs
    exact hs₁
  · exact fun hs => ⟨s, hs, (), rfl, rfl⟩

/-- a member that is an integer, read as the only one of its name -/
theorem becomes_integer_iff {lit : Number} (h : lit.IsInteger) :
    Becomes none [.number lit] after ↔
      lit.negative = false ∧ lit.wholeValue ≤ 4294967295 ∧ ∃ n : UInt32, lit.wholeValue = n.toNat ∧ after = some n := by
  simp only [becomes_cons, becomes_nil, limit_integer_iff h]
  constructor
  · rintro ⟨-, n, ⟨hnegative, hle, hvalue⟩, rfl⟩
    exact ⟨hnegative, hle, n, hvalue, rfl⟩
  · rintro ⟨hnegative, hle, n, hvalue, rfl⟩
    exact ⟨trivial, n, ⟨hnegative, hle, hvalue⟩, rfl⟩

end

end PageLimits

namespace Cli

/-! ## Options on a command line -/

/-- a command that says a limit by an option, and else the same -/
def Command.withLimit (l : Limit) (n : UInt32) : Command → Command
  | .compile root ids strict variablesOnly options => .compile root ids strict variablesOnly (l.give n options)
  | .resources json options => .resources json (l.give n options)

section

variable {l : Limit} {sub : Subcommand} {i k : Invocation} {c c' : Command} {n : UInt32} {text : String}

theorem options_of_toCommand (h : k.toCommand sub = .ok c) : c.options = k.options := by
  cases sub with
  | compile =>
    obtain ⟨root, more, -, rfl⟩ := toCommand_eq_ok_iff.1 h
    rfl
  | resources =>
    cases h
    rfl

theorem toCommand_give (h : k.toCommand sub = .ok c) :
    ((Setting.limit l n).give k).toCommand sub = .ok (c.withLimit l n) := by
  cases sub with
  | compile =>
    obtain ⟨root, more, hpositionals, rfl⟩ := toCommand_eq_ok_iff.1 h
    exact toCommand_eq_ok_iff.2 ⟨root, more, hpositionals, rfl⟩
  | resources =>
    cases h
    rfl

/-- the option of a limit with its value, as one word -/
def Limit.word (l : Limit) (text : String) : String := "--" ++ l.option ++ "=" ++ text

theorem ofString_word : Argument.ofString (l.word text) = .long l.option (some text) := by
  have hname : '=' ∉ l.option.toList := by
    cases l with
    | page => decide
    | nested => decide
  exact ofString_joined hname text

theorem setValue_option (hnew : l.given i.options = none) :
    i.setValue l.option text = (limit? text).map fun n => (Setting.limit l n).give i := by
  cases l with
  | page => exact if_pos hnew
  | nested => exact if_pos hnew

/-- An option of a limit is accepted if its value is. It may stand anywhere between the arguments, and gives them its
value. -/
theorem parse_word_iff {before after : List String} (hbefore : Invocation.addArguments sub {} before = .ok i)
    (hseparator : "--" ∉ before) (hline : sub.parse (before ++ after) = .ok c) (hunset : l.given c.options = none) :
    sub.parse (before ++ l.word text :: after) = .ok c' ↔ ∃ n, limit? text = some n ∧ c' = c.withLimit l n := by
  have htaken := Invocation.taken_of_addArguments hbefore
  obtain ⟨k, hall, hcommand⟩ := Subcommand.parse_eq_ok_iff.1 hline
  rw [options_of_toCommand hcommand] at hunset
  have hafter : Invocation.Taken sub i after k := by
    have hrest := hall.addArguments
    rw [htaken.append hseparator] at hrest
    exact Invocation.taken_of_addArguments hrest
  have hnew : l.given i.options = none := (hafter.give (.limit l 0) hunset).1
  -- the arguments behind the word are taken with the limit as they were without it, so its value decides
  cases hvalue : limit? text with
  | none =>
    have hrefused : sub.parse (before ++ l.word text :: after) = .error .usage := by
      rw [Subcommand.parse, htaken.append hseparator, Invocation.addArguments, ofString_word]
      simp only [setValue_option hnew, hvalue]
      rfl
    simp [hrefused]
  | some n =>
    have hstep : Invocation.Step sub i [l.word text] ((Setting.limit l n).give i) :=
      .joined ofString_word (by rw [setValue_option hnew, hvalue]; rfl)
    have hgiven := Subcommand.parse_eq_ok_iff.2
      ⟨_, htaken.insert (s := .limit l n) hseparator hstep hafter hunset, toCommand_give hcommand⟩
    rw [List.singleton_append] at hgiven
    simp [hgiven, eq_comm]

end

/-! ## Options and a file -/

section

variable {read : String → Option ByteArray} {o : Options} {s : PageLimits.Slots} {path text : String}

/-- what is stated before options: nothing, or what a file states -/
inductive Stated (read : String → Option ByteArray) (o : Options) : PageLimits.Slots → Prop
  | unnamed (hpath : o.config = none) : Stated read o {}
  | file {path text : String} {s : PageLimits.Slots} (hpath : o.config = some path)
      (hread : read path = some text.toUTF8) (htext : PageLimits.statedIn text = .ok s) : Stated read o s

/-- the option's limit, or the one that is stated, or the usual one -/
def Options.chosen (o : Options) (s : PageLimits.Slots) : PageLimits :=
  ⟨(o.pageLimit.or s.page).getD 100, (o.nestedPageLimit.or s.nested).getD 25⟩

/-- all that can come of options and a file -/
inductive LimitsOf (read : String → Option ByteArray) (o : Options) : Except ConfigError PageLimits → Prop
  | unreadable {path : String} (hpath : o.config = some path) (hread : ∀ text : String, read path ≠ some text.toUTF8) :
      LimitsOf read o (.error (.unreadable path))
  | invalid {path text : String} {cause : Json.DecodeError} (hpath : o.config = some path)
      (hread : read path = some text.toUTF8) (htext : PageLimits.statedIn text = .error cause) :
      LimitsOf read o (.error (.invalid path cause))
  | zeroPage {s : PageLimits.Slots} (hstated : Stated read o s) (hpage : (o.chosen s).page = 0) :
      LimitsOf read o (.error .zeroPageLimit)
  | zeroNested {s : PageLimits.Slots} (hstated : Stated read o s) (hpage : (o.chosen s).page ≠ 0)
      (hnested : (o.chosen s).nested = 0) : LimitsOf read o (.error .zeroNestedPageLimit)
  | chosen {s : PageLimits.Slots} (hstated : Stated read o s) (hpage : (o.chosen s).page ≠ 0)
      (hnested : (o.chosen s).nested ≠ 0) : LimitsOf read o (.ok (o.chosen s))

theorem fromUTF8?_eq_some_iff {bytes : ByteArray} : String.fromUTF8? bytes = some text ↔ bytes = text.toUTF8 := by
  unfold String.fromUTF8?
  split
  · simp [String.fromUTF8, ← String.toByteArray_inj]
  · rename_i hinvalid
    simp only [reduceCtorEq, false_iff]
    rintro rfl
    exact hinvalid text.isValidUTF8

theorem content_eq_some_iff : (read path).bind String.fromUTF8? = some text ↔ read path = some text.toUTF8 := by
  simp [Option.bind_eq_some_iff, fromUTF8?_eq_some_iff]

theorem limits_unreadable (hpath : o.config = some path) (hread : ∀ text : String, read path ≠ some text.toUTF8) :
    o.limits read = .error (.unreadable path) := by
  have hnone : (read path).bind String.fromUTF8? = none :=
    Option.eq_none_iff_forall_ne_some.2 fun text htext => hread text (content_eq_some_iff.1 htext)
  rw [Options.limits, Options.fileLimits, hpath]
  simp only [limitsAt, hnone]
  rfl

theorem limits_invalid {cause : Json.DecodeError} (hpath : o.config = some path)
    (hread : read path = some text.toUTF8) (htext : PageLimits.statedIn text = .error cause) :
    o.limits read = .error (.invalid path cause) := by
  rw [Options.limits, Options.fileLimits, hpath]
  simp only [limitsAt, content_eq_some_iff.2 hread, PageLimits.ofText_eq, htext]
  rfl

theorem Stated.fileLimits (h : Stated read o s) : o.fileLimits read = .ok s.limits := by
  cases h with
  | unnamed hpath =>
    rw [Options.fileLimits, hpath]
    rfl
  | file hpath hread htext =>
    rw [Options.fileLimits, hpath]
    simp only [limitsAt, content_eq_some_iff.2 hread, PageLimits.ofText_eq, htext]
    rfl

theorem Stated.limits (h : Stated read o s) :
    o.limits read = if (o.chosen s).page = 0 then .error .zeroPageLimit
      else if (o.chosen s).nested = 0 then .error .zeroNestedPageLimit else .ok (o.chosen s) := by
  have hchosen : o.chosen s = ⟨o.pageLimit.getD s.limits.page, o.nestedPageLimit.getD s.limits.nested⟩ := by
    simp only [Options.chosen, PageLimits.Slots.limits, Option.getD_or]
  rw [Options.limits, h.fileLimits, hchosen]
  rfl

/-- Options and files give what the relation says, and that only. -/
theorem limits_eq_iff {x : Except ConfigError PageLimits} : o.limits read = x ↔ LimitsOf read o x := by
  constructor
  · rintro rfl
    have hstated : ∀ {s}, Stated read o s → LimitsOf read o (o.limits read) := by
      intro s hs
      rw [hs.limits]
      by_cases hpage : (o.chosen s).page = 0
      · rw [if_pos hpage]
        exact .zeroPage hs hpage
      · rw [if_neg hpage]
        by_cases hnested : (o.chosen s).nested = 0
        · rw [if_pos hnested]
          exact .zeroNested hs hpage hnested
        · rw [if_neg hnested]
          exact .chosen hs hpage hnested
    cases hpath : o.config with
    | none => exact hstated (.unnamed hpath)
    | some path =>
      by_cases hread : ∃ text : String, read path = some text.toUTF8
      · obtain ⟨text, hread⟩ := hread
        cases htext : PageLimits.statedIn text with
        | ok s => exact hstated (.file hpath hread htext)
        | error cause =>
          rw [limits_invalid hpath hread htext]
          exact .invalid hpath hread htext
      · have hnone : ∀ text : String, read path ≠ some text.toUTF8 := fun text h => hread ⟨text, h⟩
        rw [limits_unreadable hpath hnone]
        exact .unreadable hpath hnone
  · intro h
    cases h with
    | unreadable hpath hread => exact limits_unreadable hpath hread
    | invalid hpath hread htext => exact limits_invalid hpath hread htext
    | zeroPage hstated hpage => rw [hstated.limits, if_pos hpage]
    | zeroNested hstated hpage hnested => rw [hstated.limits, if_neg hpage, if_pos hnested]
    | chosen hstated hpage hnested => rw [hstated.limits, if_neg hpage, if_neg hnested]

end

/-! ## Main result -/

/-- **Page limits.** No limit is wrapped, and none is zero in the end. An option takes an integer from 1 to 2^32 - 1 at
its value, whatever its sign and its zeros. An object takes at most one value for each limit; an integer is taken at its
value, if it has no minus sign and is at most 2^32 - 1. Options go before the file, and the file before the usual sizes;
that a file is unreadable or invalid comes first, and a zero is looked for at the end. -/
theorem page_limits_exact :
    (∀ (l : Limit) (sub : Subcommand) (before after : List String) (i : Invocation) (c : Command),
      Invocation.addArguments sub {} before = .ok i → "--" ∉ before → sub.parse (before ++ after) = .ok c →
      l.given c.options = none → ∀ (text : String) (c' : Command),
        sub.parse (before ++ ("--" ++ l.option ++ "=" ++ text) :: after) = .ok c' ↔
          ∃ (v : Int) (n : UInt32), NamesInteger text v ∧ 1 ≤ v ∧ v ≤ 4294967295 ∧ v = n.toNat ∧ c' = c.withLimit l n) ∧
    (∀ (named : List (String × Tree)) (members : List (Literal × Tree)) (text : String),
      List.Forall₂ (fun e (m : Literal × Tree) => m.1.Denotes e.1.toList ∧ m.2 = e.2) named members →
      (Tree.object members).WrittenAs text → ∀ s : PageLimits.Slots,
        PageLimits.statedIn text = .ok s ↔
          PageLimits.Becomes none (PageLimits.valuesOf "pageLimit" named) s.page ∧
            PageLimits.Becomes none (PageLimits.valuesOf "nestedPageLimit" named) s.nested) ∧
    (∀ lit : Number, lit.IsInteger → ∀ after : Option UInt32,
      PageLimits.Becomes none [.number lit] after ↔ lit.negative = false ∧ lit.wholeValue ≤ 4294967295 ∧
        ∃ n : UInt32, lit.wholeValue = n.toNat ∧ after = some n) ∧
    ∀ (read : String → Option ByteArray) (o : Options) (x : Except ConfigError PageLimits),
      o.limits read = x ↔ LimitsOf read o x := by
  refine ⟨?_, ?_, ?_, fun read o x => limits_eq_iff⟩
  · intro l sub before after i c hbefore hseparator hline hunset text c'
    have hword : sub.parse (before ++ ("--" ++ l.option ++ "=" ++ text) :: after) = .ok c' ↔ _ :=
      parse_word_iff hbefore hseparator hline hunset
    rw [hword]
    constructor
    · rintro ⟨n, hvalue, rfl⟩
      obtain ⟨v, hnames, hlow, hhigh, hn⟩ := limit?_eq_some_iff.1 hvalue
      exact ⟨v, n, hnames, hlow, hhigh, hn, rfl⟩
    · rintro ⟨v, n, hnames, hlow, hhigh, hn, rfl⟩
      exact ⟨n, limit?_eq_some_iff.2 ⟨v, hnames, hlow, hhigh, hn⟩, rfl⟩
  · intro named members text hnamed htext s
    exact PageLimits.stated_object_iff hnamed htext
  · intro lit hlit after
    exact PageLimits.becomes_integer_iff hlit

/-- a configuration with a limit that is zero -/
def zeroText : String := "\x7b\"pageLimit\": 5, \"nestedPageLimit\": 0\x7d"

/-- the zero does not matter, since an option goes before it -/
theorem zero_overridden :
    Command.parse ["compile", "issues", "--nested-page-limit=+007", "--config", "sizes"] =
        .ok (.compile ⟨"issues"⟩ [] false false { config := some "sizes", nestedPageLimit := some 7 }) ∧
      Options.limits (fun _ => some zeroText.toUTF8) { config := some "sizes", nestedPageLimit := some 7 } =
        .ok ⟨5, 7⟩ := by
  obtain ⟨hoption, hobject, hinteger, hlimits⟩ := page_limits_exact
  refine ⟨?_, ?_⟩
  · have hbefore : Invocation.addArguments .compile {} ["issues"] = .ok { positionals := ["issues"] } := by
      decide +kernel
    have hline : Subcommand.compile.parse (["issues"] ++ ["--config", "sizes"]) =
        .ok (.compile ⟨"issues"⟩ [] false false { config := some "sizes" }) := by
      decide +kernel
    have htext : "+007".toList = '+' :: ['0', '0', '7'] := by decide
    have hnames : NamesInteger "+007" 7 := .plus htext (by decide) (by simp)
    exact (hoption .nested .compile ["issues"] ["--config", "sizes"] _ _ hbefore (by decide) hline rfl "+007" _).2
      ⟨7, 7, hnames, by decide, by decide, rfl, rfl⟩
  · have hwritten : (Tree.object [(.ofString "pageLimit", .number (.ofNat 5)),
        (.ofString "nestedPageLimit", .number (.ofNat 0))]).WrittenAs zeroText :=
      ⟨zeroText.toList, [], by rw [List.append_nil], by decide +kernel, by decide⟩
    have hpage := (hinteger (.ofNat 5) ⟨rfl, rfl⟩ (some 5)).2 ⟨rfl, by decide, 5, rfl, rfl⟩
    have hnested := (hinteger (.ofNat 0) ⟨rfl, rfl⟩ (some 0)).2 ⟨rfl, by decide, 0, rfl, rfl⟩
    have hstated : PageLimits.statedIn zeroText = .ok ⟨some 5, some 0⟩ :=
      (hobject [("pageLimit", .number (.ofNat 5)), ("nestedPageLimit", .number (.ofNat 0))] _ _
        (.cons ⟨denotes_ofString _, rfl⟩ (.cons ⟨denotes_ofString _, rfl⟩ .nil)) hwritten _).2 ⟨hpage, hnested⟩
    exact (hlimits _ _ _).2 (.chosen (.file rfl rfl hstated) (by decide) (by decide))

end Cli

end ResourceQuery
