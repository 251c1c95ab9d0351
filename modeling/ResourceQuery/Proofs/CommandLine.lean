/-
Command lines in any arrangement.

A command line for `compile` is a row of items: positional arguments, flags, options with their values, and letters for
verbosity. An option is written as one word with an equals sign or as two, and the positional arguments at the end may
stand behind `--`. What the items say does not depend on how they are arranged: the positional arguments in order are
the root and the resources, each option has its value, and the letters are counted.

The words of an item are taken as it says if its option was not given before, and so are those of a whole row in which
no option is given twice.

Results:
- `addArguments_item`: the words of one item are taken as it says.
- `addArguments_items`: so are those of a row of items.
- `parse_arranged`: a command line is parsed as what it says, in any arrangement.
-/
import Mathlib.Data.List.TakeWhile
import ResourceQuery.Cli.Command

namespace ResourceQuery.Cli

/-! ## Items -/

/-- no dash in front, unless it is all there is -/
def Plain (text : String) : Prop := text = "-" ∨ text.toList.head? ≠ some '-'

/-- decimal digits of a positive number, perhaps with zeros in front and a sign before them -/
def SpellsLimit (text : String) (n : UInt32) : Prop :=
  0 < n.toNat ∧ ∃ ds, (text.toList = ds ∨ text.toList = '+' :: ds) ∧ ds ≠ [] ∧ (∀ c ∈ ds, c.isDigit = true) ∧
    Nat.ofDigitChars 10 ds 0 = n.toNat

/-- one thing that a command line says; an option may be `joined` with its value -/
inductive Item where
  | positional (text : String)
  | strict
  | variablesOnly
  | config (path : String) (joined : Bool)
  | pageLimit (n : UInt32) (text : String) (joined : Bool)
  | nestedPageLimit (n : UInt32) (text : String) (joined : Bool)
  /-- a letter, and `more` of them in the same word -/
  | verbose (more : Nat)
deriving DecidableEq

/-- the words of an option with a value -/
def optionWords (name value : String) (joined : Bool) : List String :=
  if joined then ["--" ++ name ++ "=" ++ value] else ["--" ++ name, value]

namespace Item

def words : Item → List String
  | positional text => [text]
  | strict => ["--strict"]
  | variablesOnly => ["--variables"]
  | config path joined => optionWords "config" path joined
  | pageLimit _ text joined => optionWords "page-limit" text joined
  | nestedPageLimit _ text joined => optionWords "nested-page-limit" text joined
  | verbose more => [String.ofList ('-' :: List.replicate (more + 1) 'v')]

/-- the item can be written with its words -/
def Fits : Item → Prop
  | positional text => Plain text
  | config path joined => path ≠ "" ∧ (joined = false → Plain path)
  | pageLimit n text _ => SpellsLimit text n
  | nestedPageLimit n text _ => SpellsLimit text n
  | strict | variablesOnly | verbose _ => True

@[simp]
def positional? : Item → Option String
  | positional text => some text
  | _ => none

@[simp]
def config? : Item → Option String
  | config path _ => some path
  | _ => none

@[simp]
def pageLimit? : Item → Option UInt32
  | pageLimit n _ _ => some n
  | _ => none

@[simp]
def nestedPageLimit? : Item → Option UInt32
  | nestedPageLimit n _ _ => some n
  | _ => none

/-- the letters for verbosity -/
@[simp]
def letters : Item → List Char
  | verbose more => List.replicate (more + 1) 'v'
  | _ => []

end Item

/-- the words after the items: none, or positional arguments behind `--` -/
def behindSeparator : Option (List String) → List String
  | none => []
  | some texts => "--" :: texts

/-! ## What is said -/

/-- what a command line for `compile` says -/
structure Said where
  root : String
  resources : List String
  strict : Bool
  variablesOnly : Bool
  config : Option String
  pageLimit : Option UInt32
  nestedPageLimit : Option UInt32
  verbosity : Nat

/-- the command: resources are split at commas, and what is empty is dropped -/
def Said.command (s : Said) : Command :=
  let pieces := (s.resources.flatMap fun text => text.toList.splitOn ',').filter (· ≠ [])
  .compile ⟨s.root⟩ (pieces.map fun piece => ⟨String.ofList piece⟩) s.strict s.variablesOnly
    ⟨s.config, s.pageLimit, s.nestedPageLimit, min s.verbosity 255⟩

/-- The items say it, with `last` behind the separator if there is one: the positional arguments are in order, and each
option that is chosen is given once. -/
structure Said.ArrangedAs (s : Said) (items : List Item) (last : Option (List String)) : Prop where
  fits : ∀ item ∈ items, item.Fits
  positionals : items.filterMap Item.positional? ++ last.getD [] = s.root :: s.resources
  strict : items.count .strict = s.strict.toNat
  variablesOnly : items.count .variablesOnly = s.variablesOnly.toNat
  config : items.filterMap Item.config? = s.config.toList
  pageLimit : items.filterMap Item.pageLimit? = s.pageLimit.toList
  nestedPageLimit : items.filterMap Item.nestedPageLimit? = s.nestedPageLimit.toList
  verbosity : (items.flatMap Item.letters).length = s.verbosity

/-! ## Words -/

theorem ofString_plain {text : String} (h : Plain text) : Argument.ofString text = .positional text := by
  rcases h with rfl | h
  · rfl
  · unfold Argument.ofString
    split <;> simp_all

theorem Plain.canBeValue {text : String} (h : Plain text) : canBeValue text = true := by
  rcases h with rfl | h
  · rfl
  · simp [Cli.canBeValue, h]

/-- an argument with two dashes is split at the first equals sign -/
theorem ofString_dashes {text : String} {cs : List Char} (htext : text.toList = '-' :: '-' :: cs) (hne : cs ≠ []) :
    Argument.ofString text =
      .long (String.ofList (cs.takeWhile (· ≠ '=')))
        (match cs.dropWhile (· ≠ '=') with
          | [] => none
          | _ :: value => some (String.ofList value)) := by
  obtain ⟨c, cs, rfl⟩ := List.exists_cons_of_ne_nil hne
  rw [Argument.ofString, htext]
  rfl

theorem ofString_flag {name : String} (hne : name ≠ "") (hname : '=' ∉ name.toList) :
    Argument.ofString ("--" ++ name) = .long name none := by
  have htext : ("--" ++ name).toList = '-' :: '-' :: name.toList := String.toList_append
  have hall : ∀ c ∈ name.toList, decide (c ≠ '=') = true := fun c hc => decide_eq_true (ne_of_mem_of_not_mem hc hname)
  rw [ofString_dashes htext (mt String.toList_eq_nil_iff.1 hne), List.takeWhile_eq_self_iff.2 hall,
    List.dropWhile_eq_nil_iff.2 hall, String.ofList_toList]

theorem ofString_joined {name : String} (hname : '=' ∉ name.toList) (value : String) :
    Argument.ofString ("--" ++ name ++ "=" ++ value) = .long name (some value) := by
  have htext : ("--" ++ name ++ "=" ++ value).toList = '-' :: '-' :: (name.toList ++ '=' :: value.toList) := by
    simp [String.toList_append]
  have hall : ∀ c ∈ name.toList, decide (c ≠ '=') = true := fun c hc => decide_eq_true (ne_of_mem_of_not_mem hc hname)
  rw [ofString_dashes htext (List.append_ne_nil_of_right_ne_nil _ (List.cons_ne_nil _ _)),
    List.takeWhile_append_of_pos hall, List.dropWhile_append_of_pos hall]
  simp

theorem ofString_letters (more : Nat) :
    Argument.ofString (String.ofList ('-' :: List.replicate (more + 1) 'v')) =
      .short (List.replicate (more + 1) 'v') := by
  rw [Argument.ofString, String.toList_ofList, List.replicate_succ]
  rfl

/-- a limit is taken from the texts that spell it -/
theorem limit?_iff_spells {text : String} {n : UInt32} : limit? text = some n ↔ SpellsLimit text n := by
  constructor
  · intro h
    unfold limit? at h
    simp only [Option.dite_none_right_eq_some, Option.some.injEq] at h
    obtain ⟨⟨hne, hdigits, hpos, hlt⟩, rfl⟩ := h
    rw [SpellsLimit, UInt32.toNat_ofNatLT]
    refine ⟨hpos, _, ?_, hne, List.all_eq_true.1 hdigits, rfl⟩
    split
    · rename_i heq
      exact .inr heq
    · exact .inl rfl
  · rintro ⟨hpos, ds, htext, hne, hdigits, hvalue⟩
    have hall : ds.all Char.isDigit = true := List.all_eq_true.2 hdigits
    have hlt : n.toNat < UInt32.size := n.toNat_lt
    rcases htext with htext | htext
    · subst htext
      -- without a sign all of the text is digits
      have hsign : ∀ cs, text.toList = '+' :: cs → False := by
        intro cs hcs
        have hplus := hdigits '+' (by rw [hcs]; exact List.mem_cons_self)
        exact absurd hplus (by decide)
      simp [limit?, hne, hall, hvalue, hpos, hlt]
    · simp [limit?, htext, hne, hall, hvalue, hpos, hlt]

theorem SpellsLimit.plain {text : String} {n : UInt32} (h : SpellsLimit text n) : Plain text := by
  obtain ⟨-, ds, htext, hne, hdigits, -⟩ := h
  right
  intro hdash
  rcases htext with htext | htext
  · rw [htext] at hdash
    exact absurd (hdigits '-' (List.mem_of_mem_head? hdash)) (by decide)
  · rw [htext, List.head?_cons] at hdash
    exact absurd hdash (by decide)

/-- a limit is spelled by its decimal digits -/
theorem spellsLimit_toString {n : UInt32} (h : 0 < n.toNat) : SpellsLimit (toString n.toNat) n := by
  refine ⟨h, Nat.toDigits 10 n.toNat, .inl ?_, Nat.toDigits_ne_nil, ?_, Nat.ofDigitChars_ten_toDigits⟩
  · rw [Nat.toString_eq_ofList_toDigits, String.toList_ofList]
  · intro c hc
    exact Nat.isDigit_of_mem_toDigits (by decide) (by decide) hc

/-! ## Taking the words of an item -/

namespace Invocation

/-- what is said so far, if no option is given twice -/
def ofItems (items : List Item) : Invocation where
  positionals := items.filterMap Item.positional?
  strict := items.contains .strict
  variablesOnly := items.contains .variablesOnly
  options := {
    config := (items.filterMap Item.config?).head?
    pageLimit := (items.filterMap Item.pageLimit?).head?
    nestedPageLimit := (items.filterMap Item.nestedPageLimit?).head?
    verbosity := min 255 (items.flatMap Item.letters).length }

/-- the words of an option with its value -/
theorem addArguments_option {i i' : Invocation} {name value : String} {joined : Bool} (hname : takesValue name = true)
    (hvalue : joined = false → Plain value) (hset : i.setValue name value = some i') (rest : List String) :
    addArguments .compile i (optionWords name value joined ++ rest) = addArguments .compile i' rest := by
  have hword : name ≠ "" ∧ '=' ∉ name.toList := by
    simp only [takesValue, Bool.or_eq_true, decide_eq_true_eq] at hname
    obtain (rfl | rfl) | rfl := hname <;> decide
  cases joined with
  | true =>
    rw [optionWords, if_pos rfl, List.singleton_append, addArguments, ofString_joined hword.2]
    simp only [hset]
    rfl
  | false =>
    rw [optionWords, if_neg Bool.false_ne_true, List.cons_append, List.singleton_append, addArguments,
      ofString_flag hword.1 hword.2]
    simp only [hname, (hvalue rfl).canBeValue, hset, if_true]
    rfl

theorem addArguments_flag {i i' : Invocation} {word name : String} (hword : Argument.ofString word = .long name none)
    (hname : (takesValue name || name = "help") = false) (hset : i.setFlag .compile name = some i')
    (rest : List String) : addArguments .compile i ([word] ++ rest) = addArguments .compile i' rest := by
  rw [Bool.or_eq_false_iff, decide_eq_false_iff_not] at hname
  rw [List.singleton_append, addArguments, hword]
  simp only [hname, hset, Bool.false_eq_true, if_false]
  rfl

/-- the letters of one word are counted -/
theorem addLetters_replicate (i : Invocation) (count n : Nat) :
    addLetters { i with options := { i.options with verbosity := min 255 count } } (List.replicate n 'v') =
      .ok { i with options := { i.options with verbosity := min 255 (count + n) } } := by
  induction n generalizing count with
  | zero => rfl
  | succ n ih =>
    have hcount : min 255 (min 255 count + 1) = min 255 (count + 1) := by omega
    rw [List.replicate_succ, addLetters]
    simp only [hcount]
    rw [ih, Nat.add_right_comm]
    rfl

end Invocation

/-- no option is given twice -/
structure Once (items : List Item) : Prop where
  strict : items.count .strict ≤ 1
  variablesOnly : items.count .variablesOnly ≤ 1
  config : (items.filterMap Item.config?).length ≤ 1
  pageLimit : (items.filterMap Item.pageLimit?).length ≤ 1
  nestedPageLimit : (items.filterMap Item.nestedPageLimit?).length ≤ 1

theorem Once.of_append {items more : List Item} (h : Once (items ++ more)) : Once items := by
  obtain ⟨hstrict, hvariables, hconfig, hpage, hnested⟩ := h
  simp only [List.count_append, List.filterMap_append, List.length_append] at hstrict hvariables hconfig hpage hnested
  exact ⟨by omega, by omega, by omega, by omega, by omega⟩

/-- what is given at most once, and now, was not given before -/
theorem filterMap_eq_nil_of_once {α : Type} {f : Item → Option α} {done : List Item} {item : Item} {a : α}
    (h : ((done ++ [item]).filterMap f).length ≤ 1) (hitem : f item = some a) : done.filterMap f = [] := by
  rw [List.filterMap_append, List.filterMap_cons_some hitem, List.length_append, List.length_cons] at h
  exact List.length_eq_zero_iff.1 (by omega)

theorem not_mem_of_once {done : List Item} {item : Item} (h : (done ++ [item]).count item ≤ 1) : item ∉ done := by
  rw [List.count_append, List.count_singleton_self] at h
  exact List.count_eq_zero.1 (by omega)

open Invocation in
/-- The words of an item are taken as it says, if its option was not given before. -/
theorem addArguments_item {done : List Item} {item : Item} (hfits : item.Fits) (honce : Once (done ++ [item]))
    (rest : List String) :
    addArguments .compile (ofItems done) (item.words ++ rest) =
      addArguments .compile (ofItems (done ++ [item])) rest := by
  cases item with
  | positional text =>
    have hnext : (ofItems done).addPositionals .compile [text] = .ok (ofItems (done ++ [.positional text])) := by
      simp [addPositionals, ofItems]
    rw [Item.words, List.singleton_append, addArguments, ofString_plain hfits]
    simp only [hnext]
    rfl
  | strict =>
    have hnext : (ofItems done).setFlag .compile "strict" = some (ofItems (done ++ [.strict])) := by
      simp [setFlag, ofItems, not_mem_of_once honce.strict]
    exact addArguments_flag rfl rfl hnext rest
  | variablesOnly =>
    have hnext : (ofItems done).setFlag .compile "variables" = some (ofItems (done ++ [.variablesOnly])) := by
      simp [setFlag, ofItems, not_mem_of_once honce.variablesOnly]
    exact addArguments_flag rfl rfl hnext rest
  | config path joined =>
    have hnew := filterMap_eq_nil_of_once honce.config rfl
    have hnext : (ofItems done).setValue "config" path = some (ofItems (done ++ [.config path joined])) := by
      simp [setValue, ofItems, hnew, hfits.1]
    exact addArguments_option rfl hfits.2 hnext rest
  | pageLimit n text joined =>
    have hnew := filterMap_eq_nil_of_once honce.pageLimit rfl
    have hnext : (ofItems done).setValue "page-limit" text = some (ofItems (done ++ [.pageLimit n text joined])) := by
      simp [setValue, ofItems, hnew, limit?_iff_spells.2 hfits]
    exact addArguments_option rfl (fun _ => hfits.plain) hnext rest
  | nestedPageLimit n text joined =>
    have hnew := filterMap_eq_nil_of_once honce.nestedPageLimit rfl
    have hnext : (ofItems done).setValue "nested-page-limit" text =
        some (ofItems (done ++ [.nestedPageLimit n text joined])) := by
      simp [setValue, ofItems, hnew, limit?_iff_spells.2 hfits]
    exact addArguments_option rfl (fun _ => hfits.plain) hnext rest
  | verbose more =>
    have hnext : (ofItems done).addLetters (List.replicate (more + 1) 'v') =
        .ok (ofItems (done ++ [.verbose more])) := by
      calc (ofItems done).addLetters (List.replicate (more + 1) 'v')
          = .ok { ofItems done with
              options := { (ofItems done).options with
                verbosity := min 255 ((done.flatMap Item.letters).length + (more + 1)) } } :=
            addLetters_replicate (ofItems done) _ (more + 1)
        _ = .ok (ofItems (done ++ [.verbose more])) := by simp [ofItems]
    rw [Item.words, List.singleton_append, addArguments, ofString_letters]
    simp only [hnext]
    rfl

open Invocation in
/-- The words of a row of items are taken as they say, if no option is given twice. -/
theorem addArguments_items {done items : List Item} (hfits : ∀ item ∈ items, item.Fits) (honce : Once (done ++ items))
    (rest : List String) :
    addArguments .compile (ofItems done) (items.flatMap Item.words ++ rest) =
      addArguments .compile (ofItems (done ++ items)) rest := by
  induction items generalizing done with
  | nil => rw [List.append_nil, List.flatMap_nil, List.nil_append]
  | cons item items ih =>
    rw [List.append_cons] at honce ⊢
    rw [List.flatMap_cons, List.append_assoc, addArguments_item (hfits item List.mem_cons_self) honce.of_append]
    exact ih (fun i hi => hfits i (List.mem_cons_of_mem item hi)) honce

/-- everything behind `--` is positional -/
theorem Invocation.addArguments_behind (i : Invocation) (last : Option (List String)) :
    addArguments .compile i (behindSeparator last) = .ok { i with positionals := i.positionals ++ last.getD [] } := by
  cases last with
  | none => simp [behindSeparator, addArguments]
  | some texts => rfl

/-! ## Main result -/

namespace Said

variable {s : Said} {items : List Item} {last : Option (List String)}

theorem ArrangedAs.once (h : s.ArrangedAs items last) : Once items where
  strict := by rw [h.strict]; exact Bool.toNat_le s.strict
  variablesOnly := by rw [h.variablesOnly]; exact Bool.toNat_le s.variablesOnly
  config := by rw [h.config]; exact Option.length_toList_le
  pageLimit := by rw [h.pageLimit]; exact Option.length_toList_le
  nestedPageLimit := by rw [h.nestedPageLimit]; exact Option.length_toList_le

/-- what the items of an arranged command line add up to -/
theorem ArrangedAs.ofItems_eq (h : s.ArrangedAs items last) :
    Invocation.ofItems items = {
      positionals := items.filterMap Item.positional?
      strict := s.strict
      variablesOnly := s.variablesOnly
      options := ⟨s.config, s.pageLimit, s.nestedPageLimit, min s.verbosity 255⟩ } := by
  have hmem {item : Item} {b : Bool} (hcount : items.count item = b.toNat) : items.contains item = b := by
    rw [List.contains_eq_mem]
    cases b with
    | false => exact decide_eq_false (List.count_eq_zero.1 hcount)
    | true => exact decide_eq_true (List.count_pos_iff.1 (by rw [hcount]; decide))
  have hhead {α : Type} (o : Option α) : o.toList.head? = o := by cases o <;> rfl
  rw [Invocation.ofItems, hmem h.strict, hmem h.variablesOnly, h.config, h.pageLimit, h.nestedPageLimit, h.verbosity,
    hhead, hhead, hhead, Nat.min_comm]

/-- pieces are the same whether empty ones are dropped before or after all are put in a row -/
theorem pieces_eq (texts : List String) :
    texts.flatMap splitResources =
      ((texts.flatMap fun text => text.toList.splitOn ',').filter (· ≠ [])).map fun piece => ⟨String.ofList piece⟩ := by
  rw [List.filter_flatMap, List.map_flatMap]
  rfl

end Said

/-- **Command lines in any arrangement.** Whatever the order of its positional arguments and options, however the
options are spelled and the letters spread, and wherever `--` stands before the last of the positional arguments, a
command line is parsed as the command it says. -/
theorem parse_arranged (s : Said) (items : List Item) (last : Option (List String)) (h : s.ArrangedAs items last) :
    Command.parse ("compile" :: (items.flatMap Item.words ++ behindSeparator last)) = .ok s.command := by
  have honce : Once ([] ++ items) := h.once
  have hitems := addArguments_items h.fits honce (behindSeparator last)
  rw [List.nil_append, Invocation.addArguments_behind, h.ofItems_eq] at hitems
  simp only [h.positionals] at hitems
  have hempty : Invocation.ofItems [] = {} := by rfl
  rw [hempty] at hitems
  calc Command.parse ("compile" :: (items.flatMap Item.words ++ behindSeparator last))
      = Invocation.addArguments .compile {} (items.flatMap Item.words ++ behindSeparator last) >>=
          fun i => i.toCommand .compile := rfl
    _ = .ok (.compile ⟨s.root⟩ (s.resources.flatMap splitResources) s.strict s.variablesOnly
          ⟨s.config, s.pageLimit, s.nestedPageLimit, min s.verbosity 255⟩) := by rw [hitems]; rfl
    _ = .ok s.command := by rw [Said.pieces_eq]; rfl

/-- a line with options on both sides of the positional arguments, letters in two words, and the last argument behind
`--` -/
theorem parse_mixed_line :
    Command.parse ["compile", "-vv", "organization", "--page-limit=+007", "teams,,members,", "--strict", "--config",
        "-", "--nested-page-limit", "10", "-v", "--", "--labels,"] =
      .ok (.compile ⟨"organization"⟩ [⟨"teams"⟩, ⟨"members"⟩, ⟨"--labels"⟩] true false
        ⟨some "-", some 7, some 10, 3⟩) := by
  let said : Said := ⟨"organization", ["teams,,members,", "--labels,"], true, false, some "-", some 7, some 10, 3⟩
  let items : List Item := [.verbose 1, .positional "organization", .pageLimit 7 "+007" true,
    .positional "teams,,members,", .strict, .config "-" false, .nestedPageLimit 10 "10" false, .verbose 0]
  have hpage : SpellsLimit "+007" 7 := ⟨by decide, ['0', '0', '7'], .inr (by rfl), by decide, by simp, by rfl⟩
  have hnested : SpellsLimit "10" 10 := spellsLimit_toString (by decide)
  have hfits : ∀ item ∈ items, item.Fits := by
    simp only [items, List.forall_mem_cons, Item.Fits, Plain]
    exact ⟨trivial, .inr (by decide), hpage, .inr (by decide), trivial, ⟨by decide, fun _ => .inl trivial⟩, hnested,
      trivial, nofun⟩
  have harranged : said.ArrangedAs items (some ["--labels,"]) :=
    ⟨hfits, by rfl, by rfl, by rfl, by rfl, by rfl, by rfl, by rfl⟩
  have hwords : items.flatMap Item.words = ["-vv", "organization", "--page-limit=+007", "teams,,members,", "--strict",
      "--config", "-", "--nested-page-limit", "10", "-v"] := by decide
  have h := parse_arranged said items (some ["--labels,"]) harranged
  rw [hwords] at h
  exact h

end ResourceQuery.Cli
