/-
JSON values as their lexemes spell them.

A tree is a JSON value with the spelling of its numbers and strings, but without the blanks around its lexemes. What is
read of it has the same shape: the assembly of its tokens puts it where a value is due, whatever brackets are open
around it and whatever comes after it. A number in it is followed by a bracket or a comma, so all of its lexemes are
read as they are.

Results:
- `run_lexemes`: the tokens of a tree are put together where a value is due.
- `separated_lexemes`: a mark follows each number of a tree.
- `ofText_tree`: a text of a tree, with any blanks, has the reading of the tree, and nothing follows it.
- `skim_reading`: a tree can be passed over.
-/
import ResourceQuery.Json.Decode
import ResourceQuery.Proofs.Lexemes

namespace ResourceQuery.Json

/-- a JSON value as it is written, but for blanks -/
inductive Tree where
  | null
  | bool (b : Bool)
  | number (n : Number)
  | string (l : Literal)
  | array (items : List Tree)
  | object (members : List (Literal × Tree))

namespace Tree

/-! ## Lexemes and readings -/

mutual

def lexemes : Tree → List Lexeme
  | .null => [.null]
  | .bool b => [.bool b]
  | .number n => [.number n]
  | .string l => [.string l]
  | .array [] => [.openBracket, .closeBracket]
  | .array (item :: items) => .openBracket :: (item.lexemes ++ (itemLexemes items ++ [.closeBracket]))
  | .object [] => [.openBrace, .closeBrace]
  | .object (m :: members) => .openBrace :: (memberLexeme m ++ (memberLexemes members ++ [.closeBrace]))

/-- the items after the first -/
def itemLexemes : List Tree → List Lexeme
  | [] => []
  | item :: items => .comma :: (item.lexemes ++ itemLexemes items)

/-- the members after the first -/
def memberLexemes : List (Literal × Tree) → List Lexeme
  | [] => []
  | m :: members => .comma :: (memberLexeme m ++ memberLexemes members)

def memberLexeme : Literal × Tree → List Lexeme
  | (key, value) => .string key :: .colon :: value.lexemes

end

mutual

/-- a tree as it is read -/
def reading : Tree → Reading
  | .null => .null
  | .bool b => .bool b
  | .number n => .number (.ok n.numeral)
  | .string l => .string l.quoted
  | .array items => .array (itemReadings items) none
  | .object members => .object (memberReadings members) none

def itemReadings : List Tree → List Reading
  | [] => []
  | item :: items => item.reading :: itemReadings items

def memberReadings : List (Literal × Tree) → List (Quoted × Reading)
  | [] => []
  | m :: members => memberReading m :: memberReadings members

def memberReading : Literal × Tree → Quoted × Reading
  | (key, value) => (key.quoted, value.reading)

end

theorem itemReadings_eq_map (items : List Tree) : itemReadings items = items.map reading := by
  induction items with
  | nil => rfl
  | cons item items ih => rw [itemReadings, ih, List.map_cons]

theorem memberReadings_eq_map (members : List (Literal × Tree)) :
    memberReadings members = members.map memberReading := by
  induction members with
  | nil => rfl
  | cons m members ih => rw [memberReadings, ih, List.map_cons]

/-! ## Marks after numbers -/

/-- lexemes that can follow any value -/
def Closing (ls : List Lexeme) : Prop := Separated ls ∧ ∀ l ∈ ls.head?, l.IsMark

theorem closing_nil : Closing [] := by
  refine ⟨.nil, ?_⟩
  intro l hl
  cases hl

theorem separated_cons {l : Lexeme} {ls : List Lexeme} (hl : ¬ l.IsNumber) (hls : Separated ls) :
    Separated (l :: ls) := by
  cases hls with
  | nil => exact .singleton l
  | singleton m => exact .cons_cons (fun h => absurd h hl) (.singleton m)
  | cons_cons hm hms => exact .cons_cons (fun h => absurd h hl) (.cons_cons hm hms)

theorem Closing.cons {l : Lexeme} {ls : List Lexeme} (hl : l.IsMark) (hls : Separated ls) : Closing (l :: ls) := by
  have hnumber : ¬ l.IsNumber := by
    intro h
    cases l with
    | number => exact hl
    | _ => exact h
  refine ⟨separated_cons hnumber hls, ?_⟩
  intro m hm
  cases hm
  exact hl

/-- any lexeme can stand before those that can follow any value -/
theorem Closing.separated_cons {ls : List Lexeme} (hls : Closing ls) (l : Lexeme) : Separated (l :: ls) := by
  obtain ⟨hsep, hhead⟩ := hls
  cases ls with
  | nil => exact .singleton l
  | cons m ms => exact .cons_cons (fun _ => hhead m rfl) hsep

mutual

theorem separated_append : ∀ (t : Tree) (ls : List Lexeme), Closing ls → Separated (t.lexemes ++ ls)
  | .null, ls, hls => hls.separated_cons .null
  | .bool b, ls, hls => hls.separated_cons (.bool b)
  | .number n, ls, hls => hls.separated_cons (.number n)
  | .string l, ls, hls => hls.separated_cons (.string l)
  | .array [], ls, hls => (Closing.cons (l := .openBracket) trivial (hls.separated_cons .closeBracket)).1
  | .array (item :: items), ls, hls => by
    have hclose : Closing (.closeBracket :: ls) := .cons trivial hls.1
    have hitem := separated_append item _ (closing_itemLexemes items _ hclose)
    simp only [lexemes, List.cons_append, List.append_assoc, List.nil_append]
    exact separated_cons id hitem
  | .object [], ls, hls => (Closing.cons (l := .openBrace) trivial (hls.separated_cons .closeBrace)).1
  | .object (m :: members), ls, hls => by
    have hclose : Closing (.closeBrace :: ls) := .cons trivial hls.1
    have hmember := separated_memberLexeme m _ (closing_memberLexemes members _ hclose)
    simp only [lexemes, List.cons_append, List.append_assoc, List.nil_append]
    exact separated_cons id hmember

theorem closing_itemLexemes : ∀ (items : List Tree) (ls : List Lexeme), Closing ls →
    Closing (itemLexemes items ++ ls)
  | [], ls, hls => hls
  | item :: items, ls, hls => by
    have hitem := separated_append item _ (closing_itemLexemes items ls hls)
    simp only [itemLexemes, List.cons_append, List.append_assoc]
    exact .cons trivial hitem

theorem closing_memberLexemes : ∀ (members : List (Literal × Tree)) (ls : List Lexeme), Closing ls →
    Closing (memberLexemes members ++ ls)
  | [], ls, hls => hls
  | m :: members, ls, hls => by
    have hmember := separated_memberLexeme m _ (closing_memberLexemes members ls hls)
    simp only [memberLexemes, List.cons_append, List.append_assoc]
    exact .cons trivial hmember

theorem separated_memberLexeme : ∀ (m : Literal × Tree) (ls : List Lexeme), Closing ls →
    Separated (memberLexeme m ++ ls)
  | (key, t), ls, hls => by
    have hvalue := separated_append t ls hls
    simp only [memberLexeme, List.cons_append]
    exact separated_cons id (separated_cons id hvalue)

end

/-- a mark follows each number of a tree -/
theorem separated_lexemes (t : Tree) : Separated t.lexemes := by
  have h := separated_append t [] closing_nil
  rwa [List.append_nil] at h

end Tree

/-! ## Assembly -/

namespace Assembly

/-- a value is due inside `frames`, and perhaps a closing bracket would do as well -/
structure ValueDue (frames : List Frame) (a : Assembly) : Prop where
  scalar : ∀ r, a.step (.scalar r) = put r frames
  openBracket : a.step .openBracket = firstItem frames
  openBrace : a.step .openBrace = firstKey frames
  finish : a.finish = ⟨enclose (.missing .ended) frames, false⟩

theorem valueDue_value (frames : List Frame) : ValueDue frames (value frames) := ⟨fun _ => rfl, rfl, rfl, rfl⟩

theorem valueDue_firstItem (frames : List Frame) : ValueDue (.array [] :: frames) (firstItem frames) :=
  ⟨fun _ => rfl, rfl, rfl, rfl⟩

/-- a key is due after the members `before`, and perhaps a closing brace would do as well -/
structure KeyDue (before : List (Quoted × Reading)) (frames : List Frame) (a : Assembly) : Prop where
  key : ∀ q, a.step (.scalar (.string q)) = colon before q frames
  finish : a.finish = ⟨enclose (withoutKey before .ended) frames, false⟩

theorem keyDue_firstKey (frames : List Frame) : KeyDue [] frames (firstKey frames) := ⟨fun _ => rfl, rfl⟩

theorem keyDue_nextKey (before : List (Quoted × Reading)) (frames : List Frame) :
    KeyDue before frames (nextKey before frames) := ⟨fun _ => rfl, rfl⟩

theorem run_cons (a : Assembly) (t : Token) (ts : List Token) : a.run (t :: ts) = (a.step t).run ts := rfl

end Assembly

namespace Tree

open Assembly

/-- the tokens of lexemes -/
abbrev tokensOf (ls : List Lexeme) : List Token := ls.map Lexeme.token

mutual

/-- A tree is put where a value is due, and the assembly goes on with what follows. -/
theorem run_lexemes : ∀ (t : Tree) (frames : List Frame) (a : Assembly) (rest : List Token), ValueDue frames a →
    a.run (tokensOf t.lexemes ++ rest) = (put t.reading frames).run rest
  | .null, frames, a, rest, ha => congrArg (run · rest) (ha.scalar _)
  | .bool b, frames, a, rest, ha => congrArg (run · rest) (ha.scalar _)
  | .number n, frames, a, rest, ha => congrArg (run · rest) (ha.scalar _)
  | .string l, frames, a, rest, ha => congrArg (run · rest) (ha.scalar _)
  | .array [], frames, a, rest, ha => by
    simp only [lexemes, List.map_cons, List.map_nil, List.cons_append, List.nil_append, Lexeme.token]
    rw [run_cons, ha.openBracket]
    rfl
  | .array (item :: items), frames, a, rest, ha => by
    have hitem := run_lexemes item (.array [] :: frames) (firstItem frames)
      (tokensOf (itemLexemes items) ++ .closeBracket :: rest) (valueDue_firstItem frames)
    have hitems := run_itemLexemes items [item.reading] frames (.closeBracket :: rest)
    simp only [lexemes, List.map_cons, List.map_append, List.map_nil, List.cons_append, List.append_assoc,
      List.nil_append, Lexeme.token]
    rw [run_cons, ha.openBracket, hitem, put, hitems, run_cons, step]
    simp [reading, itemReadings]
  | .object [], frames, a, rest, ha => by
    simp only [lexemes, List.map_cons, List.map_nil, List.cons_append, List.nil_append, Lexeme.token]
    rw [run_cons, ha.openBrace]
    rfl
  | .object (m :: members), frames, a, rest, ha => by
    have hmember := run_memberLexeme m [] frames (firstKey frames)
      (tokensOf (memberLexemes members) ++ .closeBrace :: rest) (keyDue_firstKey frames)
    have hmembers := run_memberLexemes members [memberReading m] frames (.closeBrace :: rest)
    simp only [lexemes, List.map_cons, List.map_append, List.map_nil, List.cons_append, List.append_assoc,
      List.nil_append, Lexeme.token]
    rw [run_cons, ha.openBrace, hmember, hmembers, run_cons, step]
    simp [reading, memberReadings]

theorem run_itemLexemes : ∀ (items : List Tree) (before : List Reading) (frames : List Frame) (rest : List Token),
    (moreItems before frames).run (tokensOf (itemLexemes items) ++ rest) =
      (moreItems ((itemReadings items).reverse ++ before) frames).run rest
  | [], before, frames, rest => rfl
  | item :: items, before, frames, rest => by
    have hitem := run_lexemes item (.array before :: frames) (value (.array before :: frames))
      (tokensOf (itemLexemes items) ++ rest) (valueDue_value _)
    have hitems := run_itemLexemes items (item.reading :: before) frames rest
    simp only [itemLexemes, List.map_cons, List.map_append, List.cons_append, List.append_assoc, Lexeme.token]
    rw [run_cons, step, hitem, put, hitems, itemReadings]
    simp

theorem run_memberLexemes : ∀ (members : List (Literal × Tree)) (before : List (Quoted × Reading))
    (frames : List Frame) (rest : List Token),
    (moreMembers before frames).run (tokensOf (memberLexemes members) ++ rest) =
      (moreMembers ((memberReadings members).reverse ++ before) frames).run rest
  | [], before, frames, rest => rfl
  | m :: members, before, frames, rest => by
    have hmember := run_memberLexeme m before frames (nextKey before frames)
      (tokensOf (memberLexemes members) ++ rest) (keyDue_nextKey _ _)
    have hmembers := run_memberLexemes members (memberReading m :: before) frames rest
    simp only [memberLexemes, List.map_cons, List.map_append, List.cons_append, List.append_assoc, Lexeme.token]
    rw [run_cons, step, hmember, hmembers, memberReadings]
    simp

theorem run_memberLexeme : ∀ (m : Literal × Tree) (before : List (Quoted × Reading)) (frames : List Frame)
    (a : Assembly) (rest : List Token), KeyDue before frames a →
    a.run (tokensOf (memberLexeme m) ++ rest) = (moreMembers (memberReading m :: before) frames).run rest
  | (key, t), before, frames, a, rest, ha => by
    have hvalue := run_lexemes t (.object before key.quoted :: frames) (value (.object before key.quoted :: frames))
      rest (valueDue_value _)
    simp only [memberLexeme, List.map_cons, List.cons_append, Lexeme.token]
    rw [run_cons, ha.key, run_cons, step, hvalue, put, memberReading]

end

/-! ## Texts of trees -/

/-- a text of a tree, with any blanks before its lexemes and at its end -/
def WrittenAs (t : Tree) (text : String) : Prop :=
  ∃ cs blanks, text.toList = cs ++ blanks ∧ Spaced t.lexemes cs ∧ Blanks blanks

/-- **Text of a tree.** Whatever blanks it has, the text of a tree has the reading of the tree, and nothing follows
it. -/
theorem ofText_tree {t : Tree} {text : String} (h : t.WrittenAs text) : Document.ofText text = ⟨t.reading, false⟩ := by
  obtain ⟨cs, blanks, htext, hcs, hblanks⟩ := h
  have hend : EndsNumber blanks := by
    rw [← List.append_nil blanks]
    exact endsNumber_blanks hblanks endsNumber_nil
  have hnone : tokens blanks = [] := by
    rw [← List.append_nil blanks, tokens_blanks hblanks, tokens_nil]
  have htokens := tokens_spaced hcs t.separated_lexemes fun _ _ _ => hend
  rw [Document.ofText, htext, htokens, run_lexemes t [] (value []) _ (valueDue_value []), hnone]
  rfl

/-- a decoder gets the reading of the tree -/
theorem decodeText_tree {t : Tree} {text : String} (h : t.WrittenAs text) {α : Type} (d : Decoder α) :
    decodeText d text = d t.reading := by
  rw [decodeText, ofText_tree h]
  cases d t.reading <;> rfl

/-! ## Passing over -/

mutual

/-- what is passed over may be any tree -/
theorem skim_reading : ∀ t : Tree, t.reading.skim = .ok ()
  | .null => rfl
  | .bool _ => rfl
  | .number _ => rfl
  | .string _ => rfl
  | .array items => by
    rw [reading, Reading.skim, skimItems_readings items]
    rfl
  | .object members => by
    rw [reading, Reading.skim, skimMembers_readings members]
    rfl

theorem skimItems_readings : ∀ items : List Tree, Reading.skimItems (itemReadings items) = .ok ()
  | [] => rfl
  | item :: items => by
    rw [itemReadings, Reading.skimItems, skim_reading item]
    exact skimItems_readings items

theorem skimMembers_readings : ∀ members : List (Literal × Tree),
    Reading.skimMembers (memberReadings members) = .ok ()
  | [] => rfl
  | m :: members => by
    rw [memberReadings, Reading.skimMembers, skimMember_reading m]
    exact skimMembers_readings members

theorem skimMember_reading : ∀ m : Literal × Tree, Reading.skimMember (memberReading m) = .ok ()
  | (_, t) => skim_reading t

end

end Tree

end ResourceQuery.Json
