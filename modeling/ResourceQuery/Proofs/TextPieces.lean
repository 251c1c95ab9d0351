/-
Texts in pieces.

A text that is put together from pieces is taken apart again at a character that the pieces do not have. A name ends at
the first character that no name has, an item of a list at the comma behind it, and a line at its line break.

Results:
- `append_inj_of_stops`: what goes on as long as a condition holds is told from what follows.
- `IsName.append_inj`: so is a name, from what ends it.
- `splitAtCommas_intercalate`: a list of texts is split into them again.
- `firstLine_and_below_append`: the first line of a text, and the lines below it.
- `lines_linesOf`: texts without line breaks are the lines of the text that they make.
-/
import Mathlib.Data.List.TakeWhile

namespace ResourceQuery

/-! ## Up to where a text is cut -/

theorem takeWhile_append_of_head {α : Type} {p : α → Bool} (as : List α) {bs : List α}
    (h : ∀ b ∈ bs.head?, p b = false) : (as ++ bs).takeWhile p = as.takeWhile p := by
  have hstop : bs.takeWhile p = [] := by
    cases bs with
    | nil => rfl
    | cons b bs => simp [h b rfl]
  induction as with
  | nil => exact hstop
  | cons a as ih => simp only [List.cons_append, List.takeWhile_cons, ih]

/-- what goes on as long as a condition holds is told from what follows -/
theorem append_inj_of_stops {α : Type} {p : α → Bool} {as bs cs ds : List α} (has : ∀ a ∈ as, p a = true)
    (hbs : ∀ b ∈ bs.head?, p b = false) (hcs : ∀ c ∈ cs, p c = true) (hds : ∀ d ∈ ds.head?, p d = false)
    (h : as ++ bs = cs ++ ds) : as = cs ∧ bs = ds := by
  have heq : as = cs := by
    calc as = (as ++ bs).takeWhile p := by rw [takeWhile_append_of_head as hbs, List.takeWhile_eq_self_iff.2 has]
      _ = (cs ++ ds).takeWhile p := by rw [h]
      _ = cs := by rw [takeWhile_append_of_head cs hds, List.takeWhile_eq_self_iff.2 hcs]
  subst heq
  exact ⟨rfl, List.append_cancel_left h⟩

theorem notMem_of_forall {α : Type} {p : α → Bool} {as : List α} (h : ∀ a ∈ as, p a = true) {a : α}
    (ha : p a = false) : a ∉ as := by
  intro hmem
  rw [h a hmem] at ha
  cases ha

/-- a text up to a mark that it does not have before -/
theorem takeWhile_ne_append_cons {as : List Char} {c : Char} (h : c ∉ as) (bs : List Char) :
    (as ++ c :: bs).takeWhile (· ≠ c) = as ∧ (as ++ c :: bs).dropWhile (· ≠ c) = c :: bs := by
  have hbefore : ∀ x ∈ as, decide (x ≠ c) = true := fun x hx => decide_eq_true (ne_of_mem_of_not_mem hx h)
  rw [List.takeWhile_append_of_pos hbefore, List.dropWhile_append_of_pos hbefore]
  simp

/-- The characters of a text that is written out are looked for in the list of them. -/
theorem notMem_ofList {cs : List Char} {c : Char} (h : c ∉ cs) : c ∉ (String.ofList cs).toList := by
  rwa [String.toList_ofList]

/-! ## Names -/

/-- the characters of variable names -/
def isNameChar (c : Char) : Bool := c.isAlphanum || c == '_'

/-- a name of a variable: not empty, and of such characters only -/
def IsName (name : String) : Prop := name ≠ "" ∧ ∀ c ∈ name.toList, isNameChar c = true

theorem isName_iff {name : String} : IsName name ↔ name ≠ "" ∧ name.toList.all isNameChar = true :=
  and_congr_right fun _ => List.all_eq_true.symm

-- a bounded search through the name, not through all characters
instance (name : String) : Decidable (IsName name) := decidable_of_iff _ isName_iff.symm

theorem IsName.notMem {name : String} (h : IsName name) {c : Char} (hc : isNameChar c = false) : c ∉ name.toList :=
  notMem_of_forall h.2 hc

/-- no name runs on into a text that begins like this -/
def EndsName (cs : List Char) : Prop := ∀ c ∈ cs.head?, isNameChar c = false

/-- a name is told from what follows it -/
theorem IsName.append_inj {a b : String} (ha : IsName a) (hb : IsName b) {as bs : List Char} (has : EndsName as)
    (hbs : EndsName bs) (h : a.toList ++ as = b.toList ++ bs) : a = b ∧ as = bs := by
  obtain ⟨hname, hrest⟩ := append_inj_of_stops ha.2 has hb.2 hbs h
  exact ⟨String.toList_inj.1 hname, hrest⟩

/-! ## Items of a list -/

theorem mem_toList_intercalate {c : Char} {separator : String} {texts : List String}
    (h : c ∈ (separator.intercalate texts).toList) : c ∈ separator.toList ∨ ∃ text ∈ texts, c ∈ text.toList := by
  induction texts with
  | nil => simp at h
  | cons text texts ih =>
    cases texts with
    | nil =>
      rw [String.intercalate_singleton] at h
      exact .inr ⟨text, List.mem_cons_self, h⟩
    | cons next texts =>
      rw [String.intercalate_cons_cons, String.toList_append, String.toList_append, List.mem_append,
        List.mem_append] at h
      rcases h with (h | h) | h
      · exact .inr ⟨text, List.mem_cons_self, h⟩
      · exact .inl h
      · rcases ih h with h | ⟨t, ht, h⟩
        · exact .inl h
        · exact .inr ⟨t, List.mem_cons_of_mem _ ht, h⟩

theorem mem_intercalate_of_mem {separator piece : List Char} {pieces : List (List Char)} (hpiece : piece ∈ pieces)
    {c : Char} (hc : c ∈ piece) : c ∈ separator.intercalate pieces := by
  induction pieces with
  | nil => cases hpiece
  | cons first pieces ih =>
    cases pieces with
    | nil =>
      rw [List.intercalate_singleton, ← List.mem_singleton.1 hpiece]
      exact hc
    | cons next pieces =>
      rw [List.intercalate_cons_cons]
      rcases List.mem_cons.1 hpiece with rfl | hpiece
      · exact List.mem_append_left _ (List.mem_append_left _ hc)
      · exact List.mem_append_right _ (ih hpiece)

/-- the pieces of a text between commas with a blank behind them -/
def splitAtCommas : List Char → List (List Char)
  | [] => [[]]
  | ',' :: ' ' :: rest => [] :: splitAtCommas rest
  | c :: rest =>
    match splitAtCommas rest with
    | [] => [[c]]
    | piece :: pieces => (c :: piece) :: pieces

theorem splitAtCommas_cons {c : Char} (hc : c ≠ ',') {rest piece : List Char} {pieces : List (List Char)}
    (h : splitAtCommas rest = piece :: pieces) : splitAtCommas (c :: rest) = (c :: piece) :: pieces := by
  rw [splitAtCommas, h]
  intro _ heq
  exact absurd heq hc

/-- what has no comma belongs to the first piece of what follows it -/
theorem splitAtCommas_append {cs rest piece : List Char} {pieces : List (List Char)} (h : ',' ∉ cs)
    (hrest : splitAtCommas rest = piece :: pieces) : splitAtCommas (cs ++ rest) = (cs ++ piece) :: pieces := by
  induction cs with
  | nil => exact hrest
  | cons c cs ih =>
    rw [List.mem_cons, not_or] at h
    exact splitAtCommas_cons (Ne.symm h.1) (ih h.2)

/-- A list of texts without commas is split into them again. -/
theorem splitAtCommas_intercalate {texts : List String} (hne : texts ≠ []) (h : ∀ text ∈ texts, ',' ∉ text.toList) :
    splitAtCommas (", ".intercalate texts).toList = texts.map String.toList := by
  induction texts with
  | nil => exact absurd rfl hne
  | cons text texts ih =>
    have htext := h text List.mem_cons_self
    cases texts with
    | nil =>
      have hend : splitAtCommas [] = [[]] := rfl
      have hpiece := splitAtCommas_append htext hend
      rwa [List.append_nil] at hpiece
    | cons next texts =>
      have hlist : (", ".intercalate (text :: next :: texts)).toList =
          text.toList ++ ',' :: ' ' :: (", ".intercalate (next :: texts)).toList := by
        rw [String.intercalate_cons_cons]
        simp
      have hnext : splitAtCommas (", ".intercalate (next :: texts)).toList = (next :: texts).map String.toList :=
        ih (List.cons_ne_nil _ _) fun t ht => h t (List.mem_cons_of_mem _ ht)
      have hcomma : splitAtCommas (',' :: ' ' :: (", ".intercalate (next :: texts)).toList) =
          [] :: (next :: texts).map String.toList := by rw [splitAtCommas, hnext]
      rw [hlist, splitAtCommas_append htext hcomma, List.append_nil]
      rfl

/-! ## Lines -/

def firstLine (text : String) : String := String.ofList (text.toList.takeWhile (· ≠ '\n'))

/-- all lines but the first -/
def belowFirstLine (text : String) : String := String.ofList (text.toList.dropWhile (· ≠ '\n')).tail

theorem firstLine_append (a b : String) : firstLine (a ++ "\n" ++ b) = firstLine a := by
  rw [firstLine, String.append_assoc, String.toList_append, takeWhile_append_of_head _ (by simp)]
  rfl

/-- the first line of a text ends at its first line break -/
theorem firstLine_and_below_append {line : String} (h : '\n' ∉ line.toList) (rest : String) :
    firstLine (line ++ "\n" ++ rest) = line ∧ belowFirstLine (line ++ "\n" ++ rest) = rest := by
  have htext : (line ++ "\n" ++ rest).toList = line.toList ++ '\n' :: rest.toList := by simp
  obtain ⟨hfirst, hbelow⟩ := takeWhile_ne_append_cons h rest.toList
  rw [firstLine, belowFirstLine, htext, hfirst, hbelow]
  simp

/-- texts on lines of their own -/
def linesOf (texts : List String) : String := String.join (texts.map (· ++ "\n"))

theorem linesOf_cons (text : String) (texts : List String) :
    linesOf (text :: texts) = text ++ "\n" ++ linesOf texts := by
  simp [linesOf, String.join_cons]

theorem intercalate_lineBreak {texts : List String} (hne : texts ≠ []) :
    "\n".intercalate texts ++ "\n" = linesOf texts := by
  induction texts with
  | nil => exact absurd rfl hne
  | cons text texts ih =>
    cases texts with
    | nil => simp [linesOf]
    | cons next texts =>
      rw [String.intercalate_cons_cons, String.append_assoc, ih (List.cons_ne_nil _ _), linesOf_cons text]

/-- the texts before the line breaks, and what is behind the last one if there is something -/
def lines (text : String) : List String :=
  let pieces := (text.toList.splitOn '\n').map String.ofList
  if pieces.getLast? = some "" then pieces.dropLast else pieces

theorem splitOn_linesOf {texts : List String} (h : ∀ text ∈ texts, '\n' ∉ text.toList) :
    (linesOf texts).toList.splitOn '\n' = texts.map String.toList ++ [[]] := by
  induction texts with
  | nil => rfl
  | cons text texts ih =>
    obtain ⟨htext, htexts⟩ := List.forall_mem_cons.1 h
    have hlist : (linesOf (text :: texts)).toList = text.toList ++ '\n' :: (linesOf texts).toList := by
      rw [linesOf_cons]
      simp
    rw [hlist, List.splitOn_append_cons_self, ih htexts, List.splitOn_eq_singleton htext]
    rfl

/-- texts without line breaks are the lines of the text that they make -/
theorem lines_linesOf {texts : List String} (h : ∀ text ∈ texts, '\n' ∉ text.toList) : lines (linesOf texts) = texts := by
  have hpieces : ((linesOf texts).toList.splitOn '\n').map String.ofList = texts ++ [""] := by
    rw [splitOn_linesOf h]
    simp [Function.comp_def]
  rw [lines, hpieces, List.getLast?_concat, if_pos rfl, List.dropLast_concat]

end ResourceQuery
