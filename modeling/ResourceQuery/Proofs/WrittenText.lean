/-
Written documents as they are read.

A document is written with blanks between its tokens or without them, and the tokens are the same: those of the tree
that spells each string and number of the document in the one way the printer does. Read back, a string is the pieces of
its characters, of which a few are named by their code units, and a number is its digits. So what is read of a written
value is the reading of its document.

Results:
- `denotes_ofString`, `value?_ofNat`: strings and numbers hold what was written.
- `spaced_write`: a document is written as the lexemes of its tree, with blanks before some.
- `reading_tree`: its tree has the reading of the document.
- `decodeText_text`: a decoder gets that reading from the text of a document, and nothing follows it.
-/
import ResourceQuery.Json.Basic
import ResourceQuery.Proofs.Trees

namespace ResourceQuery.Json

/-! ## Strings -/

/-- A written character as it is read: a control character that no letter is for is named by its code unit. -/
def Piece.ofChar (c : Char) : Piece :=
  if c < ' ' ∧ c ∉ ['\x08', '\x0c', '\n', '\r', '\t'] then .unit c.toNat else .char c

/-- a written string as it is read -/
def Quoted.ofString (s : String) : Quoted := ⟨s.toList.map Piece.ofChar, none⟩

/-- a character as it is written -/
def Glyph.ofChar (c : Char) : Glyph :=
  if h : ¬ c < ' ' ∧ c ≠ '"' ∧ c ≠ '\\' then .plain c h
  else
    match h : escapeLetters.find? fun p => p.2 = c with
    | some p => .letter p.1 p.2 (List.mem_of_find?_eq_some h)
    | none => .unit (.ofNat 0) (.ofNat 0) (.ofNat (c.toNat / 16)) (.ofNat c.toNat)

/-- a string as it is written -/
def Literal.ofString (s : String) : Literal := s.toList.map Glyph.ofChar

/-- A character is written as itself, or it is one of those that are escaped. -/
theorem forall_char {P : Char → Prop} [DecidablePred P] (hplain : ∀ c, ¬ c < ' ' ∧ c ≠ '"' ∧ c ≠ '\\' → P c)
    (hescaped : ('"' :: '\\' :: (List.range 32).map Char.ofNat).all (fun c => P c) = true) (c : Char) : P c := by
  by_cases h : ¬ c < ' ' ∧ c ≠ '"' ∧ c ≠ '\\'
  · exact hplain c h
  · refine of_decide_eq_true (List.all_eq_true.1 hescaped c ?_)
    by_cases hspace : c < ' '
    · have hlt : c.toNat < 32 := hspace
      have hmem : Char.ofNat c.toNat ∈ (List.range 32).map Char.ofNat :=
        List.mem_map_of_mem (List.mem_range.2 hlt)
      rw [Char.ofNat_toNat] at hmem
      exact List.mem_cons_of_mem _ (List.mem_cons_of_mem _ hmem)
    · simp only [hspace, not_false_eq_true, true_and, not_and_or, ne_eq, not_not] at h
      rcases h with rfl | rfl
      · exact List.mem_cons_self
      · exact List.mem_cons_of_mem _ List.mem_cons_self

theorem text_ofChar (c : Char) : (Glyph.ofChar c).text = escapeChar c := by
  refine forall_char (P := fun c => (Glyph.ofChar c).text = escapeChar c) ?_ (by decide) c
  intro c h
  rw [Glyph.ofChar, dif_pos h, Glyph.text, escapeChar.eq_def]
  split <;> simp_all

theorem piece_ofChar (c : Char) : (Glyph.ofChar c).piece = Piece.ofChar c := by
  refine forall_char (P := fun c => (Glyph.ofChar c).piece = Piece.ofChar c) ?_ (by decide) c
  intro c h
  rw [Glyph.ofChar, dif_pos h, Piece.ofChar, if_neg fun hspace => h.1 hspace.1]
  rfl

theorem text_ofString (s : String) : (Literal.ofString s).text = quote s := by
  simp only [Literal.text, Literal.body, Literal.ofString, quote, List.flatMap_map, text_ofChar, List.cons_append]

theorem quoted_ofString (s : String) : (Literal.ofString s).quoted = .ofString s := by
  simp only [Literal.quoted, Literal.ofString, Quoted.ofString, List.map_map, Function.comp_def, piece_ofChar]

/-- a written character denotes itself -/
theorem denotes_cons (c : Char) {l : Literal} {cs : List Char} (h : l.Denotes cs) :
    Literal.Denotes (.ofChar c :: l) (c :: cs) := by
  unfold Glyph.ofChar
  split
  · exact .plain _ h
  · rename_i hplain
    split
    · rename_i p hfind
      have hp : p.2 = c := by simpa using List.find?_some hfind
      subst hp
      exact .letter _ h
    · rename_i hfind
      have hlt : c.toNat < 32 := by
        have hquote : c ≠ '"' := by
          rintro rfl
          exact absurd hfind (by decide)
        have hbackslash : c ≠ '\\' := by
          rintro rfl
          exact absurd hfind (by decide)
        by_contra hge
        exact hplain ⟨hge, hquote, hbackslash⟩
      apply Literal.Denotes.unit _ h
      simp only [Glyph.code, HexDigit.ofNat, Fin.ofNat]
      omega

theorem denotes_ofString (s : String) : (Literal.ofString s).Denotes s.toList := by
  have hall : ∀ cs : List Char, Literal.Denotes (cs.map Glyph.ofChar) cs := by
    intro cs
    induction cs with
    | nil => exact .nil
    | cons c cs ih => exact denotes_cons c ih
  exact hall s.toList

/-! ## Numbers -/

/-- a written number as it is read -/
def Numeral.ofNat (n : Nat) : Numeral := ⟨false, Nat.toDigits 10 n, [], none⟩

theorem isDigit_of_mem_toDigits {n : Nat} {c : Char} (h : c ∈ Nat.toDigits 10 n) : c.isDigit = true :=
  Nat.isDigit_of_mem_toDigits (by decide) (by decide) h

/-- the first digit of a number is zero only for zero -/
theorem head?_toDigits_ne {n : Nat} (h : 0 < n) : (Nat.toDigits 10 n).head? ≠ some '0' := by
  induction n using Nat.strongRecOn with
  | _ n ih =>
    by_cases hn : n < 10
    · rw [Nat.toDigits_of_lt_base hn]
      have hall : ∀ n < 10, 0 < n → [Nat.digitChar n].head? ≠ some '0' := by decide
      exact hall n hn h
    · have hfirst := ih (n / 10) (by omega) (by omega)
      obtain ⟨d, ds, hds⟩ := List.exists_cons_of_ne_nil (Nat.toDigits_ne_nil (b := 10) (n := n / 10))
      rw [Nat.toDigits_of_base_le (by decide) (by omega), hds]
      rwa [hds] at hfirst

/-- a natural number as it is written -/
def Number.ofNat (n : Nat) : Number where
  negative := false
  whole := ⟨Nat.toDigits 10 n, Nat.toDigits_ne_nil, fun _ => isDigit_of_mem_toDigits⟩
  whole_zero := by
    intro h
    by_cases hn : 0 < n
    · exact absurd h (head?_toDigits_ne hn)
    · have hzero := Nat.eq_zero_of_not_pos hn
      subst hzero
      rfl
  fraction := none
  exponent := none

theorem text_ofNat (n : Nat) : (Number.ofNat n).text = Nat.toDigits 10 n := List.append_nil _

theorem Numeral.value?_ofNat {n : Nat} (h : n < UInt64.size) : (ofNat n).value? = some (.natural n) := by
  unfold value? ofNat
  simp only [Nat.ofDigitChars_ten_toDigits]
  exact if_pos ⟨trivial, trivial, trivial, h⟩

/-! ## The reading of a document -/

mutual

/-- a written document as it is read -/
def reading : Json → Reading
  | .number n => .number (.ok (.ofNat n))
  | .string s => .string (.ofString s)
  | .array items => .array (itemReadings items) none
  | .object members => .object (memberReadings members) none

def itemReadings : List Json → List Reading
  | [] => []
  | item :: rest => item.reading :: itemReadings rest

def memberReadings : List (String × Json) → List (Quoted × Reading)
  | [] => []
  | m :: rest => memberReading m :: memberReadings rest

def memberReading : String × Json → Quoted × Reading
  | (key, value) => (.ofString key, value.reading)

end

theorem itemReadings_eq_map (items : List Json) : itemReadings items = items.map reading := by
  induction items with
  | nil => rfl
  | cons item items ih => rw [itemReadings, ih, List.map_cons]

theorem memberReadings_eq_map (members : List (String × Json)) :
    memberReadings members = members.map memberReading := by
  induction members with
  | nil => rfl
  | cons m members ih => rw [memberReadings, ih, List.map_cons]

/-! ## The tree of a document -/

mutual

/-- the tree that a document is written as -/
def tree : Json → Tree
  | .number n => .number (.ofNat n)
  | .string s => .string (.ofString s)
  | .array items => .array (itemTrees items)
  | .object members => .object (memberTrees members)

def itemTrees : List Json → List Tree
  | [] => []
  | item :: rest => item.tree :: itemTrees rest

def memberTrees : List (String × Json) → List (Literal × Tree)
  | [] => []
  | m :: rest => memberTree m :: memberTrees rest

def memberTree : String × Json → Literal × Tree
  | (key, value) => (.ofString key, value.tree)

end

mutual

/-- what is read of the tree is what is read of the document -/
theorem reading_tree : ∀ j : Json, j.tree.reading = j.reading
  | .number _ => rfl
  | .string s => congrArg Reading.string (quoted_ofString s)
  | .array items => congrArg (Reading.array · none) (readings_itemTrees items)
  | .object members => congrArg (Reading.object · none) (readings_memberTrees members)

theorem readings_itemTrees : ∀ items : List Json, Tree.itemReadings (itemTrees items) = itemReadings items
  | [] => rfl
  | item :: items => congrArg₂ List.cons (reading_tree item) (readings_itemTrees items)

theorem readings_memberTrees : ∀ members : List (String × Json),
    Tree.memberReadings (memberTrees members) = memberReadings members
  | [] => rfl
  | m :: members => congrArg₂ List.cons (reading_memberTree m) (readings_memberTrees members)

theorem reading_memberTree : ∀ m : String × Json, Tree.memberReading (memberTree m) = memberReading m
  | (key, j) => congrArg₂ Prod.mk (quoted_ofString key) (reading_tree j)

end

/-! ## The text of a document -/

/-- only blanks stand between tokens -/
structure Layout.Blank (layout : Layout) : Prop where
  lineBreak : ∀ depth, ∀ c ∈ layout.lineBreak depth, Token.isBlank c = true
  gap : ∀ c ∈ layout.gap, Token.isBlank c = true

theorem Layout.blank_compact : Layout.compact.Blank where
  lineBreak depth c hc := by cases hc
  gap c hc := by cases hc

theorem Layout.blank_indented : Layout.indented.Blank where
  lineBreak depth c hc := by
    rcases List.mem_cons.1 hc with rfl | hc
    · decide
    · rw [List.eq_of_mem_replicate hc]
      decide
  gap c hc := by
    rw [List.mem_singleton.1 hc]
    decide

theorem Blanks.of_isBlank {cs : List Char} (h : ∀ c ∈ cs, Token.isBlank c = true) : Blanks cs := by
  intro c hc
  have hblank := h c hc
  simp only [Token.isBlank, Bool.or_eq_true, decide_eq_true_eq] at hblank
  obtain ((rfl | rfl) | rfl) | rfl := hblank <;> decide

namespace Spaced

variable {l : Lexeme} {ls : List Lexeme} {cs blanks : List Char}

theorem lexeme (l : Lexeme) (h : Spaced ls cs) : Spaced (l :: ls) (l.text ++ cs) :=
  cons (fun _ hc => absurd hc List.not_mem_nil) l h

/-- more blanks before the first lexeme -/
theorem pad (h : Spaced ls cs) (hne : ls ≠ []) (hblanks : Blanks blanks) : Spaced ls (blanks ++ cs) := by
  cases h with
  | nil => exact absurd rfl hne
  | @cons blanks' cs ls hblanks' l hrest =>
    rw [← List.append_assoc]
    refine cons ?_ l hrest
    intro c hc
    exact (List.mem_append.1 hc).elim (hblanks c) (hblanks' c)

end Spaced

theorem Tree.lexemes_ne_nil (t : Tree) : t.lexemes ≠ [] := by
  cases t with
  | array items => cases items <;> exact List.cons_ne_nil _ _
  | object members => cases members <;> exact List.cons_ne_nil _ _
  | _ => exact List.cons_ne_nil _ _

section Layouts

variable {layout : Layout}

theorem Layout.Blank.blanks_lineBreak (hl : layout.Blank) (depth : Nat) : Blanks (layout.lineBreak depth) :=
  .of_isBlank (hl.lineBreak depth)

mutual

/-- A document is written as the lexemes of its tree. -/
theorem spaced_write (hl : layout.Blank) : ∀ (j : Json) (depth : Nat), Spaced j.tree.lexemes (j.write layout depth)
  | .number n, depth => by
    have h := Spaced.lexeme (.number (.ofNat n)) .nil
    rwa [List.append_nil, Lexeme.text, text_ofNat] at h
  | .string s, depth => by
    have h := Spaced.lexeme (.string (.ofString s)) .nil
    rwa [List.append_nil, Lexeme.text, text_ofString] at h
  | .array [], depth => .lexeme .openBracket (.lexeme .closeBracket .nil)
  | .array (item :: items), depth => by
    have hitem := (spaced_write hl item (depth + 1)).pad (Tree.lexemes_ne_nil _) (hl.blanks_lineBreak (depth + 1))
    have hclose := (Spaced.lexeme .closeBracket .nil).pad (by simp) (hl.blanks_lineBreak depth)
    have h := Spaced.lexeme .openBracket (hitem.append ((spaced_writeItems hl items (depth + 1)).append hclose))
    simpa [write, tree, itemTrees, Tree.lexemes, Lexeme.text] using h
  | .object [], depth => .lexeme .openBrace (.lexeme .closeBrace .nil)
  | .object (m :: members), depth => by
    have hmember := (spaced_writeMember hl m (depth + 1)).pad (by cases m; simp [memberTree, Tree.memberLexeme])
      (hl.blanks_lineBreak (depth + 1))
    have hclose := (Spaced.lexeme .closeBrace .nil).pad (by simp) (hl.blanks_lineBreak depth)
    have h := Spaced.lexeme .openBrace (hmember.append ((spaced_writeMembers hl members (depth + 1)).append hclose))
    simpa [write, tree, memberTrees, Tree.lexemes, Lexeme.text] using h

theorem spaced_writeItems (hl : layout.Blank) : ∀ (items : List Json) (depth : Nat),
    Spaced (Tree.itemLexemes (itemTrees items)) (writeItems layout depth items)
  | [], depth => .nil
  | item :: items, depth => by
    have hitem := (spaced_write hl item depth).pad (Tree.lexemes_ne_nil _) (hl.blanks_lineBreak depth)
    have h := Spaced.lexeme .comma (hitem.append (spaced_writeItems hl items depth))
    simpa [writeItems, itemTrees, Tree.itemLexemes, Lexeme.text] using h

theorem spaced_writeMembers (hl : layout.Blank) : ∀ (members : List (String × Json)) (depth : Nat),
    Spaced (Tree.memberLexemes (memberTrees members)) (writeMembers layout depth members)
  | [], depth => .nil
  | m :: members, depth => by
    have hmember := (spaced_writeMember hl m depth).pad (by cases m; simp [memberTree, Tree.memberLexeme])
      (hl.blanks_lineBreak depth)
    have h := Spaced.lexeme .comma (hmember.append (spaced_writeMembers hl members depth))
    simpa [writeMembers, memberTrees, Tree.memberLexemes, Lexeme.text] using h

theorem spaced_writeMember (hl : layout.Blank) : ∀ (m : String × Json) (depth : Nat),
    Spaced (Tree.memberLexeme (memberTree m)) (writeMember layout depth m)
  | (key, j), depth => by
    have hvalue := (spaced_write hl j depth).pad (Tree.lexemes_ne_nil _) (.of_isBlank hl.gap)
    have h := Spaced.lexeme (.string (.ofString key)) (.lexeme .colon hvalue)
    simpa [writeMember, memberTree, Tree.memberLexeme, Lexeme.text, text_ofString] using h

end

/-! ## Main results -/

theorem writtenAs_text (hl : layout.Blank) (j : Json) : j.tree.WrittenAs (j.text layout) :=
  ⟨j.write layout 0, [], by rw [text, String.toList_ofList, List.append_nil], spaced_write hl j 0,
    fun _ hc => absurd hc List.not_mem_nil⟩

/-- **Text of a document.** A decoder gets the reading of the document from its text, in every layout whose blanks are
blanks. -/
theorem decodeText_text (hl : layout.Blank) {α : Type} (d : Decoder α) (j : Json) :
    decodeText d (j.text layout) = d j.reading := by
  rw [Tree.decodeText_tree (writtenAs_text hl j), reading_tree]

end Layouts

end ResourceQuery.Json
