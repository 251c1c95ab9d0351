/-
The words of JSON texts.

A lexeme is a bracket, a comma, a colon, a name such as `null`, a number, or a string between quotes. It is written in
one way only, so it is as good as its text: a number has its sign, digits and exponent, and each character of a string
stands for itself or is escaped. Lexemes are well-formed by construction.

A text is a row of lexemes with blanks before them. It is cut into the tokens of its lexemes, however many blanks there
are, as long as a bracket, a comma or a colon follows each number.

Results:
- `scan_literal`: a string is read to its closing quote.
- `value_of_denotes`: what is read of a string holds the characters that it denotes.
- `scan_number`: a number is read to what ends it.
- `tokens_spaced`: a text is cut into the tokens of its lexemes.
-/
import Mathlib.Data.List.Chain
import Mathlib.Data.List.TakeWhile
import ResourceQuery.Json.Document

namespace ResourceQuery.Json

/-! ## Characters of strings -/

structure HexDigit where
  value : Fin 16
  /-- whether a letter is written as a capital -/
  capital : Bool := false

def HexDigit.ofNat (n : Nat) (capital : Bool := false) : HexDigit := ⟨Fin.ofNat 16 n, capital⟩

def HexDigit.char (d : HexDigit) : Char :=
  if d.capital then (Nat.digitChar d.value).toUpper else Nat.digitChar d.value

/-- the letters that stand after a backslash, each with the character that the two denote -/
def escapeLetters : List (Char × Char) :=
  [('"', '"'), ('\\', '\\'), ('/', '/'), ('b', '\x08'), ('f', '\x0c'), ('n', '\n'), ('r', '\r'), ('t', '\t')]

/-- a character of a string as it is written -/
inductive Glyph where
  /-- the character itself -/
  | plain (c : Char) (h : ¬ c < ' ' ∧ c ≠ '"' ∧ c ≠ '\\')
  /-- a backslash and a letter -/
  | letter (letter c : Char) (h : (letter, c) ∈ escapeLetters)
  /-- a backslash, the letter `u` and four digits, which name a code unit -/
  | unit (a b c d : HexDigit)

/-- a string between its quotes -/
abbrev Literal := List Glyph

namespace Glyph

def text : Glyph → List Char
  | plain c _ => [c]
  | letter l _ _ => ['\\', l]
  | unit a b c d => ['\\', 'u', a.char, b.char, c.char, d.char]

/-- the code unit that four digits name -/
def code (a b c d : HexDigit) : Nat := ((a.value * 16 + b.value) * 16 + c.value) * 16 + d.value

/-- a glyph as it is read -/
def piece : Glyph → Piece
  | plain c _ => .char c
  | letter _ c _ => .char c
  | unit a b c d => .unit (code a b c d)

end Glyph

namespace Literal

/-- The characters that a literal denotes. A character above U+FFFF is named by a pair of code units; a code unit of
such a pair does not name a character by itself. -/
inductive Denotes : Literal → List Char → Prop
  | nil : Denotes [] []
  | plain {gs : Literal} {cs : List Char} {c : Char} (h : ¬ c < ' ' ∧ c ≠ '"' ∧ c ≠ '\\') (hrest : Denotes gs cs) :
      Denotes (.plain c h :: gs) (c :: cs)
  | letter {gs : Literal} {cs : List Char} {l c : Char} (h : (l, c) ∈ escapeLetters) (hrest : Denotes gs cs) :
      Denotes (.letter l c h :: gs) (c :: cs)
  | unit {gs : Literal} {cs : List Char} {a b c d : HexDigit} {x : Char} (h : Glyph.code a b c d = x.toNat)
      (hrest : Denotes gs cs) : Denotes (.unit a b c d :: gs) (x :: cs)
  | pair {gs : Literal} {cs : List Char} {a b c d a' b' c' d' : HexDigit} {high low : Nat} {x : Char}
      (hhigh : Glyph.code a b c d = 0xD800 + high) (hlow : Glyph.code a' b' c' d' = 0xDC00 + low)
      (hhigh_lt : high < 0x400) (hlow_lt : low < 0x400) (h : x.toNat = 0x10000 + high * 0x400 + low)
      (hrest : Denotes gs cs) : Denotes (.unit a b c d :: .unit a' b' c' d' :: gs) (x :: cs)

/-- the text between the quotes -/
def body (l : Literal) : List Char := l.flatMap Glyph.text

def text (l : Literal) : List Char := '"' :: (l.body ++ ['"'])

/-- a literal as it is read -/
def quoted (l : Literal) : Quoted := ⟨l.map Glyph.piece, none⟩

end Literal

/-! ### Reading strings -/

theorem hexValue?_char (d : HexDigit) : Quoted.hexValue? d.char = some d.value.val := by
  have hall : ∀ (v : Fin 16) (capital : Bool), Quoted.hexValue? (HexDigit.char ⟨v, capital⟩) = some v.val := by decide
  exact hall d.value d.capital

theorem unit?_char (a b c d : HexDigit) :
    Quoted.unit? a.char b.char c.char d.char = some (Glyph.code a b c d) := by
  simp only [Quoted.unit?, hexValue?_char]
  rfl

namespace Quoted

theorem scan_char {c : Char} (h : ¬ c < ' ' ∧ c ≠ '"' ∧ c ≠ '\\') (rest : List Char) :
    scan (c :: rest) = cons (.char c) (scan rest) := by
  obtain ⟨hspace, hquote, hbackslash⟩ := h
  rw [scan.eq_def]
  split
  case h_7 hchar =>
    cases hchar
    exact if_neg hspace
  all_goals simp_all

theorem scan_letter {l c : Char} (h : (l, c) ∈ escapeLetters) (rest : List Char) :
    scan ('\\' :: l :: rest) = cons (.char c) (scan rest) := by
  simp only [escapeLetters, List.mem_cons, Prod.mk.injEq, List.not_mem_nil, or_false] at h
  rcases h with ⟨rfl, rfl⟩ | ⟨rfl, rfl⟩ | ⟨rfl, rfl⟩ | ⟨rfl, rfl⟩ | ⟨rfl, rfl⟩ | ⟨rfl, rfl⟩ | ⟨rfl, rfl⟩ | ⟨rfl, rfl⟩
  all_goals rfl

/-- one glyph, as it is read -/
theorem scan_glyph (g : Glyph) (rest : List Char) : scan (g.text ++ rest) = cons g.piece (scan rest) := by
  cases g with
  | plain c h => exact scan_char h rest
  | letter l c h => exact scan_letter h rest
  | unit a b c d =>
    simp only [Glyph.text, List.cons_append, List.nil_append]
    rw [scan, unit?_char]
    rfl

theorem scan_append (l : Literal) (rest : List Char) :
    scan (l.body ++ rest) = (⟨l.map Glyph.piece ++ (scan rest).1.pieces, (scan rest).1.fault⟩, (scan rest).2) := by
  induction l with
  | nil => rfl
  | cons g l ih =>
    rw [Literal.body, List.flatMap_cons, List.append_assoc, scan_glyph]
    rw [Literal.body] at ih
    rw [ih]
    rfl

/-- a literal is read up to its closing quote -/
theorem scan_literal (l : Literal) (rest : List Char) : scan (l.body ++ '"' :: rest) = (l.quoted, rest) := by
  rw [scan_append, scan]
  simp [Literal.quoted]

theorem decode_unit {code : Nat} {c : Char} (h : code = c.toNat) (fault : Option Fault) (rest : List Piece) :
    decode fault (.unit code :: rest) = (decode fault rest).map (c :: ·) := by
  subst h
  have hwhole : isTrailing c.toNat = false ∧ isLeading c.toNat = false := by
    have hvalid : c.toNat < 0xD800 ∨ 0xDFFF < c.toNat := by
      obtain hlt | hgt := c.valid
      · exact .inl hlt
      · exact .inr hgt.1
    simp only [isTrailing, isLeading, Bool.and_eq_false_iff, decide_eq_false_iff_not]
    omega
  rw [decode.eq_def]
  simp only [hwhole, Bool.false_eq_true, if_false, Char.ofNat_toNat]

theorem decode_pair {high low : Nat} {c : Char} (hhigh : high < 0x400) (hlow : low < 0x400)
    (h : c.toNat = 0x10000 + high * 0x400 + low) (fault : Option Fault) (rest : List Piece) :
    decode fault (.unit (0xD800 + high) :: .unit (0xDC00 + low) :: rest) = (decode fault rest).map (c :: ·) := by
  have hhalves : isTrailing (0xD800 + high) = false ∧ isLeading (0xD800 + high) = true ∧
      isTrailing (0xDC00 + low) = true := by
    simp only [isTrailing, isLeading, Bool.and_eq_false_iff, Bool.and_eq_true, decide_eq_false_iff_not,
      decide_eq_true_eq]
    omega
  have hpair : pair (0xD800 + high) (0xDC00 + low) = c := by
    rw [pair, Nat.add_sub_cancel_left, Nat.add_sub_cancel_left, ← h, Char.ofNat_toNat]
  rw [decode.eq_def]
  simp only [hhalves, Bool.false_eq_true, if_false, if_true, hpair]

end Quoted

/-- a literal that denotes characters is read as them -/
theorem Literal.Denotes.decode {l : Literal} {cs : List Char} (h : l.Denotes cs) :
    Quoted.decode none (l.map Glyph.piece) = .ok cs := by
  induction h with
  | nil => rfl
  | plain h hrest ih => rw [List.map_cons, Glyph.piece, Quoted.decode, ih]; rfl
  | letter h hrest ih => rw [List.map_cons, Glyph.piece, Quoted.decode, ih]; rfl
  | unit h hrest ih => rw [List.map_cons, Glyph.piece, Quoted.decode_unit h, ih]; rfl
  | pair hhigh hlow hhigh_lt hlow_lt h hrest ih =>
    rw [List.map_cons, List.map_cons, Glyph.piece, Glyph.piece, hhigh, hlow,
      Quoted.decode_pair hhigh_lt hlow_lt h, ih]
    rfl

theorem Literal.value_of_denotes {l : Literal} {s : String} (h : l.Denotes s.toList) : l.quoted.value = .ok s := by
  rw [Quoted.value, quoted, h.decode]
  simp [Except.map]

/-! ## Numbers -/

/-- at least one decimal digit -/
structure Digits where
  text : List Char
  text_ne : text ≠ []
  isDigit : ∀ c ∈ text, c.isDigit = true

structure Exponent where
  /-- whether the letter is a capital -/
  capital : Bool
  /-- the sign, if there is one; true for a minus -/
  sign : Option Bool
  digits : Digits

/-- a number as it is written -/
structure Number where
  negative : Bool
  whole : Digits
  /-- a zero stands alone -/
  whole_zero : whole.text.head? = some '0' → whole.text = ['0']
  fraction : Option Digits
  exponent : Option Exponent

def Exponent.text (e : Exponent) : List Char :=
  (if e.capital then 'E' else 'e') :: (e.sign.map fun minus => if minus then '-' else '+').toList ++ e.digits.text

namespace Number

def fractionText (n : Number) : List Char := (n.fraction.map fun ds => '.' :: ds.text).getD []

def exponentText (n : Number) : List Char := (n.exponent.map Exponent.text).getD []

def unsignedText (n : Number) : List Char := n.whole.text ++ (n.fractionText ++ n.exponentText)

def text (n : Number) : List Char := if n.negative then '-' :: n.unsignedText else n.unsignedText

/-- a number as it is read -/
def numeral (n : Number) : Numeral :=
  ⟨n.negative, n.whole.text, (n.fraction.map Digits.text).getD [],
    n.exponent.map fun e => (e.sign.getD false, e.digits.text)⟩

end Number

/-! ### Reading numbers -/

/-- no digit stands in front -/
def EndsDigits (cs : List Char) : Prop := ∀ c ∈ cs.head?, c.isDigit = false

/-- no number runs on into a text that begins like this -/
def EndsNumber (cs : List Char) : Prop :=
  ∀ c ∈ cs.head?, c.isDigit = false ∧ c ≠ '.' ∧ c ≠ 'e' ∧ c ≠ 'E'

theorem endsNumber_nil : EndsNumber [] := by
  intro c hc
  cases hc

theorem endsNumber_cons {c : Char} (h : c.isDigit = false ∧ c ≠ '.' ∧ c ≠ 'e' ∧ c ≠ 'E') (cs : List Char) :
    EndsNumber (c :: cs) := by
  intro x hx
  cases hx
  exact h

theorem EndsNumber.start {p cs : List Char} (h : EndsNumber cs) (hp : p <+: cs) : EndsNumber p := by
  obtain ⟨rest, rfl⟩ := hp
  cases p with
  | nil => exact endsNumber_nil
  | cons c p => exact endsNumber_cons (h c rfl) p

theorem EndsNumber.endsDigits {cs : List Char} (h : EndsNumber cs) : EndsDigits cs := fun c hc => (h c hc).1

theorem Digits.isDigit_head (ds : Digits) {c : Char} {cs : List Char} (h : ds.text = c :: cs) : c.isDigit = true :=
  ds.isDigit c (by rw [h]; exact List.mem_cons_self)

namespace Numeral

theorem spanDigits_append {ds rest : List Char} (hds : ∀ c ∈ ds, c.isDigit = true) (hrest : EndsDigits rest) :
    spanDigits (ds ++ rest) = (ds, rest) := by
  have hstop : rest.takeWhile Char.isDigit = [] ∧ rest.dropWhile Char.isDigit = rest := by
    cases rest with
    | nil => exact ⟨rfl, rfl⟩
    | cons c cs => simp [hrest c rfl]
  rw [spanDigits, List.takeWhile_append_of_pos hds, List.dropWhile_append_of_pos hds, hstop.1, hstop.2, List.append_nil]

theorem scanSomeDigits_append (ds : Digits) {rest : List Char} (hrest : EndsDigits rest) :
    scanSomeDigits (ds.text ++ rest) = .ok (ds.text, rest) := by
  rw [scanSomeDigits, spanDigits_append ds.isDigit hrest]
  exact if_neg ds.text_ne

/-- digits before the point, where a zero stands alone -/
theorem scanDigits_append (ds : Digits) (hzero : ds.text.head? = some '0' → ds.text = ['0']) {rest : List Char}
    (hrest : EndsDigits rest) : scanDigits (ds.text ++ rest) = .ok (ds.text, rest) := by
  have hlead : ¬ (1 < ds.text.length ∧ ds.text.head? = some '0') := by
    intro h
    rw [hzero h.2] at h
    exact absurd h.1 (by decide)
  rw [scanDigits, scanSomeDigits_append ds hrest]
  exact if_neg hlead

theorem scanExponent_append (e : Exponent) {rest : List Char} (hrest : EndsDigits rest) :
    scanExponent (e.text ++ rest) = .ok (some (e.sign.getD false, e.digits.text), rest) := by
  have hsign : scanSign ((e.sign.map fun minus => if minus then '-' else '+').toList ++ (e.digits.text ++ rest)) =
      (e.sign.getD false, e.digits.text ++ rest) := by
    cases he : e.sign with
    | none =>
      obtain ⟨d, ds, hds⟩ := List.exists_cons_of_ne_nil e.digits.text_ne
      have hdigit := e.digits.isDigit_head hds
      rw [hds, Option.map_none, Option.toList_none, List.nil_append, List.cons_append, scanSign.eq_def]
      split
      · exact absurd hdigit (by simp_all)
      · exact absurd hdigit (by simp_all)
      · rfl
    | some minus => cases minus <;> rfl
  have hletter : (if e.capital then 'E' else 'e') = 'e' ∨ (if e.capital then 'E' else 'e') = 'E' := by
    cases e.capital <;> simp
  simp only [Exponent.text, List.cons_append, List.append_assoc, scanExponent, hletter, if_true, hsign,
    scanSomeDigits_append e.digits hrest, bind, Except.bind, pure, Except.pure]

theorem endsDigits_exponentText (n : Number) {rest : List Char} (hrest : EndsNumber rest) :
    EndsDigits (n.exponentText ++ rest) := by
  unfold Number.exponentText
  cases n.exponent with
  | none => exact hrest.endsDigits
  | some e =>
    intro c hc
    cases hc
    cases e.capital <;> decide

theorem scanExponent_number (n : Number) {rest : List Char} (hrest : EndsNumber rest) :
    scanExponent (n.exponentText ++ rest) = .ok (n.numeral.exponent, rest) := by
  unfold Number.exponentText Number.numeral
  cases n.exponent with
  | none =>
    cases rest with
    | nil => rfl
    | cons c cs =>
      obtain ⟨-, -, he, hE⟩ := hrest c rfl
      exact if_neg (not_or.2 ⟨he, hE⟩)
  | some e => exact scanExponent_append e hrest.endsDigits

theorem scanFraction_number (n : Number) {rest : List Char} (hrest : EndsNumber rest) :
    scanFraction (n.fractionText ++ (n.exponentText ++ rest)) =
      .ok (n.numeral.fraction, n.exponentText ++ rest) := by
  have htail := endsDigits_exponentText n hrest
  unfold Number.fractionText Number.numeral
  cases n.fraction with
  | none =>
    have hpoint : ∀ cs, n.exponentText ++ rest ≠ '.' :: cs := by
      intro cs hcs
      unfold Number.exponentText at hcs
      cases he : n.exponent with
      | none =>
        rw [he] at hcs
        exact (hrest '.' (by rw [show rest = '.' :: cs from hcs]; rfl)).2.1 rfl
      | some e =>
        rw [he] at hcs
        simp only [Option.map_some, Option.getD_some, Exponent.text, List.cons_append, List.cons.injEq] at hcs
        exact absurd hcs.1 (by cases e.capital <;> decide)
    rw [Option.map_none, Option.getD_none, List.nil_append, scanFraction.eq_def]
    split
    · rename_i h
      exact absurd h (hpoint _)
    · rfl
  | some ds => exact scanSomeDigits_append ds htail

theorem endsDigits_fractionText (n : Number) {rest : List Char} (hrest : EndsNumber rest) :
    EndsDigits (n.fractionText ++ (n.exponentText ++ rest)) := by
  unfold Number.fractionText
  cases n.fraction with
  | none => exact endsDigits_exponentText n hrest
  | some ds =>
    intro c hc
    cases hc
    decide

theorem scanUnsigned_number (n : Number) {rest : List Char} (hrest : EndsNumber rest) :
    scanUnsigned n.negative (n.unsignedText ++ rest) = .ok (n.numeral, rest) := by
  rw [scanUnsigned, Number.unsignedText, List.append_assoc, List.append_assoc,
    scanDigits_append n.whole n.whole_zero (endsDigits_fractionText n hrest)]
  simp only [bind, Except.bind, scanFraction_number n hrest, scanExponent_number n hrest]
  rfl

/-- a number is read up to what ends it -/
theorem scan_number (n : Number) {rest : List Char} (hrest : EndsNumber rest) :
    scan (n.text ++ rest) = .ok (n.numeral, rest) := by
  have hunsigned := scanUnsigned_number n hrest
  unfold Number.text
  cases hn : n.negative with
  | true =>
    rw [hn] at hunsigned
    exact hunsigned
  | false =>
    rw [hn] at hunsigned
    obtain ⟨d, ds, hds⟩ := List.exists_cons_of_ne_nil n.whole.text_ne
    have hdigit := n.whole.isDigit_head hds
    rw [if_neg (by decide), ← hunsigned, scan.eq_def]
    split
    · rename_i h
      rw [Number.unsignedText, hds] at h
      cases h
      exact absurd hdigit (by decide)
    · rfl

end Numeral

/-! ## Lexemes -/

inductive Lexeme where
  | openBrace
  | closeBrace
  | openBracket
  | closeBracket
  | comma
  | colon
  | null
  | bool (b : Bool)
  | number (n : Number)
  | string (l : Literal)

namespace Lexeme

def text : Lexeme → List Char
  | openBrace => ['\x7b']
  | closeBrace => ['\x7d']
  | openBracket => ['[']
  | closeBracket => [']']
  | comma => [',']
  | colon => [':']
  | null => ['n', 'u', 'l', 'l']
  | bool true => ['t', 'r', 'u', 'e']
  | bool false => ['f', 'a', 'l', 's', 'e']
  | number n => n.text
  | string l => l.text

def token : Lexeme → Token
  | openBrace => .openBrace
  | closeBrace => .closeBrace
  | openBracket => .openBracket
  | closeBracket => .closeBracket
  | comma => .comma
  | colon => .colon
  | null => .scalar .null
  | bool b => .scalar (.bool b)
  | number n => .scalar (.number (.ok n.numeral))
  | string l => .scalar (.string l.quoted)

/-- a bracket, a comma or a colon -/
def IsMark : Lexeme → Prop
  | openBrace | closeBrace | openBracket | closeBracket | comma | colon => True
  | null | bool _ | number _ | string _ => False

def IsNumber : Lexeme → Prop
  | number _ => True
  | _ => False

end Lexeme

theorem tokens_literal (l : Literal) (rest : List Char) :
    tokens (l.text ++ rest) = .scalar (.string l.quoted) :: tokens rest := by
  have hscan : Token.scalar? '"' (l.body ++ '"' :: rest) = some (.string l.quoted, rest) := by
    rw [Token.scalar?, if_pos rfl, Quoted.scan_literal]
  have htext : l.text ++ rest = '"' :: (l.body ++ '"' :: rest) := by simp [Literal.text]
  rw [htext, tokens_scalar (by decide) hscan]

theorem Number.exists_cons (n : Number) : ∃ c cs, n.text = c :: cs ∧ (c = '-' ∨ c.isDigit = true) := by
  unfold Number.text
  split
  · exact ⟨'-', _, rfl, .inl rfl⟩
  · obtain ⟨d, ds, hds⟩ := List.exists_cons_of_ne_nil n.whole.text_ne
    exact ⟨d, ds ++ (n.fractionText ++ n.exponentText), by rw [Number.unsignedText, hds]; rfl,
      .inr (n.whole.isDigit_head hds)⟩

theorem tokens_number (n : Number) {rest : List Char} (hrest : EndsNumber rest) :
    tokens (n.text ++ rest) = .scalar (.number (.ok n.numeral)) :: tokens rest := by
  have hscan := Numeral.scan_number n hrest
  obtain ⟨c, cs, htext, hc⟩ := n.exists_cons
  have hother : ∀ x : Char, x ≠ '-' → x.isDigit = false → c ≠ x := by
    intro x hminus hx hcx
    subst hcx
    exact hc.elim hminus fun h => by rw [hx] at h; cases h
  rw [htext, List.cons_append] at hscan ⊢
  apply tokens_scalar
  · simp [Token.isBlank, hother]
  · simp only [Token.scalar?, hother '"' (by decide) (by decide), hother 'n' (by decide) (by decide),
      hother 't' (by decide) (by decide), hother 'f' (by decide) (by decide), hc, if_false, if_true, Token.number,
      hscan]

/-- a character that begins no value is a token by itself -/
theorem tokens_mark {c : Char} (h : c ∈ ['\x7b', '\x7d', '[', ']', ',', ':']) (cs : List Char) :
    tokens (c :: cs) = Token.punctuation c :: tokens cs := by
  have hnone : Token.isBlank c = false ∧ c ≠ '"' ∧ c ≠ 'n' ∧ c ≠ 't' ∧ c ≠ 'f' ∧ ¬ (c = '-' ∨ c.isDigit) := by
    simp only [List.mem_cons, List.not_mem_nil, or_false] at h
    rcases h with rfl | rfl | rfl | rfl | rfl | rfl <;> decide
  obtain ⟨hblank, hquote, hn, ht, hf, hdigit⟩ := hnone
  apply tokens_punctuation hblank
  simp only [Token.scalar?, hquote, hn, ht, hf, hdigit, if_false]

/-- a lexeme is read as its token -/
theorem tokens_lexeme (l : Lexeme) {rest : List Char} (hrest : l.IsNumber → EndsNumber rest) :
    tokens (l.text ++ rest) = l.token :: tokens rest := by
  cases l with
  | number n => exact tokens_number n (hrest trivial)
  | string l => exact tokens_literal l rest
  | null => exact tokens_scalar (by decide) (by rfl)
  | bool b => cases b <;> exact tokens_scalar (by decide) (by rfl)
  | _ => exact tokens_mark (by decide) rest

/-! ## Texts with blanks -/

/-- space, tab and the two characters of line breaks -/
def blankChars : List Char := [' ', '\t', '\n', '\r']

def Blanks (cs : List Char) : Prop := ∀ c ∈ cs, c ∈ blankChars

instance (cs : List Char) : Decidable (Blanks cs) := List.decidableBAll (· ∈ blankChars) cs

theorem forall_blankChars {P : Char → Prop} (h : P ' ' ∧ P '\t' ∧ P '\n' ∧ P '\r') : ∀ c ∈ blankChars, P c := by
  simpa [blankChars] using h

/-- a row of lexemes, with any blanks before each -/
inductive Spaced : List Lexeme → List Char → Prop
  | nil : Spaced [] []
  | cons {blanks cs : List Char} {ls : List Lexeme} (hblanks : Blanks blanks) (l : Lexeme) (hrest : Spaced ls cs) :
      Spaced (l :: ls) (blanks ++ (l.text ++ cs))

/-- whether a text is a row of lexemes, with any blanks before each -/
def isSpaced : List Lexeme → List Char → Bool
  | [], cs => cs.isEmpty
  | l :: ls, cs =>
    let rest := cs.dropWhile (· ∈ blankChars)
    l.text.isPrefixOf rest && isSpaced ls (rest.drop l.text.length)

/-- a mark follows each number -/
def Separated (ls : List Lexeme) : Prop := List.IsChain (fun l next => l.IsNumber → next.IsMark) ls

theorem Blanks.isBlank {cs : List Char} (h : Blanks cs) : ∀ c ∈ cs, Token.isBlank c = true := by
  intro c hc
  exact forall_blankChars (P := (Token.isBlank · = true)) (by decide) c (h c hc)

theorem tokens_blanks {blanks : List Char} (h : Blanks blanks) (cs : List Char) :
    tokens (blanks ++ cs) = tokens cs := by
  have hblank := h.isBlank
  clear h
  induction blanks with
  | nil => rfl
  | cons b blanks ih =>
    rw [List.cons_append, tokens_blank _ (hblank b List.mem_cons_self)]
    exact ih fun c hc => hblank c (List.mem_cons_of_mem b hc)

theorem endsNumber_blanks {blanks cs : List Char} (h : Blanks blanks) (hcs : EndsNumber cs) :
    EndsNumber (blanks ++ cs) := by
  cases blanks with
  | nil => exact hcs
  | cons b blanks =>
    have hall : ∀ b ∈ blankChars, b.isDigit = false ∧ b ≠ '.' ∧ b ≠ 'e' ∧ b ≠ 'E' := forall_blankChars (by decide)
    exact endsNumber_cons (hall b (h b List.mem_cons_self)) (blanks ++ cs)

theorem Lexeme.IsMark.endsNumber {l : Lexeme} (h : l.IsMark) (cs : List Char) : EndsNumber (l.text ++ cs) := by
  cases l with
  | null | bool | number | string => exact h.elim
  | _ => exact endsNumber_cons (by decide) cs

/-- no lexeme begins with a blank -/
theorem Lexeme.exists_cons (l : Lexeme) : ∃ c cs, l.text = c :: cs ∧ c ∉ blankChars := by
  cases l with
  | number n =>
    obtain ⟨c, cs, htext, hc⟩ := n.exists_cons
    refine ⟨c, cs, htext, ?_⟩
    intro hmem
    have hall : ∀ c ∈ blankChars, ¬ (c = '-' ∨ c.isDigit = true) := forall_blankChars (by decide)
    exact hall c hmem hc
  | bool b => cases b <;> exact ⟨_, _, rfl, by decide⟩
  | _ => exact ⟨_, _, rfl, by decide⟩

theorem isSpaced_iff {ls : List Lexeme} {cs : List Char} : isSpaced ls cs = true ↔ Spaced ls cs := by
  constructor
  · intro h
    induction ls generalizing cs with
    | nil =>
      rw [isSpaced, List.isEmpty_iff] at h
      rw [h]
      exact .nil
    | cons l ls ih =>
      simp only [isSpaced, Bool.and_eq_true, List.isPrefixOf_iff_prefix] at h
      obtain ⟨⟨rest, hrest⟩, htail⟩ := h
      rw [← hrest, List.drop_left] at htail
      rw [← List.takeWhile_append_dropWhile (p := (· ∈ blankChars)) (l := cs), ← hrest]
      refine .cons ?_ l (ih htail)
      intro c hc
      simpa using List.mem_takeWhile_imp hc
  · intro h
    induction h with
    | nil => rfl
    | @cons blanks cs ls hblanks l _ ih =>
      obtain ⟨c, tail, htext, hc⟩ := l.exists_cons
      have hdrop : (blanks ++ (l.text ++ cs)).dropWhile (· ∈ blankChars) = l.text ++ cs := by
        rw [List.dropWhile_append_of_pos fun c hc => decide_eq_true (hblanks c hc), htext, List.cons_append,
          List.dropWhile_cons_of_neg (by simpa using hc)]
      simp only [isSpaced, hdrop, List.drop_left, ih, Bool.and_true, List.isPrefixOf_iff_prefix]
      exact List.prefix_append l.text cs

instance (ls : List Lexeme) (cs : List Char) : Decidable (Spaced ls cs) := decidable_of_iff _ isSpaced_iff

namespace Spaced

variable {ls ms : List Lexeme} {cs ds : List Char}

theorem append (h : Spaced ls cs) (h' : Spaced ms ds) : Spaced (ls ++ ms) (cs ++ ds) := by
  induction h with
  | nil => exact h'
  | cons hblanks l hrest ih =>
    rw [List.append_assoc, List.append_assoc]
    exact .cons hblanks l ih

/-- a number is ended by the lexemes after it, or by what follows if there are none -/
theorem endsNumber {l : Lexeme} (h : Spaced ls cs) (hsep : Separated (l :: ls)) (hl : l.IsNumber) {rest : List Char}
    (hrest : ls = [] → EndsNumber rest) : EndsNumber (cs ++ rest) := by
  cases h with
  | nil => exact hrest rfl
  | cons hblanks m hms =>
    have hmark : m.IsMark := (List.isChain_cons_cons.1 hsep).1 hl
    rw [List.append_assoc, List.append_assoc]
    exact endsNumber_blanks hblanks (hmark.endsNumber _)

end Spaced

/-- **Tokens of a text.** A text is cut into the tokens of its lexemes, whatever blanks stand between them, and what
follows it into its own. -/
theorem tokens_spaced {ls : List Lexeme} {cs : List Char} (h : Spaced ls cs) (hsep : Separated ls) {rest : List Char}
    (hrest : ∀ l ∈ ls.getLast?, l.IsNumber → EndsNumber rest) :
    tokens (cs ++ rest) = ls.map Lexeme.token ++ tokens rest := by
  induction h with
  | nil => rfl
  | @cons blanks cs ls hblanks l hls ih =>
    have hend : l.IsNumber → EndsNumber (cs ++ rest) := by
      intro hl
      apply hls.endsNumber hsep hl
      intro hnil
      subst hnil
      exact hrest l rfl hl
    have hlast : ∀ m ∈ ls.getLast?, m.IsNumber → EndsNumber rest := by
      intro m hm
      apply hrest m
      rw [List.getLast?_cons, hm]
      rfl
    rw [List.append_assoc, List.append_assoc, tokens_blanks hblanks, tokens_lexeme l hend, ih hsep.tail hlast]
    rfl

end ResourceQuery.Json
