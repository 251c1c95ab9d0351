/-
Documents whose text is cut, or goes on.

A text that is cut somewhere inside a document is cut inside one of its lexemes, or right before it. What is read of it
agrees with the reading of the document up to the cut: every item and member before it is there, and where the text ends
something is missing, or a string has no closing quote, or an array or object is not closed. Only a number can be cut
without a trace, since its first digits are a number too; but then the text ends before its brackets are closed. If
more than blanks follow a document, that is noticed after the whole document was read.

Results:
- `cutTokens_start`: a text that is cut has the tokens of its lexemes up to the one that is cut.
- `stopsIn_lexemes`: from such tokens a reading is assembled that is cut at the same place.
- `ofText_start`: so what is read of the start of a document is the reading of the document, cut.
- `ofText_followed`: what follows the text of a document is noticed.
-/
import ResourceQuery.Proofs.WrittenText

namespace ResourceQuery.Json

/-! ## Cut readings -/

/-- the start of a string, of which the text ends before its closing quote -/
structure Quoted.Cut (q q' : Quoted) : Prop where
  closed : q.fault = none
  ended : q'.fault = some .ended
  pieces : q'.pieces <+: q.pieces

/-- the first digits of a natural number, as a number -/
inductive Shortened : Reading → Reading → Prop
  | number {ds ds' : List Char} (h : ds' <+: ds) :
      Shortened (.number (.ok ⟨false, ds, [], none⟩)) (.number (.ok ⟨false, ds', [], none⟩))

/-- What is read of a value whose text ends inside it. Whatever is read before the cut is as it was, and after the cut
nothing is read; `fault` and the value after a key that is cut are not looked at. -/
inductive Cut : Reading → Reading → Prop
  | missing (r : Reading) : Cut r (.missing .ended)
  | string {q q' : Quoted} (h : q.Cut q') : Cut (.string q) (.string q')
  | openArray : Cut (.array [] none) (.array [.missing .ended] none)
  | item {before after : List Reading} {r r' : Reading} {fault : Option Fault} (h : Cut r r') :
      Cut (.array (before ++ r :: after) none) (.array (before ++ [r']) fault)
  | shortItem {before after : List Reading} {r r' : Reading} (h : Shortened r r') :
      Cut (.array (before ++ r :: after) none) (.array (before ++ [r']) (some .ended))
  | afterItems {before after : List Reading} : Cut (.array (before ++ after) none) (.array before (some .ended))
  | openObject : Cut (.object [] none) (.object [(.missing .ended, .missing .ended)] none)
  | key {before after : List (Quoted × Reading)} {q q' : Quoted} {r r' : Reading} (h : q.Cut q') :
      Cut (.object (before ++ (q, r) :: after) none) (.object (before ++ [(q', r')]) none)
  | value {before after : List (Quoted × Reading)} {q : Quoted} {r r' : Reading} {fault : Option Fault} (h : Cut r r') :
      Cut (.object (before ++ (q, r) :: after) none) (.object (before ++ [(q, r')]) fault)
  | shortValue {before after : List (Quoted × Reading)} {q : Quoted} {r r' : Reading} (h : Shortened r r') :
      Cut (.object (before ++ (q, r) :: after) none) (.object (before ++ [(q, r')]) (some .ended))
  | afterMembers {before after : List (Quoted × Reading)} :
      Cut (.object (before ++ after) none) (.object before (some .ended))

/-! ## Cut lexemes -/

/-- the start of an append ends in its first part, or goes on in its second -/
theorem prefix_append_cases {α : Type} {p xs ys : List α} (h : p <+: xs ++ ys) :
    (p <+: xs ∧ p ≠ xs) ∨ ∃ q, p = xs ++ q ∧ q <+: ys := by
  obtain ⟨rest, hrest⟩ := h
  rcases List.append_eq_append_iff.1 hrest with ⟨q, hxs, hq⟩ | ⟨q, hp, hys⟩
  · by_cases hnil : q = []
    · refine .inr ⟨[], ?_, List.nil_prefix⟩
      rw [hxs, hnil, List.append_nil, List.append_nil]
    · refine .inl ⟨⟨q, hxs.symm⟩, ?_⟩
      intro hp
      rw [hp] at hxs
      exact hnil (List.self_eq_append_right.1 hxs)
  · exact .inr ⟨q, hp, rest, hys.symm⟩

/-- the start of one character is nothing -/
theorem eq_nil_of_singleton {α : Type} {p : List α} {x : α} (h : p <+: [x]) (hne : p ≠ [x]) : p = [] := by
  obtain rfl | ⟨_, rfl, htail⟩ := List.prefix_cons_iff.1 h
  · rfl
  · rw [List.prefix_nil.1 htail] at hne
    exact absurd rfl hne

theorem utf8Size_hexDigit (d : HexDigit) : d.char.utf8Size = 1 := by
  have hall : ∀ (v : Fin 16) (capital : Bool), (HexDigit.char ⟨v, capital⟩).utf8Size = 1 := by decide
  exact hall d.value d.capital

namespace Quoted

/-- nothing is read of a glyph that is cut -/
theorem scan_start_glyph {g : Glyph} {q : List Char} (hq : q <+: g.text) (hne : q ≠ g.text) :
    scan q = (⟨[], some .ended⟩, []) := by
  cases g with
  | plain c h =>
    rw [eq_nil_of_singleton hq hne]
    rfl
  | letter l c h =>
    simp only [Glyph.text, List.prefix_cons_iff, List.prefix_nil] at hq hne
    obtain rfl | ⟨_, rfl, rfl | ⟨_, rfl, rfl⟩⟩ := hq
    · rfl
    · rfl
    · exact absurd rfl hne
  | unit a b c d =>
    -- after the letter the text ends too early while fewer than four bytes are left
    simp only [Glyph.text, List.prefix_cons_iff, List.prefix_nil] at hq hne
    obtain rfl | ⟨_, rfl, rfl | ⟨_, rfl, rfl | ⟨_, rfl, rfl | ⟨_, rfl, rfl | ⟨_, rfl, rfl | ⟨_, rfl, rfl⟩⟩⟩⟩⟩⟩ := hq
    · rfl
    · rfl
    · rfl
    · simp [scan, unitDue, utf8Size_hexDigit]
    · simp [scan, unitDue, utf8Size_hexDigit]
    · simp [scan, unitDue, utf8Size_hexDigit]
    · exact absurd rfl hne

/-- a literal that is cut is read as some of its pieces, and ends there -/
theorem scan_start (l : Literal) {q : List Char} (hq : q <+: l.body) :
    ∃ ps, ps <+: l.map Glyph.piece ∧ scan q = (⟨ps, some .ended⟩, []) := by
  induction l generalizing q with
  | nil => exact ⟨[], List.nil_prefix, by rw [List.prefix_nil.1 hq]; rfl⟩
  | cons g l ih =>
    have hcases : q <+: g.text ++ Literal.body l := hq
    rcases prefix_append_cases hcases with ⟨hglyph, hne⟩ | ⟨tail, rfl, htail⟩
    · exact ⟨[], List.nil_prefix, scan_start_glyph hglyph hne⟩
    · obtain ⟨ps, hps, hscan⟩ := ih htail
      refine ⟨g.piece :: ps, List.prefix_cons_inj g.piece |>.2 hps, ?_⟩
      rw [scan_glyph, hscan]
      rfl

end Quoted

/-- nothing is read of a literal that is cut before its quote, or else a string that is cut -/
theorem tokens_start_literal (l : Literal) {q : List Char} (hq : q <+: l.text) (hne : q ≠ l.text) :
    tokens q = [] ∨ ∃ q', l.quoted.Cut q' ∧ tokens q = [.scalar (.string q')] := by
  obtain rfl | ⟨body, rfl, hbody⟩ := List.prefix_cons_iff.1 hq
  · exact .inl tokens_nil
  · have hstart : body <+: l.body := by
      rcases prefix_append_cases hbody with ⟨hstart, -⟩ | ⟨quote, rfl, hquote⟩
      · exact hstart
      · have hnil : quote = [] := by
          apply eq_nil_of_singleton hquote
          intro h
          rw [h] at hne
          exact hne rfl
        exact ⟨[], by rw [hnil, List.append_nil, List.append_nil]⟩
    obtain ⟨ps, hps, hscan⟩ := Quoted.scan_start l hstart
    refine .inr ⟨⟨ps, some .ended⟩, ⟨rfl, rfl, hps⟩, ?_⟩
    have hscalar : Token.scalar? '"' body = some (.string ⟨ps, some .ended⟩, []) := by
      rw [Token.scalar?, if_pos rfl, hscan]
    rw [tokens_scalar (by decide) hscalar, tokens_nil]

/-- the first digits of a number are a number -/
theorem tokens_start_number (n : Nat) {q : List Char} (hq : q <+: (Number.ofNat n).text) :
    tokens q = [] ∨ ∃ r, Shortened (.number (.ok (.ofNat n))) r ∧ tokens q = [.scalar r] := by
  rw [text_ofNat] at hq
  by_cases hnil : q = []
  · rw [hnil]
    exact .inl tokens_nil
  · have hzero : q.head? = some '0' → q = ['0'] := by
      intro h
      have hwhole : Nat.toDigits 10 n = ['0'] := by
        have hhead : (Nat.toDigits 10 n).head? = some '0' := by
          obtain ⟨rest, hrest⟩ := hq
          rw [← hrest, List.head?_append_of_ne_nil _ hnil, h]
        have := (Number.ofNat n).whole_zero hhead
        exact this
      rw [hwhole, List.prefix_cons_iff] at hq
      obtain rfl | ⟨tail, rfl, htail⟩ := hq
      · exact absurd rfl hnil
      · rw [List.prefix_nil.1 htail]
    let digits : Number :=
      ⟨false, ⟨q, hnil, fun c hc => isDigit_of_mem_toDigits (hq.subset hc)⟩, hzero, none, none⟩
    have htext : digits.text = q := List.append_nil q
    refine .inr ⟨_, .number hq, ?_⟩
    calc tokens q = tokens (digits.text ++ []) := by rw [htext, List.append_nil]
      _ = .scalar (.number (.ok digits.numeral)) :: tokens [] := tokens_number digits endsNumber_nil
      _ = [.scalar (.number (.ok ⟨false, q, [], none⟩))] := by rw [tokens_nil]; rfl

/-- the tokens of a text that ends inside a lexeme or right before it -/
inductive CutTokens : List Lexeme → List Token → Prop
  | inside {l : Lexeme} {ls : List Lexeme} {q : List Char} (hq : q <+: l.text) (hne : q ≠ l.text) :
      CutTokens (l :: ls) (tokens q)
  | after (l : Lexeme) {ls : List Lexeme} {ts : List Token} (h : CutTokens ls ts) : CutTokens (l :: ls) (l.token :: ts)

namespace CutTokens

/-- A row of lexemes is cut in its first part, or else in its second. -/
theorem append_cases {ls ms : List Lexeme} {ts : List Token} (h : CutTokens (ls ++ ms) ts) :
    CutTokens ls ts ∨ ∃ us, ts = Tree.tokensOf ls ++ us ∧ CutTokens ms us := by
  induction ls generalizing ts with
  | nil => exact .inr ⟨ts, rfl, h⟩
  | cons l ls ih =>
    cases h with
    | inside hq hne => exact .inl (.inside hq hne)
    | after _ h =>
      rcases ih h with hls | ⟨us, rfl, hms⟩
      · exact .inl (.after l hls)
      · exact .inr ⟨us, rfl, hms⟩

/-- nothing is read of a lexeme of one character that is cut -/
theorem mark_cases {l : Lexeme} {c : Char} (hl : l.text = [c]) {ls : List Lexeme} {ts : List Token}
    (h : CutTokens (l :: ls) ts) : ts = [] ∨ ∃ us, ts = l.token :: us ∧ CutTokens ls us := by
  cases h with
  | inside hq hne =>
    rw [hl] at hq hne
    rw [eq_nil_of_singleton hq hne]
    exact .inl tokens_nil
  | after _ h => exact .inr ⟨_, rfl, h⟩

/-- nothing is read of a string that is cut before its quote, or else a string that is cut -/
theorem string_cases {l : Literal} {ls : List Lexeme} {ts : List Token} (h : CutTokens (.string l :: ls) ts) :
    ts = [] ∨ (∃ q', l.quoted.Cut q' ∧ ts = [.scalar (.string q')]) ∨
      ∃ us, ts = .scalar (.string l.quoted) :: us ∧ CutTokens ls us := by
  cases h with
  | inside hq hne =>
    rcases tokens_start_literal l hq hne with hnil | hcut
    · exact .inl hnil
    · exact .inr (.inl hcut)
  | after _ h => exact .inr (.inr ⟨_, rfl, h⟩)

theorem not_nil {ts : List Token} : ¬ CutTokens [] ts := nofun

end CutTokens

/-- A text that is cut has the tokens of its lexemes up to the one that is cut. -/
theorem cutTokens_start {ls : List Lexeme} {cs p : List Char} (h : Spaced ls cs) (hsep : Separated ls)
    (hp : p <+: cs) (hne : p ≠ cs) : CutTokens ls (tokens p) := by
  induction h generalizing p with
  | nil => exact absurd (List.prefix_nil.1 hp) hne
  | @cons blanks cs ls hblanks l hls ih =>
    rcases prefix_append_cases hp with ⟨hstart, -⟩ | ⟨q, rfl, hq⟩
    · have hnone : tokens p = tokens [] := by
        rw [← List.append_nil p, tokens_blanks fun c hc => hblanks c (hstart.subset hc)]
      obtain ⟨c, tail, htext, -⟩ := l.exists_cons
      rw [hnone]
      exact .inside List.nil_prefix (by rw [htext]; exact (List.cons_ne_nil c tail).symm)
    rw [tokens_blanks hblanks]
    rcases prefix_append_cases hq with ⟨hstart, hcut⟩ | ⟨p, rfl, htail⟩
    · exact .inside hstart hcut
    have hcut : p ≠ cs := by
      intro h
      rw [h] at hne
      exact hne rfl
    have hend : l.IsNumber → EndsNumber p := by
      intro hl
      have hcs : EndsNumber (cs ++ []) := hls.endsNumber hsep hl fun _ => endsNumber_nil
      rw [List.append_nil] at hcs
      exact hcs.start htail
    rw [tokens_lexeme l hend]
    exact .after l (ih hsep.tail htail hcut)

/-! ## Assembly -/

open Assembly

/-- An assembly that the text leaves inside a value, which stands for `r` in `frames`: what was read of the value is not
closed, or it is put in its place with nothing after it. -/
inductive StopsIn (r : Reading) (frames : List Frame) (a : Assembly) : Prop
  | enclosed {r' : Reading} (h : Cut r r') (ha : a.finish = ⟨enclose r' frames, false⟩)
  | put {r' : Reading} (h : Cut r r' ∨ Shortened r r') (ha : a = Assembly.put r' frames)

namespace StopsIn

variable {frames : List Frame} {a : Assembly}

/-- an array ends where its item does -/
theorem item {r : Reading} {before : List Reading} (h : StopsIn r (.array before :: frames) a) (after : List Reading) :
    StopsIn (.array (before.reverse ++ r :: after) none) frames a := by
  cases h with
  | @enclosed r' h ha =>
    have hcut : Cut (.array (before.reverse ++ r :: after) none) (.array (before.reverse ++ [r']) none) := .item h
    exact .enclosed hcut (by rw [ha, enclose, List.reverse_cons])
  | put h ha =>
    have hfinish : ∀ r', (Assembly.put r' (.array before :: frames)).finish =
        ⟨enclose (.array (before.reverse ++ [r']) (some .ended)) frames, false⟩ := by
      intro r'
      rw [Assembly.put, finish, List.reverse_cons]
    rcases h with h | h
    · exact .enclosed (.item h) (by rw [ha, hfinish])
    · exact .enclosed (.shortItem h) (by rw [ha, hfinish])

/-- an object ends where the value of its member does -/
theorem value {r : Reading} {before : List (Quoted × Reading)} {q : Quoted}
    (h : StopsIn r (.object before q :: frames) a) (after : List (Quoted × Reading)) :
    StopsIn (.object (before.reverse ++ (q, r) :: after) none) frames a := by
  cases h with
  | @enclosed r' h ha =>
    have hcut : Cut (.object (before.reverse ++ (q, r) :: after) none) (.object (before.reverse ++ [(q, r')]) none) :=
      .value h
    exact .enclosed hcut (by rw [ha, enclose, List.reverse_cons])
  | put h ha =>
    have hfinish : ∀ r', (Assembly.put r' (.object before q :: frames)).finish =
        ⟨enclose (.object (before.reverse ++ [(q, r')]) (some .ended)) frames, false⟩ := by
      intro r'
      rw [Assembly.put, finish, List.reverse_cons]
    rcases h with h | h
    · exact .enclosed (.value h) (by rw [ha, hfinish])
    · exact .enclosed (.shortValue h) (by rw [ha, hfinish])

/-- an object ends where the key of its member does -/
theorem key {before : List (Quoted × Reading)} {q q' : Quoted} {r : Reading} (h : q.Cut q')
    (ha : a.finish = ⟨enclose (.object ((q', .missing .ended) :: before).reverse none) frames, false⟩)
    (after : List (Quoted × Reading)) : StopsIn (.object (before.reverse ++ (q, r) :: after) none) frames a := by
  rw [List.reverse_cons] at ha
  exact .enclosed (.key h) ha

end StopsIn

mutual

/-- From the tokens of a document that is cut a reading is assembled that is cut at the same place. -/
theorem stopsIn_lexemes : ∀ (j : Json) (frames : List Frame) (a : Assembly) (ts : List Token), ValueDue frames a →
    CutTokens j.tree.lexemes ts → StopsIn j.reading frames (a.run ts)
  | .number n, frames, a, ts, ha, hts => by
    cases hts with
    | inside hq _ =>
      rcases tokens_start_number n hq with hnil | ⟨r, hr, htokens⟩
      · rw [hnil]
        exact .enclosed (.missing _) ha.finish
      · rw [htokens]
        exact .put (.inr hr) (ha.scalar r)
    | after _ h => exact absurd h CutTokens.not_nil
  | .string s, frames, a, ts, ha, hts => by
    rw [reading, ← quoted_ofString]
    rcases hts.string_cases with rfl | ⟨q, hq, rfl⟩ | ⟨us, -, h⟩
    · exact .enclosed (.missing _) ha.finish
    · exact .put (.inl (.string hq)) (ha.scalar _)
    · exact absurd h CutTokens.not_nil
  | .array [], frames, a, ts, ha, hts => by
    obtain rfl | ⟨us, rfl, hus⟩ := hts.mark_cases rfl
    · exact .enclosed (.missing _) ha.finish
    obtain rfl | ⟨us, rfl, h⟩ := hus.mark_cases rfl
    · rw [Lexeme.token, run_cons, ha.openBracket]
      exact .enclosed .openArray rfl
    · exact absurd h CutTokens.not_nil
  | .array (item :: items), frames, a, ts, ha, hts => by
    obtain rfl | ⟨us, rfl, hus⟩ := hts.mark_cases rfl
    · exact .enclosed (.missing _) ha.finish
    rw [Lexeme.token, run_cons, ha.openBracket]
    rcases hus.append_cases with hitem | ⟨us, rfl, hitems⟩
    · exact (stopsIn_lexemes item _ _ us (valueDue_firstItem frames) hitem).item (itemReadings items)
    · rw [Tree.run_lexemes _ _ _ us (valueDue_firstItem frames), reading_tree]
      exact stopsIn_itemLexemes items [item.reading] frames us hitems
  | .object [], frames, a, ts, ha, hts => by
    obtain rfl | ⟨us, rfl, hus⟩ := hts.mark_cases rfl
    · exact .enclosed (.missing _) ha.finish
    obtain rfl | ⟨us, rfl, h⟩ := hus.mark_cases rfl
    · rw [Lexeme.token, run_cons, ha.openBrace]
      exact .enclosed .openObject rfl
    · exact absurd h CutTokens.not_nil
  | .object (m :: members), frames, a, ts, ha, hts => by
    obtain rfl | ⟨us, rfl, hus⟩ := hts.mark_cases rfl
    · exact .enclosed (.missing _) ha.finish
    rw [Lexeme.token, run_cons, ha.openBrace]
    rcases hus.append_cases with hmember | ⟨us, rfl, hmembers⟩
    · exact stopsIn_memberLexeme m [] (memberReadings members) frames _ us (keyDue_firstKey frames) hmember
    · rw [Tree.run_memberLexeme _ _ _ _ us (keyDue_firstKey frames), reading_memberTree]
      exact stopsIn_memberLexemes members [memberReading m] frames us hmembers

theorem stopsIn_itemLexemes : ∀ (items : List Json) (before : List Reading) (frames : List Frame) (ts : List Token),
    CutTokens (Tree.itemLexemes (itemTrees items) ++ [.closeBracket]) ts →
      StopsIn (.array (before.reverse ++ itemReadings items) none) frames ((moreItems before frames).run ts)
  | [], before, frames, ts, hts => by
    obtain rfl | ⟨us, -, h⟩ := hts.mark_cases rfl
    · exact .enclosed .afterItems rfl
    · exact absurd h CutTokens.not_nil
  | item :: items, before, frames, ts, hts => by
    rw [itemTrees, Tree.itemLexemes, List.cons_append, List.append_assoc] at hts
    obtain rfl | ⟨us, rfl, hus⟩ := hts.mark_cases rfl
    · exact .enclosed .afterItems rfl
    rw [Lexeme.token, run_cons, step]
    rcases hus.append_cases with hitem | ⟨us, rfl, hitems⟩
    · exact (stopsIn_lexemes item _ _ us (valueDue_value _) hitem).item (itemReadings items)
    · rw [Tree.run_lexemes _ _ _ us (valueDue_value _), reading_tree]
      have h := stopsIn_itemLexemes items (item.reading :: before) frames us hitems
      rwa [List.reverse_cons, List.append_assoc] at h

theorem stopsIn_memberLexemes : ∀ (members : List (String × Json)) (before : List (Quoted × Reading))
    (frames : List Frame) (ts : List Token), CutTokens (Tree.memberLexemes (memberTrees members) ++ [.closeBrace]) ts →
      StopsIn (.object (before.reverse ++ memberReadings members) none) frames ((moreMembers before frames).run ts)
  | [], before, frames, ts, hts => by
    obtain rfl | ⟨us, -, h⟩ := hts.mark_cases rfl
    · exact .enclosed .afterMembers rfl
    · exact absurd h CutTokens.not_nil
  | m :: members, before, frames, ts, hts => by
    rw [memberTrees, Tree.memberLexemes, List.cons_append, List.append_assoc] at hts
    obtain rfl | ⟨us, rfl, hus⟩ := hts.mark_cases rfl
    · exact .enclosed .afterMembers rfl
    rw [Lexeme.token, run_cons, step]
    rcases hus.append_cases with hmember | ⟨us, rfl, hmembers⟩
    · exact stopsIn_memberLexeme m before (memberReadings members) frames _ us (keyDue_nextKey before frames) hmember
    · rw [Tree.run_memberLexeme _ _ _ _ us (keyDue_nextKey before frames), reading_memberTree]
      have h := stopsIn_memberLexemes members (memberReading m :: before) frames us hmembers
      rwa [List.reverse_cons, List.append_assoc] at h

theorem stopsIn_memberLexeme : ∀ (m : String × Json) (before after : List (Quoted × Reading)) (frames : List Frame)
    (a : Assembly) (ts : List Token), KeyDue before frames a → CutTokens (Tree.memberLexeme (memberTree m)) ts →
      StopsIn (.object (before.reverse ++ memberReading m :: after) none) frames (a.run ts)
  | (key, j), before, after, frames, a, ts, ha, hts => by
    rw [memberReading, ← quoted_ofString]
    rcases hts.string_cases with rfl | ⟨q, hq, rfl⟩ | ⟨us, rfl, hus⟩
    · have hnone : (Literal.ofString key).quoted.Cut (.missing .ended) := ⟨rfl, rfl, List.nil_prefix⟩
      exact .key hnone ha.finish after
    · have hcolon : a.run [.scalar (.string q)] = colon before q frames := ha.key q
      exact .key hq (by rw [hcolon]; rfl) after
    rw [run_cons, ha.key]
    obtain rfl | ⟨us, rfl, hvalue⟩ := hus.mark_cases rfl
    · exact (StopsIn.enclosed (.missing j.reading) rfl).value after
    · exact (stopsIn_lexemes j _ _ us (valueDue_value _) hvalue).value after

end

/-- **Text of a document that is cut.** What is read of the start of a document is its reading, cut; but the start of a
number may be a number. -/
theorem ofText_start {layout : Layout} (hl : layout.Blank) (j : Json) {start rest : String}
    (htext : start ++ rest = j.text layout) (hrest : rest ≠ "") :
    ∃ r, (Cut j.reading r ∨ Shortened j.reading r) ∧ Document.ofText start = ⟨r, false⟩ := by
  have hchars : start.toList ++ rest.toList = j.write layout 0 := by
    rw [← String.toList_append, htext, text, String.toList_ofList]
  have hne : start.toList ≠ j.write layout 0 := by
    intro h
    rw [h, List.append_right_eq_self, String.toList_eq_nil_iff] at hchars
    exact hrest hchars
  have htokens := cutTokens_start (spaced_write hl j 0) j.tree.separated_lexemes ⟨_, hchars⟩ hne
  cases stopsIn_lexemes j [] (Assembly.value []) _ (valueDue_value []) htokens with
  | enclosed h ha => exact ⟨_, .inl h, ha⟩
  | put h ha => exact ⟨_, h, by rw [Document.ofText, ha]; rfl⟩

/-! ## Texts that go on -/

/-- a text that is not blank has tokens -/
theorem exists_tokens {cs : List Char} (h : ∃ c ∈ cs, c ∉ blankChars) : ∃ t ts, tokens cs = t :: ts := by
  induction cs with
  | nil =>
    obtain ⟨c, hc, -⟩ := h
    exact absurd hc List.not_mem_nil
  | cons c cs ih =>
    cases hblank : Token.isBlank c with
    | true =>
      have hblanks : Blanks [c] := .of_isBlank (by simpa using hblank)
      have hc := hblanks c List.mem_cons_self
      obtain ⟨x, hx, hother⟩ := h
      obtain rfl | hx := List.mem_cons.1 hx
      · exact absurd hc hother
      rw [tokens_blank cs hblank]
      exact ih ⟨x, hx, hother⟩
    | false =>
      cases hscalar : Token.scalar? c cs with
      | some p => exact ⟨_, _, tokens_scalar hblank hscalar⟩
      | none => exact ⟨_, _, tokens_punctuation hblank hscalar⟩

/-- only the text of a number ends with one -/
theorem last_not_number {j : Json} (hj : ∀ n, j ≠ .number n) : ∀ l ∈ j.tree.lexemes.getLast?, ¬ l.IsNumber := by
  have hmark (ls : List Lexeme) {m : Lexeme} (hm : ¬ m.IsNumber) : ∀ l ∈ (ls ++ [m]).getLast?, ¬ l.IsNumber := by
    intro l hl
    rw [List.getLast?_concat] at hl
    cases hl
    exact hm
  cases j with
  | number n => exact absurd rfl (hj n)
  | string s => exact hmark [] id
  | array items =>
    cases items with
    | nil => exact hmark [.openBracket] id
    | cons item items =>
      have h := hmark (.openBracket :: (item.tree.lexemes ++ Tree.itemLexemes (itemTrees items)))
        (m := .closeBracket) id
      rwa [List.cons_append, List.append_assoc] at h
  | object members =>
    cases members with
    | nil => exact hmark [.openBrace] id
    | cons m members =>
      have h := hmark (.openBrace :: (Tree.memberLexeme (memberTree m) ++ Tree.memberLexemes (memberTrees members)))
        (m := .closeBrace) id
      rwa [List.cons_append, List.append_assoc] at h

/-- **Text that goes on.** What follows the text of a document, other than a number, is noticed. -/
theorem ofText_followed {layout : Layout} (hl : layout.Blank) {j : Json} (hj : ∀ n, j ≠ .number n) {rest : String}
    (hrest : ∃ c ∈ rest.toList, c ∉ blankChars) : Document.ofText (j.text layout ++ rest) = ⟨j.reading, true⟩ := by
  have hchars : (j.text layout ++ rest).toList = j.write layout 0 ++ rest.toList := by
    rw [String.toList_append, text, String.toList_ofList]
  have htokens : tokens (j.write layout 0 ++ rest.toList) = _ :=
    tokens_spaced (spaced_write hl j 0) j.tree.separated_lexemes
      fun l hlast hnumber => absurd hnumber (last_not_number hj l hlast)
  obtain ⟨t, ts, hmore⟩ := exists_tokens hrest
  calc Document.ofText (j.text layout ++ rest)
      = ((Assembly.value []).run (Tree.tokensOf j.tree.lexemes ++ t :: ts)).finish := by
        rw [Document.ofText, hchars, htokens, hmore]
    _ = ((Assembly.whole j.reading).run (t :: ts)).finish := by
        rw [Tree.run_lexemes _ _ _ _ (Assembly.valueDue_value []), reading_tree]
        rfl
    _ = ⟨j.reading, true⟩ := by
        rw [Assembly.run_cons, Assembly.step, Assembly.run_halted]
        rfl

end ResourceQuery.Json
