/-
From texts to readings.

A text is cut into tokens, and the tokens are put together one by one. The assembly holds the brackets that are open,
the innermost first, and what is due next; a token that does not fit ends it, and so does the end of the text. Whatever
was read by then becomes the reading, with the fault at the place that was due.
-/
import ResourceQuery.Json.Reading

namespace ResourceQuery.Json

/-! ## Tokens -/

inductive Token where
  | openBrace
  | closeBrace
  | openBracket
  | closeBracket
  | comma
  | colon
  /-- a value without parts -/
  | scalar (r : Reading)
  /-- a character that starts no token -/
  | stray
deriving Inhabited

namespace Token

def isBlank (c : Char) : Bool := c = ' ' || c = '\n' || c = '\t' || c = '\r'

/-- The literal `word`, of which the first letter was just read. After a fault nothing follows. -/
def literal (r : Reading) : (word cs : List Char) → Reading × List Char
  | [], cs => (r, cs)
  | _ :: _, [] => (.broken .ended, [])
  | w :: word, c :: cs => if c = w then literal r word cs else (.broken .malformed, [])

/-- a number that starts with the character `c`, and what follows it -/
def number (c : Char) (cs : List Char) : Reading × List Char :=
  match Numeral.scan (c :: cs) with
  | .ok (n, rest) => (.number (.ok n), rest)
  | .error f => (.number (.error f), [])

/-- a value without parts that starts with the character `c`, and what follows it -/
def scalar? (c : Char) (cs : List Char) : Option (Reading × List Char) :=
  if c = '"' then
    let (q, rest) := Quoted.scan cs
    some (.string q, rest)
  else if c = 'n' then some (literal .null ['u', 'l', 'l'] cs)
  else if c = 't' then some (literal (.bool true) ['r', 'u', 'e'] cs)
  else if c = 'f' then some (literal (.bool false) ['a', 'l', 's', 'e'] cs)
  else if c = '-' ∨ c.isDigit then some (number c cs)
  else none

/-- a token of one character -/
def punctuation (c : Char) : Token :=
  match c with
  | '\x7b' => openBrace
  | '\x7d' => closeBrace
  | '[' => openBracket
  | ']' => closeBracket
  | ',' => comma
  | ':' => colon
  | _ => stray

theorem length_literal_le (r : Reading) (word cs : List Char) : (literal r word cs).2.length ≤ cs.length := by
  induction word generalizing cs with
  | nil => simp [literal]
  | cons w word ih =>
    cases cs with
    | nil => simp [literal]
    | cons c cs =>
      unfold literal
      split
      · have := ih cs
        simp only [List.length_cons]
        omega
      · simp

theorem length_number_le (c : Char) (cs : List Char) : (number c cs).2.length ≤ cs.length := by
  unfold number
  split
  · rename_i h
    have := Numeral.length_scan h
    simp only [List.length_cons] at this ⊢
    omega
  · simp

theorem length_scalar? {c : Char} {cs rest : List Char} {r : Reading} (h : scalar? c cs = some (r, rest)) :
    rest.length ≤ cs.length := by
  unfold scalar? at h
  have hq := Quoted.length_scan_le cs
  have hl := fun r word => length_literal_le r word cs
  have hn := length_number_le c cs
  grind

end Token

/-- the tokens of a text, up to the first fault inside one -/
def tokens : List Char → List Token
  | [] => []
  | c :: cs =>
    if Token.isBlank c then tokens cs
    else
      match _h : Token.scalar? c cs with
      | some (r, rest) => .scalar r :: tokens rest
      | none => Token.punctuation c :: tokens cs
termination_by cs => cs.length
decreasing_by
  · simp
  · have := Token.length_scalar? _h
    simp only [List.length_cons]
    omega
  · simp

theorem tokens_nil : tokens [] = [] := by rw [tokens]

theorem tokens_blank {c : Char} (cs : List Char) (h : Token.isBlank c = true) : tokens (c :: cs) = tokens cs := by
  rw [tokens, if_pos h]

theorem tokens_scalar {c : Char} {cs rest : List Char} {r : Reading} (hb : Token.isBlank c = false)
    (h : Token.scalar? c cs = some (r, rest)) : tokens (c :: cs) = .scalar r :: tokens rest := by
  rw [tokens, if_neg (by simp [hb])]
  split
  · rename_i hs
    rw [h] at hs
    cases hs
    rfl
  · simp_all

theorem tokens_punctuation {c : Char} {cs : List Char} (hb : Token.isBlank c = false)
    (h : Token.scalar? c cs = none) : tokens (c :: cs) = Token.punctuation c :: tokens cs := by
  rw [tokens, if_neg (by simp [hb])]
  split
  · simp_all
  · rfl

/-! ## Assembly -/

/-- a reading, and whether something follows it in the text -/
structure Document where
  reading : Reading
  followed : Bool := false
deriving Inhabited

/-- an open bracket that waits for a value, with what was read before, newest first -/
inductive Frame where
  | array (items : List Reading)
  | object (members : List (Quoted × Reading)) (key : Quoted)

/-- what was read so far, and what is due next; `frames` are the open brackets around it, innermost first -/
inductive Assembly where
  | value (frames : List Frame)
  /-- a value, or the bracket that closes an empty array -/
  | firstItem (frames : List Frame)
  /-- a comma or a closing bracket -/
  | moreItems (items : List Reading) (frames : List Frame)
  /-- a key, or the brace that closes an empty object -/
  | firstKey (frames : List Frame)
  | nextKey (members : List (Quoted × Reading)) (frames : List Frame)
  | colon (members : List (Quoted × Reading)) (key : Quoted) (frames : List Frame)
  /-- a comma or a closing brace -/
  | moreMembers (members : List (Quoted × Reading)) (frames : List Frame)
  /-- nothing: the value is complete -/
  | whole (r : Reading)
  /-- nothing: a fault was met -/
  | halted (d : Document)

namespace Assembly

/-- a reading inside the brackets that were open around it -/
def enclose (r : Reading) : List Frame → Reading
  | [] => r
  | .array items :: frames => enclose (.array (r :: items).reverse none) frames
  | .object members key :: frames => enclose (.object ((key, r) :: members).reverse none) frames

/-- ends with a reading that holds a fault -/
def stop (r : Reading) (frames : List Frame) : Assembly := halted ⟨enclose r frames, false⟩

/-- goes on after a complete value -/
def put (r : Reading) : List Frame → Assembly
  | [] => whole r
  | .array before :: frames => moreItems (r :: before) frames
  | .object before key :: frames => moreMembers ((key, r) :: before) frames

/-- a token where a value is due -/
def onValue (frames : List Frame) : Token → Assembly
  | .scalar r => put r frames
  | .openBracket => firstItem frames
  | .openBrace => firstKey frames
  | _ => stop (.missing .malformed) frames

/-- an object that ends in a fault at the place of a key -/
def withoutKey (before : List (Quoted × Reading)) (f : Fault) : Reading :=
  .object ((.missing f, .missing f) :: before).reverse none

/-- a token where a key is due -/
def onKey (before : List (Quoted × Reading)) (frames : List Frame) : Token → Assembly
  | .scalar (.string q) => colon before q frames
  | _ => stop (withoutKey before .malformed) frames

/-- the assembly after one more token -/
def step : Assembly → Token → Assembly
  | value frames, t => onValue frames t
  | firstItem frames, .closeBracket => put (.array [] none) frames
  | firstItem frames, t => onValue (.array [] :: frames) t
  | moreItems before frames, .comma => value (.array before :: frames)
  | moreItems before frames, .closeBracket => put (.array before.reverse none) frames
  | moreItems before frames, _ => stop (.array before.reverse (some .malformed)) frames
  | firstKey frames, .closeBrace => put (.object [] none) frames
  | firstKey frames, t => onKey [] frames t
  | nextKey before frames, t => onKey before frames t
  | colon before k frames, .colon => value (.object before k :: frames)
  | colon before k frames, _ => stop (.missing .malformed) (.object before k :: frames)
  | moreMembers before frames, .comma => nextKey before frames
  | moreMembers before frames, .closeBrace => put (.object before.reverse none) frames
  | moreMembers before frames, _ => stop (.object before.reverse (some .malformed)) frames
  | whole r, _ => halted ⟨r, true⟩
  | halted d, _ => halted d

/-- the document, when the text ends -/
def finish : Assembly → Document
  | value frames => ⟨enclose (.missing .ended) frames, false⟩
  | firstItem frames => ⟨enclose (.missing .ended) (.array [] :: frames), false⟩
  | moreItems before frames => ⟨enclose (.array before.reverse (some .ended)) frames, false⟩
  | firstKey frames => ⟨enclose (withoutKey [] .ended) frames, false⟩
  | nextKey before frames => ⟨enclose (withoutKey before .ended) frames, false⟩
  | colon before k frames => ⟨enclose (.missing .ended) (.object before k :: frames), false⟩
  | moreMembers before frames => ⟨enclose (.object before.reverse (some .ended)) frames, false⟩
  | whole r => ⟨r, false⟩
  | halted d => d

def run (a : Assembly) (ts : List Token) : Assembly := ts.foldl step a

@[simp] theorem run_halted (d : Document) (ts : List Token) : (halted d).run ts = halted d := by
  induction ts with
  | nil => rfl
  | cons t ts ih => exact ih

end Assembly

/-- a text as it is read -/
def Document.ofText (text : String) : Document := ((Assembly.value []).run (tokens text.toList)).finish

end ResourceQuery.Json
