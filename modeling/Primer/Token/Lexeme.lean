/-
  Primer/Token/Lexeme.lean
  ========================
  **Reading one lexeme.**

  `Lexeme.read` looks at the first character of a text that starts with neither blank
  nor comment and takes the longest lexeme there: a punctuator, an operator of one or
  two characters, a string, a run of digits, a run of letters, or one character that
  starts nothing.  A lexeme's `raw` text and what is left make up the text
  (`read_append`), and `raw` is never empty.
-/
import Primer.Token

namespace Primer

/-! ### Character classes -/

/-- The decimal digits `0` to `9`. -/
def isDigit (c : Char) : Bool := '0' ≤ c && c ≤ '9'

/-- The letters `a` to `z` and `A` to `Z`; words are made of nothing else. -/
def isLetter (c : Char) : Bool := ('a' ≤ c && c ≤ 'z') || ('A' ≤ c && c ≤ 'Z')

/-- The two characters that open, and then close, a string. -/
def isQuote (c : Char) : Bool := c == '"' || c == '\''

/-- The characters that are a token by themselves. -/
def punctuator? : Char → Option TokenKind
  | '+' => some .plus
  | '-' => some .minus
  | '*' => some .asterisk
  | '/' => some .slash
  | ',' => some .comma
  | ':' => some .colon
  | ';' => some .semicolon
  | '(' => some .lparen
  | ')' => some .rparen
  | '\x7b' => some .lbrace
  | '\x7d' => some .rbrace
  | '[' => some .lbracket
  | ']' => some .rbracket
  | _ => none

/-- A character whose meaning depends on the one behind it. -/
structure Pairing where
  /-- the character that makes a pair of it -/
  second : Char
  /-- the kind of the pair -/
  pair : TokenKind
  /-- the kind of the first character when it stands alone -/
  alone : TokenKind

/-- The characters that may start an operator of two characters. -/
def pairing? : Char → Option Pairing
  | '=' => some ⟨'=', .eq, .assign⟩
  | '!' => some ⟨'=', .notEq, .bang⟩
  | '<' => some ⟨'=', .lte, .lt⟩
  | '>' => some ⟨'=', .gte, .gt⟩
  | '&' => some ⟨'&', .and, .illegal⟩
  | '|' => some ⟨'|', .or, .illegal⟩
  | _ => none

/-! ### Lexemes -/

/-- A lexeme cut off the front of a text. -/
structure Lexeme where
  kind : TokenKind
  /-- the text that was cut off -/
  raw : List Char
  /-- the text that the token stands for -/
  literal : List Char
  /-- the text behind it -/
  rest : List Char
deriving Repr

namespace Lexeme

/-- A lexeme that stands for its own text. -/
def plain (kind : TokenKind) (raw rest : List Char) : Lexeme := ⟨kind, raw, raw, rest⟩

/-- A string opened by `quote`: up to the next `quote`, or to the end of the text. -/
def readString (quote : Char) (cs : List Char) : Lexeme :=
  let body := cs.takeWhile (· != quote)
  match cs.dropWhile (· != quote) with
  | [] => ⟨.string, quote :: body, body, []⟩
  | close :: rest => ⟨.string, quote :: (body ++ [close]), body, rest⟩

/-- The longest lexeme at the front of `c :: cs`. -/
def read (c : Char) (cs : List Char) : Lexeme :=
  match punctuator? c with
  | some kind => plain kind [c] cs
  | none =>
    match pairing? c with
    | some p =>
      match cs with
      | d :: rest => if d = p.second then plain p.pair [c, d] rest else plain p.alone [c] cs
      | [] => plain p.alone [c] []
    | none =>
      if isQuote c then
        readString c cs
      else if isDigit c then
        plain .int (c :: cs.takeWhile isDigit) (cs.dropWhile isDigit)
      else if isLetter c then
        let word := c :: cs.takeWhile isLetter
        plain (.ofWord (String.ofList word)) word (cs.dropWhile isLetter)
      else
        plain .illegal [c] cs

theorem readString_append (q : Char) (cs : List Char) :
    (readString q cs).raw ++ (readString q cs).rest = q :: cs := by
  have h := List.takeWhile_append_dropWhile (p := (· != q)) (l := cs)
  unfold readString
  split
  next e => rw [e] at h; simpa using h
  next close rest e => rw [e] at h; simpa using h

/-- The cut text and the rest make up the text that was read. -/
theorem read_append (c : Char) (cs : List Char) :
    (read c cs).raw ++ (read c cs).rest = c :: cs := by
  unfold read
  split
  · rfl
  · split
    · split
      · split <;> rfl
      · rfl
    · split
      · exact readString_append c cs
      · split
        · simp [plain, List.takeWhile_append_dropWhile]
        · split
          · simp [plain, List.takeWhile_append_dropWhile]
          · rfl

/-- A lexeme takes at least one character. -/
theorem read_raw_ne_nil (c : Char) (cs : List Char) : (read c cs).raw ≠ [] := by
  unfold read
  split
  · simp [plain]
  · split
    · split
      · split <;> simp [plain]
      · simp [plain]
    · split
      · unfold readString; split <;> simp
      · split
        · simp [plain]
        · split <;> simp [plain]

theorem read_rest_length_lt (c : Char) (cs : List Char) :
    (read c cs).rest.length < (c :: cs).length := by
  have h := congrArg List.length (read_append c cs)
  have hpos := List.length_pos_iff.2 (read_raw_ne_nil c cs)
  simp only [List.length_append] at h
  omega

end Lexeme

end Primer
