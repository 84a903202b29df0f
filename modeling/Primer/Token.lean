/-
  Primer/Token.lean
  =================
  **Tokens: their kinds, their text and their place.**

  A kind carries no payload; what was read stands in the token's `literal`, and where
  it was read in its `span`.  For a string the literal leaves the quotes out while the
  span covers them.
-/
import Primer.Span

namespace Primer

/-! ### Kinds -/

/-- The kinds of tokens. -/
inductive TokenKind where
  /-- a character that starts no token -/
  | illegal
  /-- the end of the source -/
  | eof
  | ident
  | int
  | string
  | assign
  | plus
  | minus
  | asterisk
  | slash
  | bang
  | eq
  | notEq
  | lt
  | gt
  | lte
  | gte
  | and
  | or
  | comma
  | colon
  | semicolon
  | lparen
  | rparen
  | lbrace
  | rbrace
  | lbracket
  | rbracket
  | functionKw
  | letKw
  | constKw
  | returnKw
  | ifKw
  | elseKw
  | trueKw
  | falseKw
deriving DecidableEq, Repr, Inhabited

namespace TokenKind

/-- Every kind, in order. -/
def all : List TokenKind :=
  [illegal, eof, ident, int, string, assign, plus, minus, asterisk, slash, bang, eq, notEq,
    lt, gt, lte, gte, and, or, comma, colon, semicolon, lparen, rparen, lbrace, rbrace,
    lbracket, rbracket, functionKw, letKw, constKw, returnKw, ifKw, elseKw, trueKw, falseKw]

/-- The upper-case name under which token listings and diagnostics show a kind. -/
def name : TokenKind → String
  | illegal => "ILLEGAL"
  | eof => "EOF"
  | ident => "IDENT"
  | int => "INT"
  | string => "STRING"
  | assign => "ASSIGN"
  | plus => "PLUS"
  | minus => "MINUS"
  | asterisk => "ASTERISK"
  | slash => "SLASH"
  | bang => "BANG"
  | eq => "EQ"
  | notEq => "NOT_EQ"
  | lt => "LT"
  | gt => "GT"
  | lte => "LTE"
  | gte => "GTE"
  | and => "AND"
  | or => "OR"
  | comma => "COMMA"
  | colon => "COLON"
  | semicolon => "SEMICOLON"
  | lparen => "LPAREN"
  | rparen => "RPAREN"
  | lbrace => "LBRACE"
  | rbrace => "RBRACE"
  | lbracket => "LBRACKET"
  | rbracket => "RBRACKET"
  | functionKw => "FUNCTION"
  | letKw => "LET"
  | constKw => "CONST"
  | returnKw => "RETURN"
  | ifKw => "IF"
  | elseKw => "ELSE"
  | trueKw => "TRUE"
  | falseKw => "FALSE"

/-- The kind of that name. -/
def ofName? (s : String) : Option TokenKind := all.find? (·.name == s)

/-- The reserved words and their kinds. -/
def keywords : List (String × TokenKind) :=
  [("function", functionKw), ("let", letKw), ("const", constKw), ("return", returnKw),
    ("if", ifKw), ("else", elseKw), ("true", trueKw), ("false", falseKw)]

/-- The kind of a word: that of the reserved word it is, else `ident`. -/
def ofWord (s : String) : TokenKind := (keywords.lookup s).getD ident

end TokenKind

/-! ### Tokens -/

/-- A token: its kind, the text it stands for and the bytes it was read from. -/
structure Token where
  kind : TokenKind
  literal : String
  span : Span
deriving DecidableEq, Repr, Inhabited

namespace Token

/-- Is the token of kind `k`? -/
def is (t : Token) (k : TokenKind) : Bool := t.kind == k

/-- The listing form `KIND literal start..stop`. -/
def text (t : Token) : String := t.kind.name ++ " " ++ t.literal ++ " " ++ t.span.text

end Token

end Primer
