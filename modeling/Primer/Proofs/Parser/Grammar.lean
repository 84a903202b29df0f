/-
  Primer/Proofs/Parser/Grammar.lean
  =================================
  **The grammar, as a relation between tokens and trees.**

      program     → statement* EOF
      statement   → declaration | function ";"? | return | expression ";"?
      declaration → ("let" | "const") IDENT ("=" expression)? ";"
      function    → "function" IDENT? "(" (IDENT ("," IDENT)*)? ")" block
      return      → "return" expression ";"?
      block       → "{" statement* "}"
      primary     → IDENT | INT | STRING | "true" | "false" | "(" expression ")"
                  | "{" entries "}" | "[" items "]" | conditional | function
      conditional → "if" "(" expression ")" block ("else" (block | conditional))?

  Items and entries stand between commas, and a comma may follow the last.  A function in
  the place of a statement has a name.

  Each relation holds of the tokens of a construct, all of them and in order, and the tree
  they stand for; every node gets the span from its first token to its last.  An expression
  also has a level, that of its outermost operator.  The levels say which operands need no
  parentheses: an operator between two operands takes one of at least its own level on its
  left and a higher one on its right, an operator before its operand one of at least its own,
  a call or an index stands behind a call, an index or a primary, and an assignment stands
  behind anything but an assignment and takes any value.  Nothing here refers to the rules
  that read tokens.
-/
import Primer.Parser.Rules

namespace Primer

/-! ### Operators -/

/-- The token that an operator before its operand is written as. -/
def UnaryOp.kind : UnaryOp → TokenKind
  | .not => .bang
  | .neg => .minus

/-- The token that an operator between operands is written as. -/
def BinaryOp.kind : BinaryOp → TokenKind
  | .add => .plus
  | .sub => .minus
  | .mul => .asterisk
  | .div => .slash
  | .lt => .lt
  | .le => .lte
  | .gt => .gt
  | .ge => .gte
  | .eq => .eq
  | .ne => .notEq

/-- The level of an operator between operands. -/
def BinaryOp.level : BinaryOp → Precedence
  | .eq | .ne => .equals
  | .lt | .le | .gt | .ge => .comparison
  | .add | .sub => .sum
  | .mul | .div => .product

namespace Grammar

/-! ### Tokens -/

/-- The span from the first token to the last. -/
def cover : List Token → Span
  | [] => .zero
  | t :: ts => ⟨t.span.start, (ts.getLastD t).span.stop⟩

/-- The number that a token of digits stands for. -/
def digits (t : Token) : Nat := Nat.ofDigitChars 10 t.literal.toList 0

/-- A string that is not closed has only its opening quote around its text. -/
def IsClosed (t : Token) : Prop := t.span.length ≠ t.literal.utf8ByteSize + 1

/-- A name where one may be left out. -/
inductive OptionalName : List Token → Option Ident → Prop
  | none : OptionalName [] none
  | some {t : Token} : t.kind = .ident → OptionalName [t] (some ⟨t.span, t.literal⟩)

/-- One name or more, between commas. -/
inductive Names : List Token → List Ident → Prop
  | last {t : Token} : t.kind = .ident → Names [t] [⟨t.span, t.literal⟩]
  | cons {t c : Token} {ts : List Token} {xs : List Ident} :
      t.kind = .ident → c.kind = .comma → Names ts xs →
      Names (t :: c :: ts) (⟨t.span, t.literal⟩ :: xs)

inductive Parameters : List Token → List Ident → Prop
  | none : Parameters [] []
  | some {ts : List Token} {xs : List Ident} : Names ts xs → Parameters ts xs

inductive OptionalSemicolon : List Token → Prop
  | none : OptionalSemicolon []
  | some {t : Token} : t.kind = .semicolon → OptionalSemicolon [t]

/-! ### Expressions and statements -/

mutual

/-- The tokens are an expression of that level. -/
inductive Expression : Precedence → List Token → Expr Unit → Prop
  | primary {ts : List Token} {e : Expr Unit} : Primary ts e → Expression .index ts e
  | unary {op : UnaryOp} {t : Token} {p : Precedence} {ts : List Token} {e : Expr Unit} :
      t.kind = op.kind → Expression p ts e → .unary ≤ p →
      Expression .unary (t :: ts) (.unary (cover (t :: ts)) op e)
  | binary {op : BinaryOp} {t : Token} {p q : Precedence} {ls rs : List Token}
      {l r : Expr Unit} :
      Expression p ls l → op.level ≤ p → t.kind = op.kind → Expression q rs r → op.level < q →
      Expression op.level (ls ++ t :: rs) (.binary (cover (ls ++ t :: rs)) op l r)
  | assign {t : Token} {p q : Precedence} {ls rs : List Token} {l r : Expr Unit} :
      Expression p ls l → .assign < p → t.kind = .assign → Expression q rs r →
      Expression .assign (ls ++ t :: rs) (.assign (cover (ls ++ t :: rs)) l r)
  | call {o c : Token} {p : Precedence} {ls ts : List Token} {l : Expr Unit}
      {args : List (Expr Unit)} :
      Expression p ls l → .call ≤ p → o.kind = .lparen → Items ts args → c.kind = .rparen →
      Expression .call (ls ++ o :: (ts ++ [c])) (.call (cover (ls ++ o :: (ts ++ [c]))) l args)
  | index {o c : Token} {p q : Precedence} {ls ts : List Token} {l k : Expr Unit} :
      Expression p ls l → .call ≤ p → o.kind = .lbracket → Expression q ts k →
      c.kind = .rbracket →
      Expression .index (ls ++ o :: (ts ++ [c])) (.index (cover (ls ++ o :: (ts ++ [c]))) l k)

/-- The tokens are an expression that needs no parentheses anywhere. -/
inductive Primary : List Token → Expr Unit → Prop
  | ident {t : Token} : t.kind = .ident → Primary [t] (.ident t.span t.literal)
  | int {t : Token} : t.kind = .int → digits t ≤ Parser.maxInteger →
      Primary [t] (.int t.span (digits t))
  | str {t : Token} : t.kind = .string → IsClosed t → Primary [t] (.str t.span t.literal)
  | true {t : Token} : t.kind = .trueKw → Primary [t] (.bool t.span true)
  | false {t : Token} : t.kind = .falseKw → Primary [t] (.bool t.span false)
  | group {o c : Token} {p : Precedence} {ts : List Token} {e : Expr Unit} :
      o.kind = .lparen → Expression p ts e → c.kind = .rparen →
      Primary (o :: (ts ++ [c])) (e.withSpan (cover (o :: (ts ++ [c]))))
  | object {o c : Token} {ts : List Token} {ps : List (Property (Option (Expr Unit)))} :
      o.kind = .lbrace → Entries ts ps → c.kind = .rbrace →
      Primary (o :: (ts ++ [c])) (.object (cover (o :: (ts ++ [c]))) () ps)
  | array {o c : Token} {ts : List Token} {es : List (Expr Unit)} :
      o.kind = .lbracket → Items ts es → c.kind = .rbracket →
      Primary (o :: (ts ++ [c])) (.array (cover (o :: (ts ++ [c]))) () es)
  | conditional {ts : List Token} {e : Expr Unit} : Conditional ts e → Primary ts e
  | function {ts : List Token} {fn : Function Unit} : FunctionLiteral ts fn →
      Primary ts (.function fn.span fn)

inductive Conditional : List Token → Expr Unit → Prop
  | mk {i o c : Token} {p : Precedence} {ts bs as : List Token} {e : Expr Unit} {b : Block Unit}
      {a : Option (Block Unit)} :
      i.kind = .ifKw → o.kind = .lparen → Expression p ts e → c.kind = .rparen →
      Body bs b → Alternative as a →
      Conditional (i :: o :: (ts ++ c :: (bs ++ as)))
        (.cond (cover (i :: o :: (ts ++ c :: (bs ++ as)))) e b a)

/-- An `if` behind `else` is the only statement of a block of the same span. -/
inductive Alternative : List Token → Option (Block Unit) → Prop
  | none : Alternative [] none
  | block {t : Token} {bs : List Token} {b : Block Unit} :
      t.kind = .elseKw → Body bs b → Alternative (t :: bs) (some b)
  | conditional {t : Token} {ts : List Token} {e : Expr Unit} :
      t.kind = .elseKw → Conditional ts e →
      Alternative (t :: ts) (some ⟨cover ts, [.expr (cover ts) e]⟩)

inductive FunctionLiteral : List Token → Function Unit → Prop
  | mk {f o c : Token} {ns ps bs : List Token} {x : Option Ident} {xs : List Ident}
      {b : Block Unit} :
      f.kind = .functionKw → OptionalName ns x → o.kind = .lparen → Parameters ps xs →
      c.kind = .rparen → Body bs b →
      FunctionLiteral (f :: (ns ++ o :: (ps ++ c :: bs)))
        ⟨cover (f :: (ns ++ o :: (ps ++ c :: bs))), (), x, xs, b⟩

/-- Expressions between commas; a comma may follow the last. -/
inductive Items : List Token → List (Expr Unit) → Prop
  | nil : Items [] []
  | last {p : Precedence} {ts : List Token} {e : Expr Unit} : Expression p ts e → Items ts [e]
  | cons {c : Token} {p : Precedence} {ts us : List Token} {e : Expr Unit}
      {es : List (Expr Unit)} :
      Expression p ts e → c.kind = .comma → Items us es → Items (ts ++ c :: us) (e :: es)

/-- Entries of an object between commas; a comma may follow the last. -/
inductive Entries : List Token → List (Property (Option (Expr Unit))) → Prop
  | nil : Entries [] []
  | last {ts : List Token} {p : Property (Option (Expr Unit))} : Entry ts p → Entries ts [p]
  | cons {c : Token} {ts us : List Token} {p : Property (Option (Expr Unit))}
      {ps : List (Property (Option (Expr Unit)))} :
      Entry ts p → c.kind = .comma → Entries us ps → Entries (ts ++ c :: us) (p :: ps)

inductive Entry : List Token → Property (Option (Expr Unit)) → Prop
  | key {t : Token} : t.kind = .ident → Entry [t] ⟨cover [t], ⟨t.span, t.literal⟩, none⟩
  | value {t c : Token} {p : Precedence} {ts : List Token} {e : Expr Unit} :
      t.kind = .ident → c.kind = .colon → Expression p ts e →
      Entry (t :: c :: ts) ⟨cover (t :: c :: ts), ⟨t.span, t.literal⟩, some e⟩

inductive Body : List Token → Block Unit → Prop
  | mk {o c : Token} {ts : List Token} {ss : List (Stmt Unit)} :
      o.kind = .lbrace → Statements ts ss → c.kind = .rbrace →
      Body (o :: (ts ++ [c])) ⟨cover (o :: (ts ++ [c])), ss⟩

inductive Statements : List Token → List (Stmt Unit) → Prop
  | nil : Statements [] []
  | cons {ts us : List Token} {x : Stmt Unit} {xs : List (Stmt Unit)} :
      Statement ts x → Statements us xs → Statements (ts ++ us) (x :: xs)

inductive Statement : List Token → Stmt Unit → Prop
  | declareOnly {k t c : Token} :
      k.kind = .letKw ∨ k.kind = .constKw → t.kind = .ident → c.kind = .semicolon →
      Statement [k, t, c]
        (.declare (cover [k, t, c]) (k.is .constKw) ⟨t.span, t.literal⟩ none)
  | declare {k t a c : Token} {p : Precedence} {ts : List Token} {e : Expr Unit} :
      k.kind = .letKw ∨ k.kind = .constKw → t.kind = .ident → a.kind = .assign →
      Expression p ts e → c.kind = .semicolon →
      Statement (k :: t :: a :: (ts ++ [c]))
        (.declare (cover (k :: t :: a :: (ts ++ [c]))) (k.is .constKw) ⟨t.span, t.literal⟩
          (some e))
  | function {ts us : List Token} {x : Ident} {fn : Function Unit} :
      FunctionLiteral ts fn → fn.name = some x → OptionalSemicolon us →
      Statement (ts ++ us) (.function (cover (ts ++ us)) x fn)
  | ret {k : Token} {p : Precedence} {ts us : List Token} {e : Expr Unit} :
      k.kind = .returnKw → Expression p ts e → OptionalSemicolon us →
      Statement (k :: (ts ++ us)) (.ret (cover (k :: (ts ++ us))) e)
  | expr {p : Precedence} {ts us : List Token} {e : Expr Unit} :
      Expression p ts e → OptionalSemicolon us →
      Statement (ts ++ us) (.expr (cover (ts ++ us)) e)

end

/-- The tokens, the end of the source included, are a program. -/
inductive Source : List Token → Program Unit → Prop
  | mk {e : Token} {ts : List Token} {ss : List (Stmt Unit)} :
      Statements ts ss → e.kind = .eof → Source (ts ++ [e]) ⟨⟨0, e.span.stop⟩, ss⟩

end Grammar

end Primer
