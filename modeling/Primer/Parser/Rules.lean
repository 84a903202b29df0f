/-
  Primer/Parser/Rules.lean
  ========================
  **The rules of the grammar.**

      program   → statement* EOF
      statement → declaration | function | return | expression
      declaration → ("let" | "const") IDENT ("=" expression)? ";"
      function  → "function" IDENT "(" parameters? ")" block ";"?
      return    → "return" expression ";"?
      block     → "{" statement* "}"

  An expression is read by precedence climbing: one that starts with its first token, then
  operators, calls and indexes as long as they bind tighter than what stands before the
  expression.

  A loop of a rule is written as one round, which goes on with the rounds behind it or does not.
  How many rounds there are is no part of the grammar: there are as many as tokens ahead.

  Statements, expressions and `else if` nest in each other at most `maxNesting` deep.  The
  rules for a depth are made from the rules one level deeper (`Rules`), so the depth that
  is left is the argument of `level`, on which everything is recursive.
-/
import Primer.Parser.Precedence
import Primer.Parser.State

namespace Primer.Parser

/-- How deep statements and expressions may nest. -/
def maxNesting : Nat := 128

/-- The largest value of an integer literal: that of 64 bits with a sign. -/
def maxInteger : Nat := 9223372036854775807

/-- The rules whose uses count as one level of nesting. -/
structure Rules (layout : Layout := .kept) where
  statement : Reading layout (Stmt Unit)
  expression : Precedence → Reading layout (Expr Unit)
  /-- an `if` that stands behind `else` -/
  conditional : Reading layout (Expr Unit)

variable {layout : Layout}

/-! ### Blocks -/

/-- A statement of a block, unless a closing brace or the end of the source has come, and what
`more` reads behind it. A statement that fails is left out, and reading goes on behind it. -/
def blockRound (inner : Rules layout) (more : Reading layout (List (Stmt Unit))) :
    Reading layout (List (Stmt Unit)) := do
  let t ← current
  if t.is .rbrace || t.is .eof then
    return []
  else
    match ← attempt inner.statement with
    | some s =>
      advance
      return s :: (← more)
    | none =>
      synchronize
      if (← current).is .rbrace then
        return []
      else
        advance
        more

/-- Statements up to a closing brace or the end of the source. -/
def blockStatements (inner : Rules layout) : Nat → Reading layout (List (Stmt Unit))
  | 0 => return []
  | rounds + 1 => blockRound inner (blockStatements inner rounds)

/-- A block, from its opening brace to its closing one. -/
def block (inner : Rules layout) : Reading layout (Block Unit) := do
  let start := (← current).span.start
  advance
  let statements ← blockStatements inner (← roundsLeft)
  let last ← current
  if !last.is .rbrace then report last.span .unclosedBlock
  return ⟨← spanFrom start, statements⟩

/-! ### Functions -/

/-- A parameter behind a comma, if there is one, and what `more` reads behind it. -/
def parametersRound (more : Reading layout (List Ident)) : Reading layout (List Ident) := do
  if ← peekIs .comma then
    advance
    expect .ident .parameterName
    let x ← identifier
    return x :: (← more)
  else
    return []

/-- More parameters behind the first. -/
def moreParameters : Nat → Reading layout (List Ident)
  | 0 => return []
  | rounds + 1 => parametersRound (moreParameters rounds)

/-- Parameters, from the opening parenthesis to the closing one. -/
def parameters : Reading layout (List Ident) := do
  if ← peekIs .rparen then
    advance
    return []
  else
    expect .ident .parameterName
    let x ← identifier
    let xs ← moreParameters (← roundsLeft)
    expect .rparen .parametersEnd
    return x :: xs

/-- The name of a function, if it has one. -/
def functionName : Reading layout (Option Ident) := do
  if ← peekIs .ident then
    advance
    return some (← identifier)
  else
    return none

/-- A function, from the word `function` to the end of its body. -/
def function (inner : Rules layout) : Reading layout (Function Unit) := do
  let start := (← current).span.start
  let name ← functionName
  expect .lparen .parametersStart
  let params ← parameters
  expect .lbrace .functionBody
  let body ← block inner
  return ⟨← spanFrom start, (), name, params, body⟩

/-! ### Lists and entries -/

/-- An expression behind a comma, if there is one, and what `more` reads behind it. A last comma
may stand before `close`. -/
def listRound (inner : Rules layout) (close : TokenKind)
    (more : Reading layout (List (Expr Unit))) : Reading layout (List (Expr Unit)) := do
  if ← peekIs .comma then
    advance
    if ← peekIs close then
      return []
    else
      advance
      let e ← inner.expression .lowest
      return e :: (← more)
  else
    return []

/-- More expressions of a list behind the first. -/
def moreExpressions (inner : Rules layout) (close : TokenKind) :
    Nat → Reading layout (List (Expr Unit))
  | 0 => return []
  | rounds + 1 => listRound inner close (moreExpressions inner close rounds)

/-- Expressions between commas, from the opening token to `close`. -/
def expressions (inner : Rules layout) (close : TokenKind) : Reading layout (List (Expr Unit)) := do
  if ← peekIs close then
    advance
    return []
  else
    advance
    let e ← inner.expression .lowest
    let es ← moreExpressions inner close (← roundsLeft)
    expect close .listEnd
    return e :: es

/-- The value of an object's entry, if it has one. -/
def propertyValue (inner : Rules layout) : Reading layout (Option (Expr Unit)) := do
  if ← peekIs .colon then
    advance
    advance
    return some (← inner.expression .lowest)
  else
    return none

/-- An entry of an object and what `more` reads behind a comma, or the closing brace; a last comma
may stand before it. -/
def propertiesRound (inner : Rules layout)
    (more : Reading layout (List (Property (Option (Expr Unit))))) :
    Reading layout (List (Property (Option (Expr Unit)))) := do
  if ← peekIs .rbrace then
    advance
    return []
  else
    expect .ident .objectKey
    let key ← identifier
    let value ← propertyValue inner
    let p := ⟨← spanFrom key.span.start, key, value⟩
    if ← peekIs .comma then
      advance
      return p :: (← more)
    else
      expect .rbrace .objectEnd
      return [p]

/-- The entries of an object and its closing brace. -/
def properties (inner : Rules layout) : Nat → Reading layout (List (Property (Option (Expr Unit))))
  | 0 => return []
  | rounds + 1 => propertiesRound inner (properties inner rounds)

/-! ### What starts an expression -/

/-- What stands behind `else`: a block, or another `if`, which is the only statement of a
block of the same span. -/
def alternative (inner : Rules layout) : Reading layout (Option (Block Unit)) := do
  if ← peekIs .elseKw then
    advance
    if ← peekIs .ifKw then
      advance
      let e ← inner.conditional
      return some ⟨e.span, [.expr e.span e]⟩
    else
      expect .lbrace .alternative
      return some (← block inner)
  else
    return none

/-- An `if`, from that word to the end of its last block. -/
def conditional (inner : Rules layout) : Reading layout (Expr Unit) := do
  let start := (← current).span.start
  expect .lparen .conditionStart
  advance
  let condition ← inner.expression .lowest
  expect .rparen .conditionEnd
  expect .lbrace .consequence
  let consequence ← block inner
  let alternative ← alternative inner
  return .cond (← spanFrom start) condition consequence alternative

def integer : Reading layout (Expr Unit) := do
  let t ← current
  let n := Nat.ofDigitChars 10 t.literal.toList 0
  if n ≤ maxInteger then
    return .int (layout.place t.span) n
  else
    fail t.span (.integerTooLarge t.literal)

/-- A string; one that only its opening quote encloses is not closed. -/
def string : Reading layout (Expr Unit) := do
  let t ← current
  if t.span.length = t.literal.utf8ByteSize + 1 then report t.span .unterminatedString
  return .str (layout.place t.span) t.literal

def unary (inner : Rules layout) (op : UnaryOp) : Reading layout (Expr Unit) := do
  let start := (← current).span.start
  advance
  let operand ← inner.expression .unary
  return .unary (← spanFrom start) op operand

/-- An expression in parentheses is that expression, widened to cover them. -/
def group (inner : Rules layout) : Reading layout (Expr Unit) := do
  let start := (← current).span.start
  advance
  let e ← inner.expression .lowest
  expect .rparen .groupEnd
  return e.withSpan (← spanFrom start)

def object (inner : Rules layout) : Reading layout (Expr Unit) := do
  let start := (← current).span.start
  let ps ← properties inner (← roundsLeft)
  return .object (← spanFrom start) () ps

def array (inner : Rules layout) : Reading layout (Expr Unit) := do
  let start := (← current).span.start
  let es ← expressions inner .rbracket
  return .array (← spanFrom start) () es

/-- The expression that the current token starts, without operators behind it. -/
def operand (inner : Rules layout) : Reading layout (Expr Unit) := do
  let t ← current
  match t.kind with
  | .ident => return .ident (layout.place t.span) t.literal
  | .int => integer
  | .string => string
  | .trueKw => return .bool (layout.place t.span) true
  | .falseKw => return .bool (layout.place t.span) false
  | .bang => unary inner .not
  | .minus => unary inner .neg
  | .lparen => group inner
  | .lbrace => object inner
  | .lbracket => array inner
  | .ifKw => conditional inner
  | .functionKw =>
    let fn ← function inner
    return .function fn.span fn
  | .illegal => fail t.span (.illegalCharacter t.literal)
  | kind => fail t.span (.noExpression kind t.literal)

/-! ### What goes on behind an expression -/

/-- The operator, call or index at the current token, with `left` before it. -/
def operation (inner : Rules layout) (left : Expr Unit) : Reading layout (Expr Unit) := do
  let t ← current
  let start := left.span.start
  match t.kind with
  | .lparen =>
    let args ← expressions inner .rparen
    return .call (← spanFrom start) left args
  | .lbracket =>
    advance
    let key ← inner.expression .lowest
    expect .rbracket .indexEnd
    return .index (← spanFrom start) left key
  | .assign =>
    advance
    let value ← inner.expression .lowest
    return .assign (← spanFrom start) left value
  | kind =>
    match BinaryOp.ofToken? kind with
    | some op =>
      advance
      let right ← inner.expression (.of kind)
      return .binary (← spanFrom start) op left right
    | none => return left

/-- Reads on behind `left` if the next token binds tighter than `floor`, and gives what it has then
to `more`. -/
def operationsRound (inner : Rules layout) (floor : Precedence)
    (more : Expr Unit → Reading layout (Expr Unit)) (left : Expr Unit) :
    Reading layout (Expr Unit) := do
  if floor < .of (← get).peek.kind then
    advance
    more (← operation inner left)
  else
    return left

/-- Goes on behind `left` as long as the next token binds tighter than `floor`. -/
def operations (inner : Rules layout) (floor : Precedence) :
    Nat → Expr Unit → Reading layout (Expr Unit)
  | 0, left => return left
  | rounds + 1, left => operationsRound inner floor (operations inner floor rounds) left

/-- An expression whose operators all bind tighter than `floor`. -/
def expression (inner : Rules layout) (floor : Precedence) : Reading layout (Expr Unit) := do
  let left ← operand inner
  operations inner floor (← roundsLeft) left

/-! ### Statements -/

def declaration (inner : Rules layout) : Reading layout (Stmt Unit) := do
  let first ← current
  let start := first.span.start
  let isConst := first.is .constKw
  expect .ident (.declaredName isConst)
  let name ← identifier
  if ← peekIs .semicolon then
    advance
    if isConst then report (← current).span (.uninitializedConstant name.name)
    return .declare (← spanFrom start) isConst name none
  else
    expect .assign .declaredValue
    advance
    let value ← inner.expression .lowest
    expect .semicolon .declarationEnd
    return .declare (← spanFrom start) isConst name (some value)

def returnStatement (inner : Rules layout) : Reading layout (Stmt Unit) := do
  let start := (← current).span.start
  advance
  let t ← current
  if t.is .semicolon || t.is .eof then
    fail t.span .missingReturnValue
  else
    let value ← inner.expression .lowest
    skip .semicolon
    return .ret (← spanFrom start) value

/-- A function in the place of a statement; `name` stands behind the word `function`. -/
def functionStatement (inner : Rules layout) (name : Ident) : Reading layout (Stmt Unit) := do
  let start := (← current).span.start
  let fn ← function inner
  skip .semicolon
  return .function (← spanFrom start) name fn

def expressionStatement (inner : Rules layout) : Reading layout (Stmt Unit) := do
  let start := (← current).span.start
  let value ← inner.expression .lowest
  skip .semicolon
  return .expr (← spanFrom start) value

def statement (inner : Rules layout) : Reading layout (Stmt Unit) := do
  let s ← get
  match s.current.kind with
  | .letKw | .constKw => declaration inner
  | .returnKw => returnStatement inner
  | .functionKw =>
    if s.peek.is .ident then
      functionStatement inner ⟨layout.place s.peek.span, s.peek.literal⟩
    else
      expressionStatement inner
  | _ => expressionStatement inner

/-! ### Levels of nesting -/

/-- The answer past the deepest level. -/
def refuse {α : Type} : Reading layout α := do
  fail (← current).span (.nestedTooDeeply maxNesting)

/-- The rules where `n` more levels may be nested. -/
def level : Nat → Rules layout
  | 0 => ⟨refuse, fun _ => refuse, refuse⟩
  | n + 1 =>
    let inner := level n
    ⟨statement inner, expression inner, conditional inner⟩

/-! ### Programs -/

/-- A statement, unless the end of the source has come, and what `more` reads behind it. A
statement that fails is left out, and reading goes on behind it. -/
def programRound (inner : Rules layout) (more : Reading layout (List (Stmt Unit))) :
    Reading layout (List (Stmt Unit)) := do
  if (← current).is .eof then
    return []
  else
    match ← attempt inner.statement with
    | some s =>
      advance
      return s :: (← more)
    | none =>
      synchronize
      advance
      more

/-- Statements up to the end of the source. -/
def programStatements (inner : Rules layout) : Nat → Reading layout (List (Stmt Unit))
  | 0 => return []
  | rounds + 1 => programRound inner (programStatements inner rounds)

/-- All that is left of the source as a program. -/
def program : Reading layout (Program Unit) := do
  let statements ← programStatements (level maxNesting) (← roundsLeft)
  return ⟨← spanFrom 0, statements⟩

end Primer.Parser
