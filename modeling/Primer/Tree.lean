/-
  Primer/Tree.lean
  ================
  **Program trees.**

  Every node carries the span it was read from.  Object literals, array literals and
  functions also carry a label from a type `ι`: a tree that has just been read is
  labelled by `Unit`, and a tree that is about to run by labels that tell its literals
  and functions apart, because at run time a literal or function is known by its
  identity and not by its text.
-/
import Primer.Span

namespace Primer

/-! ### Operators and names -/

/-- The operators written before their operand. -/
inductive UnaryOp where
  | not
  | neg
deriving DecidableEq, Repr

/-- The operators written between their operands. -/
inductive BinaryOp where
  | add
  | sub
  | mul
  | div
  | lt
  | le
  | gt
  | ge
  | eq
  | ne
deriving DecidableEq, Repr

def UnaryOp.symbol : UnaryOp → String
  | .not => "!"
  | .neg => "-"

def BinaryOp.symbol : BinaryOp → String
  | .add => "+"
  | .sub => "-"
  | .mul => "*"
  | .div => "/"
  | .lt => "<"
  | .le => "<="
  | .gt => ">"
  | .ge => ">="
  | .eq => "=="
  | .ne => "!="

/-- A name as it is written in a declaration, a parameter list or as an object key. -/
structure Ident where
  span : Span
  name : String
deriving DecidableEq, Repr, Inhabited

/-- An entry of an object: its key, and its value in some form `β`. -/
structure Property (β : Type) where
  span : Span
  key : Ident
  value : β
deriving Repr

/-! ### Nodes -/

mutual

/-- An expression. -/
inductive Expr (ι : Type) where
  | ident (span : Span) (name : String)
  | str (span : Span) (text : String)
  | int (span : Span) (value : Nat)
  | bool (span : Span) (value : Bool)
  | unary (span : Span) (op : UnaryOp) (operand : Expr ι)
  | binary (span : Span) (op : BinaryOp) (left right : Expr ι)
  /-- a choice, `if (condition) consequence else alternative` -/
  | cond (span : Span) (condition : Expr ι) (consequence : Block ι) (alternative : Option (Block ι))
  | function (span : Span) (fn : Function ι)
  | call (span : Span) (callee : Expr ι) (args : List (Expr ι))
  /-- an entry, `container[key]` -/
  | index (span : Span) (container key : Expr ι)
  /-- an assignment, `target = value`; whether the target can be assigned to is found out at run time -/
  | assign (span : Span) (target value : Expr ι)
  /-- an object literal; an entry without value stands for `key: key` -/
  | object (span : Span) (label : ι) (properties : List (Property (Option (Expr ι))))
  | array (span : Span) (label : ι) (elements : List (Expr ι))

/-- A statement. -/
inductive Stmt (ι : Type) where
  /-- a declaration, `let name = value;`, or `const` for a constant -/
  | declare (span : Span) (isConst : Bool) (name : Ident) (value : Option (Expr ι))
  /-- a function in the place of a statement -/
  | function (span : Span) (name : Ident) (fn : Function ι)
  | ret (span : Span) (value : Expr ι)
  | expr (span : Span) (value : Expr ι)

/-- Statements between braces. -/
structure Block (ι : Type) where
  span : Span
  statements : List (Stmt ι)

/-- A function: parameters and body, and a name if it was given one. -/
structure Function (ι : Type) where
  span : Span
  label : ι
  name : Option Ident
  params : List Ident
  body : Block ι

end

/-- A whole program. -/
structure Program (ι : Type) where
  span : Span
  statements : List (Stmt ι)

variable {ι : Type}

/-! ### Parts of nodes -/

namespace Expr

def span : Expr ι → Span
  | .ident span _ => span
  | .str span _ => span
  | .int span _ => span
  | .bool span _ => span
  | .unary span .. => span
  | .binary span .. => span
  | .cond span .. => span
  | .function span _ => span
  | .call span .. => span
  | .index span .. => span
  | .assign span .. => span
  | .object span .. => span
  | .array span .. => span

/-- The same expression with another span of its own; parentheses widen one so. -/
def withSpan (s : Span) : Expr ι → Expr ι
  | .ident _ name => .ident s name
  | .str _ text => .str s text
  | .int _ value => .int s value
  | .bool _ value => .bool s value
  | .unary _ op operand => .unary s op operand
  | .binary _ op left right => .binary s op left right
  | .cond _ condition consequence alternative => .cond s condition consequence alternative
  | .function _ fn => .function s fn
  | .call _ callee args => .call s callee args
  | .index _ container key => .index s container key
  | .assign _ target value => .assign s target value
  | .object _ label properties => .object s label properties
  | .array _ label elements => .array s label elements

/-- The name of an expression's kind in error messages. -/
def kindName : Expr ι → String
  | .ident .. => "identifier"
  | .str .. => "string literal"
  | .int .. => "integer literal"
  | .bool .. => "boolean literal"
  | .unary .. => "prefix expression"
  | .binary .. => "infix expression"
  | .cond .. => "if expression"
  | .function .. => "function expression"
  | .call .. => "call expression"
  | .index .. => "member expression"
  | .assign .. => "assignment expression"
  | .object .. => "object literal"
  | .array .. => "array literal"

@[simp] theorem span_withSpan (s : Span) (e : Expr ι) : (e.withSpan s).span = s := by
  cases e <;> rfl

end Expr

def Stmt.span : Stmt ι → Span
  | .declare span .. => span
  | .function span .. => span
  | .ret span _ => span
  | .expr span _ => span

end Primer
